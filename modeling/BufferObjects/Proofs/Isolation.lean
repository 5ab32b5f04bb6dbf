import BufferObjects.Proofs.Machine.Marks
import BufferObjects.Proofs.Machine.Trace

/-!
What devices can do to each other. The calls that go past the clients take objects of any device,
and an object carries a bare number, without the device that gave it. As long as numbers are given
and taken at the object's own device only, every number leads from that device to its object, no
move touches the entries of others, and nothing breaks. The first call that gives an object a number
elsewhere, or takes one away there, breaks that link; what the object later gives back at home is
then another object's.
-/

namespace BufferObjects

namespace World

variable {w : World} {d e : DeviceRef} {o : ObjectRef}

/-- Names are retired at one device. -/
theorem device_retireName_of_ne (hne : d ≠ e) : (w.retireName d o).1.device e = w.device e := by
  unfold retireName
  split
  · rfl
  · dsimp only
    split
    · rfl
    · split
      · simp [setNames, setName, device_updateDevice, hne]
      · split <;> simp [setNames, setName, device_updateDevice, hne]

theorem device_destroyToken_of_ne (hne : d ≠ e) :
    (w.destroyToken d o).1.device e = w.device e := by
  unfold destroyToken
  dsimp only
  split
  · rfl
  · split
    · rfl
    · split <;> simp [setTokens, setToken, device_updateDevice, hne]

end World

namespace Machine

variable {m m' : Machine} {x : Move} {r : Request} {d : DeviceRef} {o : ObjectRef} {n : Name}
  {t : Token}

/-- Numbers lead from the device of an object to that object, those that are ids are in use as long
as they lead anywhere, and nothing has broken. -/
structure Isolated (m : Machine) : Prop where
  names : ∀ d n o, (m.world.device d).alive = true →
    ((m.world.device d).names.find? n = some o ↔
      (m.world.object o).home = d ∧ (m.world.object o).name = some n)
  name_ids : ∀ d n, (m.world.device d).alive = true →
    (((m.world.device d).names.find? n).isSome = true ↔
      (m.world.device d).names.ids.isAllocated n = true)
  named_home : ∀ o, (m.world.object o).name.isSome = true →
    (m.world.device (m.world.object o).home).alive = true
  tokens : ∀ d t o, (m.world.device d).alive = true →
    ((m.world.device d).tokens.entries.find? t = some o ↔
      (m.world.object o).home = d ∧ (m.world.object o).token = some t)
  token_ids : ∀ d ids, (m.world.device d).alive = true →
    (m.world.device d).tokens.source = .dense ids → ∀ id : UInt32,
      ((m.world.device d).tokens.entries.find? id.toUInt64).isSome = true ↔
        ids.isAllocated id = true
  unbroken : ∀ op ∈ m.operations, ∀ f, op.outcome ≠ .fault f

theorem Sound.isolated (h : m.Sound) : m.Isolated where
  names d n o := h.world.names.find?_iff d n o
  name_ids d n halive := by
    rw [NumberedTable.find?,
      (h.world.names.wellFormed d halive).numbered.isSome_find?_toUInt64]
  named_home := h.world.names.alive
  tokens d t o := h.world.tokens.find?_iff d t o
  token_ids d ids halive hids id := by
    rw [((h.world.tokens.wellFormed d halive).numbered ids hids).isSome_find?_toUInt64]
  unbroken op hop := (h.operations op hop).faultless

/-! ### Entries of others -/

section

variable (h : m.Sound) (hmove : m.tameMove? x = some m')
  (halive : (m.world.device d).alive = true) (halive' : (m'.world.device d).alive = true)

include h hmove halive halive'

/-- A name of another object stays. -/
theorem Sound.name_of_tameMove (hother : m.renamed? x ≠ some o)
    (hfind : (m.world.device d).names.find? n = some o) :
    (m'.world.device d).names.find? n = some o := by
  obtain ⟨hhome, hname⟩ := (h.isolated.names d n o halive).mp hfind
  have hlt := World.lt_size_of_refs (h.world.live_of_name (o := o) (by rw [hname]; rfl))
  refine ((h.tameMove hmove).isolated.names d n o halive').mpr ⟨?_, ?_⟩
  · exact ((h.turn_of_tameMove hmove).home o hlt).trans hhome
  · rw [(spares_of_move (tameMove?_eq_some.mp hmove).2.1).name_eq o hother, hname]

theorem Sound.token_of_tameMove (hother : m.retokened? x ≠ some o)
    (hfind : (m.world.device d).tokens.entries.find? t = some o) :
    (m'.world.device d).tokens.entries.find? t = some o := by
  obtain ⟨hlive, hhome, htoken⟩ := (h.world.tokens.find?_iff_live halive t o).mp hfind
  refine ((h.tameMove hmove).isolated.tokens d t o halive').mpr ⟨?_, ?_⟩
  · exact ((h.turn_of_tameMove hmove).home o (World.lt_size_of_refs hlive)).trans hhome
  · rw [(spares_of_move (tameMove?_eq_some.mp hmove).2.1).token_eq o hother, htoken]

end

/-! ### Numbers given or taken elsewhere -/

/-- An object that a device names although it is another's. -/
theorem not_isolated_publishName (h : m.Sound) (halive : (m.world.device d).alive = true)
    (hlive : 0 < (m.world.object o).refs)
    (htame : (Request.publishName d o).isTame m.world = false)
    (hworld : m'.world = (m.world.publishName d o).1) : ¬ m'.Isolated := by
  intro hisolated
  simp only [Request.isTame, Request.isOwn, Request.isIdle, Bool.or_eq_false_iff,
    beq_eq_false_iff_ne] at htame
  obtain ⟨hhome, hunnamed, hgiven⟩ := htame
  rcases hpublish : m.world.publishName d o with ⟨w', n | e | f⟩
  · rw [hpublish] at hworld
    obtain ⟨-, ⟨hname, -⟩ | ⟨-, names', hissue, rfl⟩⟩ := World.of_publishName_ok hpublish
    · simp [hname] at hunnamed
    · obtain ⟨-, hissues⟩ := (h.world.names.wellFormed d halive).of_issue hissue
      have hlt := World.lt_size_of_refs hlive
      have hdlt := World.lt_size_of_alive halive
      have hdevice : (m'.world.device d).names = names' ∧ (m'.world.device d).alive = true := by
        simp [hworld, World.setNames, World.setName, World.retain, World.device_updateDevice, hdlt,
          halive]
      have hobject : (m'.world.object o).home = (m.world.object o).home := by
        simp [hworld, World.setNames, World.setName, World.retain, World.object_updateObject, hlt]
      have hfind : (m'.world.device d).names.find? n = some o := by
        rw [hdevice.1, hissues.find?_eq, if_pos rfl]
      have := ((hisolated.names d n o hdevice.2).mp hfind).1
      exact hhome (hobject.symm.trans this)
  all_goals simp [hpublish] at hgiven

/-- An object that loses its name while the entry at its own device stays. -/
theorem not_isolated_retireName (h : m.Isolated)
    (htame : (Request.retireName d o).isTame m.world = false)
    (hworld : m'.world = (m.world.retireName d o).1) : ¬ m'.Isolated := by
  intro hisolated
  simp only [Request.isTame, Request.isOwn, Request.isIdle, Bool.or_eq_false_iff,
    beq_eq_false_iff_ne] at htame
  obtain ⟨hhome, hnamed⟩ := htame
  obtain ⟨n, hname⟩ := Option.isSome_iff_exists.mp (by simpa using hnamed)
  have halive := h.named_home o (by rw [hname]; rfl)
  have hsame :
      m'.world.device (m.world.object o).home = m.world.device (m.world.object o).home := by
    rw [hworld, World.device_retireName_of_ne (Ne.symm hhome)]
  have hfind : (m'.world.device (m.world.object o).home).names.find? n = some o := by
    rw [hsame]
    exact (h.names _ n o halive).mpr ⟨rfl, hname⟩
  have hnone : (m'.world.object o).name = none := by rw [hworld, World.name_retireName]
  have := ((hisolated.names _ n o (hsame ▸ halive)).mp hfind).2
  rw [hnone] at this
  cases this

/-- An object that a device gives a token although it is another's. -/
theorem not_isolated_createToken (h : m.Sound) (halive : (m.world.device d).alive = true)
    (hlive : 0 < (m.world.object o).refs)
    (htame : (Request.createToken d o).isTame m.world = false)
    (hworld : m'.world = (m.world.createToken d o).1) : ¬ m'.Isolated := by
  intro hisolated
  simp only [Request.isTame, Request.isOwn, Request.isIdle, Bool.or_eq_false_iff,
    beq_eq_false_iff_ne] at htame
  obtain ⟨hhome, hunmapped, hgiven⟩ := htame
  rcases hcreate : m.world.createToken d o with ⟨w', t | e | f⟩
  · rw [hcreate] at hworld
    rcases World.of_createToken_ok hcreate with ⟨htoken, -⟩ | ⟨-, tokens', hissue, rfl⟩
    · simp [htoken] at hunmapped
    · obtain ⟨-, -, hfinds⟩ := (h.world.tokens.wellFormed d halive).of_issue hissue
      have hlt := World.lt_size_of_refs hlive
      have hdlt := World.lt_size_of_alive halive
      have hdevice : (m'.world.device d).tokens = tokens' ∧ (m'.world.device d).alive = true := by
        simp [hworld, World.setTokens, World.setToken, World.device_updateDevice, hdlt, halive]
      have hobject : (m'.world.object o).home = (m.world.object o).home := by
        simp [hworld, World.setTokens, World.setToken, World.object_updateObject, hlt]
      have hfind : (m'.world.device d).tokens.entries.find? t = some o := by
        rw [hdevice.1, hfinds, if_pos rfl]
      have := ((hisolated.tokens d t o hdevice.2).mp hfind).1
      exact hhome (hobject.symm.trans this)
  all_goals simp [hcreate] at hgiven

/-- An object that loses its token while the entry at its own device stays. -/
theorem not_isolated_destroyToken (h : m.Isolated)
    (halive : (m.world.device (m.world.object o).home).alive = true)
    (htame : (Request.destroyToken d o).isTame m.world = false)
    (hworld : m'.world = (m.world.destroyToken d o).1) : ¬ m'.Isolated := by
  intro hisolated
  simp only [Request.isTame, Request.isOwn, Request.isIdle, Bool.or_eq_false_iff,
    beq_eq_false_iff_ne] at htame
  obtain ⟨hhome, hmapped⟩ := htame
  obtain ⟨t, htoken⟩ := Option.isSome_iff_exists.mp (by simpa using hmapped)
  have hsame :
      m'.world.device (m.world.object o).home = m.world.device (m.world.object o).home := by
    rw [hworld, World.device_destroyToken_of_ne (Ne.symm hhome)]
  have hfind : (m'.world.device (m.world.object o).home).tokens.entries.find? t = some o := by
    rw [hsame]
    exact (h.tokens _ t o halive).mpr ⟨rfl, htoken⟩
  have hnone : (m'.world.object o).token = none := by rw [hworld, World.token_destroyToken]
  have := ((hisolated.tokens _ t o (hsame ▸ halive)).mp hfind).2
  rw [hnone] at this
  cases this

/-- A call keeps devices apart exactly if it gives and takes no number away from home. -/
theorem Sound.isolated_iff_isTame (h : m.Sound) (hcall : m.call? r = some m')
    (hfit : m'.world.countsFit = true) (hhome : ∀ d o, r = .destroyToken d o →
      (m.world.device (m.world.object o).home).alive = true) :
    m'.Isolated ↔ r.isTame m.world = true := by
  obtain ⟨hperm, heq⟩ := call?_eq_some.mp hcall
  refine ⟨fun hisolated => ?_, fun htame => (h.call htame hcall hfit).isolated⟩
  by_contra htame
  rw [Bool.not_eq_true] at htame
  revert hisolated
  cases r with
  | publishName d o =>
    exact not_isolated_publishName h (h.alive_of_permits hperm rfl) (h.live_of_permits hperm rfl)
      htame (by rw [heq]; rfl)
  | retireName d o =>
    refine not_isolated_retireName h.isolated htame ?_
    rw [heq]
    simp only [Request.start]
    split
    all_goals
      next hretire => rw [hretire]
  | createToken d o =>
    exact not_isolated_createToken h (h.alive_of_permits hperm rfl) (h.live_of_permits hperm rfl)
      htame (by rw [heq]; rfl)
  | destroyToken d o =>
    exact not_isolated_destroyToken h.isolated (hhome d o rfl) htame (by rw [heq]; rfl)
  | _ => cases htame

/-- On runs that give and take numbers at home only, in every state, inside hooks as well as
outside, every number leads from the device of its object to that object and nothing has broken; and
each move leaves all entries alone but those of the one object it is about. A call away from home
that does give a number, or takes one away, breaks this at once. -/
theorem isolation_of_tameRun {moves : List Move} (hrun : empty.tameRun? moves = some m) :
    m.Isolated ∧
    (∀ x m', m.tameMove? x = some m' → ∀ d, (m.world.device d).alive = true →
      (m'.world.device d).alive = true →
      (∀ n o, m.renamed? x ≠ some o → (m.world.device d).names.find? n = some o →
        (m'.world.device d).names.find? n = some o) ∧
      (∀ t o, m.retokened? x ≠ some o → (m.world.device d).tokens.entries.find? t = some o →
        (m'.world.device d).tokens.entries.find? t = some o)) ∧
    (∀ r m', m.call? r = some m' → m'.world.countsFit = true →
      (∀ d o, r = .destroyToken d o → (m.world.device (m.world.object o).home).alive = true) →
      (m'.Isolated ↔ r.isTame m.world = true)) := by
  have h := Sound.of_tameRun hrun
  refine ⟨h.isolated, fun x m' hmove d halive halive' => ⟨fun n o hother hfind => ?_,
    fun t o hother hfind => ?_⟩, fun r m' => h.isolated_iff_isTame⟩
  · exact h.name_of_tameMove hmove halive halive' hother hfind
  · exact h.token_of_tameMove hmove halive halive' hother hfind

/-- Two devices, and two objects of the second, each with a handle; the first object is named. -/
def neighbours : List Move :=
  [.call (.newDevice { handleOrder := 2, nameOrder := 2, tokenOrder := 2 } default), .finish,
    .call (.newDevice { handleOrder := 2, nameOrder := 2, tokenOrder := 2 } default), .finish,
    .call (.openClient 1), .finish, .call (.createObject 1 4096), .answer .accept, .finish,
    .call (.createObject 1 4096), .answer .accept, .finish,
    .call (.createHandle 0 0), .answer .accept, .finish,
    .call (.createHandle 0 1), .answer .accept, .finish, .call (.nameHandle 1 0 1), .work, .finish]

/-- The first device may be asked for the name of an object that has one, and nothing comes of it;
to name the other object there breaks the link. -/
theorem isolation_of_tameRun_neighbours :
    ∃ m m', empty.tameRun? (neighbours ++ [.call (.publishName 0 0), .finish]) = some m ∧
      m.call? (.publishName 0 1) = some m' ∧ (m.world.device 1).names.find? 1 = some 0 ∧
      ¬ m'.Isolated := by
  have hread : ((empty.tameRun? (neighbours ++ [.call (.publishName 0 0), .finish])).bind fun m =>
      (m.call? (.publishName 0 1)).map fun m' => (m'.world.countsFit,
        (Request.publishName 0 1).isTame m.world, (m.world.device 1).alive,
        (m.world.object 0).home, (m.world.object 0).name)) =
      some (true, false, true, 1, some 1) := by decide +kernel
  obtain ⟨m, hrun, hread⟩ := Option.bind_eq_some_iff.mp hread
  obtain ⟨m', hcall, hfacts⟩ := Option.map_eq_some_iff.mp hread
  obtain ⟨hfit, hwild, halive, hhome, hname⟩ : m'.world.countsFit = true ∧
      (Request.publishName 0 1).isTame m.world = false ∧ (m.world.device 1).alive = true ∧
      (m.world.object 0).home = 1 ∧ (m.world.object 0).name = some 1 := by simpa using hfacts
  obtain ⟨hisolated, -, htame⟩ := isolation_of_tameRun hrun
  refine ⟨m, m', hrun, hcall, (hisolated.names 1 1 0 halive).mpr ⟨hhome, hname⟩, fun hstill => ?_⟩
  have := (htame _ m' hcall hfit fun _ _ heq => by cases heq).mp hstill
  rw [hwild] at this
  cases this

/-- The second object is named by the first device, and gets the same number there. When its handle
is deleted, the number is given back at home: the entry of the first object goes with it, and the
first object still has its name while no device leads to it. -/
theorem isolation_fails_elsewhere :
    ∃ m m', empty.run? (neighbours ++
        [.call (.publishName 0 1), .finish, .call (.deleteHandle 0 2), .answer .accept]) = some m ∧
      m.move? .work = some m' ∧ m.renamed? .work = some 1 ∧
      (m.world.device 1).names.find? 1 = some 0 ∧ (m'.world.device 1).names.find? 1 = none ∧
      (m'.world.object 0).name = some 1 ∧
      ∀ d, (m'.world.device d).alive = true → (m'.world.device d).names.find? 1 ≠ some 0 := by
  have hread : ((empty.run? (neighbours ++ [.call (.publishName 0 1), .finish,
      .call (.deleteHandle 0 2), .answer .accept])).bind fun m => (m.move? .work).map fun m' =>
        ((m.renamed? .work, (m.world.device 1).names.find? 1),
          ((m'.world.device 0).names.find? 1, (m'.world.device 1).names.find? 1),
          (m'.world.object 0).name, m'.world.devices.size)) =
      some ((some 1, some 0), (some 1, none), some 1, 2) := by decide +kernel
  obtain ⟨m, hrun, hread⟩ := Option.bind_eq_some_iff.mp hread
  obtain ⟨m', hmove, hfacts⟩ := Option.map_eq_some_iff.mp hread
  obtain ⟨⟨hrenamed, hbefore⟩, ⟨hfirst, hsecond⟩, hname, hsize⟩ :
      (m.renamed? .work = some 1 ∧ (m.world.device 1).names.find? 1 = some 0) ∧
        ((m'.world.device 0).names.find? 1 = some 1 ∧
          (m'.world.device 1).names.find? 1 = none) ∧
        (m'.world.object 0).name = some 1 ∧ m'.world.devices.size = 2 := by simpa using hfacts
  refine ⟨m, m', hrun, hmove, hrenamed, hbefore, hsecond, hname, fun d halive => ?_⟩
  have hlt := World.lt_size_of_alive halive
  rw [hsize] at hlt
  obtain rfl | rfl := Nat.le_one_iff_eq_zero_or_eq_one.mp (Nat.le_of_lt_succ hlt)
  · rw [hfirst]
    decide
  · rw [hsecond]
    decide

end Machine

end BufferObjects
