import BufferObjects.Proofs.Machine.Marks
import BufferObjects.Proofs.Machine.Quiet
import BufferObjects.Proofs.Machine.Trace

/-!
Mapping tokens. A device's table and the objects' own fields say the same at every point of an
orderly run, whether tokens are ids or hashed candidates, and so a mapping address leads to the
living object that carries its token and to no other. An object keeps its token, and with it its
address, until the token is destroyed or the object ends; that its handles are closed and opened
again does not matter.
-/

namespace BufferObjects

namespace World

variable {w : World} {d : DeviceRef} {a : UInt64} {o : ObjectRef}

/-- A marked address leads to the object that carries its token. -/
theorem TokensSound.objectAtAddress_iff (h : w.TokensSound) (halive : (w.device d).alive = true) :
    (w.objectAtAddress d a).2 = .ok o ↔ MapAddress.isMarked a = true ∧ 0 < (w.object o).refs ∧
      (w.object o).home = d ∧ (w.object o).token = some (MapAddress.tokenOf a) := by
  rw [← h.find?_iff_live halive]
  unfold objectAtAddress
  split
  · next hmarked =>
    rw [resolveToken]
    cases hfind : (w.device d).tokens.entries.find? (MapAddress.tokenOf a) with
    | none => simp
    | some p =>
      have hlive : w.isLive p = true := by
        simpa [isLive] using ((h.find?_iff_live halive _ p).mp hfind).1
      simp [hlive, hmarked]
  · next hunmarked => simp [hunmarked]

/-- A search by address that finds nothing says so. -/
theorem objectAtAddress_cases (w : World) (d : DeviceRef) (a : UInt64) :
    (w.objectAtAddress d a).2 = .error .notFound ∨ ∃ o, (w.objectAtAddress d a).2 = .ok o := by
  cases hfound : (w.objectAtAddress d a).2 with
  | ok o => exact Or.inr ⟨o, rfl⟩
  | error e =>
    rw [error_of_objectAtAddress hfound]
    exact Or.inl rfl

/-- The token that is answered is the one that the object has then. -/
theorem token_of_createToken_ok {w' : World} {t : Token} (hlt : o < w.objects.size)
    (hcreate : w.createToken d o = (w', .ok t)) : (w'.object o).token = some t := by
  rcases of_createToken_ok hcreate with ⟨htoken, rfl⟩ | ⟨-, tokens', -, rfl⟩
  · exact htoken
  · simp [setToken, object_updateObject, setTokens, hlt]

end World

namespace Machine

variable {m m' : Machine} {x : Move} {d : DeviceRef} {o : ObjectRef} {t : Token} {a : UInt64}

/-- The address that a call will answer with, and the object that can be mapped there. -/
def addressed? (m : Machine) : Move → Option (ObjectRef × UInt64)
  | .call r =>
    match r.mapped? m.world, (r.start m.world).2.outcome with
    | some (_, o), .ok (.address a) => some (o, a)
    | _, _ => none
  | _ => none

/-- Whether a move ends the token of an object: the object has ended, or its token is destroyed. -/
def endsToken (o : ObjectRef) (x : Move) (m' : Machine) : Bool :=
  (m'.world.object o).refs == 0 ||
    match x with
    | .call (.destroyToken _ p) => p == o
    | _ => false

theorem endsToken_iff : endsToken o x m' = true ↔
    (m'.world.object o).refs = 0 ∨ ∃ e, x = .call (.destroyToken e o) := by
  unfold endsToken
  rw [Bool.or_eq_true, beq_iff_eq]
  refine or_congr Iff.rfl ?_
  split
  · simp
  · next hother =>
    simp only [Bool.false_eq_true, false_iff, not_exists]
    exact fun e heq => hother e o heq

/-- What is true of an object with a token, between moves that do not end the token. -/
structure Mapped (m : Machine) (o : ObjectRef) (t : Token) : Prop where
  sound : m.Sound
  equipped : m.world.Equipped
  token : (m.world.object o).token = some t
  live : 0 < (m.world.object o).refs

theorem Mapped.move (h : m.Mapped o t) (hmove : m.orderlyMove? x = some m')
    (hlasts : endsToken o x m' = false) : m'.Mapped o t := by
  obtain ⟨-, hx, -⟩ := orderlyMove?_eq_some.mp hmove
  rw [Bool.eq_false_iff, ne_eq, endsToken_iff, not_or] at hlasts
  obtain ⟨hlive, hundestroyed⟩ := hlasts
  refine ⟨h.sound.move hmove, (spares_of_move hx).equipped h.equipped, ?_,
    Nat.pos_of_ne_zero hlive⟩
  rcases token_of_move hx h.token with hsame | ⟨-, ⟨e, rfl⟩ | hzero⟩
  · exact hsame
  · exact absurd ⟨e, rfl⟩ hundestroyed
  · exact absurd hzero hlive

/-- Whoever asks for the address of an object with a token gets the address of that token. -/
theorem Mapped.answers (h : m.Mapped o t) {c : ClientRef} {hd : Handle} (driver : QuietDriver)
    (hperm : m.permits (.mapHandle d c hd) = true) (hlook : m.world.lookupHandle c hd = .ok o)
    (hdevice : (m.world.client c).device = d) :
    m.perform? driver (.mapHandle d c hd) = some (.ok (.address (MapAddress.encode t)), m) := by
  have hhome : (m.world.object o).home = d := by
    rw [(h.sound.world.clients.item_home c o (h.sound.world.clients.mem_items hlook)).2, hdevice]
  have haccess := Request.access_of_lookupHandle h.sound.world.clients h.equipped hlook hhome
  have htoken : ((m.world.retain o).object o).token = some t :=
    ((World.Spares.retain _ o : World.Spares _ _ none none).token_eq o nofun).trans h.token
  refine perform?_of_holding hperm driver h.live ?_
  simp [Request.start, haccess, hlook, World.createToken_of_token htoken, Outcome.map]

theorem addressed?_eq_some : m.addressed? x = some (o, a) ↔ ∃ r d, x = .call r ∧
    r.mapped? m.world = some (d, o) ∧ (r.start m.world).2.outcome = .ok (.address a) := by
  constructor
  · intro h
    cases x with
    | call r =>
      simp only [addressed?] at h
      split at h
      · next hmapped houtcome =>
        cases h
        exact ⟨r, _, rfl, hmapped, houtcome⟩
      · cases h
    | _ => cases h
  · rintro ⟨r, d, rfl, hmapped, houtcome⟩
    simp [addressed?, hmapped, houtcome]

/-- What is to be mapped is held by the caller, or there is a handle to it. -/
theorem Sound.live_of_mapped (h : m.Sound) {r : Request} (hperm : m.permits r = true)
    (hmapped : r.mapped? m.world = some (d, o)) : 0 < (m.world.object o).refs := by
  cases r with
  | createToken =>
    cases hmapped
    exact h.live_of_permits hperm rfl
  | mapHandle e c hd =>
    obtain ⟨p, hlook, heq⟩ := Option.map_eq_some_iff.mp hmapped
    obtain ⟨rfl, rfl⟩ : e = d ∧ p = o := by simpa using heq
    exact h.world.live_of_item
      (h.world.clients.mem_items (Request.toOption_eq_some_iff.mp hlook))
  | _ => cases hmapped

/-- What a call answers with is the address of the token that the object has then. -/
theorem Sound.mapped_of_addressed (h : m.Sound) (hequipped : m.world.Equipped)
    (hmove : m.orderlyMove? x = some m') (haddress : m.addressed? x = some (o, a)) :
    ∃ t, a = MapAddress.encode t ∧ m'.Mapped o t := by
  obtain ⟨horderly, hx, -⟩ := orderlyMove?_eq_some.mp hmove
  obtain ⟨r, d, rfl, hmapped, houtcome⟩ := addressed?_eq_some.mp haddress
  have hlive := h.live_of_mapped (call?_eq_some.mp hx).1 hmapped
  have hlt := World.lt_size_of_refs hlive
  have hbegins := h.begins (call?_eq_some.mp hx).1 (isTame_of_isOrderly horderly)
  obtain ⟨-, rfl⟩ := call?_eq_some.mp hx
  rcases Request.start_of_mapped? hmapped with ⟨ns, e, -, herror⟩ |
    ⟨w₁, reply, hw₁, hworld, hreply, hout⟩
  · rw [houtcome] at herror
    cases herror
  have hsize : w₁.objects.size = m.world.objects.size := by
    rcases hw₁ with rfl | rfl
    · rfl
    · exact World.size_objects_updateObject ..
  rcases hcreate : w₁.createToken d o with ⟨w', t | e | f⟩
  all_goals rw [houtcome, hcreate] at hout
  · obtain rfl : a = MapAddress.encode t := by
      rcases hreply with rfl | rfl
      · cases hout
      · cases hout
        rfl
    refine ⟨t, rfl, h.move hmove, (spares_of_move hx).equipped hequipped, ?_,
      (hbegins.keeps.live o hlt).mpr hlive⟩
    rw [hworld, hcreate]
    exact World.token_of_createToken_ok (hsize ▸ hlt) hcreate
  · cases hout
  · cases hout

/-- In every state of an orderly run, inside hooks as well as outside, the tokens of each device and
the tokens that living objects carry are the same; where tokens are ids, the ids in use are the keys
of the table; tokens have room in an address, and no two living objects of a device share one. So an
address leads to the living object that carries its token, and otherwise nowhere; and the address
that is answered for an object is answered for it again until its token is destroyed or it ends. -/
theorem mapping_of_orderlyRun {moves : List Move} (hrun : empty.orderlyRun? moves = some m) :
    (∀ d, (m.world.device d).alive = true →
      (∀ t o, (m.world.device d).tokens.entries.find? t = some o ↔ 0 < (m.world.object o).refs ∧
        (m.world.object o).home = d ∧ (m.world.object o).token = some t) ∧
      (∀ ids, (m.world.device d).tokens.source = .dense ids →
        ∀ key, ((m.world.device d).tokens.entries.find? key).isSome = true ↔
          ∃ id : UInt32, id.toUInt64 = key ∧ ids.isAllocated id = true) ∧
      (∀ a o, (m.world.objectAtAddress d a).2 = .ok o ↔ MapAddress.isMarked a = true ∧
        0 < (m.world.object o).refs ∧ (m.world.object o).home = d ∧
        (m.world.object o).token = some (MapAddress.tokenOf a)) ∧
      (∀ a, (m.world.objectAtAddress d a).2 = .error .notFound ∨
        ∃ o, (m.world.objectAtAddress d a).2 = .ok o)) ∧
    (∀ o t, (m.world.object o).token = some t → t ≤ MapAddress.maxToken) ∧
    (∀ o p t, (m.world.object o).token = some t → (m.world.object p).token = some t →
      (m.world.object o).home = (m.world.object p).home → o = p) ∧
    (∀ x m₁ between m₂ o a, m.orderlyMove? x = some m₁ → m.addressed? x = some (o, a) →
      m₁.orderlyRunWhile? (fun _ y m' => !endsToken o y m') between = some m₂ →
      ∀ driver d c h, m₂.permits (.mapHandle d c h) = true → m₂.world.lookupHandle c h = .ok o →
        (m₂.world.client c).device = d →
        m₂.perform? driver (.mapHandle d c h) = some (.ok (.address a), m₂)) := by
  have h := Sound.of_run hrun
  have htokens := h.world.tokens
  refine ⟨fun d halive => ⟨htokens.find?_iff_live halive, fun ids hids => ?_,
    fun a o => htokens.objectAtAddress_iff halive, World.objectAtAddress_cases m.world d⟩,
    htokens.token_le, htokens.unique, ?_⟩
  · exact ((htokens.wellFormed d halive).numbered ids hids).isSome_find?_iff
  · intro x m₁ between m₂ o a hmove haddress hbetween driver d c hd hperm hlook hdevice
    obtain ⟨t, rfl, hmapped⟩ :=
      h.mapped_of_addressed (equipped_of_orderlyRun hrun) hmove haddress
    have hlater : m₂.Mapped o t := orderlyRunWhile?_induction (P := fun m => m.Mapped o t)
      (fun m y m' h hy hlasts => h.move hy (by simpa using hlasts)) hmapped hbetween
    exact hlater.answers driver hperm hlook hdevice

/-- An object is mapped by way of a handle, its only handle is deleted, and it is opened again: the
same address is answered once more. -/
theorem mapping_of_orderlyRun_reopened :
    let before := opening ++ [.call (.createHandle 0 0), .answer .accept, .finish]
    let between := [.work, .finish, .call (.deleteHandle 0 1), .answer .accept, .work, .work,
      .finish, .call (.createHandle 0 0), .answer .accept, .finish]
    ∃ m m₁ m₂, empty.orderlyRun? before = some m ∧
      m.orderlyMove? (.call (.mapHandle 0 0 1)) = some m₁ ∧
      m₁.orderlyRunWhile? (fun _ y m' => !endsToken 0 y m') between = some m₂ ∧
      m₂.perform? .accepting (.mapHandle 0 0 1) = some (.ok (.address 0x8000000000000000), m₂) := by
  intro before between
  have hread : ((empty.orderlyRun? before).bind fun m =>
      (m.orderlyMove? (.call (.mapHandle 0 0 1))).bind fun m₁ =>
        (m₁.orderlyRunWhile? (fun _ y m' => !endsToken 0 y m') between).map fun m₂ =>
          (m.addressed? (.call (.mapHandle 0 0 1)), m₂.permits (.mapHandle 0 0 1),
            (m₂.world.lookupHandle 0 1).toOption, (m₂.world.client 0).device)) =
      some (some (0, 0x8000000000000000), true, some 0, 0) := by decide +kernel
  obtain ⟨m, hrun, hread⟩ := Option.bind_eq_some_iff.mp hread
  obtain ⟨m₁, hmove, hread⟩ := Option.bind_eq_some_iff.mp hread
  obtain ⟨m₂, hbetween, hfacts⟩ := Option.map_eq_some_iff.mp hread
  obtain ⟨haddress, hperm, hlook, hdevice⟩ :
      m.addressed? (.call (.mapHandle 0 0 1)) = some (0, 0x8000000000000000) ∧
        m₂.permits (.mapHandle 0 0 1) = true ∧ (m₂.world.lookupHandle 0 1).toOption = some 0 ∧
        (m₂.world.client 0).device = 0 := by simpa using hfacts
  obtain ⟨-, -, -, hstable⟩ := mapping_of_orderlyRun hrun
  exact ⟨m, m₁, m₂, hrun, hmove, hbetween, hstable _ m₁ between m₂ 0 _ hmove haddress hbetween
    .accepting 0 0 1 hperm (Request.toOption_eq_some_iff.mp hlook) hdevice⟩

end Machine

end BufferObjects
