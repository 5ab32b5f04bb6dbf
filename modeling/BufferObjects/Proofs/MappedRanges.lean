import BufferObjects.Proofs.Addressing

/-!
Mapping a range of bytes. The word that is given must be a marked address, its token must lead to a
living object, and the range must lie within that object as a range of numbers, not of words; then
the object and the offset are answered and one reference to the object is handed over. Anything else
is refused, with the reason that applies, and leaves every object as it was. What a token leads to is
for the device's table to say; as long as tokens are given and taken at the objects' own devices, that
is the object that carries the token.
-/

namespace BufferObjects

namespace World

variable {w : World} {d : DeviceRef} {o : ObjectRef} {t : Token} {a length : UInt64}

/-- A living object to which the table of a device leads a token. -/
def Filed (w : World) (d : DeviceRef) (t : Token) (o : ObjectRef) : Prop :=
  (w.device d).tokens.entries.find? t = some o ∧ 0 < (w.object o).refs

theorem Filed.unique {p : ObjectRef} (h : w.Filed d t o) (h' : w.Filed d t p) : p = o :=
  Option.some.inj (h'.1.symm.trans h.1)

theorem resolveToken_eq_ok_iff : w.resolveToken d t = .ok o ↔ w.Filed d t o := by
  unfold resolveToken Filed isLive
  cases hfind : (w.device d).tokens.entries.find? t with
  | none => simp
  | some p =>
    dsimp only
    split
    · next hlive =>
      rw [Except.ok.injEq, Option.some.injEq]
      exact ⟨fun heq => ⟨heq, heq ▸ of_decide_eq_true hlive⟩, And.left⟩
    · next hdead =>
      refine ⟨nofun, fun ⟨heq, hlive⟩ => absurd (decide_eq_true ?_) hdead⟩
      rwa [Option.some.inj heq]

theorem not_filed_of_resolveToken {e : RequestError} (h : w.resolveToken d t = .error e) :
    ¬ w.Filed d t o := by
  intro hfiled
  rw [resolveToken_eq_ok_iff.mpr hfiled] at h
  cases h

/-- In a sound world a token is filed for the object that carries it. -/
theorem TokensSound.filed_iff_carries (h : w.TokensSound) (halive : (w.device d).alive = true) :
    w.Filed d t o ↔ w.Carries d o t := by
  rw [Filed, h.find?_iff_carries halive]
  exact ⟨And.left, fun hcarries => ⟨hcarries, hcarries.live⟩⟩

end World

/-! ### What is to be answered -/

/-- What a mapping of `length` bytes from an address on is to come to, where `leads` says which object
each token leads to: the address is taken apart as a number, and so is the range. -/
structure MapsExactly (w : World) (leads : Token → ObjectRef → Prop) (a length : UInt64)
    (outcome : Outcome RequestError Reply) : Prop where
  ok_iff : ∀ o k, outcome = .ok (.mapping o k) ↔ a.toNat / 2 ^ 62 = 2 ∧
    (∃ t, t.toNat = a.toNat / 2 ^ 40 % 2 ^ 22 ∧ leads t o) ∧ k.toNat = a.toNat % 2 ^ 40 ∧
    k.toNat + length.toNat ≤ (w.object o).size.toNat
  notFound_iff : outcome = .error .notFound ↔ a.toNat / 2 ^ 62 ≠ 2 ∨
    ∀ t o, t.toNat = a.toNat / 2 ^ 40 % 2 ^ 22 → ¬ leads t o
  invalidArgument_iff : outcome = .error .invalidArgument ↔ a.toNat / 2 ^ 62 = 2 ∧
    ∃ t o, t.toNat = a.toNat / 2 ^ 40 % 2 ^ 22 ∧ leads t o ∧
      (w.object o).size.toNat < a.toNat % 2 ^ 40 + length.toNat

namespace MapsExactly

variable {w : World} {leads leads' : Token → ObjectRef → Prop} {o : ObjectRef} {a length : UInt64}

theorem eq_tokenOf {t : Token} (ht : t.toNat = a.toNat / 2 ^ 40 % 2 ^ 22) :
    t = MapAddress.tokenOf a := by
  rw [← UInt64.toNat_inj, ht, MapAddress.toNat_tokenOf]

theorem congr {outcome : Outcome RequestError Reply} (h : MapsExactly w leads a length outcome)
    (hleads : ∀ t o, leads t o ↔ leads' t o) : MapsExactly w leads' a length outcome := by
  obtain rfl : leads = leads' := funext₂ fun t o => propext (hleads t o)
  exact h

/-- An address that is not marked, or whose token leads nowhere. -/
theorem of_nowhere (h : MapAddress.isMarked a = true → ∀ o, ¬ leads (MapAddress.tokenOf a) o) :
    MapsExactly w leads a length (.error .notFound) := by
  have hnowhere : a.toNat / 2 ^ 62 = 2 → ∀ t o, t.toNat = a.toNat / 2 ^ 40 % 2 ^ 22 →
      ¬ leads t o := by
    intro hmarked t o ht
    rw [eq_tokenOf ht]
    exact h (MapAddress.isMarked_iff.mpr hmarked) o
  refine ⟨fun o k => ⟨nofun, ?_⟩, ⟨fun _ => ?_, fun _ => rfl⟩, ⟨nofun, ?_⟩⟩
  · rintro ⟨hmarked, ⟨t, ht, hleads⟩, -⟩
    exact absurd hleads (hnowhere hmarked t o ht)
  · exact or_iff_not_imp_left.mpr fun hmarked => hnowhere (not_not.mp hmarked)
  · rintro ⟨hmarked, t, o, ht, hleads, -⟩
    exact absurd hleads (hnowhere hmarked t o ht)

section

variable (hmarked : MapAddress.isMarked a = true) (hleads : leads (MapAddress.tokenOf a) o)
  (hunique : ∀ p, leads (MapAddress.tokenOf a) p → p = o)
include hmarked hleads hunique

/-- An address whose token leads to an object in which the range lies. -/
theorem of_within
    (hwithin : (MapAddress.offsetOf a).toNat + length.toNat ≤ (w.object o).size.toNat) :
    MapsExactly w leads a length (.ok (.mapping o (MapAddress.offsetOf a))) := by
  have hmark := MapAddress.isMarked_iff.mp hmarked
  have hoffset := MapAddress.toNat_offsetOf hmarked
  have htoken := MapAddress.toNat_tokenOf a
  refine ⟨fun p k => ⟨?_, ?_⟩, ⟨nofun, ?_⟩, ⟨nofun, ?_⟩⟩
  · rintro ⟨⟩
    exact ⟨hmark, ⟨_, htoken, hleads⟩, hoffset, hwithin⟩
  · rintro ⟨-, ⟨t, ht, hp⟩, hk, -⟩
    rw [eq_tokenOf ht] at hp
    rw [hunique p hp, ← UInt64.toNat_inj.mp (hk.trans hoffset.symm)]
  · rintro (hunmarked | hnowhere)
    · exact absurd hmark hunmarked
    · exact absurd hleads (hnowhere _ o htoken)
  · rintro ⟨-, t, p, ht, hp, hlong⟩
    rw [eq_tokenOf ht] at hp
    rw [hunique p hp] at hlong
    omega

/-- An address whose token leads to an object beyond whose end the range reaches. -/
theorem of_beyond
    (hbeyond : (w.object o).size.toNat < (MapAddress.offsetOf a).toNat + length.toNat) :
    MapsExactly w leads a length (.error .invalidArgument) := by
  have hmark := MapAddress.isMarked_iff.mp hmarked
  have hoffset := MapAddress.toNat_offsetOf hmarked
  have htoken := MapAddress.toNat_tokenOf a
  refine ⟨fun p k => ⟨nofun, ?_⟩, ⟨nofun, ?_⟩, ⟨fun _ => ?_, fun _ => rfl⟩⟩
  · rintro ⟨-, ⟨t, ht, hp⟩, hk, hwithin⟩
    rw [eq_tokenOf ht] at hp
    rw [hunique p hp] at hwithin
    omega
  · rintro (hunmarked | hnowhere)
    · exact absurd hmark hunmarked
    · exact absurd hleads (hnowhere _ o htoken)
  · exact ⟨hmark, _, o, htoken, hleads, by omega⟩

end

end MapsExactly

/-! ### What is answered -/

namespace Request

variable {w : World} {d : DeviceRef}

theorem access_of_managesBuffers (h : w.managesBuffers d = true) :
    access w d none = (w, .ok ()) := by
  simp only [access, h, Bool.not_true, if_false, Bool.false_eq_true]

/-- Mapping a range begins and ends at once: it takes one reference to what it answers, or leaves
nothing but a report. -/
inductive MapsRange (w : World) (r : Request) : World × Operation → Prop
  | mapped {o : ObjectRef} (k : UInt64) (hlive : 0 < (w.object o).refs) :
      MapsRange w r (w.retain o, .finished r (.ok (.mapping o k)))
  | refused (ns : List Notice) (e : RequestError) :
      MapsRange w r (w.noteAll ns, .finished r (.error e))

theorem mapsRange_start (hmanages : w.managesBuffers d = true) (a length : UInt64) :
    MapsRange w (.mapRange d a length) ((mapRange d a length).start w) := by
  simp only [start, access_of_managesBuffers hmanages]
  rcases mappingAt_spec w d a length with ⟨o, k, hfound, hlive⟩ | ⟨ns, e, hfailed⟩
  · rw [hfound]
    exact .mapped k hlive
  · rw [hfailed]
    exact .refused ns e

/-- In any state, mapping a range answers by what the device's table says of the token. -/
theorem mapsExactly_start (hmanages : w.managesBuffers d = true) (a length : UInt64) :
    MapsExactly w (w.Filed d) a length ((mapRange d a length).start w).2.outcome := by
  simp only [start, access_of_managesBuffers hmanages, World.mappingAt, World.objectAtAddress]
  by_cases hmarked : MapAddress.isMarked a = true
  · rw [if_pos hmarked]
    cases hres : w.resolveToken d (MapAddress.tokenOf a) with
    | error e =>
      obtain rfl := World.error_of_resolveToken hres
      exact .of_nowhere fun _ o => World.not_filed_of_resolveToken hres
    | ok o =>
      have hfiled := World.resolveToken_eq_ok_iff.mp hres
      dsimp only
      split
      · next hfits =>
        split at hfits
        · next hwithin =>
          cases hfits
          exact .of_within hmarked hfiled (fun p => hfiled.unique) (World.fits_iff.mp hwithin)
        · cases hfits
      · next hfits =>
        split at hfits
        · cases hfits
        · next hbeyond =>
          cases hfits
          rw [World.fits_iff] at hbeyond
          exact .of_beyond hmarked hfiled (fun p => hfiled.unique) (by omega)
  · rw [if_neg hmarked]
    exact .of_nowhere fun h => absurd h hmarked

end Request

namespace Machine

variable {m : Machine} {d : DeviceRef}

open World

/-- Of a device that manages buffers, in whatever state and with whatever driver: a range is mapped
just when its address is marked, the token in it leads to a living object and the range lies within
that object; a range that reaches beyond is an invalid argument, and everything else is not found.
The table of the device says what a token leads to, and in every state of a tame run that is the
living object that carries the token. With success one reference to the object is taken and handed
over; with a failure there is nothing but a report. -/
theorem mapping_accepts_exactly (hmanages : m.world.managesBuffers d = true) (driver : QuietDriver)
    {a length : UInt64} (hperm : m.permits (.mapRange d a length) = true) :
    ∃ outcome m', m.perform? driver (.mapRange d a length) = some (outcome, m') ∧
      MapsExactly m.world (m.world.Filed d) a length outcome ∧
      (∀ moves, empty.tameRun? moves = some m →
        MapsExactly m.world (fun t o => m.world.Carries d o t) a length outcome) ∧
      (∀ o k, outcome = .ok (.mapping o k) →
        m' = ⟨m.world.retain o, o :: m.held, m.operations⟩ ∧
        ∀ p, (m'.world.object p).refs = (m.world.object p).refs + if p = o then 1 else 0) ∧
      ∀ e, outcome = .error e → ∃ ns, m' = ⟨m.world.noteAll ns, m.held, m.operations⟩ ∧
        ∀ p, m'.world.object p = m.world.object p := by
  have hexact := Request.mapsExactly_start hmanages a length
  have htame (moves : List Move) (hrun : empty.tameRun? moves = some m) :
      MapsExactly m.world (fun t o => m.world.Carries d o t) a length
        ((Request.mapRange d a length).start m.world).2.outcome := by
    have hsound := Sound.of_tameRun hrun
    have halive := hsound.alive_of_permits hperm rfl
    exact hexact.congr fun t o => hsound.world.tokens.filed_iff_carries halive
  have hmaps := Request.mapsRange_start hmanages a length
  generalize hstart : (Request.mapRange d a length).start m.world = started at hexact htame hmaps
  cases hmaps with
  | @mapped o k hlive =>
    refine ⟨_, _, perform?_of_finished hperm driver hstart, hexact, htame, ?_, nofun⟩
    rintro _ _ ⟨⟩
    refine ⟨rfl, fun p => ?_⟩
    show ((m.world.retain o).object p).refs = _
    rw [object_retain]
    by_cases hp : p = o
    · subst hp
      rw [if_pos ⟨rfl, lt_size_of_refs hlive⟩, if_pos rfl]
    · rw [if_neg fun heq => hp heq.1.symm, if_neg hp, Nat.add_zero]
  | refused ns e =>
    refine ⟨_, _, perform?_of_finished hperm driver hstart, hexact, htame, nofun,
      fun _ _ => ⟨ns, rfl, fun p => ?_⟩⟩
    exact object_noteAll ..

/-- The last byte of an object with a token can be mapped, and nothing that reaches beyond it. -/
theorem mapping_accepts_exactly_last_byte :
    ∃ m, empty.tameRun? (opening ++ [.call (.createHandle 0 0), .answer .accept, .finish,
        .call (.mapHandle 0 0 1), .work, .finish]) = some m ∧ m.world.Carries 0 0 0 ∧
      (m.perform? .accepting (.mapRange 0 (MapAddress.encode 0 + 4095) 1)).map Prod.fst =
        some (.ok (.mapping 0 4095)) ∧
      (m.perform? .accepting (.mapRange 0 (MapAddress.encode 0 + 4095) 2)).map Prod.fst =
        some (.error .invalidArgument) := by
  have hread : (empty.tameRun? (opening ++ [.call (.createHandle 0 0), .answer .accept, .finish,
        .call (.mapHandle 0 0 1), .work, .finish])).map (fun m =>
      ([(m.world.object 0).refs, (m.world.object 0).home, (m.world.object 0).size.toNat],
        (m.world.object 0).token,
        [(m.world.device 0).alive, m.world.managesBuffers 0,
          m.permits (.mapRange 0 (MapAddress.encode 0 + 4095) 1),
          m.permits (.mapRange 0 (MapAddress.encode 0 + 4095) 2)])) =
      some ([2, 0, 4096], some 0, [true, true, true, true]) := by decide +kernel
  obtain ⟨m, hrun, hfacts⟩ := Option.map_eq_some_iff.mp hread
  simp only [Prod.mk.injEq, List.cons.injEq, and_true] at hfacts
  obtain ⟨⟨hrefs, hhome, hsize⟩, htoken, halive, hmanages, hperm, hperm'⟩ := hfacts
  have hcarries : m.world.Carries 0 0 0 := ⟨halive, by omega, hhome, htoken⟩
  obtain ⟨outcome, m', hperform, -, hexact, -⟩ :=
    mapping_accepts_exactly hmanages .accepting hperm
  obtain ⟨outcome', m'', hperform', -, hexact', -⟩ :=
    mapping_accepts_exactly hmanages .accepting hperm'
  refine ⟨m, hrun, hcarries, ?_, ?_⟩
  · have hmapped := ((hexact _ hrun).ok_iff 0 4095).mpr
      ⟨by decide, ⟨0, by decide, hcarries⟩, by decide, by rw [hsize]; decide⟩
    rw [hperform, hmapped]
    rfl
  · have hbeyond := (hexact' _ hrun).invalidArgument_iff.mpr
      ⟨by decide, 0, 0, by decide, hcarries, by rw [hsize]; decide⟩
    rw [hperform', hbeyond]
    rfl

/-- Two devices, an object with a token at each, and the token of the second object is given back at
the first device. -/
def crossed : List Move :=
  [.call (.newDevice { handleOrder := 2, nameOrder := 2, tokenOrder := 2 } default), .finish,
    .call (.newDevice { handleOrder := 2, nameOrder := 2, tokenOrder := 2 } default), .finish,
    .call (.createObject 0 4096), .answer .accept, .finish,
    .call (.createObject 1 4096), .answer .accept, .finish,
    .call (.createToken 0 0), .finish, .call (.createToken 1 1), .finish,
    .call (.destroyToken 0 1), .finish]

/-- A device that gives back the token of another device's object loses the entry of its own: the
living object still carries its token, and mapping its first page finds nothing. -/
theorem mapping_fails_elsewhere :
    ∃ m m', empty.run? crossed = some m ∧ m.world.managesBuffers 0 = true ∧
      m.world.Carries 0 0 0 ∧ (m.world.object 0).size.toNat = 4096 ∧
      m.perform? .accepting (.mapRange 0 (MapAddress.encode 0) 4096) =
        some (.error .notFound, m') ∧
      ¬ MapsExactly m.world (fun t o => m.world.Carries 0 o t) (MapAddress.encode 0) 4096
        (.error .notFound) := by
  let r := Request.mapRange 0 (MapAddress.encode 0) 4096
  have hread : (empty.run? crossed).map (fun m =>
      ([(m.world.object 0).refs, (m.world.object 0).home, (m.world.object 0).size.toNat],
        (m.world.object 0).token,
        [(m.world.device 0).alive, m.world.managesBuffers 0, m.permits r],
        (r.start m.world).2)) =
      some ([1, 0, 4096], some 0, [true, true, true], .finished r (.error .notFound)) := by
    decide +kernel
  obtain ⟨m, hrun, hfacts⟩ := Option.map_eq_some_iff.mp hread
  simp only [Prod.mk.injEq, List.cons.injEq, and_true] at hfacts
  obtain ⟨⟨hrefs, hhome, hsize⟩, htoken, ⟨halive, hmanages, hperm⟩, hstart⟩ := hfacts
  have hcarries : m.world.Carries 0 0 0 := ⟨halive, by omega, hhome, htoken⟩
  refine ⟨m, _, hrun, hmanages, hcarries, hsize,
    perform?_of_finished hperm .accepting (Prod.ext rfl hstart), fun hexact => ?_⟩
  rcases hexact.notFound_iff.mp rfl with hunmarked | hnowhere
  · exact hunmarked (by decide)
  · exact hnowhere 0 0 (by decide) hcarries

end Machine

end BufferObjects
