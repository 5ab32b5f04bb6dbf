import BufferObjects.Proofs.Machine.Fixtures
import BufferObjects.Proofs.MapAddress
import BufferObjects.Proofs.Mapping

/-!
The bytes of an object and the addresses at which they are mapped. An address has 40 bits for the
offset, and what is added to the start of a mapping stays in them up to there; one byte further, and
the sum carries into the token. So the bytes of an object lead back to it as far as `2 ^ 40`, and the
ranges of two objects that are no larger do not meet. The size of an object is checked to be some
pages and nothing else: of a larger object the bytes beyond lead elsewhere, to another object if one
carries the next token.
-/

namespace BufferObjects

namespace World

variable {w : World} {d : DeviceRef} {o p : ObjectRef} {t u k length : UInt64}

/-- The check of a range is exact: a sum that leaves the word is less than its summands, and refused
for that. -/
theorem fits_iff {offset length size : UInt64} :
    fits offset length size = true ↔ offset.toNat + length.toNat ≤ size.toNat := by
  have hoffset := offset.toNat_lt
  have hlength := length.toNat_lt
  have hsize := size.toNat_lt
  rw [fits, Bool.and_eq_true, decide_eq_true_eq, decide_eq_true_eq, UInt64.le_iff_toNat_le,
    UInt64.le_iff_toNat_le, UInt64.toNat_add]
  omega

theorem Carries.objectAtAddress_iff (h : w.Carries d o t) (htokens : w.TokensSound) :
    (w.objectAtAddress d (MapAddress.encode t + k)).2 = .ok o ↔ k.toNat < 2 ^ 40 := by
  rw [htokens.objectAtAddress_iff h.alive,
    ← MapAddress.tokenOf_encode_add (htokens.token_le o t h.token), h.token, Option.some.injEq,
    eq_comm (a := t)]
  exact ⟨fun ⟨hmarked, _, _, htoken⟩ => ⟨hmarked, htoken⟩,
    fun ⟨hmarked, htoken⟩ => ⟨hmarked, h.live, h.home, htoken⟩⟩

theorem Carries.objectAtAddress_eq (h : w.Carries d o t) (htokens : w.TokensSound)
    (hk : k.toNat < 2 ^ 40) : w.objectAtAddress d (MapAddress.encode t + k) = (w, .ok o) := by
  have hfound := (h.objectAtAddress_iff htokens).mpr hk
  rcases Request.objectAtAddress_spec w d (MapAddress.encode t + k) with ⟨p, heq, -⟩ | ⟨ns, e, heq⟩
  · rw [heq] at hfound
    obtain rfl : p = o := Except.ok.inj hfound
    exact heq
  · rw [heq] at hfound
    cases hfound

theorem Carries.mappingAt_eq (h : w.Carries d o t) (htokens : w.TokensSound)
    (hk : k.toNat < 2 ^ 40) (hlength : k.toNat + length.toNat ≤ (w.object o).size.toNat) :
    w.mappingAt d (MapAddress.encode t + k) length = (w, .ok (o, k)) := by
  have hoffset := MapAddress.offsetOf_encode_add (htokens.token_le o t h.token) hk
  simp only [mappingAt, h.objectAtAddress_eq htokens hk, hoffset, fits_iff.mpr hlength, if_true]

/-- Every byte of an object leads to it just when it has no more of them than an address can
number. -/
theorem Carries.forall_objectAtAddress_iff (h : w.Carries d o t) (htokens : w.TokensSound) :
    (∀ k < (w.object o).size, (w.objectAtAddress d (MapAddress.encode t + k)).2 = .ok o) ↔
      (w.object o).size.toNat ≤ 2 ^ 40 := by
  simp only [h.objectAtAddress_iff htokens, UInt64.lt_iff_toNat_lt]
  constructor
  · intro hall
    by_contra hlarge
    -- the byte that is numbered one too high
    have hfirst : (UInt64.ofNat (2 ^ 40)).toNat = 2 ^ 40 := by decide
    have hlt := hall (UInt64.ofNat (2 ^ 40)) (by rw [hfirst]; exact Nat.lt_of_not_le hlarge)
    rw [hfirst] at hlt
    exact Nat.lt_irrefl _ hlt
  · exact fun hle k hk => Nat.lt_of_lt_of_le hk hle

theorem Carries.ranges_disjoint (h : w.Carries d o t) (h' : w.Carries d p u)
    (htokens : w.TokensSound) (hne : o ≠ p) (hsize : (w.object o).size.toNat ≤ 2 ^ 40)
    (hsize' : (w.object p).size.toNat ≤ 2 ^ 40) {i j : Nat} (hi : i < (w.object o).size.toNat)
    (hj : j < (w.object p).size.toNat) :
    (MapAddress.encode t).toNat + i ≠ (MapAddress.encode u).toNat + j := by
  have htoken : t ≠ u := by
    rintro rfl
    exact hne (htokens.unique o p t h.token h'.token (h.home.trans h'.home.symm))
  exact MapAddress.encode_add_ne (htokens.token_le o t h.token) (htokens.token_le p u h'.token)
    htoken (Nat.lt_of_lt_of_le hi hsize) (Nat.lt_of_lt_of_le hj hsize')

end World

namespace Machine

variable {m : Machine} {d : DeviceRef} {o : ObjectRef} {t : Token}

open World

/-- In every state of a tame run: the start of an object with a token is what is answered for
it; the bytes of the object up to `2 ^ 40`, with what follows them within the object, are mapped back
to the object and their own offset; all its bytes lead to it just when there are no more than these,
and then its range meets that of no other such object. -/
theorem bytes_lead_home_of_tameRun {moves : List Move} (hrun : empty.tameRun? moves = some m)
    (h : m.world.Carries d o t) :
    (∀ driver c hd, m.permits (.mapHandle d c hd) = true → m.world.lookupHandle c hd = .ok o →
      (m.world.client c).device = d →
      m.perform? driver (.mapHandle d c hd) = some (.ok (.address (MapAddress.encode t)), m)) ∧
    (∀ k length : UInt64, k.toNat < 2 ^ 40 →
      k.toNat + length.toNat ≤ (m.world.object o).size.toNat → ∀ driver : QuietDriver,
      (m.permits (.mapRange d (MapAddress.encode t + k) length) = true →
        m.perform? driver (.mapRange d (MapAddress.encode t + k) length) =
          some (.ok (.mapping o k), ⟨m.world.retain o, o :: m.held, m.operations⟩)) ∧
      (m.permits (.objectAtAddress d (MapAddress.encode t + k)) = true →
        m.perform? driver (.objectAtAddress d (MapAddress.encode t + k)) =
          some (.ok (.object o), ⟨m.world.retain o, o :: m.held, m.operations⟩))) ∧
    ((∀ k < (m.world.object o).size,
        (m.world.objectAtAddress d (MapAddress.encode t + k)).2 = .ok o) ↔
      (m.world.object o).size.toNat ≤ 2 ^ 40) ∧
    (∀ p u, m.world.Carries d p u → o ≠ p → (m.world.object o).size.toNat ≤ 2 ^ 40 →
      (m.world.object p).size.toNat ≤ 2 ^ 40 → ∀ i < (m.world.object o).size.toNat,
      ∀ j < (m.world.object p).size.toNat,
        (MapAddress.encode t).toNat + i ≠ (MapAddress.encode u).toNat + j) := by
  have hsound := Sound.of_tameRun hrun
  have htokens := hsound.world.tokens
  obtain ⟨-, hmanages⟩ := (fitted_of_tameRun hrun).home o (lt_size_of_refs h.live)
  rw [h.home] at hmanages
  refine ⟨fun driver c hd hperm hlook hdevice => ?_, fun k length hk hlength driver =>
    ⟨fun hperm => ?_, fun hperm => ?_⟩, h.forall_objectAtAddress_iff htokens,
    fun p u h' hne hsize hsize' i hi j hj =>
      h.ranges_disjoint h' htokens hne hsize hsize' hi hj⟩
  · have hmapped : m.Mapped o t := ⟨hsound, equipped_of_tameRun hrun, h.token, h.live⟩
    exact hmapped.answers driver hperm hlook hdevice
  · refine perform?_of_finished hperm driver ?_
    simp only [Request.start, Request.access, hmanages, h.mappingAt_eq htokens hk hlength,
      Bool.not_true, if_false, Bool.false_eq_true]
  · refine perform?_of_finished hperm driver ?_
    simp only [Request.start, h.objectAtAddress_eq htokens hk, Request.answerObject]

/-- An object of one page, mapped by way of its handle: its last byte leads to it and to its own
offset. -/
theorem bytes_lead_home_last_byte :
    ∃ m, empty.tameRun? (opening ++ [.call (.createHandle 0 0), .answer .accept, .finish,
        .call (.mapHandle 0 0 1), .work, .finish]) = some m ∧ m.world.Carries 0 0 0 ∧
      m.perform? .accepting (.mapRange 0 (MapAddress.encode 0 + 4095) 1) =
        some (.ok (.mapping 0 4095), ⟨m.world.retain 0, 0 :: m.held, m.operations⟩) ∧
      ∀ k < (m.world.object 0).size,
        (m.world.objectAtAddress 0 (MapAddress.encode 0 + k)).2 = .ok 0 := by
  have hread : (empty.tameRun? (opening ++ [.call (.createHandle 0 0), .answer .accept, .finish,
        .call (.mapHandle 0 0 1), .work, .finish])).map (fun m =>
      ([(m.world.object 0).refs, (m.world.object 0).home, (m.world.object 0).size.toNat],
        (m.world.object 0).token, (m.world.device 0).alive,
        m.permits (.mapRange 0 (MapAddress.encode 0 + 4095) 1))) =
      some ([2, 0, 4096], some 0, true, true) := by decide +kernel
  obtain ⟨m, hrun, hfacts⟩ := Option.map_eq_some_iff.mp hread
  simp only [Prod.mk.injEq, List.cons.injEq, and_true] at hfacts
  obtain ⟨⟨hrefs, hhome, hsize⟩, htoken, halive, hperm⟩ := hfacts
  have hcarries : m.world.Carries 0 0 0 := ⟨halive, by omega, hhome, htoken⟩
  obtain ⟨-, hbytes, hall, -⟩ := bytes_lead_home_of_tameRun hrun hcarries
  refine ⟨m, hrun, hcarries, ?_, hall.mpr (by rw [hsize]; decide)⟩
  exact (hbytes 4095 1 (by decide) (by rw [hsize]; decide) .accepting).1 hperm

/-- An object of one page more than `2 ^ 40` bytes and another object, both with tokens. -/
def neighbour : List Move :=
  [.call (.newDevice { handleOrder := 2, nameOrder := 2, tokenOrder := 2 } default), .finish,
    .call (.openClient 0), .finish, .call (.createObject 0 (2 ^ 40 + 4096)), .answer .accept,
    .finish, .call (.createObject 0 4096), .answer .accept, .finish, .call (.createHandle 0 0),
    .answer .accept, .finish, .call (.createHandle 0 1), .answer .accept, .finish,
    .call (.mapHandle 0 0 1), .work, .finish, .call (.mapHandle 0 0 2), .work, .finish]

/-- The last page of an object of more than `2 ^ 40` bytes has the address at which another object
starts, and mapping it hands out that other object. -/
theorem last_page_leads_astray :
    ∃ m, empty.tameRun? neighbour = some m ∧ m.world.Carries 0 0 0 ∧ m.world.Carries 0 1 1 ∧
      (m.world.object 0).size.toNat = 2 ^ 40 + 4096 ∧
      (MapAddress.encode 0).toNat + 2 ^ 40 = (MapAddress.encode 1).toNat ∧
      (m.perform? .accepting (.mapRange 0 (MapAddress.encode 0 + 2 ^ 40) 4096)).map Prod.fst =
        some (.ok (.mapping 1 0)) := by
  let r := Request.mapRange 0 (MapAddress.encode 0 + 2 ^ 40) 4096
  have hread : (empty.tameRun? neighbour).map (fun m =>
      ([(m.world.object 0).refs, (m.world.object 0).home, (m.world.object 0).size.toNat,
          (m.world.object 1).refs, (m.world.object 1).home],
        [(m.world.object 0).token, (m.world.object 1).token],
        [(m.world.device 0).alive, m.permits r], (r.start m.world).2)) =
      some ([2, 0, 2 ^ 40 + 4096, 2, 0], [some 0, some 1], [true, true],
        .finished r (.ok (.mapping 1 0))) := by decide +kernel
  obtain ⟨m, hrun, hfacts⟩ := Option.map_eq_some_iff.mp hread
  simp only [Prod.mk.injEq, List.cons.injEq, and_true] at hfacts
  obtain ⟨⟨hrefs, hhome, hsize, hrefs', hhome'⟩, ⟨htoken, htoken'⟩, ⟨halive, hperm⟩, hstart⟩ :=
    hfacts
  refine ⟨m, hrun, ⟨halive, by omega, hhome, htoken⟩, ⟨halive, by omega, hhome', htoken'⟩, hsize,
    by decide, ?_⟩
  rw [perform?_of_finished hperm .accepting (Prod.ext rfl hstart)]
  rfl

end Machine

end BufferObjects
