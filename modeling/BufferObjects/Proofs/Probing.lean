import BufferObjects.Proofs.Dependable
import Mathlib.Data.Nat.ModEq

/-!
Probing for a free key. The loop has no counter: it goes from candidate to candidate under a mask
and stops at a free key, or when the candidate it began with is next. That it stops, and has seen
every candidate when it gives up, is an argument about going round: candidate `(first + i) % space`
is the one that is looked at after `i` others, `i` runs through the space once, and the sum comes
back to `first` only at its end.

The keys are computed modulo `2 ^ 64`. A width and a shift that fit into a word together keep the
keys of different candidates apart, whatever is added to them.
-/

namespace BufferObjects.KeyTable

variable {α : Type} {t : KeyTable α} {bits shift : UInt32} {add : UInt64}

/-! ### Spaces of keys -/

/-- A width, a shift and an addend that describe a space of keys. -/
structure KeySpace (bits shift : UInt32) (add : UInt64) : Prop where
  bits_pos : 0 < bits.toNat
  bits_lt : bits.toNat < 64
  sum_le : bits.toNat + shift.toNat ≤ 64
  add_lt : 0 < shift.toNat → add.toNat < 2 ^ shift.toNat

theorem not_keySpace_iff : ¬ KeySpace bits shift add ↔
    bits.toNat = 0 ∨ 63 < bits.toNat ∨ 64 < bits.toNat + shift.toNat ∨
      0 < shift.toNat ∧ 2 ^ shift.toNat ≤ add.toNat := by
  constructor
  · intro h
    by_contra hnone
    simp only [not_or, not_and, Nat.not_le, Nat.not_lt] at hnone
    obtain ⟨hzero, hle, hsum, hadd⟩ := hnone
    exact h ⟨Nat.pos_of_ne_zero hzero, Nat.lt_succ_of_le hle, hsum, hadd⟩
  · rintro hsome ⟨hpos, hlt, hsum, hadd⟩
    rcases hsome with h | h | h | ⟨hshift, h⟩
    · omega
    · omega
    · omega
    · exact absurd (hadd hshift) (Nat.not_lt.mpr h)

namespace KeySpace

theorem shift_lt (h : KeySpace bits shift add) : shift.toNat < 64 := by
  have hpos := h.bits_pos
  have hsum := h.sum_le
  omega

/-- Shifting loses no bit of a candidate. -/
theorem add_two_pow_le (h : KeySpace bits shift add) {c : Nat} (hc : c < 2 ^ bits.toNat) :
    c * 2 ^ shift.toNat + 2 ^ shift.toNat ≤ 2 ^ 64 := by
  calc c * 2 ^ shift.toNat + 2 ^ shift.toNat
      = (c + 1) * 2 ^ shift.toNat := (Nat.succ_mul ..).symm
    _ ≤ 2 ^ bits.toNat * 2 ^ shift.toNat := Nat.mul_le_mul_right _ hc
    _ = 2 ^ (bits.toNat + shift.toNat) := (Nat.pow_add ..).symm
    _ ≤ 2 ^ 64 := Nat.pow_le_pow_right (by decide) h.sum_le

theorem toNat_candidate_mod (h : KeySpace bits shift add) {c : Nat} (hc : c < 2 ^ bits.toNat) :
    (candidate shift add c).toNat = (c * 2 ^ shift.toNat + add.toNat) % 2 ^ 64 := by
  have hword := Nat.pow_lt_pow_right Nat.one_lt_two h.bits_lt
  exact KeyTable.toNat_candidate_mod add h.shift_lt (Nat.lt_trans hc hword)

/-- Different candidates make different keys, although the addend may carry them past the end of
the word. -/
theorem candidate_injOn (h : KeySpace bits shift add) :
    Set.InjOn (candidate shift add) (Set.Iio (2 ^ bits.toNat)) := by
  intro c hc d hd heq
  have hcword := h.add_two_pow_le hc
  have hdword := h.add_two_pow_le hd
  have hpos := Nat.two_pow_pos shift.toNat
  rw [← UInt64.toNat_inj, h.toNat_candidate_mod hc, h.toNat_candidate_mod hd] at heq
  have hmul : c * 2 ^ shift.toNat = d * 2 ^ shift.toNat := by omega
  exact Nat.eq_of_mul_eq_mul_right hpos hmul

/-- With a shift, the addend is the low bits of a key and the candidate its upper part. -/
theorem candidate_parts (h : KeySpace bits shift add) (hshift : 0 < shift.toNat) {c : Nat}
    (hc : c < 2 ^ bits.toNat) :
    (candidate shift add c).toNat % 2 ^ shift.toNat = add.toNat ∧
      (candidate shift add c).toNat / 2 ^ shift.toNat = c := by
  have hadd := h.add_lt hshift
  have hword := h.add_two_pow_le hc
  rw [KeyTable.toNat_candidate h.shift_lt (by omega), Nat.add_comm]
  constructor
  · rw [Nat.add_mul_mod_self_right, Nat.mod_eq_of_lt hadd]
  · rw [Nat.add_mul_div_right _ _ (Nat.two_pow_pos _), Nat.div_eq_of_lt hadd, Nat.zero_add]

end KeySpace

/-! ### Going round -/

/-- The search for a free key with a bound on the candidates that are looked at; nothing when the
bound is met before the search is over. -/
def probeWithin (t : KeyTable α) (shift : UInt32) (add : UInt64) (space first : Nat) :
    Nat → Nat → Option (Option UInt64)
  | 0, _ => none
  | looks + 1, c =>
    if t.contains (candidate shift add c) then
      let next := (c + 1) % space
      if next = first then some none else probeWithin t shift add space first looks next
    else some (some (candidate shift add c))

/-- A search that ends within a bound is the search. -/
theorem probe_of_probeWithin {space looks : Nat} {first c : Fin space} {found : Option UInt64}
    (h : t.probeWithin shift add space first looks c = some found) :
    t.probe shift add first c = found := by
  induction looks generalizing c with
  | zero => cases h
  | succ looks ih =>
    rw [probe]
    simp only [probeWithin] at h
    split at h
    · next hused =>
      rw [if_pos hused]
      split at h
      · next hnext => simpa [hnext] using h
      · next hnext => rw [dif_neg hnext, ih h]
    · next hfree => simpa [hfree] using h

section Round

variable {space first : Nat}

theorem succ_turn (j : Nat) : ((first + j) % space + 1) % space = (first + (j + 1)) % space := by
  rw [Nat.mod_add_mod, Nat.add_assoc]

/-- Before the space is through, the start does not come round. -/
theorem turn_ne_first (hfirst : first < space) {j : Nat} (hpos : 0 < j) (hj : j < space) :
    (first + j) % space ≠ first := by
  rcases Nat.lt_or_ge (first + j) space with hlt | hge
  · rw [Nat.mod_eq_of_lt hlt]
    omega
  · rw [Nat.mod_eq_sub_mod hge, Nat.mod_eq_of_lt (by omega)]
    omega

/-- No candidate has two turns. -/
theorem turn_injOn : Set.InjOn (fun i => (first + i) % space) (Set.Iio space) := by
  intro i hi j hj heq
  have hmod : i ≡ j [MOD space] := Nat.ModEq.add_left_cancel' first heq
  rwa [Nat.ModEq, Nat.mod_eq_of_lt hi, Nat.mod_eq_of_lt hj] at hmod

/-- Every candidate has its turn. -/
theorem exists_turn (hfirst : first < space) {c : Nat} (hc : c < space) :
    ∃ i < space, (first + i) % space = c := by
  rcases Nat.lt_or_ge c first with hlt | hge
  · refine ⟨c + space - first, by omega, ?_⟩
    rw [show first + (c + space - first) = c + space by omega, Nat.add_mod_right,
      Nat.mod_eq_of_lt hc]
  · exact ⟨c - first, by omega, by rw [Nat.add_sub_cancel' hge, Nat.mod_eq_of_lt hc]⟩

/-- A look at a taken key is followed by one at the next candidate, unless that is the first. -/
theorem probeWithin_succ_of_taken {j : Nat} (hfirst : first < space) (hj : j + 1 < space)
    (htaken : t.contains (candidate shift add ((first + j) % space)) = true) (looks : Nat) :
    t.probeWithin shift add space first (looks + 1) ((first + j) % space) =
      t.probeWithin shift add space first looks ((first + (j + 1)) % space) := by
  have hnext := turn_ne_first hfirst (Nat.succ_pos j) hj
  simp only [probeWithin, htaken, if_true, succ_turn, hnext, if_false]

/-- From its `j`th candidate on, a search finds the first free key, with one look at each candidate
up to there. -/
theorem probeWithin_of_free {i j : Nat} (hfirst : first < space) (hij : j + i < space)
    (htaken : ∀ k < i, t.contains (candidate shift add ((first + (j + k)) % space)) = true)
    (hfree : t.contains (candidate shift add ((first + (j + i)) % space)) = false) (looks : Nat) :
    t.probeWithin shift add space first looks ((first + j) % space) =
      if i < looks then some (some (candidate shift add ((first + (j + i)) % space)))
      else none := by
  induction i generalizing j looks with
  | zero =>
    cases looks with
    | zero => rfl
    | succ looks => simp_all [probeWithin]
  | succ i ih =>
    cases looks with
    | zero => rfl
    | succ looks =>
      have hhead : t.contains (candidate shift add ((first + j) % space)) = true :=
        htaken 0 (Nat.succ_pos i)
      have hnext (k : Nat) : j + (k + 1) = j + 1 + k := by omega
      rw [probeWithin_succ_of_taken hfirst (by omega) hhead, hnext i]
      rw [hnext i] at hfree
      rw [ih (by omega) (fun k hk => hnext k ▸ htaken (k + 1) (Nat.succ_lt_succ hk)) hfree]
      simp only [Nat.succ_lt_succ_iff]

/-- When every key is taken, a search goes round once and has looked at every candidate. -/
theorem probeWithin_of_taken {i j : Nat} (hfirst : first < space) (hij : j + i + 1 = space)
    (htaken : ∀ c < space, t.contains (candidate shift add c) = true) (looks : Nat) :
    t.probeWithin shift add space first looks ((first + j) % space) =
      if i < looks then some none else none := by
  have hhead := htaken _ (Nat.mod_lt (first + j) (Nat.zero_lt_of_lt hfirst))
  induction i generalizing j looks with
  | zero =>
    cases looks with
    | zero => rfl
    | succ looks =>
      have hround : (first + (j + 1)) % space = first := by
        rw [show j + 1 = space by omega, Nat.add_mod_right, Nat.mod_eq_of_lt hfirst]
      simp only [probeWithin, hhead, if_true, succ_turn, hround, Nat.succ_pos]
  | succ i ih =>
    cases looks with
    | zero => rfl
    | succ looks =>
      have hnext := htaken _ (Nat.mod_lt (first + (j + 1)) (Nat.zero_lt_of_lt hfirst))
      rw [probeWithin_succ_of_taken hfirst (by omega) hhead, ih (by omega) _ hnext]
      simp only [Nat.succ_lt_succ_iff]

end Round

/-! ### Inserting under the first free key -/

/-- Candidate number `i` in the order in which they are tried. -/
def nthCandidate (seed : UInt64) (bits shift : UInt32) (add : UInt64) (i : Nat) : UInt64 :=
  candidate shift add (((hashKey seed bits).toNat + i) % 2 ^ bits.toNat)

/-- What the search for a key under which to insert comes to when it may look at so many
candidates. -/
def searchWithin (t : KeyTable α) (seed : UInt64) (bits shift : UInt32) (add : UInt64)
    (looks : Nat) : Option (Option UInt64) :=
  t.probeWithin shift add (2 ^ bits.toNat) (hashKey seed bits).toNat looks (hashKey seed bits).toNat

/-- What an insertion under any free key of a space does to a table, and replies: the key is the
first free one, it takes one look at each candidate up to there, and no other key is touched; if
there is no room for the entry, none is at all. -/
inductive Probed (t : KeyTable α) (item : α) (seed : UInt64) (bits shift : UInt32) (add : UInt64)
    (room : Bool) : KeyTable α × Reply α → Prop
  | filed {i : Nat} {t' : KeyTable α} : i < 2 ^ bits.toNat →
      (∀ k < i, t.contains (nthCandidate seed bits shift add k) = true) →
      t.find? (nthCandidate seed bits shift add i) = none →
      (∀ looks, t.searchWithin seed bits shift add looks =
        if i < looks then some (some (nthCandidate seed bits shift add i)) else none) →
      room = true → t.insert (nthCandidate seed bits shift add i) item room = .ok t' →
      (∀ key, t'.find? key =
        if key = nthCandidate seed bits shift add i then some item else t.find? key) →
      Probed t item seed bits shift add room (t', .key (nthCandidate seed bits shift add i))
  | noRoom {i : Nat} : i < 2 ^ bits.toNat →
      (∀ k < i, t.contains (nthCandidate seed bits shift add k) = true) →
      t.find? (nthCandidate seed bits shift add i) = none →
      (∀ looks, t.searchWithin seed bits shift add looks =
        if i < looks then some (some (nthCandidate seed bits shift add i)) else none) →
      room = false → Probed t item seed bits shift add room (t, .error .outOfMemory)
  | exhausted : (∀ c < 2 ^ bits.toNat, t.contains (candidate shift add c) = true) →
      (∀ looks, t.searchWithin seed bits shift add looks =
        if 2 ^ bits.toNat ≤ looks then some none else none) →
      Probed t item seed bits shift add room (t, .error .keySpaceExhausted)

theorem insertAny_of_not_keySpace (item : α) (seed : UInt64)
    (hsum : bits.toNat + shift.toNat < UInt32.size) (h : ¬ KeySpace bits shift add) (room : Bool) :
    t.insertAny item seed bits shift add room = .error .invalidKeySpace := by
  unfold insertAny
  split
  · rfl
  next hbits =>
  simp only [not_or, ← UInt32.toNat_inj, UInt32.not_lt, UInt32.le_iff_toNat_le, UInt32.toNat_zero,
    UInt32.reduceToNat] at hbits
  rw [if_neg (Nat.not_le.mpr hsum), if_pos]
  by_contra hvalid
  rw [Bool.not_eq_true, invalidSpace_eq_false_iff (by omega) hsum] at hvalid
  exact h ⟨by omega, by omega, hvalid.1, hvalid.2⟩

/-- In a space of keys an insertion is a search and the filing of what is found. -/
theorem KeySpace.insertAny_eq (h : KeySpace bits shift add) (t : KeyTable α) (item : α)
    (seed : UInt64) {looks : Nat} {found : Option UInt64}
    (hsearch : t.searchWithin seed bits shift add looks = some found) (room : Bool) :
    t.insertAny item seed bits shift add room =
      found.elim (.error .keySpaceExhausted) fun key =>
        Outcome.ofExcept ((t.insert key item room).map fun t' => (key, t')) := by
  obtain ⟨hpos, hlt, hsum, hadd⟩ := h
  have hbits : ¬ (bits = 0 ∨ 63 < bits) := by
    simp only [not_or, ← UInt32.toNat_inj, UInt32.not_lt, UInt32.le_iff_toNat_le,
      UInt32.toNat_zero, UInt32.reduceToNat]
    omega
  have hword : bits.toNat + shift.toNat < UInt32.size := Nat.lt_of_le_of_lt hsum (by decide)
  have hspace : invalidSpace bits shift add = false :=
    (invalidSpace_eq_false_iff hpos hword).mpr ⟨hsum, hadd⟩
  unfold insertAny
  rw [dif_neg hbits, if_neg (Nat.not_le.mpr hword), hspace, if_neg Bool.false_ne_true]
  dsimp only
  rw [searchWithin, ← Nat.one_shiftLeft] at hsearch
  rw [probe_of_probeWithin hsearch]
  cases found <;> rfl

theorem KeySpace.hash_lt (h : KeySpace bits shift add) (seed : UInt64) :
    (hashKey seed bits).toNat < 2 ^ bits.toNat := by
  rw [← Nat.one_shiftLeft]
  exact hashKey_lt seed (Nat.le_of_lt h.bits_lt)

theorem KeySpace.nthCandidate_zero (h : KeySpace bits shift add) (seed : UInt64) :
    ((hashKey seed bits).toNat + 0) % 2 ^ bits.toNat = (hashKey seed bits).toNat :=
  Nat.mod_eq_of_lt (h.hash_lt seed)

/-- A candidate that is free keeps the space from being used up. -/
theorem not_all_taken {seed : UInt64} {i : Nat}
    (hnone : t.find? (nthCandidate seed bits shift add i) = none) :
    ¬ ∀ c < 2 ^ bits.toNat, t.contains (candidate shift add c) = true := by
  intro hall
  have hused := hall _ (Nat.mod_lt ((hashKey seed bits).toNat + i) (Nat.two_pow_pos _))
  rw [contains, ← nthCandidate, hnone] at hused
  cases hused

theorem Probed.error_iff {item : α} {seed : UInt64} {e : TableError} {room : Bool}
    {result : KeyTable α × Reply α} (h : Probed t item seed bits shift add room result) :
    result.2 = .error e ↔
      (e = .keySpaceExhausted ∧
        ∀ c < 2 ^ bits.toNat, t.contains (candidate shift add c) = true) ∨
      (e = .outOfMemory ∧ room = false ∧
        ¬ ∀ c < 2 ^ bits.toNat, t.contains (candidate shift add c) = true) := by
  cases h with
  | filed _ _ hnone _ hroom => simp [not_all_taken hnone, hroom]
  | noRoom _ _ hnone _ hroom =>
    have hfree := not_all_taken hnone
    constructor
    · rintro ⟨⟩
      exact Or.inr ⟨rfl, hroom, hfree⟩
    · rintro (⟨-, hall⟩ | ⟨rfl, -⟩)
      · exact absurd hall hfree
      · rfl
  | exhausted hall =>
    constructor
    · rintro ⟨⟩
      exact Or.inl ⟨rfl, hall⟩
    · rintro (⟨rfl, -⟩ | ⟨-, -, hfree⟩)
      · rfl
      · exact absurd hall hfree

theorem Probed.fst_of_error {item : α} {seed : UInt64} {e : TableError} {room : Bool}
    {result : KeyTable α × Reply α} (h : Probed t item seed bits shift add room result)
    (he : result.2 = .error e) : result.1 = t := by
  cases h with
  | filed => cases he
  | noRoom => rfl
  | exhausted => rfl

/-- An insertion into a well-formed table goes through the candidates in their order. -/
theorem WellFormed.probed (hwf : t.WellFormed) (h : KeySpace bits shift add) (item : α)
    (seed : UInt64) (room : Bool) : Probed t item seed bits shift add room
      ((Call.insertAny item seed bits shift add room).act t) := by
  have hfirst := h.hash_lt seed
  by_cases hall : ∃ i, i < 2 ^ bits.toNat ∧
      t.contains (nthCandidate seed bits shift add i) = false
  · classical
    -- the first free candidate is the free one with the least number in the order
    obtain ⟨hi, hfree⟩ := Nat.find_spec hall
    have htaken (k : Nat) (hk : k < Nat.find hall) :
        t.contains (nthCandidate seed bits shift add k) = true := by
      have hmin := Nat.find_min hall hk
      simpa [Nat.lt_trans hk hi] using hmin
    generalize Nat.find hall = i at hi hfree htaken
    have hsearch (looks : Nat) : t.searchWithin seed bits shift add looks =
        if i < looks then some (some (nthCandidate seed bits shift add i)) else none := by
      have hround := probeWithin_of_free (i := i) (j := 0) hfirst (by omega)
        (fun k hk => by rw [Nat.zero_add]; exact htaken k hk)
        (by rw [Nat.zero_add]; exact hfree) looks
      rw [h.nthCandidate_zero, Nat.zero_add] at hround
      exact hround
    have hnone : t.find? (nthCandidate seed bits shift add i) = none := by
      simpa [contains] using hfree
    have hfound := hsearch (i + 1)
    rw [if_pos (Nat.lt_succ_self i)] at hfound
    cases room with
    | false =>
      simp only [Call.act, h.insertAny_eq t item seed hfound, Option.elim_some,
        insert_of_noRoom item hnone, Except.map, Outcome.ofExcept]
      exact .noRoom hi htaken hnone hsearch rfl
    | true =>
      obtain ⟨t', hins⟩ := exists_insert item hnone
      simp only [Call.act, h.insertAny_eq t item seed hfound, Option.elim_some, hins, Except.map,
        Outcome.ofExcept]
      exact .filed hi htaken hnone hsearch rfl hins (hwf.find?_of_insert hins)
  · have htaken (c : Nat) (hc : c < 2 ^ bits.toNat) :
        t.contains (candidate shift add c) = true := by
      obtain ⟨i, hi, rfl⟩ := exists_turn hfirst hc
      by_contra hfree
      exact hall ⟨i, hi, by simpa [nthCandidate] using hfree⟩
    have hsearch (looks : Nat) : t.searchWithin seed bits shift add looks =
        if 2 ^ bits.toNat ≤ looks then some none else none := by
      have hpos := Nat.two_pow_pos bits.toNat
      have hround := probeWithin_of_taken (i := 2 ^ bits.toNat - 1) (j := 0) hfirst (by omega)
        htaken looks
      rw [h.nthCandidate_zero] at hround
      rw [searchWithin, hround]
      exact if_congr (by omega) rfl rfl
    have hfound := hsearch (2 ^ bits.toNat)
    rw [if_pos (Nat.le_refl _)] at hfound
    simp only [Call.act, h.insertAny_eq t item seed hfound, Option.elim_none]
    exact .exhausted htaken hsearch

theorem WellFormed.of_after {order : UInt32} {room₀ : Bool} {t₀ : KeyTable α}
    (hcreate : create order room₀ = .ok t₀) (calls : List (Call α)) :
    (after t₀ calls).WellFormed := by
  obtain ⟨m, -, hholds⟩ := tells_replies (.of_create hcreate) calls
  exact hholds.wellFormed

/-- Inserting under any free key looks at every candidate that it has to, and at none twice. On a
table that any calls have led to, and with a width and a shift that have a sum: the space is refused
just when it is none, with the table as it was. In a space the `2 ^ bits` keys all differ and, with
a shift, carry the addend in their low bits; and the item is filed under the first of them that is
free in their cyclic order from the hash of the seed, or is refused because none is, or because
there is no room in memory. No key is ever refused as a duplicate. -/
theorem insertAny_looks_at_all {order : UInt32} {room₀ : Bool} {t₀ : KeyTable α}
    (hcreate : create order room₀ = .ok t₀) (calls : List (Call α)) (item : α) (seed : UInt64)
    (bits shift : UInt32) (add : UInt64) (room : Bool)
    (hsum : bits.toNat + shift.toNat < UInt32.size) :
    let t := after t₀ calls
    let result := (Call.insertAny item seed bits shift add room).act t
    (result.2 = .error .invalidKeySpace ↔
      bits.toNat = 0 ∨ 63 < bits.toNat ∨ 64 < bits.toNat + shift.toNat ∨
        0 < shift.toNat ∧ 2 ^ shift.toNat ≤ add.toNat) ∧
    (result.2 = .error .keySpaceExhausted ↔
      KeySpace bits shift add ∧ ∀ c < 2 ^ bits.toNat, t.contains (candidate shift add c) = true) ∧
    (result.2 = .error .outOfMemory ↔ KeySpace bits shift add ∧ room = false ∧
      ¬ ∀ c < 2 ^ bits.toNat, t.contains (candidate shift add c) = true) ∧
    (∀ e, result.2 = .error e → result.1 = t ∧ e ≠ .duplicateKey) ∧
    (KeySpace bits shift add → Probed t item seed bits shift add room result ∧
      Set.InjOn (candidate shift add) (Set.Iio (2 ^ bits.toNat)) ∧
      ∀ c < 2 ^ bits.toNat,
        (candidate shift add c).toNat = (c * 2 ^ shift.toNat + add.toNat) % 2 ^ 64 ∧
        (0 < shift.toNat → (candidate shift add c).toNat % 2 ^ shift.toNat = add.toNat ∧
          (candidate shift add c).toNat / 2 ^ shift.toNat = c)) := by
  intro t result
  by_cases hspace : KeySpace bits shift add
  · have hprobed : Probed t item seed bits shift add room result :=
      (WellFormed.of_after hcreate calls).probed hspace item seed room
    refine ⟨?_, ?_, ?_, ?_, fun _ => ⟨hprobed, hspace.candidate_injOn, fun c hc =>
      ⟨hspace.toNat_candidate_mod hc, fun hshift => hspace.candidate_parts hshift hc⟩⟩⟩
    · rw [← not_keySpace_iff, hprobed.error_iff]
      simp [hspace]
    · rw [hprobed.error_iff]
      simp [hspace]
    · rw [hprobed.error_iff]
      simp [hspace]
    · intro e he
      obtain ⟨rfl, -⟩ | ⟨rfl, -⟩ := hprobed.error_iff.mp he <;>
        exact ⟨hprobed.fst_of_error he, by simp⟩
  · have hresult : result = (t, .error .invalidKeySpace) := by
      simp only [result, Call.act, insertAny_of_not_keySpace item seed hsum hspace]
    rw [hresult]
    refine ⟨iff_of_true rfl (not_keySpace_iff.mp hspace), ?_, ?_, ?_, fun h => absurd h hspace⟩
    · exact ⟨by simp, fun h => absurd h.1 hspace⟩
    · exact ⟨by simp, fun h => absurd h.1 hspace⟩
    · intro e he
      cases he
      exact ⟨rfl, by simp⟩

/-- Four candidates, the keys 1, 3, 5 and 7, tried from the first on. With 1 and 5 taken the item is
filed under 3, and that takes two looks. -/
theorem insertAny_second_of_four :
    let calls : List (Call Nat) := [.insert 1 7 true, .insert 5 8 true]
    ∃ t₀ : KeyTable Nat, create 1 true = .ok t₀ ∧
      (2 : UInt32).toNat + (1 : UInt32).toNat < UInt32.size ∧ KeySpace 2 1 1 ∧
      ((Call.insertAny 9 0 2 1 1 true).act (after t₀ calls)).2 = .key 3 ∧
      Probed (after t₀ calls) 9 0 2 1 1 true
        ((Call.insertAny 9 0 2 1 1 true).act (after t₀ calls)) ∧
      ∀ looks, (after t₀ calls).searchWithin 0 2 1 1 looks = some (some 3) → 2 ≤ looks := by
  intro calls
  have hsum : (2 : UInt32).toNat + (1 : UInt32).toNat < UInt32.size := by decide
  have hspace : KeySpace 2 1 1 := ⟨by decide, by decide, by decide, by decide⟩
  have hcreate : create 1 true = .ok (⟨1, #[[], []], 0⟩ : KeyTable Nat) := rfl
  obtain ⟨-, -, -, -, hvalid⟩ := insertAny_looks_at_all hcreate calls 9 0 2 1 1 true hsum
  have hfound : searchWithin (after ⟨1, #[[], []], 0⟩ calls) 0 2 1 1 2 = some (some 3) := by
    decide +kernel
  refine ⟨_, hcreate, hsum, hspace, ?_, (hvalid hspace).1, fun looks hsearch => ?_⟩
  · simp only [Call.act, hspace.insertAny_eq _ 9 0 hfound true, calls]
    rfl
  · rcases looks with _ | _ | looks
    · cases hsearch
    · exact absurd hsearch (by decide +kernel)
    · exact Nat.le_add_left 2 looks

end BufferObjects.KeyTable
