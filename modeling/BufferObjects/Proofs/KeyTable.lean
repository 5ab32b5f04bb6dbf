import BufferObjects.KeyTable.Probe
import BufferObjects.Proofs.Replacement
import Mathlib.Algebra.Group.Nat.Defs

/-!
A key table as a finite map. A table is well formed when its chains ascend and every key is in the
bucket of its hash; then looking a key up and listing the table tell the same story, and inserting
and removing add and take away one entry of the list. Users of a table reason about the list up to
order and about `find?`, never about buckets.
-/

open scoped List

namespace BufferObjects

/-! ### Results -/

section Results

variable {ε α β : Type} {f : α → β} {x : Except ε α}

theorem of_map_eq_ok {b : β} (h : x.map f = .ok b) : ∃ a, x = .ok a ∧ f a = b := by
  cases x with
  | error e => cases h
  | ok a => exact ⟨a, rfl, Except.ok.inj h⟩

theorem of_map_eq_error {e : ε} (h : x.map f = .error e) : x = .error e := by
  cases x with
  | error e' => exact congrArg Except.error (Except.error.inj h)
  | ok a => cases h

end Results

namespace Chain

variable {α : Type}

/-- Keys ascend strictly. -/
def Ascending (c : Chain α) : Prop := c.Pairwise fun x y => x.1 < y.1

theorem Ascending.tail {x : UInt64 × α} {c : Chain α} (h : Ascending (x :: c)) : Ascending c :=
  (List.pairwise_cons.mp h).2

theorem Ascending.head_lt {x y : UInt64 × α} {c : Chain α} (h : Ascending (x :: c)) (hy : y ∈ c) :
    x.1 < y.1 :=
  (List.pairwise_cons.mp h).1 y hy

/-- A search that stops at the first larger key misses nothing. -/
theorem Ascending.find?_eq_some_iff {c : Chain α} (h : Ascending c) {key : UInt64} {item : α} :
    c.find? key = some item ↔ (key, item) ∈ c := by
  induction c with
  | nil => simp [find?]
  | cons x rest ih =>
    obtain ⟨k, a⟩ := x
    simp only [find?, List.mem_cons, Prod.mk.injEq]
    split
    · next hk =>
      subst hk
      have hrest : (k, item) ∉ rest := by
        intro hmem
        have hlt : k < k := h.head_lt hmem
        exact UInt64.lt_irrefl _ hlt
      simp [hrest, eq_comm]
    · next hk =>
      split
      · next hlt =>
        -- the search stops here, and everything behind is larger still
        have hrest : (key, item) ∉ rest :=
          fun hmem => UInt64.lt_asymm hlt (h.head_lt hmem)
        simp [hrest, Ne.symm hk]
      · rw [ih h.tail]
        simp [Ne.symm hk]

/-- Inserting adds one entry and keeps the order; the key was not there before. -/
theorem Ascending.of_insert? {c c' : Chain α} (h : Ascending c) {key : UInt64} {item : α}
    (hins : c.insert? key item = some c') :
    Ascending c' ∧ c' ~ (key, item) :: c ∧ c.find? key = none := by
  induction c generalizing c' with
  | nil =>
    cases hins
    exact ⟨List.pairwise_singleton .., .refl _, rfl⟩
  | cons x rest ih =>
    obtain ⟨k, a⟩ := x
    simp only [insert?] at hins
    split at hins
    · simp at hins
    · next hk =>
      split at hins
      · next hlt =>
        cases hins
        refine ⟨List.pairwise_cons.mpr ⟨?_, h⟩, .refl _, ?_⟩
        · intro y hy
          rcases List.mem_cons.mp hy with rfl | hy
          · exact hlt
          · exact UInt64.lt_trans hlt (h.head_lt hy)
        · simp [find?, hk, hlt]
      · next hle =>
        -- the place is further along; the new entry changes places with the head
        obtain ⟨rest', hrest, rfl⟩ := Option.map_eq_some_iff.mp hins
        obtain ⟨hasc, hperm, hnone⟩ := ih h.tail hrest
        refine ⟨List.pairwise_cons.mpr ⟨?_, hasc⟩, ?_, ?_⟩
        · intro y hy
          rcases List.mem_cons.mp (hperm.mem_iff.mp hy) with rfl | hy
          · exact UInt64.lt_of_le_of_ne (UInt64.not_lt.mp hle) hk
          · exact h.head_lt hy
        · exact (hperm.cons _).trans (List.Perm.swap ..)
        · simp [find?, hk, hle, hnone]

theorem exists_insert? {c : Chain α} {key : UInt64} (item : α) (h : c.find? key = none) :
    ∃ c', c.insert? key item = some c' := by
  induction c with
  | nil => exact ⟨_, rfl⟩
  | cons x rest ih =>
    obtain ⟨k, a⟩ := x
    simp only [find?] at h
    simp only [insert?]
    split at h
    · simp at h
    · next hk =>
      rw [if_neg hk]
      split at h
      · next hlt => exact ⟨_, if_pos hlt⟩
      · next hlt =>
        obtain ⟨rest', hrest⟩ := ih h
        exact ⟨_, by rw [if_neg hlt, hrest]; rfl⟩

/-- Taking out removes one entry and keeps the order; the key is not there afterwards. -/
theorem Ascending.of_take? {c c' : Chain α} (h : Ascending c) {key : UInt64} {item : α}
    (htake : c.take? key = some (item, c')) :
    Ascending c' ∧ c ~ (key, item) :: c' ∧ c'.find? key = none := by
  induction c generalizing c' with
  | nil => simp [take?] at htake
  | cons x rest ih =>
    obtain ⟨k, a⟩ := x
    simp only [take?] at htake
    split at htake
    · next hk =>
      cases htake
      subst hk
      refine ⟨h.tail, .refl _, ?_⟩
      rw [Option.eq_none_iff_forall_ne_some]
      intro b hb
      have hlt : k < k := h.head_lt (h.tail.find?_eq_some_iff.mp hb)
      exact UInt64.lt_irrefl _ hlt
    · next hk =>
      split at htake
      · simp at htake
      · next hle =>
        obtain ⟨⟨b, others⟩, hrest, heq⟩ := Option.map_eq_some_iff.mp htake
        cases heq
        obtain ⟨hasc, hperm, hnone⟩ := ih h.tail hrest
        refine ⟨List.pairwise_cons.mpr ⟨?_, hasc⟩, (hperm.cons _).trans (List.Perm.swap ..), ?_⟩
        · intro y hy
          exact h.head_lt (hperm.mem_iff.mpr (List.mem_cons_of_mem _ hy))
        · simp [find?, hk, hle, hnone]

theorem map_fst_take? (c : Chain α) (key : UInt64) :
    (c.take? key).map Prod.fst = c.find? key := by
  induction c with
  | nil => rfl
  | cons x rest ih =>
    obtain ⟨k, a⟩ := x
    simp only [take?, find?]
    split
    · rfl
    · split
      · rfl
      · rw [← ih, Option.map_map]
        rfl

/-- Taking out what was just inserted gives the chain back. -/
theorem take?_of_insert? {c c' : Chain α} {key : UInt64} {item : α}
    (hins : c.insert? key item = some c') : c'.take? key = some (item, c) := by
  induction c generalizing c' with
  | nil =>
    cases hins
    simp [take?]
  | cons x rest ih =>
    obtain ⟨k, a⟩ := x
    simp only [insert?] at hins
    split at hins
    · simp at hins
    · next hk =>
      split at hins
      · cases hins
        simp [take?]
      · next hle =>
        obtain ⟨rest', hrest, rfl⟩ := Option.map_eq_some_iff.mp hins
        simp [take?, hk, hle, ih hrest]

end Chain

namespace KeyTable

variable {α : Type}

/-- Ascending chains, and every key in the bucket of its hash. -/
structure WellFormed (t : KeyTable α) : Prop where
  order_le : t.order ≤ maxTableOrder
  size_buckets : t.buckets.size = 1 <<< t.order.toNat
  ascending : ∀ chain ∈ t.buckets, Chain.Ascending chain
  placed : ∀ i (h : i < t.buckets.size), ∀ e ∈ t.buckets[i], t.bucketOf e.1 = i
  size_eq : t.size = t.toList.length

theorem WellFormed.of_create {order : UInt32} {room : Bool} {t : KeyTable α}
    (h : create order room = .ok t) : t.WellFormed ∧ t.toList = [] := by
  unfold create at h
  split at h
  · simp at h
  · next hle =>
    split at h
    · cases h
    · cases h
      have hnil : (Array.replicate (1 <<< order.toNat) ([] : Chain α)).toList.flatten = [] := by
        simp
      exact ⟨⟨UInt32.not_lt.mp hle, by simp, by simp [Chain.Ascending], by simp,
        by simp [toList]⟩, hnil⟩

theorem WellFormed.bucketOf_lt {t : KeyTable α} (h : t.WellFormed) (key : UInt64) :
    t.bucketOf key < t.buckets.size := by
  rw [h.size_buckets]
  apply hashKey_lt
  have hle := UInt32.le_iff_toNat_le.mp h.order_le
  exact Nat.le_trans hle (by decide)

theorem chainOf_eq {t : KeyTable α} {key : UInt64} (h : t.bucketOf key < t.buckets.size) :
    t.chainOf key = t.buckets[t.bucketOf key] := by
  simp [chainOf, h]

theorem chainOf_replace {t : KeyTable α} {key : UInt64} (h : t.bucketOf key < t.buckets.size)
    (chain : Chain α) (size : Nat) :
    chainOf { t with buckets := t.buckets.setIfInBounds (t.bucketOf key) chain, size } key =
      chain := by
  change (t.buckets.setIfInBounds (t.bucketOf key) chain).getD (t.bucketOf key) [] = chain
  simp [h]

theorem WellFormed.ascending_chainOf {t : KeyTable α} (h : t.WellFormed) (key : UInt64) :
    (t.chainOf key).Ascending := by
  rw [chainOf_eq (h.bucketOf_lt key)]
  exact h.ascending _ (Array.getElem_mem _)

theorem WellFormed.mem_toList_iff {t : KeyTable α} (h : t.WellFormed) {key : UInt64} {item : α} :
    (key, item) ∈ t.toList ↔ t.find? key = some item := by
  rw [find?, (h.ascending_chainOf key).find?_eq_some_iff, chainOf_eq (h.bucketOf_lt key), toList,
    List.mem_flatten]
  constructor
  · rintro ⟨chain, hchain, hmem⟩
    obtain ⟨i, hi, rfl⟩ := Array.mem_iff_getElem.mp (Array.mem_toList_iff.mp hchain)
    have hplace := h.placed i hi _ hmem
    simpa [hplace] using hmem
  · intro hmem
    exact ⟨_, Array.getElem_mem_toList _, hmem⟩

/-- A table with another chain in the bucket of a key. -/
theorem WellFormed.replace {t : KeyTable α} (h : t.WellFormed) {key : UInt64} {chain : Chain α}
    {size : Nat} (hasc : chain.Ascending) (hplaced : ∀ e ∈ chain, t.bucketOf e.1 = t.bucketOf key)
    (hsize : size + (t.chainOf key).length = t.size + chain.length) :
    let t' : KeyTable α :=
      { t with buckets := t.buckets.setIfInBounds (t.bucketOf key) chain, size }
    t'.WellFormed ∧ chain ++ t.toList ~ t.chainOf key ++ t'.toList := by
  intro t'
  have hlt : t.bucketOf key < t.buckets.toList.length := h.bucketOf_lt key
  have hperm : chain ++ t.toList ~ t.chainOf key ++ t'.toList := by
    have := flatMap_set_perm id chain hlt
    simpa [t', toList, List.flatMap_id, chainOf_eq hlt] using this
  have hbucket (i : Nat) (hi : i < t'.buckets.size) (hi' : i < t.buckets.size) :
      t'.buckets[i] = if t.bucketOf key = i then chain else t.buckets[i] :=
    Array.getElem_setIfInBounds hi'
  have hsame : t'.buckets.size = t.buckets.size := Array.size_setIfInBounds
  refine ⟨⟨h.order_le, hsame.trans h.size_buckets, ?_, ?_, ?_⟩, hperm⟩
  · intro c hc
    obtain ⟨i, hi, rfl⟩ := Array.mem_iff_getElem.mp hc
    rw [hbucket i hi (hsame ▸ hi)]
    split
    · exact hasc
    · exact h.ascending _ (Array.getElem_mem _)
  · intro i hi e he
    rw [hbucket i hi (hsame ▸ hi)] at he
    split at he
    · next hi' => exact (hplaced e he).trans hi'
    · exact h.placed i (hsame ▸ hi) e he
  · have hlen := hperm.length_eq
    have hold := h.size_eq
    simp only [List.length_append] at hlen
    change size = t'.toList.length
    omega

theorem WellFormed.placed_chainOf {t : KeyTable α} (h : t.WellFormed) {key : UInt64}
    {e : UInt64 × α} (he : e ∈ t.chainOf key) : t.bucketOf e.1 = t.bucketOf key := by
  rw [chainOf_eq (h.bucketOf_lt key)] at he
  exact h.placed _ _ e he

/-- What is filed is one chain with the item in its place, and there was room for it. -/
theorem of_insert_ok {t t' : KeyTable α} {key : UInt64} {item : α} {room : Bool}
    (h : t.insert key item room = .ok t') : room = true ∧
      ∃ chain, (t.chainOf key).insert? key item = some chain ∧
        { t with
          buckets := t.buckets.setIfInBounds (t.bucketOf key) chain
          size := t.size + 1 } = t' := by
  unfold insert at h
  split at h
  · cases h
  · next chain hchain =>
    cases room with
    | false => cases h
    | true => exact ⟨rfl, chain, hchain, Except.ok.inj h⟩

/-- Inserting adds one entry under a new key. -/
theorem WellFormed.of_insert {t t' : KeyTable α} (h : t.WellFormed) {key : UInt64} {item : α}
    {room : Bool} (hins : t.insert key item room = .ok t') :
    t'.WellFormed ∧ t'.toList ~ (key, item) :: t.toList ∧ t.find? key = none := by
  obtain ⟨-, chain, hchain, rfl⟩ := of_insert_ok hins
  obtain ⟨hasc, hperm, hnone⟩ := (h.ascending_chainOf key).of_insert? hchain
  have hplaced : ∀ e ∈ chain, t.bucketOf e.1 = t.bucketOf key := by
    intro e he
    rcases List.mem_cons.mp (hperm.mem_iff.mp he) with rfl | he
    · rfl
    · exact h.placed_chainOf he
  have hlen := hperm.length_eq
  rw [List.length_cons] at hlen
  have hsize : t.size + 1 + (t.chainOf key).length = t.size + chain.length := by omega
  obtain ⟨hwf, hlist⟩ := h.replace hasc hplaced hsize
  refine ⟨hwf, ?_, hnone⟩
  -- what the other buckets hold is left when the old chain is cancelled on both sides
  apply (List.perm_append_left_iff (t.chainOf key)).mp
  exact hlist.symm.trans ((hperm.append_right _).trans List.perm_middle.symm)

/-- Under a free key an item is filed, if there is room for it. -/
theorem exists_insert {t : KeyTable α} {key : UInt64} (item : α) (h : t.find? key = none) :
    ∃ t', t.insert key item true = .ok t' := by
  obtain ⟨chain, hchain⟩ := Chain.exists_insert? item h
  exact ⟨_, by rw [insert, hchain]; rfl⟩

theorem insert_of_noRoom {t : KeyTable α} {key : UInt64} (item : α) (h : t.find? key = none) :
    t.insert key item false = .error .outOfMemory := by
  obtain ⟨chain, hchain⟩ := Chain.exists_insert? item h
  rw [insert, hchain]
  rfl

theorem find?_of_remove_ok {t t' : KeyTable α} {key : UInt64} {item : α}
    (h : t.remove key = .ok (item, t')) : t.find? key = some item := by
  unfold remove at h
  split at h
  · simp at h
  · next b chain htake =>
    cases h
    rw [find?, ← Chain.map_fst_take?, htake]
    rfl

/-- Removing takes one entry away; the key is bound no more. -/
theorem WellFormed.of_remove {t t' : KeyTable α} (h : t.WellFormed) {key : UInt64} {item : α}
    (hrem : t.remove key = .ok (item, t')) :
    t'.WellFormed ∧ t.toList ~ (key, item) :: t'.toList ∧ t'.find? key = none := by
  have hfound := find?_of_remove_ok hrem
  unfold remove at hrem
  split at hrem
  · simp at hrem
  · next b chain htake =>
    obtain ⟨hasc, hperm, hnone⟩ := (h.ascending_chainOf key).of_take? htake
    have hplaced : ∀ e ∈ chain, t.bucketOf e.1 = t.bucketOf key := by
      intro e he
      exact h.placed_chainOf (hperm.mem_iff.mpr (List.mem_cons_of_mem _ he))
    have hpos : 0 < t.size := by
      rw [h.size_eq]
      exact List.length_pos_of_mem (h.mem_toList_iff.mpr hfound)
    have hlen := hperm.length_eq
    rw [List.length_cons] at hlen
    have hsize : t.size - 1 + (t.chainOf key).length = t.size + chain.length := by omega
    obtain ⟨hwf, hlist⟩ := h.replace hasc hplaced hsize
    cases hrem
    refine ⟨hwf, ?_, ?_⟩
    · apply (List.perm_append_left_iff chain).mp
      exact hlist.trans ((hperm.append_right _).trans List.perm_middle.symm)
    · rw [find?, chainOf_replace (h.bucketOf_lt key), hnone]

theorem exists_remove {t : KeyTable α} {key : UInt64} {item : α} (h : t.find? key = some item) :
    ∃ t', t.remove key = .ok (item, t') := by
  rw [find?, ← Chain.map_fst_take?] at h
  obtain ⟨⟨b, chain⟩, htake, rfl⟩ := Option.map_eq_some_iff.mp h
  exact ⟨_, by rw [remove, htake]⟩

/-- Removing what was just inserted gives the table back. -/
theorem WellFormed.remove_of_insert {t t' : KeyTable α} (h : t.WellFormed) {key : UInt64}
    {item : α} {room : Bool} (hins : t.insert key item room = .ok t') :
    t'.remove key = .ok (item, t) := by
  obtain ⟨-, chain, hchain, rfl⟩ := of_insert_ok hins
  have hlt := h.bucketOf_lt key
  have hback : (t.buckets.setIfInBounds (t.bucketOf key) chain).setIfInBounds (t.bucketOf key)
      (t.chainOf key) = t.buckets := by
    rw [chainOf_eq hlt]
    simp [Array.setIfInBounds, hlt]
  rw [remove, chainOf_replace hlt, Chain.take?_of_insert? hchain]
  change Except.ok (item, { t with
    buckets := (t.buckets.setIfInBounds (t.bucketOf key) chain).setIfInBounds (t.bucketOf key)
      (t.chainOf key) }) = _
  rw [hback]

theorem find?_of_remove_error {t : KeyTable α} {key : UInt64} {e : TableError}
    (h : t.remove key = .error e) : t.find? key = none := by
  cases hfind : t.find? key with
  | none => rfl
  | some item =>
    obtain ⟨t', hok⟩ := exists_remove hfind
    rw [hok] at h
    simp at h

/-- Of two tables one of which has one entry more, the larger finds that entry and otherwise what
the smaller finds. -/
theorem WellFormed.find?_of_perm_cons {t t' : KeyTable α} (h : t.WellFormed) (h' : t'.WellFormed)
    {key : UInt64} {item : α} (hperm : t'.toList ~ (key, item) :: t.toList)
    (hnone : t.find? key = none) (j : UInt64) :
    t'.find? j = if j = key then some item else t.find? j := by
  apply Option.ext
  intro b
  rw [← h'.mem_toList_iff, hperm.mem_iff, List.mem_cons, Prod.mk.injEq, h.mem_toList_iff]
  split
  · next hj =>
    subst hj
    simp [hnone, eq_comm]
  · next hj => simp [hj]

theorem WellFormed.find?_of_insert {t t' : KeyTable α} (h : t.WellFormed) {key : UInt64} {item : α}
    {room : Bool} (hins : t.insert key item room = .ok t') (j : UInt64) :
    t'.find? j = if j = key then some item else t.find? j := by
  obtain ⟨h', hperm, hnone⟩ := h.of_insert hins
  exact h.find?_of_perm_cons h' hperm hnone j

theorem WellFormed.find?_of_remove {t t' : KeyTable α} (h : t.WellFormed) {key : UInt64} {item : α}
    (hrem : t.remove key = .ok (item, t')) (j : UInt64) :
    t'.find? j = if j = key then none else t.find? j := by
  obtain ⟨h', hperm, hnone⟩ := h.of_remove hrem
  rw [h'.find?_of_perm_cons h hperm hnone]
  split
  · next hj => rw [hj, hnone]
  · rfl

/-! ### Inserting under any free key -/

/-- A probe hits upon a candidate, and upon one that is free. -/
theorem of_probe {t : KeyTable α} {shift : UInt32} {add : UInt64} {space : Nat}
    {first c : Fin space} {key : UInt64} (h : t.probe shift add first c = some key) :
    (∃ k < space, key = candidate shift add k) ∧ t.find? key = none := by
  fun_induction probe t shift add first c with
  | case1 => cases h
  | case2 c hused next hnext ih => exact ih h
  | case3 c hfree =>
    cases h
    exact ⟨⟨c, c.isLt, rfl⟩, by simpa [contains] using hfree⟩

/-- What inserting under any free key can come to. -/
inductive AnyInsertion (t : KeyTable α) (item : α) (bits shift : UInt32) (add : UInt64)
    (room : Bool) : Outcome TableError (UInt64 × KeyTable α) → Prop
  /-- The item is filed under a candidate as under any other key. -/
  | filed {k : Nat} {t' : KeyTable α} : k < 2 ^ bits.toNat →
      t.insert (candidate shift add k) item room = .ok t' →
        AnyInsertion t item bits shift add room (.ok (candidate shift add k, t'))
  | exhausted : AnyInsertion t item bits shift add room (.error .keySpaceExhausted)
  | invalid : (bits = 0 ∨ 63 < bits) ∨ invalidSpace bits shift add = true →
      AnyInsertion t item bits shift add room (.error .invalidKeySpace)
  /-- A candidate is free, but there is no room for the entry. -/
  | noRoom {k : Nat} : k < 2 ^ bits.toNat → t.find? (candidate shift add k) = none →
      room = false → AnyInsertion t item bits shift add room (.error .outOfMemory)
  /-- Only a width and a shift that have no sum break anything. -/
  | overflow : UInt32.size ≤ bits.toNat + shift.toNat →
      AnyInsertion t item bits shift add room (.fault .additionOverflow)

theorem insertAny_spec (t : KeyTable α) (item : α) (seed : UInt64) (bits shift : UInt32)
    (add : UInt64) (room : Bool) :
    AnyInsertion t item bits shift add room (t.insertAny item seed bits shift add room) := by
  unfold insertAny
  split
  · next hbits => exact .invalid (Or.inl hbits)
  · split
    · next hsum => exact .overflow hsum
    · split
      · next hspace => exact .invalid (Or.inr hspace)
      · dsimp only
        split
        · exact .exhausted
        · next key hprobe =>
          obtain ⟨⟨k, hk, rfl⟩, hnone⟩ := of_probe hprobe
          rw [Nat.one_shiftLeft] at hk
          cases room with
          | false =>
            rw [insert_of_noRoom item hnone]
            exact .noRoom hk hnone rfl
          | true =>
            obtain ⟨t', hins⟩ := exists_insert item hnone
            rw [hins]
            exact .filed hk hins

end KeyTable

end BufferObjects
