import BufferObjects.IdAllocator
import BufferObjects.Proofs.Bitmap

/-!
The ids that an allocator has in use. Handing out adds exactly one id, the least that was not in
use, and fails only when all of them are or when the bitmap has to grow and cannot; taking back
removes exactly the id given back; both stay inside the range. Users of an allocator need not know
about its bits: allocators with the same ids in use hand out the same id next, wherever they start
to search, and a bitmap that has grown more than another only needs memory less often.
-/

namespace BufferObjects.IdAllocator

/-- A well-formed bitmap with no bit beyond the range and none clear where no search goes. -/
structure WellFormed (a : IdAllocator) : Prop where
  used : a.used.WellFormed
  size_le : a.used.size ≤ a.capacity
  below_hint : ∀ i < a.hint, a.used.bit i = true

theorem WellFormed.create (first last : UInt32) : (create first last).WellFormed where
  used := Bitmap.WellFormed.empty
  size_le := Nat.zero_le _
  below_hint _ hi := absurd hi (Nat.not_lt_zero _)

/-! ### Ids and indices -/

theorem indexOf?_eq_some_iff {a : IdAllocator} {id : UInt32} {index : Nat} :
    a.indexOf? id = some index ↔
      a.first ≤ id ∧ id ≤ a.last ∧ id.toNat = a.first.toNat + index := by
  unfold indexOf?
  split
  · next hout =>
    simp only [reduceCtorEq, false_iff, not_and]
    intro hfirst hlast
    rcases hout with hlt | hlt
    · exact absurd hfirst (UInt32.not_le.mpr hlt)
    · exact absurd hlast (UInt32.not_le.mpr hlt)
  · next hin =>
    rw [not_or, UInt32.not_lt, UInt32.not_lt] at hin
    have hle := UInt32.le_iff_toNat_le.mp hin.1
    rw [Option.some.injEq, UInt32.toNat_sub_of_le _ _ hin.1]
    constructor
    · intro h
      exact ⟨hin.1, hin.2, by omega⟩
    · rintro ⟨-, -, h⟩
      omega

theorem indexOf?_first_add {a : IdAllocator} {index : Nat} (h : index < a.capacity) :
    a.indexOf? (a.first + UInt32.ofNat index) = some index := by
  unfold capacity at h
  split at h
  · omega
  · next hle =>
    have hle := UInt32.not_lt.mp hle
    have hfirst := UInt32.le_iff_toNat_le.mp hle
    have hlast := a.last.toNat_lt
    rw [UInt32.toNat_sub_of_le _ _ hle] at h
    have hid : (a.first + UInt32.ofNat index).toNat = a.first.toNat + index := by
      rw [UInt32.toNat_add, UInt32.toNat_ofNat', Nat.mod_eq_of_lt (a := index) (by omega)]
      exact Nat.mod_eq_of_lt (by omega)
    rw [indexOf?_eq_some_iff, UInt32.le_iff_toNat_le, UInt32.le_iff_toNat_le, hid]
    exact ⟨by omega, by omega, rfl⟩

theorem eq_of_indexOf? {a : IdAllocator} {id id' : UInt32} {index : Nat}
    (h : a.indexOf? id = some index) (h' : a.indexOf? id' = some index) : id = id' := by
  obtain ⟨-, -, hid⟩ := indexOf?_eq_some_iff.mp h
  obtain ⟨-, -, hid'⟩ := indexOf?_eq_some_iff.mp h'
  exact UInt32.toNat_inj.mp (hid.trans hid'.symm)

theorem isAllocated_iff {a : IdAllocator} {id : UInt32} :
    a.isAllocated id = true ↔ ∃ index, a.indexOf? id = some index ∧ a.used.test index = true := by
  unfold isAllocated
  cases a.indexOf? id <;> simp

@[simp] theorem isAllocated_create (first last id : UInt32) :
    (create first last).isAllocated id = false := by
  unfold isAllocated
  split
  · simp [create, Bitmap.test, Bitmap.empty]
  · rfl

theorem range_of_isAllocated {a : IdAllocator} {id : UInt32} (h : a.isAllocated id = true) :
    a.first ≤ id ∧ id ≤ a.last := by
  obtain ⟨index, hindex, -⟩ := isAllocated_iff.mp h
  obtain ⟨hfirst, hlast, -⟩ := indexOf?_eq_some_iff.mp hindex
  exact ⟨hfirst, hlast⟩

/-! ### Handing out -/

/-- One id more is in use, the least that was free, and nothing else has changed. -/
structure Adds (a : IdAllocator) (id : UInt32) (a' : IdAllocator) : Prop where
  wellFormed : a'.WellFormed
  first_eq : a'.first = a.first
  last_eq : a'.last = a.last
  size_le : a.used.size ≤ a'.used.size
  allocated_eq : a'.allocated = a.allocated + 1
  wasFree : a.isAllocated id = false
  least : ∀ j, a.first ≤ j → j < id → a.isAllocated j = true
  isAllocated_eq : ∀ j, a'.isAllocated j = (a.isAllocated j || decide (j = id))

theorem Adds.range {a a' : IdAllocator} {id : UInt32} (h : a.Adds id a') :
    a.first ≤ id ∧ id ≤ a.last := by
  rw [← h.first_eq, ← h.last_eq]
  exact range_of_isAllocated (by simp [h.isAllocated_eq])

/-- What a search from the hint passes over is in use, as is everything below the hint. -/
theorem WellFormed.bit_of_lt_free {a : IdAllocator} (h : a.WellFormed) {i : Nat}
    (hsize : i < a.used.size)
    (hfound : ∀ found, a.used.firstClearFrom a.hint = some found → i < found) :
    a.used.bit i = true := by
  rcases Nat.lt_or_ge i a.hint with hlt | hge
  · exact h.below_hint i hlt
  · exact h.used.bit_of_firstClearFrom_gt hge hsize hfound

theorem WellFormed.adds_take {a : IdAllocator} (h : a.WellFormed) {used : Bitmap} {index : Nat}
    (hused : used.WellFormed) (hgrown : a.used.size ≤ used.size) (hsize : used.size ≤ a.capacity)
    (hbit : ∀ i, used.bit i = a.used.bit i) (hclear : used.bit index = false)
    (hbelow : ∀ i < index, a.used.bit i = true) (hlt : index < used.size) :
    a.Adds (a.take used index hlt).1 (a.take used index hlt).2 := by
  have hindex : a.indexOf? (a.first + UInt32.ofNat index) = some index :=
    indexOf?_first_add (Nat.lt_of_lt_of_le hlt hsize)
  have htest (i : Nat) : (used.set index hlt).test i = (a.used.test i || decide (index = i)) := by
    rw [(hused.set hlt).test_eq_bit, hused.bit_set hlt, hbit, h.used.test_eq_bit]
  refine ⟨⟨hused.set hlt, hsize, fun i hi => ?_⟩, rfl, rfl, hgrown, rfl, ?_,
    fun j hfirst hj => ?_, ?_⟩
  · change (used.set index hlt).bit i = true
    rw [hused.bit_set hlt, hbit]
    rcases Nat.lt_succ_iff_lt_or_eq.mp hi with hi | rfl
    · simp [hbelow i hi]
    · simp
  · change a.isAllocated (a.first + UInt32.ofNat index) = false
    rw [isAllocated, hindex]
    change a.used.test index = false
    rw [h.used.test_eq_bit, ← hbit, hclear]
  · obtain ⟨-, hlast, hid⟩ := indexOf?_eq_some_iff.mp hindex
    change j < a.first + UInt32.ofNat index at hj
    have hle := UInt32.le_iff_toNat_le.mp hfirst
    have hlt' := UInt32.lt_iff_toNat_lt.mp hj
    refine isAllocated_iff.mpr ⟨j.toNat - a.first.toNat, indexOf?_eq_some_iff.mpr
      ⟨hfirst, UInt32.le_trans (UInt32.le_of_lt hj) hlast, by omega⟩, ?_⟩
    rw [h.used.test_eq_bit]
    exact hbelow _ (by omega)
  · intro j
    change (a.take used index hlt).2.isAllocated j =
      (a.isAllocated j || decide (j = a.first + UInt32.ofNat index))
    have hsame : (a.take used index hlt).2.indexOf? j = a.indexOf? j := rfl
    simp only [isAllocated, hsame]
    cases hj : a.indexOf? j with
    | none =>
      have hne : j ≠ a.first + UInt32.ofNat index := by
        rintro rfl
        simp [hindex] at hj
      simp [hne]
    | some i =>
      change (used.set index hlt).test i = _
      rw [htest]
      congr 1
      apply decide_eq_decide.mpr
      constructor
      · rintro rfl
        exact eq_of_indexOf? hj hindex
      · rintro rfl
        exact Option.some.inj (hindex.symm.trans hj)

theorem WellFormed.adds_of_alloc {a a' : IdAllocator} {id : UInt32} {room : Bool}
    (h : a.WellFormed) (halloc : a.alloc room = .ok (id, a')) : a.Adds id a' := by
  unfold alloc at halloc
  split at halloc
  · next index hfree =>
    -- there is a clear bit below the size
    have hclear := Bitmap.bit_of_firstClearFrom hfree
    have hlt := Bitmap.lt_size_of_firstClearFrom hfree
    have hbelow (i : Nat) (hi : i < index) : a.used.bit i = true := by
      refine h.bit_of_lt_free (Nat.lt_trans hi hlt) fun found hfound => ?_
      rw [hfree] at hfound
      cases hfound
      exact hi
    cases halloc
    exact h.adds_take h.used (Nat.le_refl _) h.size_le (fun _ => rfl) hclear hbelow _
  · next hnone =>
    split at halloc
    · simp at halloc
    · next hfull =>
      split at halloc
      · simp at halloc
      · next used hgrow =>
        -- the bitmap grows, and the first new bit was padding before
        have hsize := Bitmap.size_of_growTo hgrow
        have hcap : a.grownSize ≤ a.capacity := Nat.min_le_right ..
        have hclear : used.bit a.used.size = false := by
          rw [Bitmap.bit_growTo hgrow]
          exact h.used.padding_clear _ (Nat.le_refl _)
        have hbelow (i : Nat) (hi : i < a.used.size) : a.used.bit i = true := by
          refine h.bit_of_lt_free hi fun found hfound => ?_
          rw [hnone] at hfound
          cases hfound
        cases halloc
        exact h.adds_take (h.used.growTo hgrow) (by omega) (by omega) (Bitmap.bit_growTo hgrow)
          hclear hbelow _

/-- Every id that has a bit is in use, and the next one needs more words than there are. -/
structure Cramped (a : IdAllocator) : Prop where
  bit_eq : ∀ i < a.used.size, a.used.bit i = true
  size_lt : a.used.size < a.capacity
  words_lt : a.used.words.size < (a.grownSize + 63) / 64

/-- An id is refused only when all of them are in use, or for want of memory. -/
theorem WellFormed.of_alloc_error {a : IdAllocator} {e : IdError} {room : Bool} (h : a.WellFormed)
    (halloc : a.alloc room = .error e) :
    e = .outOfSpace ∧ (∀ j, a.first ≤ j → j ≤ a.last → a.isAllocated j = true) ∨
      e = .outOfMemory ∧ room = false ∧ a.Cramped := by
  unfold alloc at halloc
  split at halloc
  · cases halloc
  · next hnone =>
    have hall (i : Nat) (hi : i < a.used.size) : a.used.bit i = true := by
      refine h.bit_of_lt_free hi fun found hfound => ?_
      rw [hnone] at hfound
      cases hfound
    split at halloc
    · next hfull =>
      cases halloc
      refine Or.inl ⟨rfl, fun j hfirst hlast => ?_⟩
      have hle := UInt32.le_iff_toNat_le.mp hfirst
      have hle' := UInt32.le_iff_toNat_le.mp hlast
      have hrange : a.first ≤ a.last := UInt32.le_trans hfirst hlast
      rw [capacity, if_neg (UInt32.not_lt.mpr hrange), UInt32.toNat_sub_of_le _ _ hrange] at hfull
      refine isAllocated_iff.mpr ⟨j.toNat - a.first.toNat, indexOf?_eq_some_iff.mpr
        ⟨hfirst, hlast, by omega⟩, ?_⟩
      rw [h.used.test_eq_bit]
      exact hall _ (by omega)
    · next hfull =>
      split at halloc
      · next hgrow =>
        obtain ⟨-, hwords, rfl⟩ := Bitmap.growTo_eq_error_iff.mp hgrow
        cases halloc
        exact Or.inr ⟨rfl, rfl, hall, Nat.lt_of_not_le hfull, hwords⟩
      · cases halloc

/-- An allocator whose bitmap cannot grow has an id to hand out all the same. -/
theorem Cramped.exists_free {a : IdAllocator} (h : a.WellFormed) (hcramped : a.Cramped) :
    ∃ id, a.first ≤ id ∧ id ≤ a.last ∧ a.isAllocated id = false := by
  have hindex := indexOf?_first_add hcramped.size_lt
  obtain ⟨hfirst, hlast, -⟩ := indexOf?_eq_some_iff.mp hindex
  refine ⟨_, hfirst, hlast, ?_⟩
  rw [isAllocated, hindex]
  dsimp only
  rw [h.used.test_eq_bit]
  exact h.used.padding_clear _ (Nat.le_refl _)

/-- Whether a range is used up does not depend on memory. -/
theorem WellFormed.alloc_eq_outOfSpace_iff {a : IdAllocator} {room : Bool} (h : a.WellFormed) :
    a.alloc room = .error .outOfSpace ↔
      ∀ j, a.first ≤ j → j ≤ a.last → a.isAllocated j = true := by
  constructor
  · intro halloc
    obtain ⟨-, hall⟩ | ⟨heq, -⟩ := h.of_alloc_error halloc
    · exact hall
    · cases heq
  · intro hall
    rcases halloc : a.alloc room with e | ⟨id, a'⟩
    · obtain ⟨rfl, -⟩ | ⟨-, -, hcramped⟩ := h.of_alloc_error halloc
      · rfl
      · obtain ⟨id, hfirst, hlast, hfree⟩ := hcramped.exists_free h
        rw [hall id hfirst hlast] at hfree
        cases hfree
    · have hadds := h.adds_of_alloc halloc
      have hrange := hadds.range
      have hfree := hadds.wasFree
      rw [hall id hrange.1 hrange.2] at hfree
      cases hfree

/-! ### Taking back -/

/-- One id less is in use, and nothing else has changed. -/
structure Removes (a : IdAllocator) (id : UInt32) (a' : IdAllocator) : Prop where
  wellFormed : a'.WellFormed
  first_eq : a'.first = a.first
  last_eq : a'.last = a.last
  size_eq : a'.used.size = a.used.size
  allocated_eq : a'.allocated = a.allocated - 1
  isAllocated_eq : ∀ j, a'.isAllocated j = (a.isAllocated j && decide (j ≠ id))

theorem WellFormed.exists_free {a : IdAllocator} {id : UInt32} (h : a.WellFormed)
    (hused : a.isAllocated id = true) : ∃ a', a.free id = .ok a' ∧ a.Removes id a' := by
  obtain ⟨index, hindex, htest⟩ := isAllocated_iff.mp hused
  have hlt := Bitmap.lt_size_of_test htest
  let a' : IdAllocator :=
    { a with
      used := a.used.clear index hlt
      hint := min a.hint index
      allocated := a.allocated - 1 }
  have hindexOf (j : UInt32) : a'.indexOf? j = a.indexOf? j := rfl
  refine ⟨a', ?_, ⟨h.used.clear hlt, h.size_le, fun i hi => ?_⟩, rfl, rfl, rfl, rfl, ?_⟩
  · simp [free, hindex, htest, a']
  · have hi' : i < min a.hint index := hi
    change (a.used.clear index hlt).bit i = true
    rw [h.used.bit_clear hlt, h.below_hint i (by omega)]
    simp
    omega
  · intro j
    rw [isAllocated, isAllocated, hindexOf]
    cases hj : a.indexOf? j with
    | none => rfl
    | some i =>
      change (a.used.clear index hlt).test i = (a.used.test i && decide (j ≠ id))
      rw [(h.used.clear hlt).test_eq_bit, h.used.bit_clear hlt, h.used.test_eq_bit]
      congr 1
      apply decide_eq_decide.mpr
      constructor
      · rintro hne rfl
        exact hne (Option.some.inj (hindex.symm.trans hj))
      · rintro hne rfl
        exact hne (eq_of_indexOf? hj hindex)

/-! ### The same ids in use -/

/-- The same ids of the same range are in use. -/
structure Agrees (a a' : IdAllocator) : Prop where
  first_eq : a'.first = a.first
  last_eq : a'.last = a.last
  isAllocated_eq : ∀ id, a'.isAllocated id = a.isAllocated id

/-- And as many are counted, in a bitmap that has not shrunk. -/
structure Alike (a a' : IdAllocator) : Prop extends Agrees a a' where
  wellFormed : a.WellFormed → a'.WellFormed
  size_le : a.used.size ≤ a'.used.size
  allocated_eq : a'.allocated = a.allocated

theorem Alike.refl (a : IdAllocator) : a.Alike a :=
  ⟨⟨rfl, rfl, fun _ => rfl⟩, id, Nat.le_refl _, rfl⟩

theorem Alike.trans {a a' a'' : IdAllocator} (h : a.Alike a') (h' : a'.Alike a'') :
    a.Alike a'' where
  wellFormed hwf := h'.wellFormed (h.wellFormed hwf)
  first_eq := h'.first_eq.trans h.first_eq
  last_eq := h'.last_eq.trans h.last_eq
  size_le := Nat.le_trans h.size_le h'.size_le
  allocated_eq := h'.allocated_eq.trans h.allocated_eq
  isAllocated_eq id := (h'.isAllocated_eq id).trans (h.isAllocated_eq id)

/-- An id that has been handed out and taken back makes no difference. -/
theorem Adds.alike_of_removes {a a' a'' : IdAllocator} {id : UInt32} (h : a.Adds id a')
    (h' : a'.Removes id a'') : a.Alike a'' where
  wellFormed _ := h'.wellFormed
  first_eq := h'.first_eq.trans h.first_eq
  last_eq := h'.last_eq.trans h.last_eq
  size_le := h'.size_eq ▸ h.size_le
  allocated_eq := by rw [h'.allocated_eq, h.allocated_eq, Nat.add_sub_cancel]
  isAllocated_eq j := by
    rw [h'.isAllocated_eq, h.isAllocated_eq]
    by_cases hj : j = id
    · subst hj
      simp [h.wasFree]
    · simp [hj]

namespace Alike

variable {a a' : IdAllocator} {room : Bool}

/-- What one of them has used up, so has the other. -/
theorem full_iff (h : a.Alike a') :
    (∀ j, a'.first ≤ j → j ≤ a'.last → a'.isAllocated j = true) ↔
      ∀ j, a.first ≤ j → j ≤ a.last → a.isAllocated j = true := by
  simp only [h.first_eq, h.last_eq, h.isAllocated_eq]

/-- Both would hand out the same id. -/
theorem id_eq {b b' : IdAllocator} {id id' : UInt32} (h : a.Alike a') (hadds : a.Adds id b)
    (hadds' : a'.Adds id' b') : id' = id := by
  have hge : ¬ id' < id := by
    intro hlt
    have hused := hadds.least id' (h.first_eq ▸ hadds'.range.1) hlt
    rw [← h.isAllocated_eq, hadds'.wasFree] at hused
    cases hused
  have hle : ¬ id < id' := by
    intro hlt
    have hused := hadds'.least id (h.first_eq ▸ hadds.range.1) hlt
    rw [h.isAllocated_eq, hadds.wasFree] at hused
    cases hused
  exact UInt32.le_antisymm (UInt32.not_lt.mp hle) (UInt32.not_lt.mp hge)

end Alike

/-- An id that is handed out lies where there are bits, or just behind them, and then there is
memory for more or none is needed. -/
theorem WellFormed.index_of_alloc {a a' : IdAllocator} {id : UInt32} {room : Bool}
    (h : a.WellFormed) (halloc : a.alloc room = .ok (id, a')) : ∃ index,
      a.indexOf? id = some index ∧ (index < a.used.size ∨
        index = a.used.size ∧ ∃ used, a.used.growTo a.grownSize room = .ok used) := by
  unfold alloc at halloc
  split at halloc
  · next index hfree =>
    have hlt := Bitmap.lt_size_of_firstClearFrom hfree
    cases halloc
    exact ⟨index, indexOf?_first_add (Nat.lt_of_lt_of_le hlt h.size_le), Or.inl hlt⟩
  · split at halloc
    · cases halloc
    · next hfull =>
      split at halloc
      · cases halloc
      · next used hgrow =>
        cases halloc
        exact ⟨_, indexOf?_first_add (Nat.lt_of_not_le hfull), Or.inr ⟨rfl, used, hgrow⟩⟩

/-- An allocator whose bitmap is larger is not short of memory before the other. -/
theorem Alike.not_cramped {a a' b : IdAllocator} {id : UInt32} (h : a.WellFormed)
    (halike : a.Alike a') (halloc : a.alloc false = .ok (id, b)) : ¬ a'.Cramped := by
  intro hcramped
  have h' := halike.wellFormed h
  obtain ⟨index, hindex, hplace⟩ := h.index_of_alloc halloc
  have hindex' : a'.indexOf? id = some index := by
    rw [indexOf?_eq_some_iff, halike.first_eq, halike.last_eq]
    exact indexOf?_eq_some_iff.mp hindex
  -- the id is free, so its bit lies behind the bitmap in which all bits are set
  have hbehind : a'.used.size ≤ index := by
    refine Nat.le_of_not_lt fun hlt => ?_
    have hfree := (h.adds_of_alloc halloc).wasFree
    rw [← halike.isAllocated_eq, isAllocated, hindex'] at hfree
    dsimp only at hfree
    rw [h'.used.test_eq_bit, hcramped.bit_eq index hlt] at hfree
    cases hfree
  have hle := halike.size_le
  obtain hlt | ⟨rfl, used, hgrow⟩ := hplace
  · omega
  · -- so both bitmaps are of one size, and what one needs the other needs
    have hsize : a'.used.size = a.used.size := by omega
    have hcapacity : a'.capacity = a.capacity := by
      rw [capacity, capacity, halike.first_eq, halike.last_eq]
    have hgrown : a'.grownSize = a.grownSize := by
      rw [grownSize, grownSize, hsize, hcapacity]
    have hlt := hcramped.size_lt
    have hwords := hcramped.words_lt
    rw [hsize, hcapacity] at hlt
    rw [h'.used.words_size, hsize, ← h.used.words_size, hgrown] at hwords
    have hrefused : a.used.growTo a.grownSize false = .error ⟨⟩ :=
      Bitmap.growTo_eq_error_iff.mpr ⟨lt_grownSize hlt, hwords, rfl⟩
    rw [hgrow] at hrefused
    cases hrefused

/-- Allocators with the same ids in use hand out the same id next, or both none; only for want of
memory may the first refuse what the second, whose bitmap has grown more, hands out. -/
theorem WellFormed.alloc_of_alike {a a' : IdAllocator} (h : a.WellFormed) (halike : a.Alike a')
    (room : Bool) :
    (a'.alloc room).map Prod.fst = (a.alloc room).map Prod.fst ∨
      room = false ∧ a.alloc room = .error .outOfMemory := by
  have h' := halike.wellFormed h
  rcases hb : a.alloc room with e | ⟨id, b⟩
  · obtain ⟨rfl, hfull⟩ | ⟨rfl, hroom, -⟩ := h.of_alloc_error hb
    · rw [h'.alloc_eq_outOfSpace_iff.mpr (halike.full_iff.mpr hfull)]
      exact Or.inl rfl
    · exact Or.inr ⟨hroom, rfl⟩
  · have hadds := h.adds_of_alloc hb
    left
    rcases hb' : a'.alloc room with e' | ⟨id', b'⟩
    · obtain ⟨-, hfull⟩ | ⟨-, rfl, hcramped⟩ := h'.of_alloc_error hb'
      · -- an id that one of them has free cannot be in use at the other
        have hfree := hadds.wasFree
        rw [halike.full_iff.mp hfull id hadds.range.1 hadds.range.2] at hfree
        cases hfree
      · exact absurd hcramped (halike.not_cramped h hb)
    · rw [Except.map, Except.map, halike.id_eq hadds (h'.adds_of_alloc hb')]

end BufferObjects.IdAllocator
