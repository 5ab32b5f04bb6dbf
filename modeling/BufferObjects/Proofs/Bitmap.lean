import BufferObjects.Bitmap
import Mathlib.Data.Nat.Count
import Mathlib.Data.Set.Card
import Mathlib.Order.Bounds.Basic
import Mathlib.Tactic.ByContra

/-!
What the words of a bitmap say about its indices. A bitmap is well formed when it has exactly the
words its size needs and the padding behind the last index is clear; every operation keeps that, so
growing exposes clear bits only. The main statements say which bits each operation changes, that a
search answers with the least clear index from its start on, and that counting word by word counts
the indices.
-/

namespace BufferObjects.Bitmap

/-- The bit of an index as it stands in its word, whatever the size. -/
def bit (b : Bitmap) (index : Nat) : Bool :=
  (b.words.getD (index / 64) 0).toNat.testBit (index % 64)

/-- As many words as the size needs, and none of their spare bits set. -/
structure WellFormed (b : Bitmap) : Prop where
  words_size : b.words.size = (b.size + 63) / 64
  padding_clear : ∀ index, b.size ≤ index → b.bit index = false

/-! ### Single words -/

theorem toNat_bitOf (index : Nat) : (bitOf index).toNat = 2 ^ (index % 64) := by
  have hlt : index % 64 < 64 := Nat.mod_lt _ (by decide)
  have hword : 2 ^ (index % 64) < 2 ^ 64 := Nat.pow_lt_pow_right (by decide) hlt
  have hamount : (UInt64.ofNat (index % 64)).toNat = index % 64 := by
    rw [UInt64.toNat_ofNat']
    exact Nat.mod_eq_of_lt (by omega)
  rw [bitOf, UInt64.toNat_shiftLeft, hamount, Nat.mod_eq_of_lt hlt]
  change 1 <<< (index % 64) % 2 ^ 64 = _
  rw [Nat.one_shiftLeft, Nat.mod_eq_of_lt hword]

/-- Masking with the bit of an index leaves something exactly if that bit is set. -/
theorem and_bitOf_ne_zero (w : UInt64) (index : Nat) :
    (w &&& bitOf index != 0) = w.toNat.testBit (index % 64) := by
  have hmasked (k : Nat) : (w &&& bitOf index).toNat.testBit k =
      (w.toNat.testBit k && decide (index % 64 = k)) := by
    rw [UInt64.toNat_and, toNat_bitOf, Nat.testBit_and, Nat.testBit_two_pow]
  cases hbit : w.toNat.testBit (index % 64) with
  | false =>
    have hzero : w &&& bitOf index = 0 := by
      apply UInt64.toNat_inj.mp
      apply Nat.eq_of_testBit_eq
      intro k
      rw [hmasked]
      by_cases hk : index % 64 = k
      · simp [← hk, hbit]
      · simp [hk]
    simp [hzero]
  | true =>
    have hne : w &&& bitOf index ≠ 0 := by
      intro hzero
      have := hmasked (index % 64)
      simp [hzero, hbit] at this
    simpa using hne

theorem test_eq (b : Bitmap) (index : Nat) :
    b.test index = (decide (index < b.size) && b.bit index) := by
  rw [test, and_bitOf_ne_zero, bit]

/-- In a well-formed bitmap the size need not be asked. -/
theorem WellFormed.test_eq_bit {b : Bitmap} (h : b.WellFormed) (index : Nat) :
    b.test index = b.bit index := by
  rw [test_eq]
  rcases Nat.lt_or_ge index b.size with hlt | hge
  · simp [hlt]
  · simp [h.padding_clear index hge]

theorem testBit_or_bitOf (w : UInt64) (index k : Nat) :
    (w ||| bitOf index).toNat.testBit k = (w.toNat.testBit k || decide (index % 64 = k)) := by
  rw [UInt64.toNat_or, toNat_bitOf, Nat.testBit_or, Nat.testBit_two_pow]

theorem testBit_and_not_bitOf (w : UInt64) (index k : Nat) (hk : k < 64) :
    (w &&& ~~~bitOf index).toNat.testBit k = (w.toNat.testBit k && decide (index % 64 ≠ k)) := by
  have hlt : (bitOf index).toNat < 2 ^ 64 := UInt64.toNat_lt _
  have hnot : (~~~bitOf index).toNat = 2 ^ 64 - ((bitOf index).toNat + 1) := by
    rw [UInt64.toNat_not, UInt64.size]
    omega
  rw [UInt64.toNat_and, Nat.testBit_and, hnot, Nat.testBit_two_pow_sub_succ hlt, toNat_bitOf,
    Nat.testBit_two_pow]
  simp [hk]

/-! ### Operations -/

theorem bit_modify (b : Bitmap) (i index : Nat) (f : UInt64 → UInt64) (hi : i < b.words.size) :
    ({ b with words := b.words.modify i f } : Bitmap).bit index =
      if i = index / 64 then (f (b.words.getD (index / 64) 0)).toNat.testBit (index % 64)
      else b.bit index := by
  simp only [bit, Array.getD_eq_getD_getElem?, Array.getElem?_modify]
  split
  · next h => subst h; simp [hi]
  · rfl

theorem WellFormed.index_lt {b : Bitmap} (h : b.WellFormed) {index : Nat} (hlt : index < b.size) :
    index / 64 < b.words.size := by
  rw [h.words_size]
  omega

theorem eq_of_div_of_mod {i j : Nat} (hdiv : i / 64 = j / 64) (hmod : i % 64 = j % 64) : i = j := by
  omega

theorem WellFormed.bit_set {b : Bitmap} (h : b.WellFormed) {index : Nat} (hlt : index < b.size)
    (j : Nat) : (b.set index hlt).bit j = (b.bit j || decide (index = j)) := by
  rw [set, bit_modify _ _ _ _ (h.index_lt hlt)]
  split
  · next hdiv =>
    rw [testBit_or_bitOf, bit]
    congr 1
    exact decide_eq_decide.mpr ⟨fun hmod => eq_of_div_of_mod hdiv hmod, fun heq => heq ▸ rfl⟩
  · next hdiv =>
    have hne : index ≠ j := fun heq => hdiv (heq ▸ rfl)
    simp [hne]

theorem WellFormed.bit_clear {b : Bitmap} (h : b.WellFormed) {index : Nat} (hlt : index < b.size)
    (j : Nat) : (b.clear index hlt).bit j = (b.bit j && decide (index ≠ j)) := by
  rw [clear, bit_modify _ _ _ _ (h.index_lt hlt)]
  split
  · next hdiv =>
    rw [testBit_and_not_bitOf _ _ _ (Nat.mod_lt _ (by decide)), bit]
    congr 1
    exact decide_eq_decide.mpr
      ⟨fun hmod heq => hmod (heq ▸ rfl), fun hne hmod => hne (eq_of_div_of_mod hdiv hmod)⟩
  · next hdiv =>
    have hne : index ≠ j := fun heq => hdiv (heq ▸ rfl)
    simp [hne]

theorem bit_growTo {b b' : Bitmap} {n : Nat} {room : Bool} (h : b.growTo n room = .ok b')
    (index : Nat) : b'.bit index = b.bit index := by
  unfold growTo at h
  split at h
  · cases h; rfl
  · split at h
    · simp at h
    · cases h
      simp only [bit, Array.getD_eq_getD_getElem?, Array.getElem?_append]
      split
      · rfl
      · next hge =>
        rw [Array.getElem?_eq_none (Nat.le_of_not_lt hge), Array.getElem?_replicate]
        split <;> rfl

theorem WellFormed.empty : Bitmap.empty.WellFormed where
  words_size := rfl
  padding_clear index _ := by simp [bit, Bitmap.empty]

theorem WellFormed.set {b : Bitmap} (h : b.WellFormed) {index : Nat} (hlt : index < b.size) :
    (b.set index hlt).WellFormed where
  words_size := by simpa [Bitmap.set] using h.words_size
  padding_clear j hj := by
    have hsize : b.size ≤ j := hj
    rw [h.bit_set hlt, h.padding_clear j hsize]
    simp
    omega

theorem WellFormed.clear {b : Bitmap} (h : b.WellFormed) {index : Nat} (hlt : index < b.size) :
    (b.clear index hlt).WellFormed where
  words_size := by simpa [Bitmap.clear] using h.words_size
  padding_clear j hj := by
    have hsize : b.size ≤ j := hj
    rw [h.bit_clear hlt, h.padding_clear j hsize]
    rfl

/-- Growing is refused only for want of memory, and only where words are missing. -/
theorem growTo_eq_error_iff {b : Bitmap} {n : Nat} {room : Bool} {e : GrowError} :
    b.growTo n room = .error e ↔ b.size < n ∧ b.words.size < (n + 63) / 64 ∧ room = false := by
  rw [growTo]
  split
  · next hle => simp [Nat.not_lt.mpr hle]
  · next hlt =>
    split
    · next hrefused => simp [Nat.lt_of_not_le hlt, hrefused]
    · next hgranted => simp [hgranted]

theorem WellFormed.growTo {b b' : Bitmap} {n : Nat} {room : Bool} (h : b.WellFormed)
    (hgrow : b.growTo n room = .ok b') : b'.WellFormed where
  words_size := by
    have hwords := h.words_size
    unfold Bitmap.growTo at hgrow
    split at hgrow
    · cases hgrow; exact hwords
    · split at hgrow
      · simp at hgrow
      · cases hgrow
        simp only [Array.size_append, Array.size_replicate]
        omega
  padding_clear j hj := by
    have hsize := size_of_growTo hgrow
    rw [bit_growTo hgrow]
    exact h.padding_clear j (by omega)

/-! ### Searching -/

/-- The run of low set bits ends at the first clear bit. -/
theorem trailingOnes_eq (w : UInt64) :
    trailingOnes w = (List.range 64).findIdx fun i => !w.toNat.testBit i := by
  rw [trailingOnes, List.takeWhile_eq_take_findIdx_not, List.length_take, Nat.min_eq_left]
  exact List.findIdx_le_length

/-- A word that is not full has a clear bit, and it is where the run of low set bits ends. -/
theorem testBit_trailingOnes {w : UInt64} (hw : w ≠ 0xffffffffffffffff) :
    trailingOnes w < 64 ∧ w.toNat.testBit (trailingOnes w) = false := by
  have hclear : ∃ i ∈ List.range 64, (!w.toNat.testBit i) = true := by
    -- otherwise all sixty-four bits are set and the word is the full one
    by_contra hall
    apply hw
    apply UInt64.toNat_inj.mp
    apply Nat.eq_of_testBit_eq
    intro k
    change _ = (2 ^ 64 - 1).testBit k
    rw [Nat.testBit_two_pow_sub_one]
    rcases Nat.lt_or_ge k 64 with hlt | hge
    · have hset : w.toNat.testBit k = true := by
        by_contra hbit
        exact hall ⟨k, List.mem_range.mpr hlt, by simpa using hbit⟩
      simp [hset, hlt]
    · have hbound := Nat.lt_of_lt_of_le w.toNat_lt (Nat.pow_le_pow_right (by decide) hge)
      rw [Nat.testBit_lt_two_pow hbound]
      simp; omega
  have hlt := List.findIdx_lt_length_of_exists hclear
  have hbit := List.findIdx_getElem (w := hlt)
  rw [List.length_range] at hlt
  rw [List.getElem_range, ← trailingOnes_eq] at hbit
  rw [← trailingOnes_eq] at hlt
  exact ⟨hlt, by simpa using hbit⟩

/-- What a search finds is clear in its word, and in the first word it does not count as set. -/
theorem clear_of_scan {words : Array UInt64} {masked : UInt64} {i count found : Nat}
    (h : scan words masked i count = some found) :
    i ≤ found / 64 ∧ (words.getD (found / 64) 0).toNat.testBit (found % 64) = false ∧
      (found / 64 = i → masked.toNat.testBit (found % 64) = false) := by
  -- a full word hands the search on; the first word that is not full answers it
  induction count generalizing i masked with
  | zero => simp [scan] at h
  | succ count ih =>
    simp only [scan] at h
    split at h
    · obtain ⟨hlater, hclear, -⟩ := ih h
      exact ⟨by omega, hclear, fun hfirst => absurd hfirst (by omega)⟩
    · next hw =>
      obtain ⟨hlt, hclear⟩ := testBit_trailingOnes hw
      obtain rfl := Option.some.inj h
      rw [show (i * 64 + trailingOnes (words.getD i 0 ||| masked)) / 64 = i by omega,
        show (i * 64 + trailingOnes (words.getD i 0 ||| masked)) % 64 =
          trailingOnes (words.getD i 0 ||| masked) by omega]
      rw [UInt64.toNat_or, Nat.testBit_or, Bool.or_eq_false_iff] at hclear
      exact ⟨Nat.le_refl i, hclear.1, fun _ => hclear.2⟩

theorem bit_of_firstClearFrom {b : Bitmap} {start found : Nat}
    (h : b.firstClearFrom start = some found) : b.bit found = false := by
  unfold firstClearFrom at h
  split at h
  · simp at h
  · exact (clear_of_scan (Option.filter_eq_some_iff.mp h).1).2.1

/-- The bits that stand before the start of a search in its word. -/
theorem testBit_bitOf_sub_one (start k : Nat) :
    (bitOf start - 1).toNat.testBit k = decide (k < start % 64) := by
  have hone : (1 : UInt64) ≤ bitOf start := by
    rw [UInt64.le_iff_toNat_le, toNat_bitOf]
    exact Nat.one_le_two_pow
  rw [UInt64.toNat_sub_of_le _ _ hone, toNat_bitOf]
  exact Nat.testBit_two_pow_sub_one ..

theorem le_of_firstClearFrom {b : Bitmap} {start found : Nat}
    (h : b.firstClearFrom start = some found) : start ≤ found := by
  unfold firstClearFrom at h
  split at h
  · simp at h
  · obtain ⟨hword, -, hmasked⟩ := clear_of_scan (Option.filter_eq_some_iff.mp h).1
    by_contra hlt
    -- then both stand in one word, and what stands there before the start counts as set
    have hsame : found / 64 = start / 64 := by omega
    have hset := hmasked hsame
    rw [testBit_bitOf_sub_one, decide_eq_false_iff_not] at hset
    omega

/-- Below the end of the run of low set bits every bit is set. -/
theorem testBit_of_lt_trailingOnes {w : UInt64} {i : Nat} (hi : i < trailingOnes w) :
    w.toNat.testBit i = true := by
  rw [trailingOnes_eq] at hi
  have hset := List.not_of_lt_findIdx hi
  simpa using hset

theorem testBit_full {w : UInt64} (hw : w = 0xffffffffffffffff) {i : Nat} (hi : i < 64) :
    w.toNat.testBit i = true := by
  subst hw
  change (2 ^ 64 - 1).testBit i = true
  rw [Nat.testBit_two_pow_sub_one]
  simpa using hi

/-- A search passes over set bits only, and over those that count as set in its first word. -/
theorem testBit_of_scan_gt {words : Array UInt64} {masked : UInt64} {i count j : Nat}
    (hle : i ≤ j / 64) (hlt : j / 64 < i + count)
    (h : ∀ found, scan words masked i count = some found → j < found) :
    (words.getD (j / 64) 0).toNat.testBit (j % 64) = true ∨
      j / 64 = i ∧ masked.toNat.testBit (j % 64) = true := by
  induction count generalizing i masked with
  | zero => omega
  | succ count ih =>
    have hmod : j % 64 < 64 := Nat.mod_lt _ (by decide)
    -- a bit of the first word is set in it or counts as set
    have hfirst (heq : j / 64 = i)
        (hset : (words.getD i 0 ||| masked).toNat.testBit (j % 64) = true) :
        (words.getD (j / 64) 0).toNat.testBit (j % 64) = true ∨
          j / 64 = i ∧ masked.toNat.testBit (j % 64) = true := by
      rw [UInt64.toNat_or, Nat.testBit_or, Bool.or_eq_true] at hset
      rw [heq]
      exact hset.imp id fun hmasked => ⟨rfl, hmasked⟩
    simp only [scan] at h
    by_cases hw : words.getD i 0 ||| masked = 0xffffffffffffffff
    · rw [if_pos hw] at h
      rcases Nat.eq_or_lt_of_le hle with heq | hnext
      · exact hfirst heq.symm (testBit_full hw hmod)
      · rcases ih hnext (by omega) h with hset | ⟨-, hzero⟩
        · exact Or.inl hset
        · simp at hzero
    · rw [if_neg hw] at h
      have hbelow := h _ rfl
      have hrun := (testBit_trailingOnes hw).1
      have heq : j / 64 = i := by omega
      exact hfirst heq (testBit_of_lt_trailingOnes (by omega))

/-- Between the start of a search and what it finds, or the end if it finds nothing, every bit is
set. -/
theorem WellFormed.bit_of_firstClearFrom_gt {b : Bitmap} (h : b.WellFormed) {start j : Nat}
    (hstart : start ≤ j) (hsize : j < b.size)
    (hfound : ∀ found, b.firstClearFrom start = some found → j < found) : b.bit j = true := by
  have hwords := h.words_size
  have hscan : ∀ found, scan b.words (bitOf start - 1) (start / 64)
      (b.words.size - start / 64) = some found → j < found := by
    intro found hscan
    rcases Nat.lt_or_ge found b.size with hlt | hge
    · refine hfound found ?_
      rw [firstClearFrom, if_neg (by omega), hscan]
      simpa using hlt
    · omega
  rcases testBit_of_scan_gt (Nat.div_le_div_right hstart) (by omega) hscan with
    hset | ⟨hword, hmasked⟩
  · exact hset
  · rw [testBit_bitOf_sub_one, decide_eq_true_eq] at hmasked
    omega

/-- A search finds the least clear index from its start on. -/
theorem WellFormed.firstClearFrom_eq_some_iff {b : Bitmap} (h : b.WellFormed) {start i : Nat} :
    b.firstClearFrom start = some i ↔
      IsLeast {j | start ≤ j ∧ j < b.size ∧ b.test j = false} i := by
  have hleast {found : Nat} (hfound : b.firstClearFrom start = some found) :
      IsLeast {j | start ≤ j ∧ j < b.size ∧ b.test j = false} found := by
    refine ⟨⟨le_of_firstClearFrom hfound, lt_size_of_firstClearFrom hfound, ?_⟩, ?_⟩
    · rw [h.test_eq_bit]
      exact bit_of_firstClearFrom hfound
    · rintro j ⟨hstart, hsize, hclear⟩
      by_contra hlt
      rw [h.test_eq_bit, h.bit_of_firstClearFrom_gt hstart hsize fun found' hfound' => by
        rw [Option.some.inj (hfound'.symm.trans hfound)]; omega] at hclear
      cases hclear
  constructor
  · exact hleast
  · intro hi
    obtain ⟨hstart, hsize, hclear⟩ := hi.1
    cases hfound : b.firstClearFrom start with
    | some found => rw [(hleast hfound).unique hi]
    | none =>
      rw [h.test_eq_bit, h.bit_of_firstClearFrom_gt hstart hsize (by simp [hfound])] at hclear
      cases hclear

/-- A search finds nothing just when every index from its start on is set. -/
theorem WellFormed.firstClearFrom_eq_none_iff {b : Bitmap} (h : b.WellFormed) {start : Nat} :
    b.firstClearFrom start = none ↔ ∀ i, start ≤ i → i < b.size → b.test i = true := by
  constructor
  · intro hnone i hstart hsize
    rw [h.test_eq_bit]
    exact h.bit_of_firstClearFrom_gt hstart hsize (by simp [hnone])
  · intro hall
    cases hfound : b.firstClearFrom start with
    | none => rfl
    | some found =>
      obtain ⟨hstart, hsize, hclear⟩ := (h.firstClearFrom_eq_some_iff.mp hfound).1
      rw [hall found hstart hsize] at hclear
      cases hclear

/-! ### Counting -/

/-- Counting the bits of one word after the other is counting the indices of them all. -/
theorem foldl_onesIn (ws : List UInt64) :
    ws.foldl (fun n w => n + onesIn w) 0 =
      (List.range (64 * ws.length)).countP fun i =>
        (ws[i / 64]?.getD 0).toNat.testBit (i % 64) := by
  induction ws using List.reverseRecOn with
  | nil => rfl
  | append_singleton ws w ih =>
    rw [List.foldl_append, ih, List.length_append, List.length_singleton, Nat.mul_add, Nat.mul_one,
      List.range_add, List.countP_append, List.countP_map, List.foldl_cons, List.foldl_nil, onesIn,
      ← List.countP_eq_length_filter]
    congr 1
    · apply List.countP_congr
      intro i hi
      have hword : i / 64 < ws.length := by
        rw [List.mem_range] at hi
        omega
      rw [List.getElem?_append_left hword]
    · apply List.countP_congr
      intro i hi
      have hbit : i < 64 := List.mem_range.mp hi
      rw [Function.comp_apply, show (64 * ws.length + i) / 64 = ws.length by omega,
        List.getElem?_concat_length, Nat.mul_add_mod, Nat.mod_eq_of_lt hbit, Option.getD_some]

/-- The padding is clear, so that the bits of the words are the indices that are set. -/
theorem WellFormed.ones_eq_ncard {b : Bitmap} (h : b.WellFormed) :
    b.ones = {i | b.test i = true}.ncard := by
  have hwords := h.words_size
  have hset : {i | b.test i = true} =
      ↑((Finset.range (64 * b.words.size)).filter fun i => b.bit i = true) := by
    ext i
    show b.test i = true ↔ _
    rw [h.test_eq_bit, Finset.mem_coe, Finset.mem_filter, Finset.mem_range]
    constructor
    · intro hbit
      refine ⟨?_, hbit⟩
      by_contra hge
      rw [h.padding_clear i (by omega)] at hbit
      cases hbit
    · exact And.right
  rw [hset, Set.ncard_coe_finset, ← Nat.count_eq_card_filter_range, ones, ← Array.foldl_toList,
    foldl_onesIn, Array.length_toList]
  apply List.countP_congr
  intro i _
  simp [bit, Array.getD_eq_getD_getElem?]

end BufferObjects.Bitmap
