import BufferObjects.Bitmap.Run
import BufferObjects.Proofs.Bitmap

/-!
A bitmap as a set of indices that grows. A run on the empty bitmap leaves set exactly the indices
whose last write was one that set them; growing changes no answer about any index, and changes
nothing at all where memory refuses it; what is not there can be neither set nor cleared, and
counting and searching answer about that set. Memory may answer every request as it likes.
-/

namespace BufferObjects.Bitmap

variable {b : Bitmap} {n i j : Nat}

/-! ### Writing -/

/-- Whether `size` bits can become `n`: memory has room for more words, or no more are needed. -/
def Granted (size n : Nat) (room : Bool) : Prop := room = true ∨ (n + 63) / 64 ≤ (size + 63) / 64

/-- Growing is refused exactly if it is not granted. -/
theorem WellFormed.growTo_eq_error_iff (h : b.WellFormed) {room : Bool} {e : GrowError} :
    b.growTo n room = .error e ↔ ¬ Granted b.size n room := by
  rw [Bitmap.growTo_eq_error_iff, h.words_size, Granted, not_or, Bool.not_eq_true, Nat.not_le]
  constructor
  · rintro ⟨-, hwords, hroom⟩
    exact ⟨hroom, hwords⟩
  · rintro ⟨hroom, hwords⟩
    exact ⟨by omega, hwords, hroom⟩

theorem WellFormed.test_growTo {b' : Bitmap} {room : Bool} (h : b.WellFormed)
    (hgrow : b.growTo n room = .ok b') (i : Nat) : b'.test i = b.test i := by
  rw [(h.growTo hgrow).test_eq_bit, h.test_eq_bit, bit_growTo hgrow]

theorem WellFormed.test_set (h : b.WellFormed) (hi : i < b.size) (j : Nat) :
    (b.set i hi).test j = (b.test j || decide (i = j)) := by
  rw [(h.set hi).test_eq_bit, h.test_eq_bit, h.bit_set hi]

theorem WellFormed.test_clear (h : b.WellFormed) (hi : i < b.size) (j : Nat) :
    (b.clear i hi).test j = (b.test j && decide (i ≠ j)) := by
  rw [(h.clear hi).test_eq_bit, h.test_eq_bit, h.bit_clear hi]

/-- Setting a range sets what is there of it. -/
theorem WellFormed.setRange (h : b.WellFormed) (first count : Nat) :
    (b.setRange first count).1.WellFormed ∧ (b.setRange first count).1.size = b.size ∧
      ∀ i, (b.setRange first count).1.test i = true ↔
        (first ≤ i ∧ i < first + count) ∧ i < b.size ∨ b.test i = true := by
  induction count generalizing b first with
  | zero =>
    refine ⟨h, rfl, fun i => ?_⟩
    show b.test i = true ↔ _
    exact ⟨Or.inr, fun hset => hset.resolve_left fun hrange => by omega⟩
  | succ count ih =>
    rw [Bitmap.setRange, set?]
    by_cases hfirst : first < b.size
    · rw [dif_pos hfirst]
      obtain ⟨hwell, hsize, htest⟩ := ih (h.set hfirst) (first + 1)
      have hsame : (b.set first hfirst).size = b.size := rfl
      refine ⟨hwell, hsize.trans hsame, fun i => (htest i).trans ?_⟩
      rw [h.test_set hfirst, hsame, Bool.or_eq_true, decide_eq_true_eq]
      constructor
      · rintro (⟨hrange, hlt⟩ | hset | heq)
        · exact Or.inl ⟨by omega, hlt⟩
        · exact Or.inr hset
        · exact Or.inl ⟨by omega, heq ▸ hfirst⟩
      · rintro (⟨hrange, hlt⟩ | hset)
        · obtain heq | hlater : first = i ∨ first + 1 ≤ i := by omega
          · exact Or.inr (Or.inr heq)
          · exact Or.inl ⟨by omega, hlt⟩
        · exact Or.inr (Or.inl hset)
    · -- the first index is not there, and so none of the later ones
      rw [dif_neg hfirst]
      refine ⟨h, rfl, fun i => ?_⟩
      show b.test i = true ↔ _
      exact ⟨Or.inr, fun hset => hset.resolve_left fun hrange => by omega⟩

/-! ### Runs -/

namespace Run

/-- Whether a step is one that sets an index. -/
def Step.Sets (i : Nat) : Step → Prop
  | set j => j = i
  | setRange first last => first ≤ i ∧ i < last
  | _ => False

/-- The bitmap a run leads to. -/
def after (b : Bitmap) (steps : List Step) : Bitmap := steps.foldl (fun b s => (s.act b).1) b

/-- Some step made room for an index, and it was granted. -/
def Reaches (steps : List Step) (i : Nat) : Prop :=
  ∃ before n room later, steps = before ++ .growTo n room :: later ∧
    Granted (after .empty before).size n room ∧ i < n

/-- Some step set an index that was there, and no later one cleared it. -/
def LastSet (steps : List Step) (i : Nat) : Prop :=
  ∃ before s later, steps = before ++ s :: later ∧ s.Sets i ∧ i < (after .empty before).size ∧
    .clear i ∉ later

theorem after_concat (b : Bitmap) (steps : List Step) (s : Step) :
    after b (steps ++ [s]) = (s.act (after b steps)).1 := by
  rw [after, List.foldl_append]
  rfl

/-- What a run reports of its last step is what the step answers and makes of the bitmap the steps
before it led to. -/
theorem run_concat (b : Bitmap) (steps : List Step) (s : Step) :
    run b (steps ++ [s]) = run b steps ++
      [⟨(s.act (after b steps)).2, (after b (steps ++ [s])).size,
        (after b (steps ++ [s])).ones⟩] := by
  rw [after_concat]
  induction steps generalizing b with
  | nil => rfl
  | cons first rest ih =>
    show _ :: run (first.act b).1 (rest ++ [s]) = _
    rw [ih (first.act b).1]
    rfl

/-- A step sets what it says as far as that is there, clears what it says, and leaves the other
indices alone. -/
structure Acts (b : Bitmap) (s : Step) (b' : Bitmap) : Prop where
  wellFormed : b'.WellFormed
  lt_size_iff : ∀ i, i < b'.size ↔
    i < b.size ∨ ∃ n room, s = .growTo n room ∧ Granted b.size n room ∧ i < n
  test_iff : ∀ i, b'.test i = true ↔ s.Sets i ∧ i < b.size ∨ s ≠ .clear i ∧ b.test i = true

/-- A step that only asks, or is refused, may leave the bitmap as it is. -/
theorem Acts.unchanged {s : Step} (h : b.WellFormed) (hsets : ∀ i, s.Sets i → b.size ≤ i)
    (hclears : ∀ i, s = .clear i → b.test i = false)
    (hgrows : ∀ n room, s = .growTo n room → ¬ Granted b.size n room) : Acts b s b where
  wellFormed := h
  lt_size_iff i := by
    constructor
    · exact Or.inl
    · rintro (hi | ⟨n, room, hgrow, hgranted, -⟩)
      · exact hi
      · exact absurd hgranted (hgrows n room hgrow)
  test_iff i := by
    constructor
    · intro hset
      refine Or.inr ⟨fun hclear => ?_, hset⟩
      rw [hclears i hclear] at hset
      cases hset
    · rintro (⟨hset, hi⟩ | ⟨-, hset⟩)
      · exact absurd (hsets i hset) (Nat.not_le_of_lt hi)
      · exact hset

theorem acts_growTo (h : b.WellFormed) (n : Nat) (room : Bool) :
    Acts b (.growTo n room) ((Step.growTo n room).act b).1 := by
  cases hgrow : b.growTo n room with
  | error e =>
    simp only [Step.act, hgrow]
    refine .unchanged h (fun _ => False.elim) (by simp) fun k room' hk => ?_
    cases hk
    exact h.growTo_eq_error_iff.mp hgrow
  | ok b' =>
    simp only [Step.act, hgrow]
    have hgranted : Granted b.size n room := by
      by_contra hrefused
      rw [h.growTo_eq_error_iff (e := ⟨⟩).mpr hrefused] at hgrow
      cases hgrow
    refine ⟨h.growTo hgrow, fun i => ?_, fun i => ?_⟩
    · rw [size_of_growTo hgrow, lt_max_iff]
      constructor
      · rintro (hi | hi)
        · exact Or.inl hi
        · exact Or.inr ⟨n, room, rfl, hgranted, hi⟩
      · rintro (hi | ⟨k, room', hk, -, hi⟩)
        · exact Or.inl hi
        · cases hk
          exact Or.inr hi
    · rw [h.test_growTo hgrow]
      simp [Step.Sets]

theorem acts_set (h : b.WellFormed) (j : Nat) : Acts b (.set j) ((Step.set j).act b).1 := by
  by_cases hj : j < b.size
  · simp only [Step.act, set?, dif_pos hj, written]
    refine ⟨h.set hj, fun i => ?_, fun i => ?_⟩
    · show i < b.size ↔ _
      simp
    · rw [h.test_set hj, Bool.or_eq_true, decide_eq_true_eq]
      show _ ↔ j = i ∧ i < b.size ∨ Step.set j ≠ .clear i ∧ _
      constructor
      · rintro (hset | rfl)
        · exact Or.inr ⟨nofun, hset⟩
        · exact Or.inl ⟨rfl, hj⟩
      · rintro (⟨heq, -⟩ | ⟨-, hset⟩)
        · exact Or.inr heq
        · exact Or.inl hset
  · simp only [Step.act, set?, dif_neg hj, written]
    refine .unchanged h (fun i hi => ?_) nofun nofun
    have heq : j = i := hi
    omega

theorem acts_setRange (h : b.WellFormed) (first last : Nat) :
    Acts b (.setRange first last) ((Step.setRange first last).act b).1 := by
  have hact : ((Step.setRange first last).act b).1 = (b.setRange first (last - first)).1 := by
    simp only [Step.act]
    split <;> next hset => rw [hset]
  obtain ⟨hwell, hsize, htest⟩ := h.setRange first (last - first)
  rw [hact]
  refine ⟨hwell, fun i => ?_, fun i => (htest i).trans ?_⟩
  · rw [hsize]
    simp
  · show _ ↔ (first ≤ i ∧ i < last) ∧ i < b.size ∨ Step.setRange first last ≠ .clear i ∧ _
    constructor
    · rintro (⟨hrange, hi⟩ | hset)
      · exact Or.inl ⟨by omega, hi⟩
      · exact Or.inr ⟨nofun, hset⟩
    · rintro (⟨hrange, hi⟩ | ⟨-, hset⟩)
      · exact Or.inl ⟨by omega, hi⟩
      · exact Or.inr hset

theorem acts_clear (h : b.WellFormed) (j : Nat) : Acts b (.clear j) ((Step.clear j).act b).1 := by
  by_cases hj : j < b.size
  · simp only [Step.act, clear?, dif_pos hj, written]
    refine ⟨h.clear hj, fun i => ?_, fun i => ?_⟩
    · show i < b.size ↔ _
      simp
    · rw [h.test_clear hj, Bool.and_eq_true, decide_eq_true_eq]
      show _ ↔ False ∧ _ ∨ _
      rw [false_and, false_or, ne_eq, ne_eq, Step.clear.injEq]
      exact and_comm
  · simp only [Step.act, clear?, dif_neg hj, written]
    refine .unchanged h (fun _ => False.elim) (fun i hi => ?_) nofun
    cases hi
    rw [test_eq, decide_eq_false hj, Bool.false_and]

theorem acts (h : b.WellFormed) (s : Step) : Acts b s (s.act b).1 := by
  cases s with
  | growTo n room => exact acts_growTo h n room
  | set j => exact acts_set h j
  | setRange first last => exact acts_setRange h first last
  | clear j => exact acts_clear h j
  | test j => exact .unchanged h (fun _ => False.elim) nofun nofun
  | firstClear => exact .unchanged h (fun _ => False.elim) nofun nofun
  | firstClearFrom start => exact .unchanged h (fun _ => False.elim) nofun nofun
  | isEmpty => exact .unchanged h (fun _ => False.elim) nofun nofun

theorem wellFormed_after (steps : List Step) : (after .empty steps).WellFormed := by
  induction steps using List.reverseRecOn with
  | nil => exact .empty
  | append_singleton steps s ih =>
    rw [after_concat]
    exact (acts ih s).wellFormed

theorem reaches_concat_iff (steps : List Step) (s : Step) (i : Nat) :
    Reaches (steps ++ [s]) i ↔ Reaches steps i ∨
      ∃ n room, s = .growTo n room ∧ Granted (after .empty steps).size n room ∧ i < n := by
  constructor
  · rintro ⟨before, n, room, later, heq, hgranted, hi⟩
    induction later using List.reverseRecOn with
    | nil =>
      obtain ⟨rfl, hlast⟩ := List.append_inj' heq rfl
      exact Or.inr ⟨n, room, List.singleton_inj.mp hlast, hgranted, hi⟩
    | append_singleton later u _ =>
      rw [← List.cons_append, ← List.append_assoc] at heq
      obtain ⟨rfl, -⟩ := List.append_inj' heq rfl
      exact Or.inl ⟨before, n, room, later, rfl, hgranted, hi⟩
  · rintro (⟨before, n, room, later, rfl, hgranted, hi⟩ | ⟨n, room, rfl, hgranted, hi⟩)
    · exact ⟨before, n, room, later ++ [s], by simp, hgranted, hi⟩
    · exact ⟨steps, n, room, [], rfl, hgranted, hi⟩

/-- A bitmap is as large as the largest growth that was granted. -/
theorem lt_size_after_iff (steps : List Step) (i : Nat) :
    i < (after .empty steps).size ↔ Reaches steps i := by
  induction steps using List.reverseRecOn with
  | nil => simp [after, Bitmap.empty, Reaches]
  | append_singleton steps s ih =>
    rw [after_concat, (acts (wellFormed_after steps) s).lt_size_iff, ih, reaches_concat_iff]

theorem lastSet_concat_iff (steps : List Step) (s : Step) (i : Nat) :
    LastSet (steps ++ [s]) i ↔
      s.Sets i ∧ i < (after .empty steps).size ∨ s ≠ .clear i ∧ LastSet steps i := by
  constructor
  · rintro ⟨before, t, later, heq, hsets, hsize, hclear⟩
    induction later using List.reverseRecOn with
    | nil =>
      obtain ⟨rfl, hlast⟩ := List.append_inj' heq rfl
      obtain rfl := List.singleton_inj.mp hlast
      exact Or.inl ⟨hsets, hsize⟩
    | append_singleton later u _ =>
      rw [← List.cons_append, ← List.append_assoc] at heq
      obtain ⟨rfl, hlast⟩ := List.append_inj' heq rfl
      obtain rfl := List.singleton_inj.mp hlast
      rw [List.mem_append, not_or, List.mem_singleton] at hclear
      exact Or.inr ⟨fun h => hclear.2 h.symm, before, t, later, rfl, hsets, hsize, hclear.1⟩
  · rintro (⟨hsets, hsize⟩ | ⟨hne, before, t, later, rfl, hsets, hsize, hclear⟩)
    · exact ⟨steps, s, [], rfl, hsets, hsize, List.not_mem_nil⟩
    · refine ⟨before, t, later ++ [s], by simp, hsets, hsize, ?_⟩
      rw [List.mem_append, not_or, List.mem_singleton]
      exact ⟨hclear, fun h => hne h.symm⟩

/-- Every index is as its last write left it. -/
theorem test_after_iff_lastSet (steps : List Step) (i : Nat) :
    (after .empty steps).test i = true ↔ LastSet steps i := by
  induction steps using List.reverseRecOn with
  | nil => simp [after, Bitmap.test, Bitmap.empty, LastSet]
  | append_singleton steps s ih =>
    rw [after_concat, (acts (wellFormed_after steps) s).test_iff, ih, lastSet_concat_iff]

/-- A bitmap is the set of indices a list of steps has left set. -/
structure Answers (steps : List Step) (b : Bitmap) : Prop where
  /-- It is as large as the largest growth that was granted. -/
  lt_size_iff : ∀ i, i < b.size ↔ Reaches steps i
  /-- What is set is there, and its last write set it. -/
  test_iff : ∀ i, b.test i = true ↔ i < b.size ∧ LastSet steps i
  /-- Growing keeps what is set and exposes clear indices only. -/
  grown : ∀ n room, Granted b.size n room → ((Step.growTo n room).act b).2 = .done ∧
    ((Step.growTo n room).act b).1.size = max b.size n ∧
    ∀ i, ((Step.growTo n room).act b).1.test i = true ↔ i < b.size ∧ b.test i = true
  /-- A growth for which there is no memory changes nothing. -/
  notGrown : ∀ n room, ¬ Granted b.size n room →
    (Step.growTo n room).act b = (b, .cannotGrow)
  /-- What is there is written in a word that is there. -/
  written : ∀ i < b.size, i / 64 < b.words.size ∧ ((Step.set i).act b).2 = .done ∧
    ((Step.clear i).act b).2 = .done
  /-- What is not there is refused. -/
  refused : ∀ i, b.size ≤ i → (Step.set i).act b = (b, .fault .bitOutOfRange) ∧
    (Step.clear i).act b = (b, .fault .bitOutOfRange)
  ones_eq : b.ones = {i | b.test i = true}.ncard
  /-- A search finds the least clear index from its start on. -/
  found_iff : ∀ start i, b.firstClearFrom start = some i ↔
    IsLeast {j | start ≤ j ∧ j < b.size ∧ b.test j = false} i
  notFound_iff : ∀ start, b.firstClearFrom start = none ↔
    ∀ i, start ≤ i → i < b.size → b.test i = true

/-- A bitmap is a set of indices that grows, whatever the steps it is put through: what a run reports
of a step is what the bitmap of the steps before answers, and every such bitmap is the set of the
indices whose last write set them. -/
theorem run_is_growable_set (steps : List Step) :
    (∀ s, run .empty (steps ++ [s]) = run .empty steps ++
      [⟨(s.act (after .empty steps)).2, (after .empty (steps ++ [s])).size,
        (after .empty (steps ++ [s])).ones⟩]) ∧
    Answers steps (after .empty steps) := by
  have h := wellFormed_after steps
  refine ⟨run_concat .empty steps, lt_size_after_iff steps, fun i => ?_,
    fun n room hgranted => ?_, fun n room hrefused => ?_,
    fun i hi => ⟨h.index_lt hi, ?_, ?_⟩, fun i hi => ⟨?_, ?_⟩, h.ones_eq_ncard,
    fun start i => h.firstClearFrom_eq_some_iff, fun start => h.firstClearFrom_eq_none_iff⟩
  · rw [← test_after_iff_lastSet]
    exact ⟨fun hset => ⟨lt_size_of_test hset, hset⟩, And.right⟩
  · cases hgrow : (after .empty steps).growTo n room with
    | error e => exact absurd hgranted (h.growTo_eq_error_iff.mp hgrow)
    | ok b' =>
      simp only [Step.act, hgrow]
      refine ⟨trivial, size_of_growTo hgrow, fun i => ?_⟩
      rw [h.test_growTo hgrow]
      exact ⟨fun hset => ⟨lt_size_of_test hset, hset⟩, And.right⟩
  · simp only [Step.act, h.growTo_eq_error_iff (e := ⟨⟩).mpr hrefused]
  · simp only [Step.act, set?, dif_pos hi, Run.written]
  · simp only [Step.act, clear?, dif_pos hi, Run.written]
  · simp only [Step.act, set?, dif_neg (Nat.not_lt_of_le hi), Run.written]
  · simp only [Step.act, clear?, dif_neg (Nat.not_lt_of_le hi), Run.written]

end Run

end BufferObjects.Bitmap
