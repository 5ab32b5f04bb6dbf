import BufferObjects.IdAllocator.Run
import BufferObjects.Proofs.IdAllocator
import Mathlib.Data.Finset.Card

/-!
The allocator against a plain set of ids. What the allocator keeps (bits, a size that grows in
jumps, an index to search from, a count) stands for one finite set, the ids in use, and each of its
operations does to that set what its name says: `alloc` adds the least id of the range that is
missing, `free` removes an id that is there, and both refuse when there is no such id, `alloc` else
only for want of memory. So every answer of a run can be told from the set alone, as long as there
is memory.
-/

namespace BufferObjects.IdAllocator

/-! ### The set an allocator stands for -/

variable {a a' : IdAllocator} {first last id : UInt32} {used : Finset UInt32} {room : Bool}

/-- The allocator has exactly the ids of a set in use, and counts them. -/
structure Holds (a : IdAllocator) (first last : UInt32) (used : Finset UInt32) : Prop where
  wellFormed : a.WellFormed
  first_eq : a.first = first
  last_eq : a.last = last
  isAllocated_iff : ∀ id, a.isAllocated id = true ↔ id ∈ used
  allocated_eq : a.allocated = used.card

/-- The least id of a range that is not in use. -/
structure LeastFree (first last : UInt32) (used : Finset UInt32) (id : UInt32) : Prop where
  first_le : first ≤ id
  le_last : id ≤ last
  free : id ∉ used
  below : ∀ j, first ≤ j → j < id → j ∈ used

/-- Every id of a range is in use. -/
def Full (first last : UInt32) (used : Finset UInt32) : Prop :=
  ∀ j, first ≤ j → j ≤ last → j ∈ used

theorem LeastFree.not_full (h : LeastFree first last used id) : ¬ Full first last used :=
  fun hfull => h.free (hfull id h.first_le h.le_last)

theorem Holds.create (first last : UInt32) :
    (IdAllocator.create first last).Holds first last ∅ where
  wellFormed := .create first last
  first_eq := rfl
  last_eq := rfl
  isAllocated_iff id := by simp
  allocated_eq := rfl

theorem Holds.isAllocated_eq_false (h : a.Holds first last used) (hid : id ∉ used) :
    a.isAllocated id = false := by
  rw [Bool.eq_false_iff, ne_eq, h.isAllocated_iff]
  exact hid

/-- A bitmap is never longer than its range, so the ids its bits stand for are counted up from the
first one without passing the largest number a word holds. -/
theorem WellFormed.toNat_first_add (h : a.WellFormed) {index : Nat}
    (hindex : index < a.used.size) :
    (a.first + UInt32.ofNat index).toNat = a.first.toNat + index := by
  have hsome := indexOf?_first_add (Nat.lt_of_lt_of_le hindex h.size_le)
  exact (indexOf?_eq_some_iff.mp hsome).2.2

/-! ### What the operations do to the set -/

theorem Holds.of_alloc (h : a.Holds first last used) (halloc : a.alloc room = .ok (id, a')) :
    LeastFree first last used id ∧ a'.Holds first last (insert id used) := by
  obtain ⟨hwf, rfl, rfl, hiff, hcount⟩ := h
  have hadds := hwf.adds_of_alloc halloc
  have hfree : id ∉ used := fun hid => by
    have hunused := hadds.wasFree
    rw [(hiff id).mpr hid] at hunused
    cases hunused
  refine ⟨⟨hadds.range.1, hadds.range.2, hfree, fun j hfirst hlt => ?_⟩, hadds.wellFormed,
    hadds.first_eq, hadds.last_eq, fun j => ?_, ?_⟩
  · exact (hiff j).mp (hadds.least j hfirst hlt)
  · rw [hadds.isAllocated_eq, Bool.or_eq_true, hiff, decide_eq_true_iff, Finset.mem_insert,
      or_comm]
  · rw [hadds.allocated_eq, Finset.card_insert_of_notMem hfree, hcount]

theorem Holds.alloc_eq_outOfSpace_iff (h : a.Holds first last used) :
    a.alloc room = .error .outOfSpace ↔ Full first last used := by
  obtain ⟨hwf, rfl, rfl, hiff, -⟩ := h
  simp only [hwf.alloc_eq_outOfSpace_iff, Full, hiff]

/-- An id is refused when the range is used up, and otherwise only for want of memory. -/
theorem Holds.of_alloc_error {e : IdError} (h : a.Holds first last used)
    (halloc : a.alloc room = .error e) : e = .outOfSpace ∧ Full first last used ∨
      e = .outOfMemory ∧ room = false ∧ ¬ Full first last used := by
  obtain ⟨rfl, -⟩ | ⟨rfl, hroom, -⟩ := h.wellFormed.of_alloc_error halloc
  · exact Or.inl ⟨rfl, h.alloc_eq_outOfSpace_iff.mp halloc⟩
  · refine Or.inr ⟨rfl, hroom, fun hfull => ?_⟩
    rw [h.alloc_eq_outOfSpace_iff.mpr hfull] at halloc
    cases halloc

theorem Holds.exists_free (h : a.Holds first last used) (hid : id ∈ used) :
    ∃ a', a.free id = .ok a' ∧ a'.Holds first last (used.erase id) := by
  obtain ⟨hwf, rfl, rfl, hiff, hcount⟩ := h
  obtain ⟨a', hfree, hremoves⟩ := hwf.exists_free ((hiff id).mpr hid)
  refine ⟨a', hfree, hremoves.wellFormed, hremoves.first_eq, hremoves.last_eq, fun j => ?_, ?_⟩
  · rw [hremoves.isAllocated_eq, Bool.and_eq_true, hiff, decide_eq_true_iff, Finset.mem_erase,
      and_comm]
  · rw [hremoves.allocated_eq, Finset.card_erase_of_mem hid, hcount]

/-- An id that is not in use cannot be given back, be it inside the range or not. -/
theorem Holds.free_of_notMem (h : a.Holds first last used) (hid : id ∉ used) :
    a.free id = .error .idNotInUse := by
  have hunused := h.isAllocated_eq_false hid
  unfold isAllocated at hunused
  unfold free
  split
  · rfl
  · next index hindex =>
    rw [hindex] at hunused
    exact dif_neg (Bool.eq_false_iff.mp hunused)

/-! ### Several ids in a row -/

/-- A list of ids, each of them the least that was free when it was handed out. -/
inductive HandsOut (first last : UInt32) : Finset UInt32 → List UInt32 → Finset UInt32 → Prop
  | nil (used : Finset UInt32) : HandsOut first last used [] used
  | cons {used used' : Finset UInt32} {id : UInt32} {ids : List UInt32} :
      LeastFree first last used id → HandsOut first last (insert id used) ids used' →
        HandsOut first last used (id :: ids) used'

/-- The first and the last of a list. -/
def ends : List UInt32 → Option (UInt32 × UInt32)
  | [] => none
  | id :: ids => some (id, ids.getLastD id)

/-- What handing out ids in a row may answer, one for each answer of memory: all of them, or fewer
when the range is full or memory has refused. -/
inductive HandsOutMany (first last : UInt32) (used : Finset UInt32) (rooms : List Bool) :
    Except IdError (Option (UInt32 × UInt32)) → Finset UInt32 → Prop
  | all {ids : List UInt32} {used' : Finset UInt32} :
      HandsOut first last used ids used' → ids.length = rooms.length →
        HandsOutMany first last used rooms (.ok (ends ids)) used'
  | stopped {ids : List UInt32} {used' : Finset UInt32} :
      HandsOut first last used ids used' → ids.length < rooms.length → Full first last used' →
        HandsOutMany first last used rooms (.error .outOfSpace) used'
  | refused {ids : List UInt32} {used' : Finset UInt32} :
      HandsOut first last used ids used' → rooms[ids.length]? = some false →
        ¬ Full first last used' → HandsOutMany first last used rooms (.error .outOfMemory) used'

theorem getD_map_snd_ends (id : UInt32) (ids : List UInt32) :
    ((ends ids).map Prod.snd).getD id = ids.getLastD id := by
  cases ids with
  | nil => rfl
  | cons head tail => exact List.getLastD_cons.symm

theorem HandsOutMany.cons {used' : Finset UInt32} {rooms : List Bool}
    {rest : Except IdError (Option (UInt32 × UInt32))} (hid : LeastFree first last used id)
    (h : HandsOutMany first last (insert id used) rooms rest used') :
    HandsOutMany first last used (room :: rooms)
      (rest.map fun range => some (id, (range.map Prod.snd).getD id)) used' := by
  cases h with
  | @all ids _ hids hlength =>
    simp only [Except.map, getD_map_snd_ends]
    have hlength' : (id :: ids).length = (room :: rooms).length := by simp [hlength]
    exact HandsOutMany.all (.cons hid hids) hlength'
  | @stopped ids _ hids hlength hfull =>
    have hlength' : (id :: ids).length < (room :: rooms).length := by simpa using hlength
    exact .stopped (.cons hid hids) hlength' hfull
  | @refused ids _ hids hroom hfree => exact .refused (.cons hid hids) hroom hfree

theorem Holds.of_allocMany (h : a.Holds first last used) (rooms : List Bool) :
    ∃ used', HandsOutMany first last used rooms (a.allocMany rooms).2 used' ∧
      (a.allocMany rooms).1.Holds first last used' := by
  induction rooms generalizing a used with
  | nil => exact ⟨used, .all (.nil used) rfl, h⟩
  | cons room rooms ih =>
    unfold allocMany
    cases halloc : a.alloc room with
    | error e =>
      obtain ⟨rfl, hfull⟩ | ⟨rfl, rfl, hfree⟩ := h.of_alloc_error halloc
      · exact ⟨used, .stopped (.nil used) (Nat.succ_pos _) hfull, h⟩
      · exact ⟨used, .refused (.nil used) rfl hfree, h⟩
    | ok handed =>
      obtain ⟨id, a'⟩ := handed
      obtain ⟨hleast, hholds⟩ := h.of_alloc halloc
      obtain ⟨used', hmany, hholds'⟩ := ih hholds
      exact ⟨used', hmany.cons hleast, hholds'⟩

namespace Run

/-! ### Steps and runs -/

/-- What a step may answer, report and make of the set of ids in use. -/
inductive Allows (first last : UInt32) (used : Finset UInt32) :
    Step → Answer → List Notice → Finset UInt32 → Prop
  | alloc {id : UInt32} {room : Bool} : LeastFree first last used id →
      Allows first last used (.alloc room) (.id id) [] (insert id used)
  | full {room : Bool} : Full first last used →
      Allows first last used (.alloc room) (.error .outOfSpace) [] used
  | noMemory : ¬ Full first last used →
      Allows first last used (.alloc false) (.error .outOfMemory) [] used
  | free {id : UInt32} : id ∈ used →
      Allows first last used (.free id) .done [] (used.erase id)
  | unused {id : UInt32} : id ∉ used →
      Allows first last used (.free id) (.fault .idNotInUse) [.idNotInUse id] used
  | isAllocated {id : UInt32} {b : Bool} : (b = true ↔ id ∈ used) →
      Allows first last used (.isAllocated id) (.truth b) [] used
  | allocMany {rooms : List Bool} {range : Option (UInt32 × UInt32)} {used' : Finset UInt32} :
      HandsOutMany first last used rooms (.ok range) used' →
        Allows first last used (.allocMany rooms) (.range range) [] used'
  | allocSome {rooms : List Bool} {e : IdError} {used' : Finset UInt32} :
      HandsOutMany first last used rooms (.error e) used' →
        Allows first last used (.allocMany rooms) (.error e) [] used'

/-- A run told from the set of ids in use alone, with the set at its end. -/
inductive Tells (first last : UInt32) :
    Finset UInt32 → List Step → List Report → Finset UInt32 → Prop
  | nil (used : Finset UInt32) : Tells first last used [] [] used
  | cons {used used' used'' : Finset UInt32} {step : Step} {steps : List Step} {answer : Answer}
      {log : List Notice} {reports : List Report} :
      Allows first last used step answer log used' →
      Tells first last used' steps reports used'' →
        Tells first last used (step :: steps) (⟨answer, used'.card, log⟩ :: reports) used''

/-- The allocator at the end of a run. -/
def after (a : IdAllocator) (steps : List Step) : IdAllocator :=
  steps.foldl (fun a step => (step.act a).1) a

theorem allows_act (h : a.Holds first last used) (step : Step) :
    ∃ used', Allows first last used step (step.act a).2.1 (step.act a).2.2 used' ∧
      (step.act a).1.Holds first last used' := by
  cases step with
  | alloc room =>
    cases halloc : a.alloc room with
    | error e =>
      simp only [Step.act, halloc]
      obtain ⟨rfl, hfull⟩ | ⟨rfl, rfl, hfree⟩ := h.of_alloc_error halloc
      · exact ⟨used, .full hfull, h⟩
      · exact ⟨used, .noMemory hfree, h⟩
    | ok handed =>
      obtain ⟨hleast, hholds⟩ := h.of_alloc halloc
      simp only [Step.act, halloc]
      exact ⟨_, .alloc hleast, hholds⟩
  | allocMany rooms =>
    obtain ⟨used', hmany, hholds⟩ := h.of_allocMany rooms
    cases hrooms : a.allocMany rooms with
    | mk a' answer =>
      rw [hrooms] at hmany hholds
      cases answer with
      | error e =>
        simp only [Step.act, hrooms]
        exact ⟨used', .allocSome hmany, hholds⟩
      | ok range =>
        simp only [Step.act, hrooms]
        exact ⟨used', .allocMany hmany, hholds⟩
  | free id =>
    by_cases hid : id ∈ used
    · obtain ⟨a', hfree, hholds⟩ := h.exists_free hid
      simp only [Step.act, hfree]
      exact ⟨_, .free hid, hholds⟩
    · simp only [Step.act, h.free_of_notMem hid]
      exact ⟨used, .unused hid, h⟩
  | isAllocated id => exact ⟨used, .isAllocated (h.isAllocated_iff id), h⟩

/-- A run from an allocator that holds a set is told from that set, and ends in an allocator that
holds the set the telling ends in. -/
theorem tells_run (h : a.Holds first last used) (steps : List Step) :
    ∃ used', Tells first last used steps (run a steps) used' ∧
      (after a steps).Holds first last used' := by
  induction steps generalizing a used with
  | nil => exact ⟨used, .nil used, h⟩
  | cons step steps ih =>
    obtain ⟨used', hallows, hholds⟩ := allows_act h step
    obtain ⟨used'', htells, hafter⟩ := ih hholds
    refine ⟨used'', ?_, hafter⟩
    change Tells first last used (step :: steps)
      (⟨(step.act a).2.1, (step.act a).1.allocated, (step.act a).2.2⟩ :: run (step.act a).1 steps) _
    rw [hholds.allocated_eq]
    exact .cons hallows htells

/-- The allocator always hands out the least free id. Whatever the range and the steps, there is a
set of ids in use from which each answer follows: an id handed out is the least one missing, a
refusal means that none is, unless memory was asked and refused, giving back takes exactly the id
given back and faults when it is not there, and asking and counting are about that set. At the end
the allocator holds the set, no id its bitmap has room for passes the largest word, and what is then
refused or faults leaves it as it is. -/
theorem run_hands_out_least (first last : UInt32) (steps : List Step) :
    ∃ used, Tells first last ∅ steps (run (create first last) steps) used ∧
      (after (create first last) steps).Holds first last used ∧
      (∀ index < (after (create first last) steps).used.size,
        (first + UInt32.ofNat index).toNat = first.toNat + index) ∧
      (Full first last used → ∀ room,
        (Step.alloc room).act (after (create first last) steps) =
          (after (create first last) steps, .error .outOfSpace, [])) ∧
      ∀ id, id ∉ used →
        (Step.free id).act (after (create first last) steps) =
          (after (create first last) steps, .fault .idNotInUse, [.idNotInUse id]) := by
  obtain ⟨used, htells, hholds⟩ := tells_run (.create first last) steps
  refine ⟨used, htells, hholds, fun index hindex => ?_, fun hfull room => ?_,
    fun id hid => ?_⟩
  · have hword := hholds.wellFormed.toNat_first_add hindex
    rwa [hholds.first_eq] at hword
  · simp only [Step.act, hholds.alloc_eq_outOfSpace_iff.mpr hfull]
  · simp only [Step.act, hholds.free_of_notMem hid]

end Run

end BufferObjects.IdAllocator
