import BufferObjects.Proofs.Machine.Run

/-!
The accounts of an object. At every point of an orderly run the references that an object counts are
those of the callers, of the handles, of its name and of the operations in progress, and the handles
that it counts are those in the tables and those that operations have taken out but not yet
uncounted. Between operations nothing is in progress, and the accounts are those of callers, handles
and names alone.
-/

namespace BufferObjects.Machine

variable {m : Machine} {moves : List Move}

/-- How many references to an object the operations in progress hold. -/
def pendingRefs (m : Machine) (o : ObjectRef) : Nat :=
  (m.operations.flatMap Operation.references).count o

/-- How many uses of an object the operations in progress have still to uncount. -/
def pendingUses (m : Machine) (o : ObjectRef) : Nat :=
  (m.operations.flatMap Operation.uncounted).count o

theorem Sound.refs_eq (h : m.Sound) (o : ObjectRef) :
    (m.world.object o).refs = m.held.count o + m.world.handlesTo o +
      (m.world.object o).nameRefs + m.pendingRefs o := by
  have href := h.world.counted.refs_eq o
  rw [outside, List.count_append] at href
  rw [pendingRefs]
  omega

/-- The count of handles has not wrapped round: each of them holds a reference. -/
theorem Sound.handles_eq (h : m.Sound) (o : ObjectRef) :
    (m.world.object o).handles.value.toNat = m.world.handlesTo o + m.pendingUses o := by
  have hle := count_uncounted_le h.operations o
  have href := h.refs_eq o
  have hfit := h.countsFit o
  rw [h.world.counted.uses_eq o, UInt64.toNat_ofNat']
  rw [uses, pendingUses] at *
  rw [pendingRefs] at href
  -- uses in tables and on lists are at most the references, and those fit
  exact Nat.mod_eq_of_lt (by omega)

/-- Uses are no more than references, so one more can always be counted. -/
theorem Sound.handles_le (h : m.Sound) (o : ObjectRef) :
    (m.world.object o).handles.value.toNat ≤ 2 ^ 63 := by
  have hle := count_uncounted_le h.operations o
  have href := h.refs_eq o
  have hfit := h.countsFit o
  rw [h.handles_eq o]
  rw [pendingUses]
  rw [pendingRefs] at href
  omega

/-- What has a name is in use. -/
theorem Sound.used_of_name (h : m.Sound) {o : ObjectRef}
    (hname : (m.world.object o).name.isSome = true) :
    (m.world.object o).handles.value ≠ 0 := by
  have hpos := h.world.named_used o hname
  have hcount := h.handles_eq o
  intro hzero
  rw [hzero, UInt64.toNat_zero, pendingUses] at hcount
  rw [uses] at hpos
  omega

/-- In every state of an orderly run, inside hooks as well as outside, each object counts what is
there to be counted; and where no operation is in progress, nothing is pending. -/
theorem counts_of_orderlyRun (hrun : empty.orderlyRun? moves = some m) (o : ObjectRef) :
    ((m.world.object o).refs = m.held.count o + m.world.handlesTo o +
        (m.world.object o).nameRefs + m.pendingRefs o ∧
      (m.world.object o).handles.value.toNat = m.world.handlesTo o + m.pendingUses o) ∧
    (m.operations = [] →
      (m.world.object o).refs =
        m.held.count o + m.world.handlesTo o + (m.world.object o).nameRefs ∧
      (m.world.object o).handles.value.toNat = m.world.handlesTo o) := by
  have h := Sound.of_run hrun
  have hrefs := h.refs_eq o
  have hhandles := h.handles_eq o
  refine ⟨⟨hrefs, hhandles⟩, fun hnone => ?_⟩
  have hpending : m.pendingRefs o = 0 := by rw [pendingRefs, hnone]; rfl
  have huses : m.pendingUses o = 0 := by rw [pendingUses, hnone]; rfl
  exact ⟨by omega, by omega⟩

/-- An object is opened twice and named; while the driver is told that one handle has gone, the
operation still has that handle's reference and use, and there it takes one reference more. -/
theorem counts_of_orderlyRun_nested :
    let moves := opening ++
      [.call (.createHandle 0 0), .answer .accept, .finish,
        .call (.createHandle 0 0), .answer .accept, .finish,
        .call (.nameHandle 0 0 1), .work, .finish,
        .call (.deleteHandle 0 1), .call (.cloneObject 0), .finish]
    ∃ m, empty.orderlyRun? moves = some m ∧
      (m.held.count 0, m.world.handlesTo 0, m.pendingRefs 0, m.pendingUses 0) = (2, 1, 1, 1) ∧
      (m.world.object 0).refs = m.held.count 0 + m.world.handlesTo 0 +
        (m.world.object 0).nameRefs + m.pendingRefs 0 ∧
      (m.world.object 0).handles.value.toNat = m.world.handlesTo 0 + m.pendingUses 0 := by
  intro moves
  have hread : (empty.orderlyRun? moves).map (fun m =>
      (m.held.count 0, m.world.handlesTo 0, m.pendingRefs 0, m.pendingUses 0)) =
      some (2, 1, 1, 1) := by decide +kernel
  obtain ⟨m, hrun, hcounts⟩ := Option.map_eq_some_iff.mp hread
  exact ⟨m, hrun, hcounts, (counts_of_orderlyRun hrun 0).1⟩

end BufferObjects.Machine
