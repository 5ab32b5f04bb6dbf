import BufferObjects.Machine.Perform
import BufferObjects.Proofs.Machine.Run
import BufferObjects.Proofs.World.Undoing

/-!
Whole operations under a driver that only answers. A request that can be made is answered: the run
of its tasks ends with nothing left to do. What a caller gets is the outcome the operation ends
with, and with it the reference that the outcome hands over. A request that begins finished, or with
nothing left but to give back the reference it was holding, is answered whatever the driver.
-/

namespace BufferObjects

namespace Machine

variable {m : Machine} {r : Request} {driver : QuietDriver} {w w' : World} {op : Operation}
  {task : Task} {rest : List Task} {outcome : Outcome RequestError Reply} {o : ObjectRef}

/-! ### One task at a time -/

theorem runQuietly_nil (driver : QuietDriver) (w : World) (h : op.todo = []) :
    runQuietly driver w op = (w, op) := by
  rw [runQuietly.eq_def]
  split
  · rfl
  · next htodo =>
    rw [h] at htodo
    cases htodo

theorem runQuietly_work (driver : QuietDriver) (w : World) (htodo : op.todo = task :: rest)
    (hhook : task.hook? = none) :
    runQuietly driver w op = runQuietly driver (carryOut w op task rest).1
      (carryOut w op task rest).2 := by
  rw [runQuietly.eq_def]
  split
  · next hnil =>
    rw [htodo] at hnil
    cases hnil
  · next heq =>
    obtain ⟨rfl, rfl⟩ := List.cons.inj (htodo.symm.trans heq)
    split
    · next hcall =>
      rw [hhook] at hcall
      cases hcall
    · rfl

theorem runQuietly_hook (driver : QuietDriver) (w : World) {call : HookCall}
    (htodo : op.todo = task :: rest) (hhook : task.hook? = some call) :
    runQuietly driver w op = runQuietly driver (conclude w op task rest (driver w call)).1
      (conclude w op task rest (driver w call)).2 := by
  rw [runQuietly.eq_def]
  split
  · next hnil =>
    rw [htodo] at hnil
    cases hnil
  · next heq =>
    obtain ⟨rfl, rfl⟩ := List.cons.inj (htodo.symm.trans heq)
    split
    · next call' hcall =>
      obtain rfl : call' = call := Option.some.inj (hcall.symm.trans hhook)
      rfl
    · next hnone =>
      rw [hhook] at hnone
      cases hnone

/-- Nothing is left to do at the end. -/
theorem todo_runQuietly (driver : QuietDriver) (w : World) (op : Operation) :
    (runQuietly driver w op).2.todo = [] := by
  fun_induction runQuietly driver w op with
  | case1 w op htodo => exact htodo
  | case2 w op task rest htodo call hhook next ih => exact ih
  | case3 w op task rest htodo hhook next ih => exact ih

/-! ### Whole operations -/

/-- A request that can be made is answered. -/
theorem perform?_of_permits (h : m.permits r = true) (driver : QuietDriver) :
    m.perform? driver r =
      some ((runQuietly driver (r.start m.world).1 (r.start m.world).2).2.outcome,
        ⟨(runQuietly driver (r.start m.world).1 (r.start m.world).2).1,
          (handedOver (runQuietly driver (r.start m.world).1
            (r.start m.world).2).2.outcome).toList ++ m.heldDuring r,
          m.operations⟩) := by
  simp [perform?, call?_eq_some.mpr ⟨h, rfl⟩, finish?, todo_runQuietly]

theorem perform?_of_run (h : m.permits r = true)
    (hrun : runQuietly driver (r.start m.world).1 (r.start m.world).2 = (w', op)) :
    m.perform? driver r =
      some (op.outcome, ⟨w', (handedOver op.outcome).toList ++ m.heldDuring r, m.operations⟩) := by
  rw [perform?_of_permits h, hrun]

/-- A request that begins finished asks the driver nothing. -/
theorem perform?_of_finished (h : m.permits r = true) (driver : QuietDriver)
    (hstart : r.start m.world = (w', .finished r outcome)) :
    m.perform? driver r =
      some (outcome, ⟨w', (handedOver outcome).toList ++ m.heldDuring r, m.operations⟩) := by
  have hrun : runQuietly driver (r.start m.world).1 (r.start m.world).2 =
      (w', .finished r outcome) := by
    rw [hstart, runQuietly_nil driver w' rfl]
  exact perform?_of_run h hrun

/-! ### Holding an object for a while -/

theorem runQuietly_drop (driver : QuietDriver) (hlive : 0 < (w.object o).refs) :
    runQuietly driver (w.retain o) ⟨r, .drop o :: rest, outcome⟩ =
      runQuietly driver w ⟨r, rest, outcome⟩ := by
  rw [runQuietly_work driver _ rfl rfl, carryOut, World.dropRef_retain hlive]

/-- A request that only holds an object while it is carried out leaves everything as it was. -/
theorem perform?_of_holding (h : m.permits r = true) (driver : QuietDriver)
    (hlive : 0 < (m.world.object o).refs)
    (hstart : r.start m.world = (m.world.retain o, ⟨r, [.drop o], outcome⟩)) :
    m.perform? driver r =
      some (outcome, ⟨m.world, (handedOver outcome).toList ++ m.heldDuring r, m.operations⟩) := by
  have hrun : runQuietly driver (r.start m.world).1 (r.start m.world).2 =
      (m.world, ⟨r, [], outcome⟩) := by
    rw [hstart, runQuietly_drop driver hlive, runQuietly_nil driver _ rfl]
  exact perform?_of_run h hrun

end Machine

end BufferObjects
