import BufferObjects.Machine.Basic

/-!
Whole operations under a driver that does not call back. Such a driver is a function: what it
answers may depend on the hook and on the world, but it makes no requests of its own. An operation
then runs to its end without interruption, and it does end: every task leaves less to do than
itself, because a task that can lead to others weighs more than all of them together.
-/

namespace BufferObjects

/-- A driver that only answers. -/
abbrev QuietDriver := World → HookCall → Verdict

def QuietDriver.accepting : QuietDriver := fun _ _ => .accept

namespace Task

/-- Tasks that can lead to any number of references to be given up. -/
def departures : Task → Nat
  | forgetClient _ => 2
  | leaveDevice _ => 1
  | _ => 0

/-- More than the weight of all tasks that this one can lead to. -/
def weight : Task → Nat
  | tellFreed _ | tellClosed .. => 1
  | drop _ => 2
  | prepare _ => 3
  | uncount .. => 4
  | tellOpened .. => 7
  | forgetClient _ | leaveDevice _ => 0

end Task

namespace Operation

def total (measure : Task → Nat) : List Task → Nat
  | [] => 0
  | t :: ts => measure t + total measure ts

/-- What bounds the work left: departures first, then weight. -/
def bound (op : Operation) : Nat × Nat := (total Task.departures op.todo, total Task.weight op.todo)

abbrev Less : Nat × Nat → Nat × Nat → Prop := Prod.Lex (· < ·) (· < ·)

/-- Fewer departures, or no more of them and less weight. -/
theorem less_of {a b c d : Nat} (h : a < c ∨ (a ≤ c ∧ b < d)) : Less (a, b) (c, d) := by
  rcases Nat.lt_or_ge a c with hlt | hge
  · exact Prod.Lex.left _ _ hlt
  · obtain rfl : a = c := by omega
    exact Prod.Lex.right _ (by omega)

theorem total_append (measure : Task → Nat) (ts us : List Task) :
    total measure (ts ++ us) = total measure ts + total measure us := by
  induction ts with
  | nil => simp [total]
  | cons t ts ih => simp only [List.cons_append, total, ih, Nat.add_assoc]

theorem total_filter_le (measure : Task → Nat) (p : Task → Bool) (ts : List Task) :
    total measure (ts.filter p) ≤ total measure ts := by
  induction ts with
  | nil => exact Nat.le_refl _
  | cons t ts ih =>
    rw [List.filter_cons]
    split
    · exact Nat.add_le_add_left ih _
    · exact Nat.le_trans ih (Nat.le_add_left _ _)

theorem total_drops (measure : Task → Nat) {n : Nat} (h : ∀ o, measure (.drop o) = n)
    (os : List ObjectRef) : total measure (os.map Task.drop) = n * os.length := by
  induction os with
  | nil => rfl
  | cons o os ih => simp only [List.map_cons, total, h, ih, List.length_cons, Nat.mul_succ]; omega

theorem bound_fail (op : Operation) (b : Break) :
    (op.fail b).bound.1 ≤ op.bound.1 ∧
      (op.fail b).bound.2 ≤ 2 * b.dropped.length + op.bound.2 := by
  have hdepartures := total_drops Task.departures (n := 0) (fun _ => rfl) b.dropped
  have hweight := total_drops Task.weight (n := 2) (fun _ => rfl) b.dropped
  have := total_filter_le Task.departures Task.survivesFault op.todo
  have := total_filter_le Task.weight Task.survivesFault op.todo
  simp only [bound, fail, total_append, hdepartures, hweight]
  omega

end Operation

namespace World

/-- Retiring a name that breaks an assumption gives up at most one reference. -/
theorem length_dropped_of_retireName {w w' : World} {d : DeviceRef} {o : ObjectRef} {b : Break}
    (h : w.retireName d o = (w', .error b)) : b.dropped.length ≤ 1 := by
  unfold retireName at h
  split at h
  · simp at h
  · dsimp only at h
    split at h
    · cases h; simp
    · split at h
      · simp at h
      · split at h
        · simp at h
        · cases h; simp

end World

namespace Machine

/-- Carrying out a task that does not wait leaves less to do. -/
theorem bound_carryOut (w : World) (op : Operation) (task : Task) (rest : List Task)
    (h : task.hook? = none) (htodo : op.todo = task :: rest) :
    Operation.Less (carryOut w op task rest).2.bound op.bound := by
  have hop : op.bound =
      (task.departures + Operation.total Task.departures rest,
        task.weight + Operation.total Task.weight rest) := by
    simp [Operation.bound, Operation.total, htodo]
  have hfail (b : Break) := Operation.bound_fail { op with todo := rest } b
  rw [hop]
  cases task with
  | prepare _ => simp [Task.hook?] at h
  | tellOpened _ _ _ => simp [Task.hook?] at h
  | tellClosed _ _ => simp [Task.hook?] at h
  | tellFreed _ => simp [Task.hook?] at h
  | uncount d o =>
    simp only [carryOut]
    split
    · next f _ =>
      have := hfail ⟨f, []⟩
      simp only [Operation.bound, List.length_nil] at this
      exact Operation.less_of (by simp only [Task.departures, Task.weight]; omega)
    · exact Operation.less_of (by simp only [Task.departures, Task.weight]; omega)
    · split
      · exact Operation.less_of (by simp only [Task.departures, Task.weight]; omega)
      · next b hb =>
        have := hfail b
        have := World.length_dropped_of_retireName hb
        simp only [Operation.bound] at *
        exact Operation.less_of (by simp only [Task.departures, Task.weight]; omega)
  | drop o =>
    simp only [carryOut]
    split
    · next f _ =>
      have := hfail ⟨f, []⟩
      simp only [Operation.bound, List.length_nil] at this
      exact Operation.less_of (by simp only [Task.departures, Task.weight]; omega)
    · exact Operation.less_of (by simp only [Task.departures, Task.weight]; omega)
    · exact Operation.less_of (by
        simp only [Task.departures, Task.weight, Operation.total]; omega)
  | forgetClient c =>
    exact Operation.less_of (by
      simp only [carryOut, Task.departures, Operation.total]; omega)
  | leaveDevice d =>
    refine Operation.less_of ?_
    have hdepartures := Operation.total_drops Task.departures (n := 0) fun _ => rfl
    simp only [carryOut, Operation.total_append, hdepartures, Task.departures]
    omega

/-- Going on after a verdict leaves less to do. -/
theorem bound_conclude (w : World) (op : Operation) (task : Task) (rest : List Task) (v : Verdict)
    (h : task.hook?.isSome) (htodo : op.todo = task :: rest) :
    Operation.Less (conclude w op task rest v).2.bound op.bound := by
  have hop : op.bound =
      (task.departures + Operation.total Task.departures rest,
        task.weight + Operation.total Task.weight rest) := by
    simp [Operation.bound, Operation.total, htodo]
  rw [hop]
  cases task with
  | prepare o =>
    cases v <;>
      exact Operation.less_of (by
        simp only [conclude, Task.departures, Task.weight, Operation.total]; omega)
  | tellOpened c hd o =>
    cases v with
    | accept =>
      exact Operation.less_of (by simp only [conclude, Task.departures, Task.weight]; omega)
    | refuse e =>
      have hfail (b : Break) :=
        Operation.bound_fail { op with todo := rest, outcome := .error e } b
      simp only [conclude, undoHandle]
      split
      · exact Operation.less_of (by simp only [Task.departures, Task.weight]; omega)
      · exact Operation.less_of (by
          simp only [Task.departures, Task.weight, Operation.total_append, Operation.total]
          omega)
      · next o' f _ =>
        have := hfail ⟨f, [o']⟩
        simp only [Operation.bound, List.length_cons, List.length_nil] at this
        exact Operation.less_of (by simp only [Task.departures, Task.weight]; omega)
  | tellClosed c o =>
    exact Operation.less_of (by simp only [conclude, Task.departures, Task.weight]; omega)
  | tellFreed o =>
    exact Operation.less_of (by simp only [conclude, Task.departures, Task.weight]; omega)
  | uncount _ _ => simp [Task.hook?] at h
  | drop _ => simp [Task.hook?] at h
  | forgetClient _ => simp [Task.hook?] at h
  | leaveDevice _ => simp [Task.hook?] at h

/-- Runs an operation to its end. -/
def runQuietly (driver : QuietDriver) (w : World) (op : Operation) : World × Operation :=
  match _htodo : op.todo with
  | [] => (w, op)
  | task :: rest =>
    match _hhook : task.hook? with
    | some call =>
      let next := conclude w op task rest (driver w call)
      runQuietly driver next.1 next.2
    | none =>
      let next := carryOut w op task rest
      runQuietly driver next.1 next.2
termination_by op.bound
decreasing_by
  · exact bound_conclude w op task rest _ (by simp [_hhook]) _htodo
  · exact bound_carryOut w op task rest _hhook _htodo

/-- Makes a request and carries it through to its end; none if it cannot be made now. -/
def perform? (driver : QuietDriver) (m : Machine) (r : Request) :
    Option (Outcome RequestError Reply × Machine) :=
  (m.call? r).bind fun m' =>
    match m'.operations with
    | [] => none
    | op :: outer =>
      let (world, ended) := runQuietly driver m'.world op
      { m' with world, operations := ended :: outer }.finish?

end Machine

end BufferObjects
