import BufferObjects.Machine.Hook
import BufferObjects.Machine.Request

/-!
Operations in progress. An operation calls its driver in the middle, and the driver may call the
library again before it answers; so what is left to do of an operation is data. An operation is the
list of its remaining tasks and the outcome it will have unless a task changes that. The references
that an operation holds are in plain sight: one for each `drop` task, and the one that its outcome
hands over.
-/

namespace BufferObjects

/-- A piece of an operation. The first four wait for the driver, the others are done at once. -/
inductive Task
  /-- The driver is asked to prepare a new object. -/
  | prepare (o : ObjectRef)
  /-- The driver is told of a new handle. -/
  | tellOpened (c : ClientRef) (h : Handle) (o : ObjectRef)
  /-- The driver is told of a handle that has gone. -/
  | tellClosed (c : ClientRef) (o : ObjectRef)
  /-- The driver is told that an object has ended. -/
  | tellFreed (o : ObjectRef)
  /-- A handle that has gone is uncounted; with the last one the name goes, too. -/
  | uncount (d : DeviceRef) (o : ObjectRef)
  /-- A reference is given up. -/
  | drop (o : ObjectRef)
  /-- A client no longer keeps its device. -/
  | forgetClient (c : ClientRef)
  /-- A device goes if nobody keeps it. -/
  | leaveDevice (d : DeviceRef)
  deriving DecidableEq, Repr

namespace Task

def hook? : Task → Option HookCall
  | prepare o => some ⟨.prepare, o⟩
  | tellOpened c _ o => some ⟨.opened c, o⟩
  | tellClosed c o => some ⟨.closed c, o⟩
  | tellFreed o => some ⟨.freed, o⟩
  | _ => none

/-- What must still be done after a fault: references and devices are given up all the same. -/
def survivesFault : Task → Bool
  | drop _ | forgetClient _ | leaveDevice _ => true
  | _ => false

/-- The tasks that close the handle of an entry taken out of its table. -/
def closing (w : World) (c : ClientRef) (o : ObjectRef) : List Task :=
  [.tellClosed c o, .uncount (w.client c).device o, .drop o]

end Task

/-- An operation in progress. -/
structure Operation where
  request : Request
  /-- What is left to do, next first. -/
  todo : List Task
  /-- What the operation will answer, unless a task decides otherwise. -/
  outcome : Outcome RequestError Reply
  deriving DecidableEq, Repr

namespace Operation

/-- Stops at a fault: what it was about to give up is given up, and nothing else is done. -/
def fail (op : Operation) (b : Break) : Operation :=
  { op with
    todo := b.dropped.map Task.drop ++ op.todo.filter Task.survivesFault
    outcome := .fault b.fault }

/-- An operation without anything left to do. -/
def finished (r : Request) (outcome : Outcome RequestError Reply) : Operation := ⟨r, [], outcome⟩

end Operation

end BufferObjects
