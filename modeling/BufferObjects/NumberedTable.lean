import BufferObjects.IdAllocator
import BufferObjects.KeyTable.Report
import BufferObjects.Memory

/-!
Tables whose keys are dense ids: an id allocator beside a key table. Issuing gives an item the least
free id and files it there, or gives the id back if it cannot be filed; withdrawing takes the item
out and gives the id back. The two parts agree as long as nothing else touches them: an id is in use
exactly when it is a key.
-/

namespace BufferObjects

/-- A key table whose keys are handed out by an allocator. -/
structure NumberedTable (α : Type) where
  entries : KeyTable α
  ids : IdAllocator
  deriving Inhabited

/-- Why no id was issued. -/
inductive IssueError
  /-- There is none to be had. -/
  | noId (cause : IdError)
  /-- The item could not be filed under the one that was free. -/
  | notFiled (id : UInt32) (cause : TableError)
  /-- Nor could the id be given back. -/
  | notReturned (id : UInt32) (fault : Fault)
  deriving DecidableEq, Repr

/-- How a request ends that needed the id. -/
def IssueError.outcome {β : Type} : IssueError → Outcome RequestError β
  | noId e => .error (.ofId e)
  | notFiled _ e => .error (.ofTable e)
  | notReturned _ f => .fault f

namespace NumberedTable

variable {α : Type}

/-- No entries; ids start at `first`. -/
def create (order first : UInt32) (memory : Memory) : Except TableError (NumberedTable α) :=
  (KeyTable.create order memory.buckets).map fun entries => { entries, ids := .unbounded first }

def find? (t : NumberedTable α) (id : UInt32) : Option α := t.entries.find? id.toUInt64

def size (t : NumberedTable α) : Nat := t.entries.size

/-- Files an item under the least free id. If the table refuses it the id is given back. -/
def issue (t : NumberedTable α) (item : α) (memory : Memory) :
    NumberedTable α × Except IssueError UInt32 :=
  match t.ids.alloc memory.ids with
  | .error e => (t, .error (.noId e))
  | .ok (id, ids) =>
    match t.entries.insert id.toUInt64 item memory.entry with
    | .ok entries => ({ entries, ids }, .ok id)
    | .error e =>
      match ids.free id with
      | .ok ids => ({ t with ids }, .error (.notFiled id e))
      | .error f => ({ t with ids }, .error (.notReturned id f))

/-- Takes the item with an id out and gives the id back. The id may turn out not to be in use; the
item is out all the same. -/
def withdraw (t : NumberedTable α) (id : UInt32) :
    Except TableError (α × NumberedTable α × Except Fault Unit) :=
  match t.entries.remove id.toUInt64 with
  | .error e => .error e
  | .ok (item, entries) =>
    match t.ids.free id with
    | .ok ids => .ok (item, { entries, ids }, .ok ())
    | .error f => .ok (item, { t with entries }, .error f)

/-- What is reported about a failed issue: a taken id is an internal fault and lists its chain, and
so is an id that cannot be given back. -/
def issueReport (t : NumberedTable α) (taken : UInt32 → Notice) : IssueError → List Notice
  | .notFiled id .duplicateKey => taken id :: t.entries.chainReport id.toUInt64
  | .notReturned id _ => [.idNotInUse id]
  | _ => []

end NumberedTable

end BufferObjects
