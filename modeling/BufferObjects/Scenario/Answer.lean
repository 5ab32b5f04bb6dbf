import BufferObjects.Scenario.Step

/-!
What a scenario shows: the answer of each step, the hooks that were called meanwhile, and what the
slots hold afterwards.
-/

namespace BufferObjects.Scenario

/-- What can be seen of an object through a reference. -/
structure ObjectView where
  id : UInt64
  size : UInt64
  refs : Nat
  handles : UInt64
  name : Option Name
  token : Option Token
  deriving DecidableEq, Repr

namespace ObjectView

/-- What can be seen of an object now. -/
def of (x : BufferObject) : ObjectView :=
  { id := x.id, size := x.size, refs := x.refs, handles := x.handles.value, name := x.name,
    token := x.token }

/-- An optional number in a constructor's clothes. -/
private def wrapped (label : String) : Option Nat → String
  | none => "None"
  | some n => "Some(" ++ label ++ "(" ++ toString n ++ "))"

def debugText (x : ObjectView) : String :=
  "GemObject \x7b id: ObjectId(" ++ toString x.id.toNat ++ "), size: " ++ toString x.size.toNat ++
    ", handle_count: " ++ toString x.handles.toNat ++
    ", name: " ++ wrapped "GemName" (x.name.map UInt32.toNat) ++
    ", offset: " ++ wrapped "OffsetToken" (x.token.map UInt64.toNat) ++ " \x7d"

end ObjectView

/-- The answer of a step. -/
inductive Answer where
  | done
  | id (id : UInt64)
  | clientId (id : UInt32)
  | handle (h : Handle)
  | opened (h : Handle) (size : UInt64)
  | name (n : Name)
  | token (t : Token)
  | address (a : UInt64)
  | mapping (id offset : UInt64)
  | device (config : Config) (features : Features)
  | client (id : UInt32) (handles : Nat) (closed : Bool)
  | object (view : ObjectView)
  | counts (names tokens : Nat)
  /-- A slot that the step needs is empty. -/
  | noSlot (name : String)
  | error (cause : RequestError)
  | fault (fault : Fault)

/-- A hook as its driver saw it on entry. -/
structure HookView where
  kind : HookKind
  /-- The slot that the device was made for. -/
  device : String
  object : ObjectView
  /-- The client's number, where the hook is about a handle. -/
  client : Option UInt32

/-- A hook that was called, with the answers and events of the steps that it made. -/
inductive Event where
  | called (view : HookView) (inner : List (Answer × List Event))

/-- What the slots hold, by slot name. -/
structure View where
  /-- The numbers of names and tokens of each device. -/
  devices : List (String × Nat × Nat)
  /-- The number of handles of each client, or none if it is closed. -/
  clients : List (String × Option Nat)
  objects : List (String × ObjectView)

structure StepReport where
  answer : Answer
  events : List Event
  view : View
  log : List Notice

/-- A slot that was emptied at the end. -/
structure EndReport where
  slot : String
  answer : Answer
  events : List Event

structure Report where
  steps : List StepReport
  endings : List EndReport
  endLog : List Notice

end BufferObjects.Scenario
