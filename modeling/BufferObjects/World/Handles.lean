import BufferObjects.World.Basic

/-!
Handles: a client's own numbers for the objects it has opened. Each handle holds one reference and
counts as one use of the object. A client can open only objects of its own device, and none once it
is closed.
-/

namespace BufferObjects.World

def setHandles (w : World) (c : ClientRef) (handles : Option HandleTable) : World :=
  w.updateClient c fun x => { x with handles }

def countHandle (w : World) (o : ObjectRef) : World :=
  w.updateObject o fun x => { x with handles := x.handles.increment }

/-- Counts one handle less; whether it was the last. -/
def uncountHandle (w : World) (o : ObjectRef) : World × Except Fault Bool :=
  let (handles, last) := (w.object o).handles.decrement
  (w.updateObject o fun x => { x with handles }, last)

/-- Files an object under the client's least free handle. The driver has not been told yet. -/
def openHandle (w : World) (c : ClientRef) (o : ObjectRef) : World × Outcome RequestError Handle :=
  let x := w.client c
  if (w.object o).home ≠ x.device then
    (w.note (.foreignObject (w.object o).id), .error .invalidArgument)
  else
    match x.handles with
    | none => (w, .error .invalidArgument)
    | some table =>
      match table.issue o w.memory with
      | (table', .ok h) => (((w.setHandles c (some table')).retain o).countHandle o, .ok h)
      | (table', .error e) =>
        ((w.setHandles c (some table')).noteAll (table.issueReport .handleTaken e), e.outcome)

def lookupHandle (w : World) (c : ClientRef) (h : Handle) : Except RequestError ObjectRef :=
  match (w.client c).handles with
  | none => .error .invalidHandle
  | some table =>
    match table.find? h with
    | some o => .ok o
    | none => .error .invalidHandle

/-- Takes a handle out of its table. The entry's reference and use are handed to the caller; the
answer is none if there is no such handle. -/
def takeHandle (w : World) (c : ClientRef) (h : Handle) :
    World × Option (ObjectRef × Except Fault Unit) :=
  match (w.client c).handles with
  | none => (w, none)
  | some table =>
    match table.withdraw h with
    | .error _ => (w, none)
    | .ok (o, table', freed) =>
      let w := w.setHandles c (some table')
      match freed with
      | .ok () => (w, some (o, .ok ()))
      | .error f => (w.note (.idNotInUse h), some (o, .error f))

/-- Closes a client for good and hands over what its handles held, in listing order. -/
def closeClient (w : World) (c : ClientRef) : World × List ObjectRef :=
  match (w.client c).handles with
  | none => (w, [])
  | some table =>
    let (entries, rest) := table.entries.drain
    let w := (w.setHandles c none).noteAll rest.leftovers
    (w.note (.clientClosed (w.client c).id entries.length), entries.map Prod.snd)

def handleCount (w : World) (c : ClientRef) : Nat :=
  match (w.client c).handles with
  | some table => table.size
  | none => 0

def isClosed (w : World) (c : ClientRef) : Bool := (w.client c).handles.isNone

end BufferObjects.World
