import BufferObjects.Alignment
import BufferObjects.World.Tokens

/-!
Coming and going of devices, clients and objects. An object starts with the reference of whoever
asked for it and dies with its last one: its token goes first, then its driver is told. A device
goes when neither a caller nor a client keeps it, and the references of its names with it.
-/

namespace BufferObjects.World

/-- Sets a device up, held by the caller. -/
def newDevice (w : World) (config : Config) (features : Features) :
    World × Except RequestError DeviceRef :=
  match config.defect? with
  | some defect => (w.note (.defectiveConfig defect), .error .invalidArgument)
  | none =>
    match NumberedTable.create config.nameOrder firstName w.memory,
      TokenTable.create config w.memory with
    | .ok names, .ok tokens =>
      let device : Device :=
        { config, features, names, tokens
          nextObject := 1, nextClient := 1, held := true, alive := true }
      ({ w with devices := w.devices.push device }.note (.deviceReady config.maxTokenIndex),
        .ok w.devices.size)
    | .error e, _ => (w.noteAll (KeyTable.createReport config.nameOrder e), .error (.ofTable e))
    | _, .error e => (w.noteAll (KeyTable.createReport config.tokenOrder e), .error (.ofTable e))

/-- Opens a device for a new client. -/
def newClient (w : World) (d : DeviceRef) : World × Except RequestError ClientRef :=
  if !w.managesBuffers d then (w, .error .noDevice)
  else
    -- the number is used up even if there is no table to be had
    let id := (w.device d).nextClient
    let w := (w.updateDevice d fun x => { x with nextClient := id + 1 }).note (.clientOpened id)
    let order := (w.device d).config.handleOrder
    match NumberedTable.create order firstHandle w.memory with
    | .error e => (w.noteAll (KeyTable.createReport order e), .error (.ofTable e))
    | .ok table =>
      let client : Client := { id, device := d, handles := some table, present := true }
      ({ w with clients := w.clients.push client }, .ok w.clients.size)

/-- Whether an object can have this size: some pages, and no part of one. -/
def isObjectSize (size : UInt64) : Bool :=
  match isAligned size pageSize with
  | .ok aligned => size != 0 && aligned
  | .error _ => false

/-- Makes an object with one reference. The driver has not prepared it yet. -/
def newObject (w : World) (d : DeviceRef) (size : UInt64) :
    World × Except RequestError ObjectRef :=
  if !w.managesBuffers d then (w, .error .noDevice)
  else if !isObjectSize size then
    (w.note (.invalidSize size), .error .invalidSize)
  else
    let id := (w.device d).nextObject
    let w := w.updateDevice d fun x => { x with nextObject := id + 1 }
    let object : BufferObject :=
      { id, size, home := d, refs := 1, handles := ⟨0⟩, name := none, token := none,
        prepared := false }
    ({ w with objects := w.objects.push object }, .ok w.objects.size)

/-- What giving up a reference leads to. -/
inductive Dropped
  /-- Nothing more: others hold the object, or it ended unprepared. -/
  | settled
  /-- The object has ended and its driver is owed the news. -/
  | ended
  deriving DecidableEq, Repr

/-- Ends an object that lost its last reference: releases its token, if its device still exists. -/
def endObject (w : World) (o : ObjectRef) : World × Except Fault Dropped :=
  let x := w.object o
  let w := w.note (.objectDying x.id)
  let (w, released) :=
    if (w.device x.home).alive then w.destroyToken x.home o else (w, .ok ())
  match released with
  | .error f => (w, .error f)
  | .ok () =>
    if x.prepared then (w, .ok .ended) else (w.note (.objectDiscarded x.id), .ok .settled)

/-- Gives up one reference to an object; with the last one the object ends. -/
def dropRef (w : World) (o : ObjectRef) : World × Except Fault Dropped :=
  let refs := (w.object o).refs
  let w := w.updateObject o fun x => { x with refs := x.refs - 1 }
  if refs = 1 then w.endObject o else (w, .ok .settled)

/-- Lets a device go that nobody keeps; the objects whose references its names held, in listing
order. A device that is kept, or gone already, stays as it is. -/
def leaveDevice (w : World) (d : DeviceRef) : World × List ObjectRef :=
  if (w.device d).alive && !w.isKept d then
    (w.updateDevice d fun x => { x with alive := false },
      (w.device d).names.entries.toList.map Prod.snd)
  else (w, [])

end BufferObjects.World
