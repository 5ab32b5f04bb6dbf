import BufferObjects.World.Entities

/-!
The world and how its parts are read and rewritten. Every position can be read: where nothing was
ever put, the reading is a dead entity without references, so that no operation has to ask first.
-/

namespace BufferObjects

/-- All devices, clients and objects, living and dead, what was reported about them, and what there
is room for just now. -/
structure World where
  devices : Array Device := #[]
  clients : Array Client := #[]
  objects : Array BufferObject := #[]
  /-- Newest first. -/
  log : List Notice := []
  memory : Memory := .ample

namespace World

/-- Nothing at all. -/
def empty : World := {}

def device (w : World) (d : DeviceRef) : Device := w.devices.getD d default

def client (w : World) (c : ClientRef) : Client := w.clients.getD c default

def object (w : World) (o : ObjectRef) : BufferObject := w.objects.getD o default

/-- Rewrites a device. -/
def updateDevice (w : World) (d : DeviceRef) (f : Device → Device) : World :=
  { w with devices := w.devices.modify d f }

def updateClient (w : World) (c : ClientRef) (f : Client → Client) : World :=
  { w with clients := w.clients.modify c f }

def updateObject (w : World) (o : ObjectRef) (f : BufferObject → BufferObject) : World :=
  { w with objects := w.objects.modify o f }

def note (w : World) (n : Notice) : World := { w with log := n :: w.log }

def noteAll (w : World) (ns : List Notice) : World := ns.foldl note w

/-- The world as it is when memory gives these answers. -/
def under (w : World) (memory : Memory) : World := { w with memory }

/-- Takes one more reference to an object. -/
def retain (w : World) (o : ObjectRef) : World :=
  w.updateObject o fun x => { x with refs := x.refs + 1 }

def isLive (w : World) (o : ObjectRef) : Bool := 0 < (w.object o).refs

/-- Whether a client still belongs to a device. -/
def hasClient (w : World) (d : DeviceRef) : Bool :=
  w.clients.any fun c => c.present && c.device == d

/-- Whether anyone keeps a device. -/
def isKept (w : World) (d : DeviceRef) : Bool := (w.device d).held || w.hasClient d

def managesBuffers (w : World) (d : DeviceRef) : Bool := (w.device d).features.supports .buffers

end World

/-- A fault in the middle of an operation, and the references the operation was about to give up
when it struck. -/
structure Break where
  fault : Fault
  dropped : List ObjectRef
  deriving DecidableEq, Repr

end BufferObjects
