import BufferObjects.World.Handles
import BufferObjects.World.Lifetime
import BufferObjects.World.Names

/-!
What can be asked of the library, and what it answers. An answer that names an object hands over one
reference to it; one that names a client or a device hands over that client or device.
-/

namespace BufferObjects

/-- A call to the library. -/
inductive Request
  | newDevice (config : Config) (features : Features)
  | dropDevice (d : DeviceRef)
  | openClient (d : DeviceRef)
  | closeClient (c : ClientRef)
  | dropClient (c : ClientRef)
  | createObject (d : DeviceRef) (size : UInt64)
  | cloneObject (o : ObjectRef)
  | dropObject (o : ObjectRef)
  | createHandle (c : ClientRef) (o : ObjectRef)
  | lookupHandle (c : ClientRef) (h : Handle)
  | deleteHandle (c : ClientRef) (h : Handle)
  /-- Publishes the object under a handle. -/
  | nameHandle (d : DeviceRef) (c : ClientRef) (h : Handle)
  /-- Opens a handle for the object with a name. -/
  | openName (d : DeviceRef) (c : ClientRef) (n : Name)
  | closeHandle (d : DeviceRef) (c : ClientRef) (h : Handle)
  /-- The address at which the object under a handle can be mapped. -/
  | mapHandle (d : DeviceRef) (c : ClientRef) (h : Handle)
  | objectAtAddress (d : DeviceRef) (address : UInt64)
  | mapRange (d : DeviceRef) (address length : UInt64)
  | publishName (d : DeviceRef) (o : ObjectRef)
  | resolveName (d : DeviceRef) (n : Name)
  | retireName (d : DeviceRef) (o : ObjectRef)
  | createToken (d : DeviceRef) (o : ObjectRef)
  | resolveToken (d : DeviceRef) (t : Token)
  | destroyToken (d : DeviceRef) (o : ObjectRef)
  deriving DecidableEq, Repr

/-- What a successful call answers. -/
inductive Reply
  | done
  | device (d : DeviceRef)
  | client (c : ClientRef)
  | object (o : ObjectRef)
  | handle (h : Handle)
  | opened (h : Handle) (size : UInt64)
  | name (n : Name)
  | token (t : Token)
  | address (a : UInt64)
  | mapping (o : ObjectRef) (offset : UInt64)
  deriving DecidableEq, Repr

/-- The object an answer hands a reference over to. -/
def Reply.object? : Reply → Option ObjectRef
  | object o => some o
  | mapping o _ => some o
  | _ => none

namespace Request

/-- The device a request is addressed to directly, and not through a client. -/
def device? : Request → Option DeviceRef
  | dropDevice d | openClient d | createObject d _ | nameHandle d _ _ | openName d _ _
  | closeHandle d _ _ | mapHandle d _ _ | objectAtAddress d _ | mapRange d _ _
  | publishName d _ | resolveName d _ | retireName d _ | createToken d _ | resolveToken d _
  | destroyToken d _ => some d
  | _ => none

/-- The client a request is made on. -/
def client? : Request → Option ClientRef
  | closeClient c | dropClient c | createHandle c _ | lookupHandle c _ | deleteHandle c _
  | nameHandle _ c _ | openName _ c _ | closeHandle _ c _ | mapHandle _ c _ => some c
  | _ => none

/-- The object a request is made on by means of a reference that the caller holds. -/
def object? : Request → Option ObjectRef
  | cloneObject o | dropObject o | createHandle _ o | publishName _ o | createToken _ o => some o
  | _ => none

/-- The object a request is made on that the caller need only have at hand. -/
def viewed? : Request → Option ObjectRef
  | retireName _ o | destroyToken _ o => some o
  | _ => none

end Request

end BufferObjects
