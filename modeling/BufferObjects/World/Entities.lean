import BufferObjects.Features
import BufferObjects.NumberedTable
import BufferObjects.UseCount

/-!
The things a world is made of. A buffer object belongs to the device that made it. Clients of the
device hold it by handles, the device by a global name; each handle and each name is one counted
reference. A mapping token leads to the object without keeping it alive.

Devices, clients and objects are referred to by their position in the world, which is never reused;
the ids that drivers and logs see are words of the device and may wrap round.
-/

namespace BufferObjects

/-- The position of a device in the world. -/
abbrev DeviceRef := Nat

abbrev ClientRef := Nat

abbrev ObjectRef := Nat

/-- A client's number for an object. -/
abbrev Handle := UInt32

/-- A device's public number for an object. -/
abbrev Name := UInt32

/-- The number of an object in mapping addresses. -/
abbrev Token := UInt64

/-- A buffer shared between a driver and its clients. -/
structure BufferObject where
  /-- The number of the object at its device. -/
  id : UInt64
  /-- In bytes; a multiple of a page. -/
  size : UInt64
  home : DeviceRef
  /-- Counted references; the object dies when the last one goes. -/
  refs : Nat
  /-- Handles in the tables of all clients. -/
  handles : UseCount
  name : Option Name
  token : Option Token
  /-- Whether the driver has prepared the object and is owed its release. -/
  prepared : Bool
  deriving Inhabited

/-- The open handles of a client. -/
abbrev HandleTable := NumberedTable ObjectRef

/-- One opening of a device. -/
structure Client where
  /-- The number of the client at its device. -/
  id : UInt32
  device : DeviceRef
  /-- The handles, until the client is closed. -/
  handles : Option HandleTable
  /-- Whether the opening still exists and so keeps its device. -/
  present : Bool
  deriving Inhabited

/-- Where mapping tokens come from. -/
inductive TokenSource
  /-- The least free index. -/
  | dense (ids : IdAllocator)
  /-- A hashed candidate that is free. -/
  | hashed (bits shift : UInt32) (add : UInt64)
  deriving Inhabited

/-- The mapping tokens in use. The entries do not count as references. -/
structure TokenTable where
  entries : KeyTable ObjectRef
  source : TokenSource
  deriving Inhabited

namespace TokenTable

/-- No tokens, with the source that a configuration asks for. -/
def create (c : Config) (memory : Memory) : Except TableError TokenTable :=
  (KeyTable.create c.tokenOrder memory.tokenBuckets).map fun entries =>
    { entries
      source :=
        if c.hashesTokens then .hashed c.tokenBits c.tokenShift c.tokenAdd
        else .dense (.create firstTokenIndex c.maxTokenIndex) }

/-- Files an object under a new token; `seed` decides where hashing starts. A token that is an id is
given back if the object cannot be filed under it. -/
def issue (t : TokenTable) (object : ObjectRef) (seed : UInt64) (memory : Memory) :
    TokenTable × Outcome RequestError Token :=
  match t.source with
  | .dense ids =>
    match ids.alloc memory.ids with
    | .error e => (t, .error (.ofTokenId e))
    | .ok (id, ids') =>
      match t.entries.insert id.toUInt64 object memory.entry with
      | .ok entries => ({ entries, source := .dense ids' }, .ok id.toUInt64)
      | .error e =>
        match ids'.free id with
        | .ok ids'' => ({ t with source := .dense ids'' }, .error (.ofTable e))
        | .error f => ({ t with source := .dense ids' }, .fault f)
  | .hashed bits shift add =>
    match t.entries.insertAny object seed bits shift add memory.entry with
    | .ok (key, entries) => ({ t with entries }, .ok key)
    | .error e => (t, .error (.ofTable e))
    | .fault f => (t, .fault f)

/-- What is reported about an issue: a space of hashed candidates that is used up, or an id that
could not be given back. -/
def issueReport (t : TokenTable) (memory : Memory) : Outcome RequestError Token → List Notice
  | .error .keySpaceExhausted =>
    match t.source with
    | .dense _ => []
    | .hashed bits _ _ => [.keySpaceExhausted bits]
  | .fault .idNotInUse =>
    match t.source with
    | .dense ids => ((ids.alloc memory.ids).toOption.map fun a => .idNotInUse a.1).toList
    | .hashed .. => []
  | _ => []

/-- Gives the id of a token back, where tokens are ids. -/
def freeId (t : TokenTable) (token : Token) : Except Fault TokenTable :=
  match t.source with
  | .dense ids => (ids.free token.toUInt32).map fun ids' => { t with source := .dense ids' }
  | .hashed .. => .ok t

end TokenTable

/-- A device: its driver's features, the names and mapping tokens of its objects. -/
structure Device where
  config : Config
  features : Features
  names : NumberedTable ObjectRef
  tokens : TokenTable
  nextObject : UInt64
  nextClient : UInt32
  /-- Whether a caller, and not only a client, keeps the device. -/
  held : Bool
  /-- Whether the device exists; its tables go when it does. -/
  alive : Bool
  deriving Inhabited

end BufferObjects
