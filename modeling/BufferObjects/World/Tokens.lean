import BufferObjects.World.Basic

/-!
Mapping tokens: the numbers by which a page fault finds its object. A token counts as no reference;
it is looked up only while the object lives and is released when the object dies.
-/

namespace BufferObjects.World

def setTokens (w : World) (d : DeviceRef) (tokens : TokenTable) : World :=
  w.updateDevice d fun x => { x with tokens }

def setToken (w : World) (o : ObjectRef) (token : Option Token) : World :=
  w.updateObject o fun x => { x with token }

/-- Gives an object a token, or answers with the one it has. -/
def createToken (w : World) (d : DeviceRef) (o : ObjectRef) :
    World × Outcome RequestError Token :=
  let x := w.object o
  match x.token with
  | some t => (w, .ok t)
  | none =>
    let tokens := (w.device d).tokens
    match tokens.issue o x.id w.memory with
    | (tokens', .ok t) =>
      (((w.setTokens d tokens').setToken o (some t)).note (.tokenCreated t), .ok t)
    | (tokens', failed) =>
      ((w.setTokens d tokens').noteAll (tokens.issueReport w.memory failed), failed)

/-- The live object with a token. -/
def resolveToken (w : World) (d : DeviceRef) (t : Token) : Except RequestError ObjectRef :=
  match (w.device d).tokens.entries.find? t with
  | some o => if w.isLive o then .ok o else .error .notFound
  | none => .error .notFound

def destroyToken (w : World) (d : DeviceRef) (o : ObjectRef) : World × Except Fault Unit :=
  let x := w.object o
  match x.token with
  | none => (w, .ok ())
  | some t =>
    let w := w.setToken o none
    match (w.device d).tokens.freeId t with
    | .error f => (w.note (.idNotInUse t.toUInt32), .error f)
    | .ok tokens =>
      match tokens.entries.remove t with
      | .ok (_, entries) =>
        ((w.setTokens d { tokens with entries }).note (.tokenReleased x.id), .ok ())
      | .error _ => ((w.setTokens d tokens).note (.tokenWithoutEntry x.id), .ok ())

/-- The live object that a mapping address leads to. -/
def objectAtAddress (w : World) (d : DeviceRef) (address : UInt64) :
    World × Except RequestError ObjectRef :=
  if MapAddress.isMarked address then
    match w.resolveToken d (MapAddress.tokenOf address) with
    | .ok o => (w, .ok o)
    | .error e => (w.note (.addressUnknown address), .error e)
  else (w, .error .notFound)

/-- Whether `length` bytes from `offset` on lie within `size` bytes. -/
def fits (offset length size : UInt64) : Bool :=
  let last := offset + length
  offset ≤ last && last ≤ size

/-- The object and the offset that an address of a mapping of `length` bytes leads to. -/
def mappingAt (w : World) (d : DeviceRef) (address length : UInt64) :
    World × Except RequestError (ObjectRef × UInt64) :=
  match w.objectAtAddress d address with
  | (w, .error e) => (w, .error e)
  | (w, .ok o) =>
    let offset := MapAddress.offsetOf address
    if fits offset length (w.object o).size then (w, .ok (o, offset))
    else (w.note (.mappingTooLong offset), .error .invalidArgument)

end BufferObjects.World
