import BufferObjects.Machine.Task

/-!
How each request begins: what it does at once, and what is left to do. Requests that the driver has
no part in are over here but for the references they give up.
-/

namespace BufferObjects.Request

/-- The refusal of a request that needs a driver which manages buffers, and, where a client is
named, one of this device. -/
def access (w : World) (d : DeviceRef) (c : Option ClientRef) : World × Except RequestError Unit :=
  if !w.managesBuffers d then (w, .error .noDevice)
  else
    match c with
    | none => (w, .ok ())
    | some c =>
      if (w.client c).device = d then (w, .ok ())
      else (w.note (.foreignClient (w.client c).id), .error .invalidArgument)

/-- Takes a handle out and sets about closing it. -/
def startDelete (w : World) (r : Request) (c : ClientRef) (h : Handle) : World × Operation :=
  match w.takeHandle c h with
  | (w, none) => (w, .finished r (.error .invalidHandle))
  | (w, some (o, .ok ())) =>
    (w.note (.handleRemoved h), ⟨r, Task.closing w c o, .ok .done⟩)
  | (w, some (o, .error f)) => (w, (Operation.finished r (.ok .done)).fail ⟨f, [o]⟩)

/-- Opens a handle and sets about telling the driver; `after` follows in any case. -/
def startOpen (w : World) (r : Request) (c : ClientRef) (o : ObjectRef) (reply : Handle → Reply)
    (after : List Task) : World × Operation :=
  match w.openHandle c o with
  | (w, .ok h) => (w, ⟨r, .tellOpened c h o :: after, .ok (reply h)⟩)
  | (w, .error e) => (w, ⟨r, after, .error e⟩)
  | (w, .fault f) => (w, ⟨r, after, .fault f⟩)

/-- Answers with an object, taking the reference that the answer hands over. -/
def answerObject (w : World) (r : Request) (reply : ObjectRef → Reply) :
    Except RequestError ObjectRef → World × Operation
  | .ok o => (w.retain o, .finished r (.ok (reply o)))
  | .error e => (w, .finished r (.error e))

def start (w : World) (r : Request) : World × Operation :=
  match r with
  | newDevice config features =>
    let (w, made) := w.newDevice config features
    (w, .finished r ((Outcome.ofExcept made).map .device))
  | dropDevice d =>
    (w.updateDevice d fun x => { x with held := false }, ⟨r, [.leaveDevice d], .ok .done⟩)
  | openClient d =>
    let (w, made) := w.newClient d
    (w, .finished r ((Outcome.ofExcept made).map .client))
  | closeClient c =>
    let (w, entries) := w.closeClient c
    (w, ⟨r, entries.flatMap (Task.closing w c), .ok .done⟩)
  | dropClient c =>
    let (w, entries) := w.closeClient c
    (w, ⟨r, entries.flatMap (Task.closing w c) ++ [.forgetClient c], .ok .done⟩)
  | createObject d size =>
    match w.newObject d size with
    | (w, .ok o) => (w, ⟨r, [.prepare o], .ok (.object o)⟩)
    | (w, .error e) => (w, .finished r (.error e))
  | cloneObject o => (w.retain o, .finished r (.ok (.object o)))
  | dropObject o => (w, ⟨r, [.drop o], .ok .done⟩)
  | createHandle c o => startOpen w r c o .handle []
  | lookupHandle c h => answerObject w r .object (w.lookupHandle c h)
  | deleteHandle c h => startDelete w r c h
  | nameHandle d c h =>
    match access w d (some c) with
    | (w, .error e) => (w, .finished r (.error e))
    | (w, .ok ()) =>
      match w.lookupHandle c h with
      | .error e => (w, .finished r (.error e))
      | .ok o =>
        let (w, published) := (w.retain o).publishName d o
        (w, ⟨r, [.drop o], published.map .name⟩)
  | openName d c n =>
    match access w d (some c) with
    | (w, .error e) => (w, .finished r (.error e))
    | (w, .ok ()) =>
      match w.resolveName d n with
      | .error e => (w, .finished r (.error e))
      | .ok o =>
        startOpen (w.retain o) r c o (fun h => .opened h (w.object o).size) [.drop o]
  | closeHandle d c h =>
    match access w d (some c) with
    | (w, .error e) => (w, .finished r (.error e))
    | (w, .ok ()) => startDelete w r c h
  | mapHandle d c h =>
    match access w d (some c) with
    | (w, .error e) => (w, .finished r (.error e))
    | (w, .ok ()) =>
      match w.lookupHandle c h with
      | .error e => (w, .finished r (.error e))
      | .ok o =>
        let (w, created) := (w.retain o).createToken d o
        (w, ⟨r, [.drop o], created.map fun t => .address (MapAddress.encode t)⟩)
  | objectAtAddress d address =>
    let (w, found) := w.objectAtAddress d address
    answerObject w r .object found
  | mapRange d address length =>
    match access w d none with
    | (w, .error e) => (w, .finished r (.error e))
    | (w, .ok ()) =>
      match w.mappingAt d address length with
      | (w, .ok (o, offset)) => (w.retain o, .finished r (.ok (.mapping o offset)))
      | (w, .error e) => (w, .finished r (.error e))
  | publishName d o =>
    let (w, published) := w.publishName d o
    (w, .finished r (published.map .name))
  | resolveName d n => answerObject w r .object (w.resolveName d n)
  | retireName d o =>
    match w.retireName d o with
    | (w, .ok ()) => (w, .finished r (.ok .done))
    | (w, .error b) => (w, (Operation.finished r (.ok .done)).fail b)
  | createToken d o =>
    let (w, created) := w.createToken d o
    (w, .finished r (created.map .token))
  | resolveToken d t => answerObject w r .object (w.resolveToken d t)
  | destroyToken d o =>
    let (w, destroyed) := w.destroyToken d o
    (w, .finished r ((Outcome.ofChecked destroyed).map fun _ => .done))

end BufferObjects.Request
