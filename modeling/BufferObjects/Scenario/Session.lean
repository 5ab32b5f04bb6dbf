import BufferObjects.Scenario.Answer
import BufferObjects.Scenario.Slots

/-!
Running a scenario on a machine. A step makes its requests one after the other; while an operation
waits at a hook, the script laid out for that hook is run before the hook is answered, and so on
inside its steps.

A slot that a step works on is in use until the step ends. If it is emptied or refilled meanwhile,
what it held is given up only then; otherwise at once. So nothing is ever taken from under an
operation in progress.
-/

namespace BufferObjects.Scenario

/-- A reference in a slot. The key tells apart references to one object. -/
structure Hold where
  key : Nat
  object : ObjectRef
  deriving DecidableEq, Repr

/-- What a slot can hold. -/
inductive Content
  | object (h : Hold)
  | client (c : ClientRef)
  | device (d : DeviceRef)
  deriving DecidableEq, Repr

/-- The driver of a device. -/
structure Driver where
  device : DeviceRef
  /-- The slot that the device was made for; its scripts are laid out under this name. -/
  label : String
  conduct : Conduct

/-- Everything a scenario has brought about so far. -/
structure Session where
  machine : Machine
  devices : Slots DeviceRef
  clients : Slots ClientRef
  objects : Slots Hold
  drivers : List Driver
  /-- The scripts not yet run, first laid out first. -/
  scripts : List (String × HookKind × Script)
  /-- What the steps in progress use, innermost step first. -/
  uses : List (List Content)
  nextKey : Nat
  /-- The hooks called in the innermost step, newest first. -/
  events : List Event

def Session.empty : Session :=
  { machine := .empty, devices := [], clients := [], objects := [], drivers := [], scripts := []
    uses := [], nextKey := 0, events := [] }

/-- Something that happens to a session. -/
abbrev SessionM := StateM Session

/-- Part of a step; it may end the step early with an answer. -/
abbrev StepM := ExceptT Answer SessionM

/-- Carries the operation just begun through to its end. -/
abbrev Carrier := SessionM (Outcome RequestError Reply)

namespace Session

def stores (s : Session) : Content → Bool
  | .object h => s.objects.holds h
  | .client c => s.clients.holds c
  | .device d => s.devices.holds d

/-- Whether a step in progress uses this content. -/
def isUsed (s : Session) (x : Content) : Bool := s.uses.any fun u => u.contains x

def world (s : Session) : World := s.machine.world

/-- Marks content as used by the innermost step. -/
def use (s : Session) (x : Content) : Session :=
  { s with uses := match s.uses with
      | [] => []
      | u :: outer => (x :: u) :: outer }

def view (s : Session) : View :=
  { devices := s.devices.map fun (name, d) =>
      (name, (s.world.device d).names.size, (s.world.device d).tokens.entries.size)
    clients := s.clients.map fun (name, c) =>
      (name, (s.world.client c).handles.map NumberedTable.size)
    objects := s.objects.map fun (name, h) => (name, .of (s.world.object h.object)) }

/-- Takes the first script that is laid out for a hook. -/
def takeScript (s : Session) (label : String) (kind : HookKind) : Option Script × Session :=
  let isIt : String × HookKind × Script → Bool := fun e => e.1 == label && e.2.1 == kind
  ((s.scripts.find? isIt).map fun e => e.2.2, { s with scripts := s.scripts.eraseP isIt })

end Session

/-! ### Requests and slots -/

def request (go : Carrier) (r : Request) : SessionM (Outcome RequestError Reply) := do
  let s ← get
  match s.machine.call? r with
  | none => return .error .invalidArgument
  | some machine =>
    set { s with machine }
    go

/-- Makes a request whose refusal or fault is the answer of the step. -/
def ask (go : Carrier) (r : Request) : StepM Reply := do
  match ← request go r with
  | .ok reply => return reply
  | .error e => throw (.error e)
  | .fault f => throw (.fault f)

/-- The request that gives content up. -/
def Content.giveUp : Content → Request
  | object h => .dropObject h.object
  | client c => .dropClient c
  | device d => .dropDevice d

/-- Gives up content that has left its slot, unless a step in progress uses it. -/
def letGo (go : Carrier) (x : Content) : StepM Unit := do
  unless (← get).isUsed x do
    discard <| ask go x.giveUp

/-- Finds the content of a slot and uses it until the step ends. -/
def useSlot {α : Type} (slots : Session → Slots α) (content : α → Content) (name : String) :
    StepM α := do
  match (slots (← get)).get? name with
  | none => throw (.noSlot name)
  | some a => modify (·.use (content a)); return a

def device (name : String) : StepM DeviceRef := useSlot Session.devices Content.device name

def client (name : String) : StepM ClientRef := useSlot Session.clients Content.client name

def object (name : String) : StepM ObjectRef :=
  Hold.object <$> useSlot Session.objects Content.object name

/-- Stores a reference; what was in the slot is given up afterwards. -/
def storeObject (go : Carrier) (name : String) (o : ObjectRef) : StepM Unit := do
  let s ← get
  let old := s.objects.get? name
  set { s with
    objects := s.objects.put name ⟨s.nextKey, o⟩
    nextKey := s.nextKey + 1 }
  if let some h := old then letGo go (.object h)

/-- Stores a client; what was in the slot is given up afterwards. -/
def storeClient (go : Carrier) (name : String) (c : ClientRef) : StepM Unit := do
  let s ← get
  let old := s.clients.get? name
  set { s with clients := s.clients.put name c }
  if let some c := old then letGo go (.client c)

/-- Stores a device; what was in the slot is given up afterwards. -/
def storeDevice (go : Carrier) (name : String) (d : DeviceRef) : StepM Unit := do
  let s ← get
  let old := s.devices.get? name
  set { s with devices := s.devices.put name d }
  if let some d := old then letGo go (.device d)

/-- Keeps a reference that an answer handed over, or gives it up if it has no target. -/
def keep (go : Carrier) (target : Option String) (o : ObjectRef) : StepM Unit :=
  match target with
  | some name => storeObject go name o
  | none => discard <| ask go (.dropObject o)

/-- Asks for an object and keeps the reference; the answer is the object's id. -/
def askObject (go : Carrier) (r : Request) (target : Option String) : StepM Answer := do
  match ← ask go r with
  | .object o =>
    let id := ((← get).world.object o).id
    keep go target o
    return .id id
  | _ => return .done

/-- Empties a slot and gives up what was in it. -/
def emptySlot {α : Type} (go : Carrier) (slots : Session → Slots α)
    (erased : Session → Session) (content : α → Content) (name : String) : StepM Unit := do
  match (slots (← get)).get? name with
  | none => throw (.noSlot name)
  | some a =>
    modify erased
    letGo go (content a)

def emptyObject (go : Carrier) (name : String) : StepM Unit :=
  emptySlot go Session.objects (fun s => { s with objects := s.objects.erase name })
    Content.object name

def emptyClient (go : Carrier) (name : String) : StepM Unit :=
  emptySlot go Session.clients (fun s => { s with clients := s.clients.erase name })
    Content.client name

def emptyDevice (go : Carrier) (name : String) : StepM Unit :=
  emptySlot go Session.devices (fun s => { s with devices := s.devices.erase name })
    Content.device name

/-! ### Steps -/

/-- The answer of a step that makes one request and keeps no reference. -/
def answerOf : Reply → Answer
  | .handle h => .handle h
  | .opened h size => .opened h size
  | .name n => .name n
  | .token t => .token t
  | .address a => .address a
  | _ => .done

/-- Does what a step says. Slots are looked up in the order device, client, object. -/
def Step.act (go : Carrier) : Step → StepM Answer
  | .newDevice dev config driver => do
    match ← ask go (.newDevice config driver.features) with
    | .device d =>
      modify fun s => { s with drivers := ⟨d, dev, driver⟩ :: s.drivers }
      storeDevice go dev d
      return .done
    | _ => return .done
  | .deviceInfo dev => do
    let d ← device dev
    let x := (← get).world.device d
    return .device x.config x.features
  | .dropDevice dev => do
    emptyDevice go dev
    return .done
  | .openClient dev target => do
    let d ← device dev
    match ← ask go (.openClient d) with
    | .client c =>
      let id := ((← get).world.client c).id
      storeClient go target c
      return .clientId id
    | _ => return .done
  | .clientInfo name => do
    let c ← client name
    let w := (← get).world
    return .client (w.client c).id (w.handleCount c) (w.isClosed c)
  | .closeClient name => do
    let c ← client name
    answerOf <$> ask go (.closeClient c)
  | .dropClient name => do
    emptyClient go name
    return .done
  | .createObject dev size target => do
    let d ← device dev
    askObject go (.createObject d size) (some target)
  | .dropObject obj => do
    emptyObject go obj
    return .done
  | .cloneObject obj target => do
    let o ← object obj
    discard <| askObject go (.cloneObject o) (some target)
    return .done
  | .objectInfo obj => do
    let o ← object obj
    return .object (.of ((← get).world.object o))
  | .createHandle name obj => do
    let c ← client name
    let o ← object obj
    answerOf <$> ask go (.createHandle c o)
  | .lookupHandle name h target => do
    let c ← client name
    askObject go (.lookupHandle c h) target
  | .deleteHandle name h => do
    let c ← client name
    answerOf <$> ask go (.deleteHandle c h)
  | .nameHandle dev name h => do
    let d ← device dev
    let c ← client name
    answerOf <$> ask go (.nameHandle d c h)
  | .openName dev name n => do
    let d ← device dev
    let c ← client name
    answerOf <$> ask go (.openName d c n)
  | .closeHandle dev name h => do
    let d ← device dev
    let c ← client name
    answerOf <$> ask go (.closeHandle d c h)
  | .mapHandle dev name h => do
    let d ← device dev
    let c ← client name
    answerOf <$> ask go (.mapHandle d c h)
  | .objectAtAddress dev address target => do
    let d ← device dev
    askObject go (.objectAtAddress d address) target
  | .mapRange dev address length target => do
    let d ← device dev
    match ← ask go (.mapRange d address length) with
    | .mapping o offset =>
      let id := ((← get).world.object o).id
      keep go target o
      return .mapping id offset
    | _ => return .done
  | .publishName dev obj => do
    let d ← device dev
    let o ← object obj
    answerOf <$> ask go (.publishName d o)
  | .resolveName dev n target => do
    let d ← device dev
    askObject go (.resolveName d n) target
  | .retireName dev obj => do
    let d ← device dev
    let o ← object obj
    answerOf <$> ask go (.retireName d o)
  | .createToken dev obj => do
    let d ← device dev
    let o ← object obj
    answerOf <$> ask go (.createToken d o)
  | .resolveToken dev t target => do
    let d ← device dev
    askObject go (.resolveToken d t) target
  | .destroyToken dev obj => do
    let d ← device dev
    let o ← object obj
    answerOf <$> ask go (.destroyToken d o)
  | .counts dev => do
    let d ← device dev
    let x := (← get).world.device d
    return .counts x.names.size x.tokens.entries.size
  | .script dev hook steps refusal times => do
    modify fun s => { s with
      scripts := s.scripts ++ List.replicate times (dev, hook, ⟨steps, refusal⟩) }
    return .done

/-- Ends the innermost step's use of what it worked on, one thing after the other: the object before
the client before the device. What no slot holds any more and no outer step uses is given up in its
turn, while the rest is still in use. A fault on the way becomes the answer. -/
def endUse (go : Carrier) : List Content → Answer → SessionM Answer
  | [], answer => do
    modify fun s => { s with uses := s.uses.tail }
    return answer
  | x :: rest, answer => do
    modify fun s => { s with uses := rest :: s.uses.tail }
    if (← get).stores x then endUse go rest answer
    else
      match ← (letGo go x).run with
      | .ok () => endUse go rest answer
      | .error fault => endUse go rest fault

/-- Runs what happens in a step apart from what happened before it in the outer one. -/
def apart (act : SessionM Answer) : SessionM (Answer × List Event) := do
  let outer := (← get).events
  modify fun s => { s with events := [] }
  let answer ← act
  let events := (← get).events.reverse
  modify fun s => { s with events := outer }
  return (answer, events)

/-- Runs a step: its answer and the hooks called in it. -/
def Step.run (go : Carrier) (step : Step) : SessionM (Answer × List Event) :=
  apart do
    modify fun s => { s with uses := [] :: s.uses }
    let answer ← (step.act go).run
    endUse go ((← get).uses.headD []) <| match answer with
      | .ok a => a
      | .error a => a

/-! ### Hooks -/

/-- What a driver sees of a hook. -/
def hookView (w : World) (label : String) (call : HookCall) : HookView :=
  { kind := .of call.hook
    device := label
    object := .of (w.object call.object)
    client := match call.hook with
      | .opened c | .closed c => some (w.client c).id
      | .prepare | .freed => none }

/-- Lets the driver of an object answer a hook, running the script laid out for it. -/
def runHook (go : Carrier) (call : HookCall) : SessionM Verdict := do
  let s ← get
  let home := (s.world.object call.object).home
  match s.drivers.find? (·.device == home) with
  | none => return .accept
  | some driver =>
    if driver.conduct = .plain then return .accept
    let view := hookView s.world driver.label call
    let (script, s) := s.takeScript driver.label view.kind
    set s
    let script := script.getD ⟨[], none⟩
    let inner ← script.steps.mapM (Step.run go)
    modify fun s => { s with events := .called view inner :: s.events }
    return match script.refusal with
      | some e => .refuse e
      | none => .accept

/-- Carries the innermost operation through to its end. The number bounds how many tasks and hooks
follow each other here and inside the hooks. -/
def carry : Nat → Carrier
  | 0 => return .error .outOfSpace
  | n + 1 => do
    let s ← get
    match s.machine.finish? with
    | some (outcome, machine) => set { s with machine }; return outcome
    | none =>
      match s.machine.hook? with
      | some call =>
        let verdict ← runHook (carry n) call
        modify fun s => { s with machine := (s.machine.answer? verdict).getD s.machine }
        carry n
      | none =>
        set { s with machine := s.machine.work?.getD s.machine }
        carry n

/-! ### Whole scenarios -/

/-- Enough for a scenario: hooks are nested no deeper than there are scripts, and an operation has
no more tasks than a few for each handle and each name that the steps can have made. -/
def budget (steps : List Step) : Nat :=
  let n := Step.size.sizes steps
  (n + 2) * (10 * n + 16)

/-- Runs a step at top level and reports on it. -/
def Step.report (go : Carrier) (step : Step) : SessionM StepReport := do
  let before := (← get).world.log
  let (answer, events) ← step.run go
  let s ← get
  return { answer, events, view := s.view, log := Notice.since before s.world.log }

/-- Empties a slot at the end of a scenario. -/
def endSlot (drop : String → StepM Unit) (name : String) : SessionM EndReport := do
  let (answer, events) ← apart do
    match ← (drop name).run with
    | .ok () => return .done
    | .error a => return a
  return { slot := name, answer, events }

/-- Gives up everything: the scripts not yet run, then objects, clients and devices by slot name. -/
def endAll (go : Carrier) : SessionM (List EndReport) := do
  modify fun s => { s with scripts := [] }
  let objects ← ((← get).objects.map Prod.fst).mapM (endSlot (emptyObject go))
  let clients ← ((← get).clients.map Prod.fst).mapM (endSlot (emptyClient go))
  let devices ← ((← get).devices.map Prod.fst).mapM (endSlot (emptyDevice go))
  return objects ++ clients ++ devices

/-- Runs a scenario from nothing to nothing. -/
def run (steps : List Step) : Report :=
  let go := carry (budget steps)
  let (reports, s) := (steps.mapM (Step.report go)).run .empty
  let (endings, s') := (endAll go).run s
  { steps := reports, endings, endLog := Notice.since s.world.log s'.world.log }

end BufferObjects.Scenario
