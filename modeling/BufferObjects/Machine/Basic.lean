import BufferObjects.Machine.Start

/-!
The machine: a world, the references in the callers' hands, and the operations in progress,
innermost first. It moves in small steps. A request may be made while no operation is in progress or
while the innermost one waits for its driver, so a driver's hook may make any further requests
before it answers; and whatever is true of every state that moves can lead to is true inside every
hook. What memory answers may change at any time, so the same holds whatever it answers and whenever
it is asked.
-/

namespace BufferObjects

/-- Where everything stands. -/
structure Machine where
  world : World
  /-- One entry for each reference that a caller holds. -/
  held : List ObjectRef
  /-- The operations in progress, innermost first. -/
  operations : List Operation

namespace Machine

def empty : Machine := ⟨.empty, [], []⟩

/-- The hook at which the innermost operation waits. -/
def hook? (m : Machine) : Option HookCall :=
  match m.operations with
  | { todo := task :: _, .. } :: _ => task.hook?
  | _ => none

def isReady (m : Machine) : Bool := m.operations.isEmpty || m.hook?.isSome

/-- Whether a hook in progress is about an object. Its driver has the object at hand there, even
without a reference of its own. -/
def lends (m : Machine) (o : ObjectRef) : Bool :=
  m.operations.any fun op => (op.todo.head?.bind Task.hook?).any (·.object == o)

/-- Whether what a request needs is there: its device in the hands of a caller, its client not yet
given up, a reference to its object or, where that is enough, the object at hand. -/
def canReach (m : Machine) (r : Request) : Bool :=
  r.device?.all (fun d => (m.world.device d).held) &&
  r.client?.all (fun c => (m.world.client c).present) &&
  r.object?.all (fun o => m.held.contains o) &&
  r.viewed?.all (fun o => m.held.contains o || m.lends o)

/-- Whether a request gives up what an operation in progress was called on. -/
def pullsAway (m : Machine) (r : Request) : Bool :=
  match r with
  | .dropDevice d => m.operations.any fun op => op.request.device? == some d
  | .dropClient c => m.operations.any fun op => op.request.client? == some c
  | .dropObject o =>
    m.held.count o < 2 &&
      m.operations.any fun op => op.request.object? == some o || op.request.viewed? == some o
  | _ => false

/-- Whether a request can be made now. -/
def permits (m : Machine) (r : Request) : Bool := m.isReady && m.canReach r && !m.pullsAway r

/-- The references that callers keep while a request is carried out. -/
def heldDuring (m : Machine) : Request → List ObjectRef
  | .dropObject o => m.held.erase o
  | _ => m.held

def call? (m : Machine) (r : Request) : Option Machine :=
  if m.permits r then
    let (world, op) := r.start m.world
    some { world, held := m.heldDuring r, operations := op :: m.operations }
  else none

/-- Carries out a task that does not wait for the driver. -/
def carryOut (w : World) (op : Operation) (task : Task) (rest : List Task) : World × Operation :=
  let op := { op with todo := rest }
  match task with
  | .uncount d o =>
    match w.uncountHandle o with
    | (w, .error f) => (w, op.fail ⟨f, []⟩)
    | (w, .ok false) => (w, op)
    | (w, .ok true) =>
      match w.retireName d o with
      | (w, .ok ()) => (w, op)
      | (w, .error b) => (w, op.fail b)
  | .drop o =>
    match w.dropRef o with
    | (w, .error f) => (w, op.fail ⟨f, []⟩)
    | (w, .ok .settled) => (w, op)
    | (w, .ok .ended) => (w, { op with todo := .tellFreed o :: rest })
  | .forgetClient c =>
    (w.updateClient c fun x => { x with present := false },
      { op with todo := .leaveDevice (w.client c).device :: rest })
  | .leaveDevice d =>
    let (w, named) := w.leaveDevice d
    (w, { op with todo := named.map .drop ++ rest })
  | .prepare _ | .tellOpened .. | .tellClosed .. | .tellFreed _ => (w, op)

/-- Undoes a handle that the driver refused. The driver is not told of its closing; a handle that
has gone in the meantime needs no undoing. -/
def undoHandle (w : World) (op : Operation) (c : ClientRef) (h : Handle) : World × Operation :=
  match w.takeHandle c h with
  | (w, none) => (w, op)
  | (w, some (o, .ok ())) =>
    (w, { op with todo := [.uncount (w.client c).device o, .drop o] ++ op.todo })
  | (w, some (o, .error f)) => (w, op.fail ⟨f, [o]⟩)

/-- Goes on after the driver's verdict on a task. A closing and an end can only be acknowledged. -/
def conclude (w : World) (op : Operation) (task : Task) (rest : List Task) (v : Verdict) :
    World × Operation :=
  let op := { op with todo := rest }
  match task, v with
  | .prepare o, .accept =>
    let w := w.updateObject o fun x => { x with prepared := true }
    (w.note (.objectCreated (w.object o).id), op)
  | .prepare o, .refuse e =>
    (w.note (.objectNotPrepared (w.object o).id),
      { op with todo := .drop o :: rest, outcome := .error e })
  | .tellOpened _ h _, .accept => (w.note (.handleCreated h), op)
  | .tellOpened c h _, .refuse e =>
    undoHandle (w.note (.handleRefused h)) { op with outcome := .error e } c h
  | _, _ => (w, op)

/-- The innermost operation carries out its next task, one that does not wait. -/
def work? (m : Machine) : Option Machine :=
  match m.operations with
  | op :: outer =>
    match op.todo with
    | task :: rest =>
      if task.hook?.isSome then none
      else
        let (world, op) := carryOut m.world op task rest
        some { m with world, operations := op :: outer }
    | [] => none
  | [] => none

/-- The driver answers the hook at which the innermost operation waits. -/
def answer? (m : Machine) (v : Verdict) : Option Machine :=
  match m.operations with
  | op :: outer =>
    match op.todo with
    | task :: rest =>
      if task.hook?.isSome then
        let (world, op) := conclude m.world op task rest v
        some { m with world, operations := op :: outer }
      else none
    | [] => none
  | [] => none

/-- The object that an outcome hands a reference over to. -/
def handedOver : Outcome RequestError Reply → Option ObjectRef
  | .ok reply => reply.object?
  | _ => none

/-- The innermost operation ends: its outcome, and the machine without it. -/
def finish? (m : Machine) : Option (Outcome RequestError Reply × Machine) :=
  match m.operations with
  | op :: outer =>
    if op.todo.isEmpty then
      some (op.outcome,
        { m with held := (handedOver op.outcome).toList ++ m.held, operations := outer })
    else none
  | [] => none

inductive Move
  | call (r : Request)
  | work
  | answer (v : Verdict)
  | finish
  /-- From now on memory gives other answers. -/
  | memory (memory : Memory)
  deriving DecidableEq, Repr

def move? (m : Machine) : Move → Option Machine
  | .call r => m.call? r
  | .work => m.work?
  | .answer v => m.answer? v
  | .finish => m.finish?.map Prod.snd
  | .memory memory => some { m with world := m.world.under memory }

def run? (m : Machine) : List Move → Option Machine
  | [] => some m
  | x :: xs => (m.move? x).bind fun m' => m'.run? xs

end Machine

end BufferObjects
