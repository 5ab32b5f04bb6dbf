import BufferObjects.Machine.Perform
import BufferObjects.Suite

/-!
The library checks itself: four short lives of objects, from an empty world, under a driver that
accepts everything. Whatever a check leaves behind is given up at its end, clients before devices.
-/

namespace BufferObjects.SelfCheck

/-- A check in progress: it works on a machine of its own and may end early. -/
abbrev CheckM := ExceptT CheckResult (StateM Machine)

/-- Makes a request and carries it through. -/
def request (r : Request) : CheckM (Outcome RequestError Reply) := do
  match (← get).perform? .accepting r with
  | none => throw .failed
  | some (outcome, m) => set m; return outcome

/-- A condition that the check stands on. -/
def expect (condition : Bool) : CheckM Unit :=
  if condition then pure () else throw .failed

/-- Makes a request that has to succeed. -/
def demand (r : Request) : CheckM Reply := do
  match ← request r with
  | .ok reply => return reply
  | _ => throw .failed

/-- Makes a request that has to be refused for this reason. -/
def refused (r : Request) (e : RequestError) : CheckM Unit := do
  expect ((← request r) == .error e)

/-- A device with the default set-up; without one there is nothing to check. -/
def device : CheckM DeviceRef := do
  match ← request (.newDevice {} default) with
  | .ok (.device d) => return d
  | _ => throw .skipped

def client (d : DeviceRef) : CheckM ClientRef := do
  match ← demand (.openClient d) with
  | .client c => return c
  | _ => throw .failed

def object (d : DeviceRef) (size : UInt64) : CheckM ObjectRef := do
  match ← demand (.createObject d size) with
  | .object o => return o
  | _ => throw .failed

def handle (c : ClientRef) (o : ObjectRef) : CheckM Handle := do
  match ← demand (.createHandle c o) with
  | .handle h => return h
  | _ => throw .failed

/-- Looks an object up and gives the reference up again. -/
def lookUp (r : Request) : CheckM ObjectRef := do
  match ← demand r with
  | .object o => discard <| demand (.dropObject o); return o
  | _ => throw .failed

def freedCount : CheckM Nat := do
  return ((← get).world.objects.filter fun x => x.prepared && x.refs == 0).size

/-- An object lives as long as its handle. -/
def handleLifecycle : CheckM Unit := do
  let d ← device
  let c ← client d
  let o ← object d pageSize
  let h ← handle c o
  discard <| demand (.dropObject o)
  expect (h == 1)
  discard <| lookUp (.lookupHandle c h)
  discard <| demand (.deleteHandle c h)
  refused (.lookupHandle c h) .invalidHandle
  expect ((← freedCount) == 1)
  discard <| demand (.dropClient c)
  discard <| demand (.dropDevice d)

/-- A name leads another client to the object and goes with the last handle. -/
def nameAndOpen : CheckM Unit := do
  let d ← device
  let a ← client d
  let b ← client d
  let o ← object d (2 * pageSize)
  let h ← handle a o
  discard <| demand (.dropObject o)
  let named ← demand (.nameHandle d a h)
  expect ((← demand (.nameHandle d a h)) == named)
  let .name n := named | throw .failed
  let .opened h' size ← demand (.openName d b n) | throw .failed
  expect (size == 2 * pageSize)
  discard <| demand (.closeHandle d a h)
  discard <| lookUp (.lookupHandle b h')
  discard <| demand (.closeHandle d b h')
  expect ((← freedCount) == 1)
  refused (.resolveName d n) .noSuchName
  discard <| demand (.dropClient b)
  discard <| demand (.dropClient a)
  discard <| demand (.dropDevice d)

/-- A mapping address leads to the object until the object ends. -/
def addressLeadsBack : CheckM Unit := do
  let d ← device
  let c ← client d
  let o ← object d pageSize
  let h ← handle c o
  let .address a ← demand (.mapHandle d c h) | throw .failed
  expect (MapAddress.isMarked a)
  expect ((← demand (.mapHandle d c h)) == .address a)
  expect ((← lookUp (.objectAtAddress d a)) == o)
  discard <| demand (.dropObject o)
  discard <| demand (.deleteHandle c h)
  refused (.objectAtAddress d a) .notFound
  expect (((← get).world.device d).tokens.entries.size == 0)
  discard <| demand (.dropClient c)
  discard <| demand (.dropDevice d)

/-- An object has some whole pages. -/
def badSizes : CheckM Unit := do
  let d ← device
  refused (.createObject d 0) .invalidSize
  refused (.createObject d (pageSize + 1)) .invalidSize
  expect ((← freedCount) == 0)
  discard <| demand (.dropDevice d)

/-- Runs a check from an empty world. -/
def run (name : String) (check : CheckM Unit) : Check :=
  let (ended, m) := check.run.run .empty
  { name
    records := m.world.log.reverse.map Notice.record
    result := match ended with
      | .ok () => .passed
      | .error result => result }

def suite : SuiteReport × List Record :=
  Suite.run "gem"
    [ run "gem_handle_lifecycle" handleLifecycle
    , run "gem_flink_and_open" nameAndOpen
    , run "gem_offset_resolve" addressLeadsBack
    , run "gem_rejects_bad_size" badSizes ]

end BufferObjects.SelfCheck
