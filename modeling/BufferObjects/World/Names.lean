import BufferObjects.World.Basic

/-!
Names: public numbers under which a device offers an object to all its clients. A name holds one
reference. An object without handles can have none, and the name of an object goes with its last
handle, while that handle's reference is still there.
-/

namespace BufferObjects.World

def setNames (w : World) (d : DeviceRef) (names : NumberedTable ObjectRef) : World :=
  w.updateDevice d fun x => { x with names }

def setName (w : World) (o : ObjectRef) (name : Option Name) : World :=
  w.updateObject o fun x => { x with name }

/-- Publishes an object, or answers with the name it has. -/
def publishName (w : World) (d : DeviceRef) (o : ObjectRef) : World × Outcome RequestError Name :=
  let x := w.object o
  if x.handles.value = 0 then (w.note (.nameRefused x.id), .error .notFound)
  else
    match x.name with
    | some n => (w, .ok n)
    | none =>
      let names := (w.device d).names
      match names.issue o w.memory with
      | (names', .ok n) =>
        ((((w.setNames d names').retain o).setName o (some n)).note (.namePublished n), .ok n)
      | (names', .error e) =>
        ((w.setNames d names').noteAll (names.issueReport .nameTaken e), e.outcome)

def resolveName (w : World) (d : DeviceRef) (n : Name) : Except RequestError ObjectRef :=
  match (w.device d).names.find? n with
  | some o => .ok o
  | none => .error .noSuchName

/-- Takes the name of an object away, and the reference that its entry holds with it. Someone else
must hold a reference to the object the entry leads to. -/
def retireName (w : World) (d : DeviceRef) (o : ObjectRef) : World × Except Break Unit :=
  match (w.object o).name with
  | none => (w, .ok ())
  | some n =>
    let w := w.setName o none
    let names := (w.device d).names
    match names.ids.free n with
    | .error f => (w.note (.idNotInUse n), .error ⟨f, []⟩)
    | .ok ids =>
      match names.entries.remove n.toUInt64 with
      | .error _ => ((w.setNames d { names with ids }).note (.nameWithoutEntry n), .ok ())
      | .ok (p, entries) =>
        let w := w.setNames d { entries, ids }
        -- the reference goes here and now, so it must not be the last
        if 1 < (w.object p).refs then
          let w := w.note (.nameRetired (w.object p).id)
          (w.updateObject p fun x => { x with refs := x.refs - 1 }, .ok ())
        else (w, .error ⟨.lastReferenceInName, [p]⟩)

end BufferObjects.World
