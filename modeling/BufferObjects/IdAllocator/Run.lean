import BufferObjects.IdAllocator
import BufferObjects.Log.Notice

/-!
Runs on one id allocator: a list of steps, and for each of them what it answers, how many ids are in
use then, and what was reported.
-/

namespace BufferObjects.IdAllocator.Run

inductive Step
  /-- Hands out an id; `room` is what memory answers if it is asked. -/
  | alloc (room : Bool)
  /-- Hands out several ids, one for each answer of memory. -/
  | allocMany (rooms : List Bool)
  | free (id : UInt32)
  | isAllocated (id : UInt32)

inductive Answer
  | done
  | id (id : UInt32)
  /-- The first and the last of several ids, if there were any. -/
  | range (ids : Option (UInt32 × UInt32))
  | truth (b : Bool)
  | error (cause : IdError)
  | fault (fault : Fault)

/-- A step and where it left the allocator. -/
structure Report where
  answer : Answer
  allocated : Nat
  log : List Notice

/-- Makes a step: the allocator, the answer and what is reported. -/
def Step.act (a : IdAllocator) : Step → IdAllocator × Answer × List Notice
  | alloc room =>
    match a.alloc room with
    | .ok (id, a') => (a', .id id, [])
    | .error e => (a, .error e, [])
  | allocMany rooms =>
    match a.allocMany rooms with
    | (a', .ok ids) => (a', .range ids, [])
    | (a', .error e) => (a', .error e, [])
  | free id =>
    match a.free id with
    | .ok a' => (a', .done, [])
    | .error f => (a, .fault f, [.idNotInUse id])
  | isAllocated id => (a, .truth (a.isAllocated id), [])

def run (a : IdAllocator) : List Step → List Report
  | [] => []
  | s :: rest =>
    let (a', answer, log) := s.act a
    ⟨answer, a'.allocated, log⟩ :: run a' rest

end BufferObjects.IdAllocator.Run
