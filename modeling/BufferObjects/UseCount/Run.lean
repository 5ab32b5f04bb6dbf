import BufferObjects.UseCount

/-!
Runs on one use count: a list of steps, and for each of them what it answers and the count then.
-/

namespace BufferObjects.UseCount.Run

inductive Step
  | increment
  | decrement

inductive Answer
  /-- The count before the step. -/
  | previous (n : UInt64)
  /-- Whether the count came to zero. -/
  | last (b : Bool)
  | fault (fault : Fault)

/-- A step and where it left the count. -/
structure Report where
  answer : Answer
  count : UInt64

/-- Makes a step: the count and the answer. -/
def Step.act (c : UseCount) : Step → UseCount × Answer
  | increment => (c.increment, .previous c.value)
  | decrement =>
    match c.decrement with
    | (c', .ok b) => (c', .last b)
    | (c', .error f) => (c', .fault f)

def run (c : UseCount) : List Step → List Report
  | [] => []
  | s :: rest =>
    let (c', answer) := s.act c
    ⟨answer, c'.value⟩ :: run c' rest

end BufferObjects.UseCount.Run
