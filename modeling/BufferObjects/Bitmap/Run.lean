import BufferObjects.Bitmap

/-!
Runs on one bitmap: a list of steps, and for each of them what it answers and how large and how full
the bitmap is then.
-/

namespace BufferObjects.Bitmap.Run

inductive Step
  /-- Makes room for so many bits; `room` is what memory answers if it is asked. -/
  | growTo (n : Nat) (room : Bool)
  | set (index : Nat)
  /-- Sets the bits from the first index up to, not including, the second. -/
  | setRange (first last : Nat)
  | clear (index : Nat)
  | test (index : Nat)
  | firstClear
  | firstClearFrom (start : Nat)
  | isEmpty

inductive Answer
  | done
  | truth (b : Bool)
  | index (i : Option Nat)
  | cannotGrow
  | fault (fault : Fault)

/-- A step and where it left the bitmap. -/
structure Report where
  answer : Answer
  size : Nat
  ones : Nat

/-- The bitmap and the answer after an attempt to write to it. -/
def written (b : Bitmap) : Except Fault Bitmap → Bitmap × Answer
  | .ok b' => (b', .done)
  | .error f => (b, .fault f)

/-- Makes a step: the bitmap and the answer. -/
def Step.act (b : Bitmap) : Step → Bitmap × Answer
  | growTo n room =>
    match b.growTo n room with
    | .ok b' => (b', .done)
    | .error _ => (b, .cannotGrow)
  | set i => written b (b.set? i)
  | setRange first last =>
    match b.setRange first (last - first) with
    | (b', .ok ()) => (b', .done)
    | (b', .error f) => (b', .fault f)
  | clear i => written b (b.clear? i)
  | test i => (b, .truth (b.test i))
  | firstClear => (b, .index b.firstClear)
  | firstClearFrom start => (b, .index (b.firstClearFrom start))
  | isEmpty => (b, .truth b.isEmpty)

def run (b : Bitmap) : List Step → List Report
  | [] => []
  | s :: rest =>
    let (b', answer) := s.act b
    ⟨answer, b'.size, b'.ones⟩ :: run b' rest

end BufferObjects.Bitmap.Run
