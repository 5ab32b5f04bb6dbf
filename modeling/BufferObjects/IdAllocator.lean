import BufferObjects.Bitmap
import BufferObjects.Error

/-!
Dense ids. The allocator hands out the least id of its range that is not in use and takes ids back
one by one. It keeps one bit per id, grown on demand, and an index below which every bit is set.
-/

namespace BufferObjects

/-- The largest id of an allocator without a limit of its own: the largest signed 32-bit number. -/
def unboundedMaxId : UInt32 := 0x7fffffff

/-- Which ids of `first … last` are in use. -/
structure IdAllocator where
  /-- Bit `i` stands for id `first + i`. -/
  used : Bitmap
  first : UInt32
  last : UInt32
  /-- Every index below is in use. -/
  hint : Nat
  allocated : Nat
  deriving Inhabited

namespace IdAllocator

def create (first last : UInt32) : IdAllocator :=
  { used := .empty, first, last, hint := 0, allocated := 0 }

def unbounded (first : UInt32) : IdAllocator := create first unboundedMaxId

def capacity (a : IdAllocator) : Nat :=
  if a.last < a.first then 0 else (a.last - a.first).toNat + 1

/-- The size a full bitmap grows to: twice as large, at least a word, at most the capacity. -/
def grownSize (a : IdAllocator) : Nat :=
  min (max (a.used.size * 2) 64) a.capacity

theorem lt_grownSize {a : IdAllocator} (h : a.used.size < a.capacity) :
    a.used.size < a.grownSize := by
  unfold grownSize
  omega

/-- Puts a free index of `used` to use. -/
def take (a : IdAllocator) (used : Bitmap) (index : Nat) (h : index < used.size) :
    UInt32 × IdAllocator :=
  (a.first + UInt32.ofNat index,
    { a with used := used.set index h, hint := index + 1, allocated := a.allocated + 1 })

/-- Hands out the least free id. The bitmap may have to grow for it; `room` is what memory answers
then. -/
def alloc (a : IdAllocator) (room : Bool) : Except IdError (UInt32 × IdAllocator) :=
  match hfree : a.used.firstClearFrom a.hint with
  | some index => .ok (a.take a.used index (Bitmap.lt_size_of_firstClearFrom hfree))
  | none =>
    if hfull : a.capacity ≤ a.used.size then .error .outOfSpace
    else
      match hgrow : a.used.growTo a.grownSize room with
      | .error _ => .error .outOfMemory
      | .ok used =>
        .ok (a.take used a.used.size (by
          have := lt_grownSize (Nat.lt_of_not_le hfull)
          rw [Bitmap.size_of_growTo hgrow]
          omega))

def indexOf? (a : IdAllocator) (id : UInt32) : Option Nat :=
  if id < a.first ∨ a.last < id then none else some (id - a.first).toNat

def isAllocated (a : IdAllocator) (id : UInt32) : Bool :=
  match a.indexOf? id with
  | some index => a.used.test index
  | none => false

/-- Takes an id back. Only an id in use can be given back. -/
def free (a : IdAllocator) (id : UInt32) : Except Fault IdAllocator :=
  match a.indexOf? id with
  | none => .error .idNotInUse
  | some index =>
    if h : a.used.test index then
      .ok { a with
        used := a.used.clear index (Bitmap.lt_size_of_test h)
        hint := min a.hint index
        allocated := a.allocated - 1 }
    else .error .idNotInUse

/-- Hands out ids one after the other, one for each answer of memory, and answers with the first and
the last; stops at the first refusal, keeping what was handed out before it. -/
def allocMany (a : IdAllocator) :
    List Bool → IdAllocator × Except IdError (Option (UInt32 × UInt32))
  | [] => (a, .ok none)
  | room :: rooms =>
    match a.alloc room with
    | .error e => (a, .error e)
    | .ok (id, a') =>
      let (a'', rest) := a'.allocMany rooms
      (a'', rest.map fun range => some (id, (range.map Prod.snd).getD id))

end IdAllocator

end BufferObjects
