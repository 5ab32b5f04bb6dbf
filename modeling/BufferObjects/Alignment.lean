import BufferObjects.Outcome

/-!
Alignment of 64-bit quantities to a power of two, tested on the low bits.
-/

namespace BufferObjects

/-- Whether the bits of `value` below `align` are all clear. For a power of two this is
divisibility; zero is no alignment, since one less than it leaves the word. -/
def isAligned (value align : UInt64) : Except Fault Bool :=
  if align = 0 then .error .subtractionOverflow else .ok (value &&& (align - 1) == 0)

end BufferObjects
