import BufferObjects.Outcome

/-!
A count of uses kept in one 64-bit word. It does not keep anything alive: whoever brings it to zero
is told so, and acts on it.
-/

namespace BufferObjects

/-- A number of uses, modulo `2 ^ 64`. -/
structure UseCount where
  value : UInt64
  deriving DecidableEq, Repr, Inhabited

namespace UseCount

def increment (c : UseCount) : UseCount := ⟨c.value + 1⟩

/-- One use less. The answer tells whether this was the last use; from zero the count wraps round
and the call is a fault. -/
def decrement (c : UseCount) : UseCount × Except Fault Bool :=
  (⟨c.value - 1⟩, if c.value = 0 then .error .countBelowZero else .ok (c.value == 1))

end UseCount

end BufferObjects
