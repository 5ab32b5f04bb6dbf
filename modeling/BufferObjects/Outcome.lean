/-!
How a call can end. Besides a value and an error meant for the caller there is a third way: the
call notices that one of the library's own assumptions is broken and stops where it stands. Such a
fault is a value like the others, so that "this never happens" can be stated and proved.
-/

namespace BufferObjects

/-- An internal assumption that turned out broken. It stops the operation that notices it; what the
operation changed before stays changed. -/
inductive Fault
  /-- An id was given back that is not in use. -/
  | idNotInUse
  /-- A use count was taken below zero. -/
  | countBelowZero
  /-- A name was retired while its table entry held the only reference. -/
  | lastReferenceInName
  /-- A bit beyond the end of a bitmap was written. -/
  | bitOutOfRange
  /-- A singleton was released that its slot does not hold. -/
  | unmatchedRelease
  /-- A sum left its word. -/
  | additionOverflow
  /-- A difference left its word. -/
  | subtractionOverflow
  deriving DecidableEq, Repr

def Fault.message : Fault → String
  | idNotInUse => "free de ID não alocado"
  | countBelowZero => "RefCount decrementado abaixo de zero"
  | lastReferenceInName => "nome aposentado sem referência de handle em voo"
  | bitOutOfRange => "assertion failed: index < self.len"
  | unmatchedRelease => "item_unref sem referência correspondente"
  | additionOverflow => "attempt to add with overflow"
  | subtractionOverflow => "attempt to subtract with overflow"

/-- The end of a call: a value, an error for the caller, or a fault. -/
inductive Outcome (ε α : Type) where
  | ok (value : α)
  | error (cause : ε)
  | fault (fault : Fault)
  deriving DecidableEq, Repr

namespace Outcome

variable {ε α : Type}

/-- An outcome that cannot be a fault. -/
def ofExcept : Except ε α → Outcome ε α
  | .ok a => .ok a
  | .error e => .error e

/-- An outcome whose only way to go wrong is a fault. -/
def ofChecked : Except Fault α → Outcome ε α
  | .ok a => .ok a
  | .error f => .fault f

def map {β : Type} (f : α → β) : Outcome ε α → Outcome ε β
  | .ok a => .ok (f a)
  | .error e => .error e
  | .fault f => .fault f

end Outcome

end BufferObjects
