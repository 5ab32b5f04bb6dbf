/-!
What a driver says it can do: a word of flags, of which three are known. Unknown flags are kept and
mean nothing.
-/

namespace BufferObjects

/-- A known capability of a driver. -/
inductive Feature
  /-- Buffers with handles, names and mapping tokens. -/
  | buffers
  /-- Export of buffers to other devices. -/
  | sharing
  /-- Setting of display modes. -/
  | displayModes
  deriving DecidableEq, Repr

def Feature.flag : Feature → UInt32
  | buffers => 1
  | sharing => 2
  | displayModes => 4

/-- The flags of a driver. -/
structure Features where
  bits : UInt32
  deriving DecidableEq, Repr

/-- A driver that says nothing else manages buffers. -/
instance : Inhabited Features := ⟨⟨Feature.buffers.flag⟩⟩

namespace Features

/-- Whether a capability is announced. -/
def supports (f : Features) (x : Feature) : Bool := f.bits &&& x.flag == x.flag

def knownBits : UInt32 :=
  Feature.buffers.flag ||| Feature.sharing.flag ||| Feature.displayModes.flag

def known (f : Features) : UInt32 := f.bits &&& knownBits

/-- Whether only known flags are announced. -/
def isExact (f : Features) : Bool := f.known == f.bits

end Features

end BufferObjects
