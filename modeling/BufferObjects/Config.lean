import BufferObjects.KeyTable.Basic
import BufferObjects.MapAddress

/-!
How a device is set up: the orders of its tables and the space its mapping tokens are taken from.
With neither shift nor addend tokens are the least free indices; with one of them they are hashed
candidates `(c << shift) + add`, so that a driver can prescribe their low bits. A configuration is
checked once, before the device exists.
-/

namespace BufferObjects

/-- Buffers are multiples of a page. -/
def pageSize : UInt64 := 4096

/-- The least handle; zero is none. -/
def firstHandle : UInt32 := 1

/-- The least name; zero is none. -/
def firstName : UInt32 := 1

/-- The least index of a mapping token. -/
def firstTokenIndex : UInt32 := 0

/-- The set-up of a device. -/
structure Config where
  handleOrder : UInt32 := 6
  nameOrder : UInt32 := 8
  tokenOrder : UInt32 := 12
  /-- The largest index a token is made from. -/
  maxTokenIndex : UInt32 := 0x3fffff
  tokenShift : UInt32 := 0
  tokenAdd : UInt64 := 0
  deriving DecidableEq, Repr, Inhabited

namespace Config

inductive Defect
  | tableOrder (order : UInt32)
  | indexBeyondAddress (index : UInt32)
  | spaceTooSmall (size : UInt64)
  | spaceNoPowerOfTwo (size : UInt64)
  | addendOverlapsCandidate (add : UInt64)
  | tokenBeyondAddress (shift : UInt32)
  deriving DecidableEq, Repr

def hashesTokens (c : Config) : Bool := c.tokenShift != 0 || c.tokenAdd != 0

def indexCount (c : Config) : UInt64 := c.maxTokenIndex.toUInt64 + 1

/-- How many of the low bits of a positive number are clear. -/
def trailingZeros (n : Nat) : Nat :=
  ((List.range 64).takeWhile fun i => !n.testBit i).length

/-- The width of the space of candidates. -/
def tokenBits (c : Config) : UInt32 := UInt32.ofNat (trailingZeros c.indexCount.toNat)

def isPowerOfTwo (n : UInt64) : Bool := n != 0 && n &&& (n - 1) == 0

/-- The largest hashed token, unless its bits leave the word on the way. -/
def largestToken? (c : Config) : Option UInt64 :=
  let index := c.maxTokenIndex.toUInt64
  let shift := c.tokenShift.toUInt64
  let shifted := index <<< shift
  if shifted >>> shift = index then
    let largest := shifted + c.tokenAdd
    if largest < shifted then none else some largest
  else none

/-- Whether every hashed token has room in an address. -/
def tokensFit (c : Config) : Bool :=
  match c.largestToken? with
  | some largest => largest ≤ MapAddress.maxToken
  | none => false

/-- The first of the three orders that no table can have. -/
def badOrder? (c : Config) : Option UInt32 :=
  [c.handleOrder, c.nameOrder, c.tokenOrder].find? (maxTableOrder < ·)

/-- Finds what is wrong with a configuration, in a fixed order. -/
def defect? (c : Config) : Option Defect :=
  match c.badOrder? with
  | some order => some (.tableOrder order)
  | none =>
    if MapAddress.maxToken < c.maxTokenIndex.toUInt64 then
      some (.indexBeyondAddress c.maxTokenIndex)
    else if !c.hashesTokens then none
    else if c.indexCount < 2 then some (.spaceTooSmall c.indexCount)
    else if !isPowerOfTwo c.indexCount then some (.spaceNoPowerOfTwo c.indexCount)
    else if 64 ≤ c.tokenShift ∨
        (0 < c.tokenShift ∧ (1 : UInt64) <<< c.tokenShift.toUInt64 ≤ c.tokenAdd) then
      some (.addendOverlapsCandidate c.tokenAdd)
    else if c.tokensFit then none
    else some (.tokenBeyondAddress c.tokenShift)

end Config

end BufferObjects
