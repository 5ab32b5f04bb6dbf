/-!
Hexadecimal text of a 64-bit word, written in place into a fixed line buffer: the two characters
`0x` and then the significant digits, highest first, without leading zeros. Every store is within
the buffer, because a word has at most sixteen digits.
-/

namespace BufferObjects.Hex

/-- Room for `0x` and sixteen digits. -/
abbrev Buffer := Vector UInt8 18

/-- The sixteen digits, as ASCII bytes. -/
def digits : Vector UInt8 16 :=
  #v[0x30, 0x31, 0x32, 0x33, 0x34, 0x35, 0x36, 0x37, 0x38, 0x39, 0x61, 0x62, 0x63, 0x64, 0x65, 0x66]

def leadingZeros (v : UInt64) : Nat :=
  if v = 0 then 64 else 63 - v.toNat.log2

/-- How many digits the word needs; zero is written with one. -/
def digitCount (v : UInt64) : Nat :=
  if v = 0 then 1 else 16 - leadingZeros v / 4

theorem digitCount_le (v : UInt64) : digitCount v ≤ 16 := by
  unfold digitCount
  split <;> omega

/-- The digit of `v` that has `place` digits to its right. -/
def nibble (v : UInt64) (place : Nat) : Fin 16 :=
  ⟨((v >>> UInt64.ofNat (place * 4)) &&& 0xF).toNat, by
    rw [UInt64.toNat_and]
    exact Nat.lt_of_le_of_lt Nat.and_le_right (by decide)⟩

/-- Writes the text of `v` at the start of the buffer. -/
def write (v : UInt64) (buffer : Buffer) : Buffer :=
  Fin.foldl (digitCount v)
    (fun b i =>
      b.set (2 + i) digits[nibble v (digitCount v - 1 - i)]
        (by have := digitCount_le v; omega))
    ((buffer.set 0 0x30).set 1 0x78)

/-- Reads bytes as ASCII text; refuses any other byte. -/
def ascii? (bytes : List UInt8) : Option String :=
  if bytes.all (· < 128) then some (String.ofList (bytes.map fun b => Char.ofNat b.toNat)) else none

/-- The text of `v` as left in a buffer with arbitrary earlier content. -/
def textIn (v : UInt64) (buffer : Buffer) : String :=
  (ascii? ((write v buffer).toList.take (2 + digitCount v))).getD "0x?"

def text (v : UInt64) : String := textIn v (Vector.replicate 18 0)

end BufferObjects.Hex
