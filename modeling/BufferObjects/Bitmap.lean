import BufferObjects.Outcome

/-!
A growable set of indices packed into 64-bit words. The size need not be a multiple of 64; the bits
of the last word beyond it are padding and stay clear, so that growing exposes clear bits. The
search for a clear index goes word by word.
-/

namespace BufferObjects

/-- A request for more bits than there is memory for. -/
structure GrowError where
  deriving DecidableEq, Repr

/-- Bits `0` to `size - 1`, sixty-four to a word. -/
structure Bitmap where
  words : Array UInt64
  size : Nat
  deriving Inhabited

namespace Bitmap

def empty : Bitmap := ⟨#[], 0⟩

def isEmpty (b : Bitmap) : Bool := b.size == 0

/-- The word with only the bit of `index` set. -/
def bitOf (index : Nat) : UInt64 := 1 <<< UInt64.ofNat (index % 64)

/-- Makes room for `n` bits; new ones are clear. Memory is asked for the words that are missing, if
any are, and `room` is what it answers. -/
def growTo (b : Bitmap) (n : Nat) (room : Bool) : Except GrowError Bitmap :=
  if n ≤ b.size then .ok b
  else if b.words.size < (n + 63) / 64 ∧ room = false then .error ⟨⟩
  else .ok ⟨b.words ++ Array.replicate ((n + 63) / 64 - b.words.size) 0, n⟩

def set (b : Bitmap) (index : Nat) (_h : index < b.size) : Bitmap :=
  { b with words := b.words.modify (index / 64) (· ||| bitOf index) }

def clear (b : Bitmap) (index : Nat) (_h : index < b.size) : Bitmap :=
  { b with words := b.words.modify (index / 64) (· &&& ~~~bitOf index) }

def set? (b : Bitmap) (index : Nat) : Except Fault Bitmap :=
  if h : index < b.size then .ok (b.set index h) else .error .bitOutOfRange

def clear? (b : Bitmap) (index : Nat) : Except Fault Bitmap :=
  if h : index < b.size then .ok (b.clear index h) else .error .bitOutOfRange

/-- Sets `count` bits from `index` on, up to the first that is not there. -/
def setRange (b : Bitmap) (index : Nat) : Nat → Bitmap × Except Fault Unit
  | 0 => (b, .ok ())
  | count + 1 =>
    match b.set? index with
    | .error f => (b, .error f)
    | .ok b' => b'.setRange (index + 1) count

/-- Whether a bit is set; one that is not there is clear. -/
def test (b : Bitmap) (index : Nat) : Bool :=
  index < b.size && b.words.getD (index / 64) 0 &&& bitOf index != 0

/-- The number of low bits that are set before the first clear one. -/
def trailingOnes (w : UInt64) : Nat :=
  ((List.range 64).takeWhile fun i => w.toNat.testBit i).length

/-- The index of the first clear bit in `count` words from word `i` on, the bits in `masked`
counting as set in word `i`. -/
def scan (words : Array UInt64) (masked : UInt64) (i : Nat) : Nat → Option Nat
  | 0 => none
  | count + 1 =>
    let w := words.getD i 0 ||| masked
    if w = 0xffffffffffffffff then scan words 0 (i + 1) count
    else some (i * 64 + trailingOnes w)

/-- The least clear index from `start` on. -/
def firstClearFrom (b : Bitmap) (start : Nat) : Option Nat :=
  if b.size ≤ start then none
  else
    (scan b.words (bitOf start - 1) (start / 64) (b.words.size - start / 64)).filter
      (· < b.size)

def firstClear (b : Bitmap) : Option Nat := b.firstClearFrom 0

def onesIn (w : UInt64) : Nat := ((List.range 64).filter fun i => w.toNat.testBit i).length

def ones (b : Bitmap) : Nat := b.words.foldl (fun n w => n + onesIn w) 0

theorem lt_size_of_firstClearFrom {b : Bitmap} {start index : Nat}
    (h : b.firstClearFrom start = some index) : index < b.size := by
  unfold firstClearFrom at h
  split at h
  · simp at h
  · simpa using (Option.filter_eq_some_iff.mp h).2

/-- Growing makes the bitmap as large as asked for, never smaller. -/
theorem size_of_growTo {b b' : Bitmap} {n : Nat} {room : Bool} (h : b.growTo n room = .ok b') :
    b'.size = max b.size n := by
  unfold growTo at h
  split at h
  · next hle => cases h; omega
  · split at h
    · simp at h
    · cases h
      simp only
      omega

theorem lt_size_of_test {b : Bitmap} {index : Nat} (h : b.test index = true) : index < b.size := by
  simp only [test, Bool.and_eq_true, decide_eq_true_eq] at h
  exact h.1

end Bitmap

end BufferObjects
