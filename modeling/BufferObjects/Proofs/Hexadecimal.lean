import BufferObjects.Log.Record
import Mathlib.Algebra.Group.Nat.Defs
import Mathlib.Data.List.Basic
import Mathlib.Data.List.Induction
import Mathlib.Tactic.ByContra

/-!
Numbers in the log. A number is written in place into a buffer that has room for the longest one:
how many digits it needs is told from its highest set bit, and each digit is cut out of the word and
looked up in a table. What is read there afterwards is `0x` and the numeral of the number to base
sixteen, the only one it has, whatever the buffer held before. So a number can be told from its
text, and the text that stands for unreadable bytes is never needed.
-/

namespace BufferObjects.Hex

variable {v w : UInt64} {n d m : Nat}

/-! ### Numerals -/

/-- The digits in the order of their values. -/
def alphabet : List Char :=
  ['0', '1', '2', '3', '4', '5', '6', '7', '8', '9', 'a', 'b', 'c', 'd', 'e', 'f']

def digitValue? (c : Char) : Option Nat := alphabet.idxOf? c

/-- Reads digits, the highest first. -/
def value? (cs : List Char) : Option Nat :=
  cs.foldlM (fun n c => (digitValue? c).map (16 * n + ·)) 0

/-- A number the way it is written: its digits read as the number, and no zero leads but one that
stands alone. -/
structure IsNumeral (n : Nat) (cs : List Char) : Prop where
  mem_alphabet : ∀ c ∈ cs, c ∈ alphabet
  value?_eq : value? cs = some n
  ne_nil : cs ≠ []
  leading : cs.head? = some '0' → cs = ['0']

theorem digitChar_mem_alphabet (hd : d < 16) : d.digitChar ∈ alphabet := by
  have h : ∀ d : Fin 16, Nat.digitChar d ∈ alphabet := by decide
  exact h ⟨d, hd⟩

theorem digitValue?_eq_some_iff {c : Char} :
    digitValue? c = some d ↔ d < 16 ∧ c = d.digitChar := by
  have htable : ∀ d : Fin 16, alphabet[d] = Nat.digitChar d := by decide
  have hrank : ∀ d : Fin 16, digitValue? (Nat.digitChar d) = some d.val := by decide
  constructor
  · intro h
    obtain ⟨hd, hc, -⟩ := List.idxOf?_eq_some_iff.mp h
    exact ⟨hd, hc ▸ htable ⟨d, hd⟩⟩
  · rintro ⟨hd, rfl⟩
    exact hrank ⟨d, hd⟩

theorem value?_concat (cs : List Char) (c : Char) :
    value? (cs ++ [c]) = (value? cs).bind fun n => (digitValue? c).map (16 * n + ·) := by
  rw [value?, List.foldlM_append]
  simp [value?]

/-- A digit is the numeral of its value. -/
theorem IsNumeral.digit (hd : d < 16) : IsNumeral d [d.digitChar] where
  mem_alphabet c hc := List.mem_singleton.mp hc ▸ digitChar_mem_alphabet hd
  value?_eq := by
    rw [← List.nil_append [d.digitChar], value?_concat, digitValue?_eq_some_iff.mpr ⟨hd, rfl⟩]
    simp [value?]
  ne_nil := List.cons_ne_nil _ _
  leading h := by rw [Option.some.inj h]

/-- A digit behind a numeral makes a numeral, unless the numeral is zero. -/
theorem IsNumeral.concat {cs : List Char} (h : IsNumeral n cs) (hn : 0 < n) (hd : d < 16) :
    IsNumeral (16 * n + d) (cs ++ [d.digitChar]) where
  mem_alphabet c hc := by
    obtain hc | hc := List.mem_append.mp hc
    · exact h.mem_alphabet c hc
    · exact List.mem_singleton.mp hc ▸ digitChar_mem_alphabet hd
  value?_eq := by
    rw [value?_concat, h.value?_eq, digitValue?_eq_some_iff.mpr ⟨hd, rfl⟩]
    rfl
  ne_nil := List.append_ne_nil_of_left_ne_nil h.ne_nil _
  leading hzero := by
    rw [List.head?_append_of_ne_nil _ h.ne_nil] at hzero
    have hvalue := h.value?_eq
    rw [h.leading hzero, show value? ['0'] = some 0 by decide, Option.some.injEq] at hvalue
    omega

theorem isNumeral_toDigits (n : Nat) : IsNumeral n (Nat.toDigits 16 n) := by
  induction n using Nat.base_induction 16 (by decide) with
  | single d hd =>
    rw [Nat.toDigits_of_lt_base hd]
    exact .digit hd
  | digit n d hd hn ih =>
    rw [← Nat.toDigits_append_toDigits (by decide) hn hd, Nat.toDigits_of_lt_base hd]
    exact ih.concat hn hd

/-- A number has no other numeral. -/
theorem IsNumeral.eq_toDigits {cs : List Char} (h : IsNumeral n cs) : cs = Nat.toDigits 16 n := by
  induction cs using List.reverseRecOn generalizing n with
  | nil => exact absurd rfl h.ne_nil
  | append_singleton cs c ih =>
    have hvalue := h.value?_eq
    rw [value?_concat, Option.bind_eq_some_iff] at hvalue
    obtain ⟨m, hm, hlast⟩ := hvalue
    obtain ⟨d, hc, rfl⟩ := Option.map_eq_some_iff.mp hlast
    obtain ⟨hd, rfl⟩ := digitValue?_eq_some_iff.mp hc
    by_cases hcs : cs = []
    · subst hcs
      obtain rfl : 0 = m := Option.some.inj hm
      simp [Nat.toDigits_of_lt_base hd]
    · -- there is more than one digit, so the first is not zero, and nor is what leads up to the last
      have hhead : cs.head? ≠ some '0' := by
        intro hzero
        have hone := h.leading (by rw [List.head?_append_of_ne_nil _ hcs, hzero])
        simpa [hcs] using congrArg List.length hone
      have hlead : IsNumeral m cs :=
        ⟨fun c hc => h.mem_alphabet c (List.mem_append_left _ hc), hm, hcs,
          fun hzero => absurd hzero hhead⟩
      have hpos : 0 < m := by
        by_contra hzero
        rw [ih hlead, show m = 0 by omega] at hhead
        exact hhead rfl
      rw [← Nat.toDigits_append_toDigits (by decide) hpos hd, Nat.toDigits_of_lt_base hd, ← ih hlead]

theorem isNumeral_iff {cs : List Char} : IsNumeral n cs ↔ cs = Nat.toDigits 16 n :=
  ⟨IsNumeral.eq_toDigits, fun h => h ▸ isNumeral_toDigits n⟩

/-- A number that needs `k + 1` digits, with each of them told from its place. -/
theorem toDigits_eq_map {k : Nat} (hlow : k ≠ 0 → 16 ^ k ≤ n) (hlt : n < 16 ^ (k + 1)) :
    Nat.toDigits 16 n = (List.range (k + 1)).map fun i => (n / 16 ^ (k - i) % 16).digitChar := by
  induction k generalizing n with
  | zero =>
    have hlt : n < 16 := hlt
    rw [Nat.toDigits_of_lt_base hlt]
    simp [Nat.mod_eq_of_lt hlt]
  | succ k ih =>
    have hle := hlow (Nat.succ_ne_zero k)
    have hbase : 16 ≤ n := Nat.le_trans (Nat.le_pow (Nat.succ_pos k)) hle
    rw [Nat.pow_succ] at hle hlt
    -- the last digit comes off, and what is left needs one digit less
    rw [Nat.toDigits_of_base_le (by decide) hbase,
      ih (fun _ => (Nat.le_div_iff_mul_le (by decide)).mpr hle)
        ((Nat.div_lt_iff_lt_mul (by decide)).mpr hlt),
      List.range_succ (n := k + 1), List.map_append]
    congr 1
    · apply List.map_congr_left
      intro i hi
      have hi := List.mem_range.mp hi
      rw [Nat.div_div_eq_div_mul, ← Nat.pow_succ', show (k - i).succ = k + 1 - i by omega]
    · simp

/-! ### The digits of a word -/

theorem digitCount_eq (v : UInt64) : digitCount v = v.toNat.log2 / 4 + 1 := by
  by_cases hv : v = 0
  · subst hv
    decide
  · have hlog : v.toNat.log2 < 64 :=
      (Nat.log2_lt (by simpa [← UInt64.toNat_inj] using hv)).mpr v.toNat_lt
    rw [digitCount, if_neg hv, leadingZeros, if_neg hv]
    omega

theorem nibble_val {place : Nat} (h : place < 16) :
    (nibble v place).val = v.toNat / 16 ^ place % 16 := by
  have hshift : (UInt64.ofNat (place * 4)).toNat % 64 = 4 * place := by
    rw [UInt64.toNat_ofNat']
    omega
  show ((v >>> UInt64.ofNat (place * 4)) &&& 0xF).toNat = _
  rw [UInt64.toNat_and, UInt64.toNat_shiftRight, hshift,
    show (0xF : UInt64).toNat = 2 ^ 4 - 1 by decide, Nat.and_two_pow_sub_one_eq_mod,
    Nat.shiftRight_eq_div_pow, Nat.pow_mul]

/-- The digits cut out of a word, in the order in which they are written, are its numeral. -/
theorem toDigits_toNat (v : UInt64) :
    Nat.toDigits 16 v.toNat =
      (List.range (digitCount v)).map fun i => (nibble v (digitCount v - 1 - i)).val.digitChar := by
  have hcount := digitCount_le v
  rw [digitCount_eq] at hcount ⊢
  -- the highest set bit is in the first digit, so the places told from it are as many as needed
  rw [toDigits_eq_map (k := v.toNat.log2 / 4)]
  · apply List.map_congr_left
    intro i hi
    rw [nibble_val (by omega), Nat.add_sub_cancel]
  · intro hk
    have hne : v.toNat ≠ 0 := by
      intro hzero
      simp [hzero] at hk
    rw [show 16 = 2 ^ 4 by decide, ← Nat.pow_mul, ← Nat.le_log2 hne]
    omega
  · by_cases hzero : v.toNat = 0
    · rw [hzero]
      exact Nat.pow_pos (by decide)
    · rw [show 16 = 2 ^ 4 by decide, ← Nat.pow_mul, ← Nat.log2_lt hzero]
      omega

/-- The byte of the digit with `i` digits to its left. -/
def digitByte (v : UInt64) (i : Nat) : UInt8 := digits[nibble v (digitCount v - 1 - i)]

/-- What is written is ASCII, and the character of the digit. -/
theorem digitByte_ascii (v : UInt64) (i : Nat) :
    digitByte v i < 128 ∧
      Char.ofNat (digitByte v i).toNat = (nibble v (digitCount v - 1 - i)).val.digitChar := by
  have htable : ∀ d : Fin 16, digits[d] < 128 ∧ Char.ofNat digits[d].toNat = d.val.digitChar := by
    decide
  exact htable _

/-! ### Bytes

What is said of writing is said of any number of bytes with room for the text, not only of as many as
the buffer has. -/

/-- The bytes of the text of a number. -/
def textBytes (v : UInt64) : List UInt8 :=
  0x30 :: 0x78 :: (List.range (digitCount v)).map (digitByte v)

/-- Puts `k` bytes behind the first two. -/
def fill (bytes : Vector UInt8 m) (f : Nat → UInt8) (k : Nat) (hk : 2 + k ≤ m) : Vector UInt8 m :=
  Fin.foldl k (fun b i => b.set (2 + i) (f i) (by omega)) bytes

theorem fill_succ (bytes : Vector UInt8 m) (f : Nat → UInt8) (k : Nat) (hk : 2 + (k + 1) ≤ m) :
    fill bytes f (k + 1) hk = (fill bytes f k (by omega)).set (2 + k) (f k) (by omega) :=
  Fin.foldl_succ_last _ _

/-- Writes the text of `v` at the start. -/
def writeIn (v : UInt64) (bytes : Vector UInt8 m) (h : 2 + digitCount v ≤ m) : Vector UInt8 m :=
  fill ((bytes.set 0 0x30 (by omega)).set 1 0x78 (by omega)) (digitByte v) (digitCount v) h

/-- A buffer has room for every number. -/
theorem two_add_digitCount_le (v : UInt64) : 2 + digitCount v ≤ 18 := by
  have := digitCount_le v
  omega

theorem write_eq_writeIn (v : UInt64) (buffer : Buffer) :
    write v buffer = writeIn v buffer (two_add_digitCount_le v) := rfl

/-- Filling leaves the first two bytes alone. -/
theorem take_fill (bytes : Vector UInt8 m) (f : Nat → UInt8) (k : Nat) (hk : 2 + k ≤ m) :
    (fill bytes f k hk).toList.take (2 + k) = bytes.toList.take 2 ++ (List.range k).map f := by
  induction k with
  | zero => simp [fill]
  | succ k ih =>
    have hlength : 2 + k < ((fill bytes f k (by omega)).toList.set (2 + k) (f k)).length := by
      rw [List.length_set, Vector.length_toList]
      omega
    rw [fill_succ, Vector.toList_set, ← Nat.add_assoc, List.take_succ_eq_append_getElem hlength,
      List.take_set_of_le (Nat.le_refl _), ih, List.range_succ, List.map_append, List.append_assoc,
      List.getElem_set_self]
    rfl

theorem take_writeIn (v : UInt64) (bytes : Vector UInt8 m) (h : 2 + digitCount v ≤ m) :
    (writeIn v bytes h).toList.take (2 + digitCount v) = textBytes v := by
  have hmark : ((bytes.set 0 0x30 (by omega)).set 1 0x78 (by omega)).toList.take 2 =
      [0x30, 0x78] := by
    rw [List.take_succ_eq_append_getElem (by simp; omega),
      List.take_succ_eq_append_getElem (by simp; omega)]
    simp
  rw [writeIn, take_fill, hmark]
  rfl

/-! ### Text -/

theorem ascii?_textBytes (v : UInt64) :
    ascii? (textBytes v) = some ("0x" ++ String.ofList (Nat.toDigits 16 v.toNat)) := by
  have hascii : (textBytes v).all (· < 128) = true := by
    rw [textBytes, List.all_cons, List.all_cons, List.all_map]
    simp [digitByte_ascii]
  have hchars : (textBytes v).map (fun b => Char.ofNat b.toNat) =
      '0' :: 'x' :: Nat.toDigits 16 v.toNat := by
    rw [textBytes, List.map_cons, List.map_cons, List.map_map, toDigits_toNat]
    simp [digitByte_ascii]
  rw [ascii?, if_pos hascii, hchars]
  simp [← String.toList_inj]

/-- The bytes that are read after writing. -/
def shown (v : UInt64) (buffer : Buffer) : List UInt8 :=
  (write v buffer).toList.take (2 + digitCount v)

theorem ascii?_shown (v : UInt64) (buffer : Buffer) :
    ascii? (shown v buffer) = some ("0x" ++ String.ofList (Nat.toDigits 16 v.toNat)) := by
  rw [shown, write_eq_writeIn, take_writeIn, ascii?_textBytes]

theorem textIn_eq (v : UInt64) (buffer : Buffer) :
    textIn v buffer = "0x" ++ String.ofList (Nat.toDigits 16 v.toNat) :=
  congrArg (Option.getD · "0x?") (ascii?_shown v buffer)

/-- Bytes that are read as ASCII are read the same as UTF-8. -/
theorem fromUTF8?_of_ascii? {bytes : List UInt8} {s : String} (h : ascii? bytes = some s) :
    String.fromUTF8? bytes.toByteArray = some s := by
  rw [ascii?, Option.ite_none_right_eq_some, Option.some.injEq] at h
  obtain ⟨hascii, rfl⟩ := h
  -- a byte below 128 is all there is to the encoding of its character
  have hone : ∀ i : Fin 128, String.utf8EncodeChar (Char.ofNat i) = [UInt8.ofNat i] := by decide
  have hencode : (bytes.map fun b => Char.ofNat b.toNat).flatMap String.utf8EncodeChar = bytes := by
    induction bytes with
    | nil => rfl
    | cons b bytes ih =>
      rw [List.all_cons, Bool.and_eq_true, decide_eq_true_eq] at hascii
      rw [List.map_cons, List.flatMap_cons, hone ⟨b.toNat, hascii.1⟩, ih hascii.2]
      simp
  have hbytes : bytes.toByteArray = (bytes.map fun b => Char.ofNat b.toNat).utf8Encode := by
    rw [List.utf8Encode, hencode]
  have hvalid : bytes.toByteArray.IsValidUTF8 := ⟨_, hbytes⟩
  rw [String.fromUTF8?, dif_pos hvalid, Option.some.injEq, ← String.toByteArray_inj,
    String.toByteArray_ofList, ← hbytes]
  rfl

/-- A number can be told from its text. -/
theorem textIn_inj {b c : Buffer} : textIn v b = textIn w c ↔ v = w := by
  constructor
  · intro h
    rw [textIn_eq, textIn_eq, String.append_right_inj, String.ofList_inj] at h
    have hvalue := (isNumeral_toDigits v.toNat).value?_eq
    rw [h, (isNumeral_toDigits w.toNat).value?_eq, Option.some.injEq] at hvalue
    exact UInt64.toNat_inj.mp hvalue.symm
  · rintro rfl
    rw [textIn_eq, textIn_eq]

/-! ### Checks

Writing needs no checks, because its types rule out what they would find. Here it is once more, over
any number of bytes and with a check wherever something could go wrong: all of them pass exactly when
there is room for the text. -/

/-- A difference that must not fall below zero. -/
def minus? (a b : Nat) : Option Nat := if b ≤ a then some (a - b) else none

/-- A store that must not miss the bytes. -/
def store? (bytes : Vector UInt8 m) (index : Nat) (b : UInt8) : Option (Vector UInt8 m) :=
  if h : index < m then some (bytes.set index b) else none

/-- The byte of the digit with `place` digits to its right: the shift must stay below the width of the
word, and the table must have the digit. -/
def digitAt? (v : UInt64) (place : Nat) : Option UInt8 :=
  if place * 4 < 64 then digits[((v >>> UInt64.ofNat (place * 4)) &&& 0xF).toNat]? else none

def digitCount? (v : UInt64) : Option Nat :=
  if v = 0 then some 1 else minus? 16 (leadingZeros v / 4)

def writeDigit? (v : UInt64) (count : Nat) (bytes : Vector UInt8 m) (i : Nat) :
    Option (Vector UInt8 m) := do
  let place ← minus? (← minus? count 1) i
  store? bytes (2 + i) (← digitAt? v place)

/-- The text of `v` by way of some bytes; `none` if a check fails. -/
def textIn? (v : UInt64) (bytes : Vector UInt8 m) : Option String := do
  let count ← digitCount? v
  let bytes ← store? bytes 0 0x30
  let bytes ← store? bytes 1 0x78
  let bytes ← (List.range count).foldlM (writeDigit? v count) bytes
  if 2 + count ≤ m then some ((ascii? (bytes.toList.take (2 + count))).getD "0x?") else none

theorem digitCount?_eq (v : UInt64) : digitCount? v = some (digitCount v) := by
  rw [digitCount?, digitCount]
  split
  · rfl
  · next hv =>
    rw [leadingZeros, if_neg hv]
    exact if_pos (by omega)

theorem digitAt?_eq {place : Nat} (h : place < 16) :
    digitAt? v place = some digits[nibble v place] := by
  rw [digitAt?, if_pos (by omega)]
  exact getElem?_pos digits (nibble v place).val (nibble v place).isLt

theorem writeDigit?_eq (bytes : Vector UInt8 m) {i : Nat} (hi : i < digitCount v)
    (hroom : 2 + i < m) :
    writeDigit? v (digitCount v) bytes i = some (bytes.set (2 + i) (digitByte v i)) := by
  have hcount := digitCount_le v
  have hlast : minus? (digitCount v) 1 = some (digitCount v - 1) := if_pos (by omega)
  have hplace : minus? (digitCount v - 1) i = some (digitCount v - 1 - i) := if_pos (by omega)
  have hdigit : digitAt? v (digitCount v - 1 - i) = some (digitByte v i) := digitAt?_eq (by omega)
  simp only [writeDigit?, hlast, hplace, hdigit, Option.bind_eq_bind, Option.bind_some]
  exact dif_pos hroom

theorem foldlM_writeDigit? (bytes : Vector UInt8 m) {k : Nat} (hk : k ≤ digitCount v)
    (hroom : 2 + k ≤ m) :
    (List.range k).foldlM (writeDigit? v (digitCount v)) bytes =
      some (fill bytes (digitByte v) k hroom) := by
  induction k with
  | zero => simp [fill]
  | succ k ih =>
    rw [List.range_succ, List.foldlM_append, ih (Nat.le_of_succ_le hk) (by omega), fill_succ]
    simp [writeDigit?_eq _ hk (show 2 + k < m by omega)]

/-- Two bytes and one for each digit are room enough, and less is not. -/
theorem textIn?_eq (v : UInt64) (bytes : Vector UInt8 m) :
    textIn? v bytes =
      if 2 + digitCount v ≤ m then some ("0x" ++ String.ofList (Nat.toDigits 16 v.toNat))
      else none := by
  split
  · next hroom =>
    simp only [textIn?, digitCount?_eq, store?, show 0 < m by omega, show 1 < m by omega, dite_true,
      foldlM_writeDigit? _ (Nat.le_refl _) hroom, Option.bind_eq_bind, Option.bind_some,
      if_pos hroom]
    rw [← writeIn, take_writeIn, ascii?_textBytes, Option.getD_some]
  · next hroom =>
    -- whatever the loop has done, the text cannot be cut out
    simp [textIn?, digitCount?_eq, hroom]

example : textIn? 0xffffffffffffffff (Vector.replicate 17 0) = none := by decide

/-! ### Receivers -/

theorem text_ne (v : UInt64) : text v ≠ "0x?" := by
  intro h
  rw [text, textIn_eq, show "0x?" = "0x" ++ String.ofList ['?'] by decide,
    String.append_right_inj, String.ofList_inj] at h
  have hmem := (isNumeral_toDigits v.toNat).mem_alphabet '?' (h ▸ List.mem_singleton_self _)
  exact absurd hmem (by decide)

theorem render_eq_iff (f : Fragment) : f.render = "0x?" ↔ f = .text "0x?" := by
  cases f with
  | label level => cases level <;> decide
  | text s => simp [Fragment.render]
  | number v => simp [Fragment.render, text_ne]
  | newline => decide

/-- A receiver gets the text that stands for unreadable bytes from those records only that spell it
out. -/
theorem mem_receive_iff (s : Sink) (r : Record) :
    "0x?" ∈ s.receive r ↔ s = .installed ∧ .text "0x?" ∈ r := by
  cases s with
  | installed => simp [Sink.receive, Record.render, render_eq_iff]
  | absent => simp [Sink.receive]

/-- A number in the log is shown as it is. Writing it passes every check, the bytes are text, and the
text is `0x` and the one numeral of the number, whatever the buffer held; zero is `0x0`. A receiver
can tell numbers apart, and gets the text that stands for unreadable bytes only where a record spells
it out. -/
theorem text_is_the_one_numeral :
    (∀ (v : UInt64) (buffer : Buffer),
      textIn? v buffer = some (textIn v buffer) ∧
      String.fromUTF8? (shown v buffer).toByteArray = some (textIn v buffer) ∧
      ∃ cs, textIn v buffer = "0x" ++ String.ofList cs ∧
        ∀ ds, IsNumeral v.toNat ds ↔ ds = cs) ∧
    (∀ buffer, textIn 0 buffer = "0x0") ∧
    (∀ v w, Sink.installed.receive [.number v] = Sink.installed.receive [.number w] ↔ v = w) ∧
    ∀ (s : Sink) (r : Record), "0x?" ∈ s.receive r ↔ s = .installed ∧ .text "0x?" ∈ r := by
  refine ⟨fun v buffer => ⟨?_, ?_, _, textIn_eq v buffer, fun ds => isNumeral_iff⟩,
    fun buffer => ?_, fun v w => ?_, mem_receive_iff⟩
  · rw [textIn?_eq, if_pos (two_add_digitCount_le v), textIn_eq]
  · rw [textIn_eq]
    exact fromUTF8?_of_ascii? (ascii?_shown v buffer)
  · rw [textIn_eq]
    decide
  · simp [Sink.receive, Record.render, Fragment.render, text, textIn_inj]

end BufferObjects.Hex
