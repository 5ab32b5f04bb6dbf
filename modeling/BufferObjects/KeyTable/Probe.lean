import BufferObjects.Outcome
import BufferObjects.KeyTable.Basic

/-!
Inserting under any free key. The candidates are the keys `(c << shift) + add` for the `2 ^ bits`
values of `c`; they are tried in cyclic order from the hash of a seed until one is free or the
first one comes round again. The low `shift` bits of every candidate are `add`, which is how a
caller prescribes alignment.
-/

namespace BufferObjects.KeyTable

variable {α : Type}

/-- The key made from candidate `c`. -/
def candidate (shift : UInt32) (add : UInt64) (c : Nat) : UInt64 :=
  (UInt64.ofNat c <<< shift.toUInt64) + add

/-- One step round the candidates brings the start one step nearer, unless it is reached. -/
theorem distance_decreases {space first c : Nat} (hc : c < space) (hf : first < space)
    (h : (c + 1) % space ≠ first) :
    (first + space - 1 - (c + 1) % space) % space < (first + space - 1 - c) % space := by
  rcases Nat.lt_or_ge (c + 1) space with hlt | hge
  · rw [Nat.mod_eq_of_lt hlt] at h ⊢
    rcases Nat.lt_or_ge c first with hcf | hcf
    · rw [Nat.mod_eq_sub_mod (by omega), Nat.mod_eq_sub_mod (a := first + space - 1 - c) (by omega),
        Nat.mod_eq_of_lt (by omega), Nat.mod_eq_of_lt (by omega)]
      omega
    · rw [Nat.mod_eq_of_lt (by omega), Nat.mod_eq_of_lt (by omega)]
      omega
  · have hwrap : c + 1 = space := by omega
    rw [hwrap, Nat.mod_self] at h ⊢
    have hold : first + space - 1 - c = first := by omega
    rw [hold, Nat.mod_eq_of_lt hf, Nat.sub_zero,
      show first + space - 1 = first - 1 + space by omega, Nat.add_mod_right,
      Nat.mod_eq_of_lt (by omega)]
    omega

/-- The first free key from candidate `c` on, going round until candidate `first` is next. -/
def probe (t : KeyTable α) (shift : UInt32) (add : UInt64) {space : Nat} (first : Fin space)
    (c : Fin space) : Option UInt64 :=
  if t.contains (candidate shift add c) then
    let next := (c + 1) % space
    if _h : next = first then none
    else probe t shift add first ⟨next, Nat.mod_lt _ (Nat.zero_lt_of_lt c.isLt)⟩
  else some (candidate shift add c)
termination_by (first + space - 1 - c.val) % space
decreasing_by exact distance_decreases c.isLt first.isLt _h

/-- Whether `bits`, `shift` and `add` describe no space of keys. -/
def invalidSpace (bits shift : UInt32) (add : UInt64) : Bool :=
  64 < bits + shift || (0 < shift && (1 : UInt64) <<< shift.toUInt64 ≤ add)

/-- Inserts `item` under a free candidate, if there is room in memory, and answers with its key. -/
def insertAny (t : KeyTable α) (item : α) (seed : UInt64) (bits shift : UInt32) (add : UInt64)
    (room : Bool) : Outcome TableError (UInt64 × KeyTable α) :=
  if h : bits = 0 ∨ 63 < bits then .error .invalidKeySpace
  else if UInt32.size ≤ bits.toNat + shift.toNat then .fault .additionOverflow
  else if invalidSpace bits shift add then .error .invalidKeySpace
  else
    have hbits : bits.toNat ≤ 64 := by
      have : ¬ 63 < bits := fun hgt => h (Or.inr hgt)
      rw [UInt32.not_lt, UInt32.le_iff_toNat_le] at this
      exact Nat.le_trans this (by decide)
    let first : Fin (1 <<< bits.toNat) := ⟨(hashKey seed bits).toNat, hashKey_lt seed hbits⟩
    match t.probe shift add first first with
    | none => .error .keySpaceExhausted
    | some key => Outcome.ofExcept ((t.insert key item room).map fun t' => (key, t'))

end BufferObjects.KeyTable
