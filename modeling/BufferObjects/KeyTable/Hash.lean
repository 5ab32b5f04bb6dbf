/-!
Multiplicative hashing of 64-bit keys. The key is multiplied by a prime close to the golden ratio of
the word, modulo `2 ^ 64`, and the high bits of the product are kept: those are the ones that every
bit of the key has reached.
-/

namespace BufferObjects

/-- A prime near the golden ratio of `2 ^ 64`. -/
def goldenRatioPrime : UInt64 := 0x9e37fffffffc0001

/-- Spreads a key over a space of `bits` bits. No bits make a space of one value; more than 64 are
as good as 64. -/
def hashKey (key : UInt64) (bits : UInt32) : UInt64 :=
  if bits = 0 then 0
  else (key * goldenRatioPrime) >>> (64 - (min bits 64).toUInt64)

/-- A hash stays within its space. -/
theorem hashKey_lt (key : UInt64) {bits : UInt32} (h : bits.toNat ≤ 64) :
    (hashKey key bits).toNat < 1 <<< bits.toNat := by
  rw [Nat.one_shiftLeft]
  unfold hashKey
  split
  · next h0 => simp [h0]
  · next h0 =>
    have hpos : 0 < bits.toNat := by
      rcases Nat.eq_zero_or_pos bits.toNat with hz | hp
      · exact absurd (UInt32.toNat_inj.mp (by simpa using hz)) h0
      · exact hp
    have hmin : min bits 64 = bits := by
      have hle : bits ≤ 64 := UInt32.le_iff_toNat_le.mpr (by simpa using h)
      simp [min, hle]
    have hsub : (64 - bits.toUInt64).toNat = 64 - bits.toNat := by
      rw [UInt64.toNat_sub_of_le]
      · simp
      · rw [UInt64.le_iff_toNat_le]; simpa using h
    rw [hmin, UInt64.toNat_shiftRight, hsub, Nat.mod_eq_of_lt (by omega : 64 - bits.toNat < 64),
      Nat.shiftRight_eq_div_pow]
    apply Nat.div_lt_of_lt_mul
    rw [← Nat.pow_add, Nat.sub_add_cancel h]
    exact UInt64.toNat_lt _

end BufferObjects
