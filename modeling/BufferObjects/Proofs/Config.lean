import BufferObjects.Config
import BufferObjects.KeyTable.Probe
import Mathlib.Algebra.Order.Ring.Nat

/-!
What a configuration without a defect has room for. The check is made in 64-bit words: a shift that
loses bits shows when it is undone, a sum that leaves the word is less than its summands. What it
establishes is said in numbers, and from it follows that every token has room in an address.
-/

namespace BufferObjects

/-! ### Words -/

theorem toNat_shiftLeft {x s : UInt64} (hs : s.toNat < 64) :
    (x <<< s).toNat = x.toNat * 2 ^ s.toNat % 2 ^ 64 := by
  rw [UInt64.toNat_shiftLeft, Nat.mod_eq_of_lt hs, Nat.shiftLeft_eq]

/-- A shift that can be undone has lost no bits. -/
theorem mul_lt_of_shiftRight_shiftLeft {x s : UInt64} (hs : s.toNat < 64)
    (h : (x <<< s) >>> s = x) : x.toNat * 2 ^ s.toNat < 2 ^ 64 := by
  have hback : x.toNat * 2 ^ s.toNat % 2 ^ 64 / 2 ^ s.toNat = x.toNat := by
    rw [← UInt64.toNat_inj, UInt64.toNat_shiftRight, Nat.mod_eq_of_lt hs, toNat_shiftLeft hs,
      Nat.shiftRight_eq_div_pow] at h
    exact h
  have hle := Nat.div_mul_le_self (x.toNat * 2 ^ s.toNat % 2 ^ 64) (2 ^ s.toNat)
  rw [hback] at hle
  exact Nat.lt_of_le_of_lt hle (Nat.mod_lt _ (by decide))

/-- A key is computed in a word, which is to say modulo `2 ^ 64`. -/
theorem KeyTable.toNat_candidate_mod {shift : UInt32} {c : Nat} (add : UInt64)
    (hs : shift.toNat < 64) (hc : c < 2 ^ 64) :
    (candidate shift add c).toNat = (c * 2 ^ shift.toNat + add.toNat) % 2 ^ 64 := by
  rw [candidate, UInt64.toNat_add, toNat_shiftLeft (by simpa using hs), UInt64.toNat_ofNat',
    Nat.mod_eq_of_lt hc, UInt32.toNat_toUInt64, Nat.mod_add_mod]

theorem KeyTable.toNat_candidate {shift : UInt32} {add : UInt64} {c : Nat} (hs : shift.toNat < 64)
    (h : c * 2 ^ shift.toNat + add.toNat < 2 ^ 64) :
    (candidate shift add c).toNat = c * 2 ^ shift.toNat + add.toNat := by
  have hc : c < 2 ^ 64 := by
    have := Nat.le_mul_of_pos_right c (Nat.two_pow_pos shift.toNat)
    omega
  rw [toNat_candidate_mod add hs hc, Nat.mod_eq_of_lt h]

namespace Config

variable {c : Config}

/-! ### The width of the space of candidates -/

theorem testBit_of_lt_trailingZeros {n i : Nat} (hi : i < trailingZeros n) :
    n.testBit i = false := by
  rw [trailingZeros] at hi
  have hall := List.all_takeWhile (p := fun i => !n.testBit i) (l := List.range 64)
  have hclear := List.all_eq_true.mp hall _ (List.getElem_mem hi)
  rw [(List.takeWhile_prefix _).getElem hi, List.getElem_range] at hclear
  simpa using hclear

theorem two_pow_trailingZeros_dvd (n : Nat) : 2 ^ trailingZeros n ∣ n := by
  rw [Nat.dvd_iff_mod_eq_zero]
  apply Nat.eq_of_testBit_eq
  intro i
  rw [Nat.testBit_mod_two_pow, Nat.zero_testBit]
  by_cases hi : i < trailingZeros n
  · simp [hi, testBit_of_lt_trailingZeros hi]
  · simp [hi]

theorem toNat_indexCount (c : Config) : c.indexCount.toNat = c.maxTokenIndex.toNat + 1 := by
  have hlt := c.maxTokenIndex.toNat_lt
  rw [indexCount, UInt64.toNat_add, UInt32.toNat_toUInt64]
  exact Nat.mod_eq_of_lt (by simpa using Nat.lt_of_lt_of_le (Nat.succ_lt_succ hlt) (by decide))

theorem isPowerOfTwo_iff (n : UInt64) : isPowerOfTwo n = true ↔ n.toNat.isPowerOfTwo := by
  by_cases hzero : n = 0
  · subst hzero
    exact iff_of_false Bool.false_ne_true fun h => absurd (Nat.pos_of_isPowerOfTwo h) (by decide)
  · have hpos : n.toNat ≠ 0 := fun h => hzero (UInt64.toNat_inj.mp h)
    have hone : (1 : UInt64) ≤ n := UInt64.le_iff_toNat_le.mpr (Nat.pos_of_ne_zero hpos)
    rw [isPowerOfTwo, Bool.and_eq_true, bne_iff_ne, beq_iff_eq, ← UInt64.toNat_inj (b := 0),
      UInt64.toNat_and, UInt64.toNat_sub_of_le _ _ hone]
    exact (and_iff_right hzero).trans (Nat.and_sub_one_eq_zero_iff_isPowerOfTwo hpos)

theorem trailingZeros_le (n : Nat) : trailingZeros n ≤ 64 := by
  simpa [trailingZeros] using (List.takeWhile_prefix _ (l := List.range 64)).length_le

theorem toNat_tokenBits (c : Config) : c.tokenBits.toNat = trailingZeros c.indexCount.toNat := by
  have hle := trailingZeros_le c.indexCount.toNat
  rw [tokenBits, UInt32.toNat_ofNat']
  exact Nat.mod_eq_of_lt (by omega)

/-- There are no more candidates than indices. -/
theorem two_pow_tokenBits_le (c : Config) :
    2 ^ c.tokenBits.toNat ≤ c.maxTokenIndex.toNat + 1 := by
  rw [toNat_tokenBits, ← toNat_indexCount]
  exact Nat.le_of_dvd (by rw [toNat_indexCount]; exact Nat.succ_pos _)
    (two_pow_trailingZeros_dvd _)

/-! ### Room for tokens -/

/-- Every token that the configuration can lead to has room in an address. -/
structure HasRoom (c : Config) : Prop where
  index_le : c.maxTokenIndex.toNat ≤ MapAddress.maxToken.toNat
  shift_lt : c.hashesTokens = true → c.tokenShift.toNat < 64
  token_le : c.hashesTokens = true →
    c.maxTokenIndex.toNat * 2 ^ c.tokenShift.toNat + c.tokenAdd.toNat ≤ MapAddress.maxToken.toNat

/-- The largest token is computed in words, and passes for what it is in numbers. -/
theorem le_of_tokensFit (hs : c.tokenShift.toNat < 64) (h : c.tokensFit = true) :
    c.maxTokenIndex.toNat * 2 ^ c.tokenShift.toNat + c.tokenAdd.toNat ≤
      MapAddress.maxToken.toNat := by
  have hs' : c.tokenShift.toUInt64.toNat < 64 := by simpa using hs
  unfold tokensFit largestToken? at h
  dsimp only at h
  split at h
  · next largest hlargest =>
    split at hlargest
    · next hback =>
      split at hlargest
      · cases hlargest
      · next hwrap =>
        cases hlargest
        have hmul := mul_lt_of_shiftRight_shiftLeft hs' hback
        have hshift := toNat_shiftLeft (x := c.maxTokenIndex.toUInt64) hs'
        rw [Nat.mod_eq_of_lt hmul, UInt32.toNat_toUInt64, UInt32.toNat_toUInt64] at hshift
        rw [UInt32.toNat_toUInt64, UInt32.toNat_toUInt64] at hmul
        rw [decide_eq_true_eq, UInt64.le_iff_toNat_le, UInt64.toNat_add, hshift] at h
        rw [UInt64.not_lt, UInt64.le_iff_toNat_le, UInt64.toNat_add, hshift] at hwrap
        -- a sum that has left the word would be less than either summand
        have hadd := c.tokenAdd.toNat_lt
        omega
    · cases hlargest
  · cases h

theorem HasRoom.of_defect? (h : c.defect? = none) : c.HasRoom := by
  unfold defect? at h
  split at h
  · cases h
  split at h
  · cases h
  next hindex =>
  have hle : c.maxTokenIndex.toNat ≤ MapAddress.maxToken.toNat := by
    have hle := UInt64.le_iff_toNat_le.mp (UInt64.not_lt.mp hindex)
    rwa [UInt32.toNat_toUInt64] at hle
  split at h
  · next hdense =>
    rw [Bool.not_eq_true'] at hdense
    exact ⟨hle, fun hh => by simp [hdense] at hh, fun hh => by simp [hdense] at hh⟩
  split at h
  · cases h
  split at h
  · cases h
  split at h
  · cases h
  next hadd =>
  rw [not_or, UInt32.not_le, UInt32.lt_iff_toNat_lt] at hadd
  split at h
  · next hfit => exact ⟨hle, fun _ => hadd.1, fun _ => le_of_tokensFit hadd.1 hfit⟩
  · cases h

/-- Every hashed candidate has room in an address. -/
theorem HasRoom.candidate_le (h : c.HasRoom) (hhash : c.hashesTokens = true) {k : Nat}
    (hk : k < 2 ^ c.tokenBits.toNat) :
    KeyTable.candidate c.tokenShift c.tokenAdd k ≤ MapAddress.maxToken := by
  have hle : k ≤ c.maxTokenIndex.toNat :=
    Nat.le_of_lt_succ (Nat.lt_of_lt_of_le hk c.two_pow_tokenBits_le)
  have hmul := Nat.mul_le_mul_right (2 ^ c.tokenShift.toNat) hle
  have hmax := h.token_le hhash
  have hword := MapAddress.maxToken.toNat_lt
  rw [UInt64.le_iff_toNat_le, KeyTable.toNat_candidate (h.shift_lt hhash) (by omega)]
  omega

end Config

end BufferObjects
