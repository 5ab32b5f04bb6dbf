import BufferObjects.Proofs.Config
import Mathlib.Data.Nat.Bitwise
import Mathlib.Data.UInt

/-!
Mapping addresses as numbers. The mark, the token and the offset are cut out of the word by masks
that differ from field to field, and the fields tile it: an address is `2 ^ 63`, `2 ^ 40` for each
unit of the token, and the offset. So a marked word is the same as a token and an offset, and to put
an offset behind the start of a mapping is to add it; of a number that is too large for a token only
the low 22 bits count.
-/

namespace BufferObjects.MapAddress

variable {t k a : UInt64}

/-! ### Fields -/

theorem le_maxToken_iff : t ≤ maxToken ↔ t.toNat < 2 ^ 22 := by
  rw [UInt64.le_iff_toNat_le, show maxToken.toNat = 2 ^ 22 - 1 by decide]
  omega

/-- The low bits of a number that have room in a token. -/
theorem toNat_and_maxToken (x : UInt64) : (x &&& maxToken).toNat = x.toNat % 2 ^ 22 := by
  rw [UInt64.toNat_and, show maxToken.toNat = 2 ^ 22 - 1 by decide, Nat.and_two_pow_sub_one_eq_mod]

/-- The marking bits are the two high ones. -/
theorem isMarked_iff : isMarked a = true ↔ a.toNat / 2 ^ 62 = 2 := by
  have hhigh : (a &&& markBits).toNat = 2 ^ 62 * (a.toNat / 2 ^ 62) := by
    rw [UInt64.toNat_and, show markBits.toNat = 2 ^ 62 * 3 by decide]
    apply Nat.eq_of_testBit_eq
    intro i
    rw [Nat.testBit_and, Nat.testBit_two_pow_mul, Nat.testBit_two_pow_mul, Nat.testBit_div_two_pow]
    by_cases hi : 62 ≤ i
    · rw [Nat.sub_add_cancel hi]
      by_cases hword : i < 64
      · have hbit : Nat.testBit 3 (i - 62) = true := by
          obtain h | h : i - 62 = 0 ∨ i - 62 = 1 := by omega
          all_goals rw [h]; decide
        simp [hi, hbit]
      · have hbit : a.toNat.testBit i = false :=
          Nat.testBit_lt_two_pow (Nat.lt_of_lt_of_le a.toNat_lt
            (Nat.pow_le_pow_right (by decide) (Nat.le_of_not_lt hword)))
        simp [hbit]
    · simp [hi]
  rw [isMarked, beq_iff_eq, ← UInt64.toNat_inj, hhigh, show mark.toNat = 2 ^ 62 * 2 by decide]
  omega

theorem toNat_tokenOf (a : UInt64) : (tokenOf a).toNat = a.toNat / 2 ^ 40 % 2 ^ 22 := by
  rw [tokenOf, toNat_and_maxToken, UInt64.toNat_shiftRight,
    show tokenShift.toNat % 64 = 40 by decide, Nat.shiftRight_eq_div_pow]

theorem tokenOf_le (a : UInt64) : tokenOf a ≤ maxToken := by
  rw [le_maxToken_iff, toNat_tokenOf]
  exact Nat.mod_lt _ (by decide)

/-- In a marked address the bits that are neither mark nor token are the offset. -/
theorem toNat_offsetOf (h : isMarked a = true) : (offsetOf a).toNat = a.toNat % 2 ^ 40 := by
  -- the mask of the offset leaves bit 62 in place, and the mark has it clear
  have hclear : a.toNat.testBit 62 = false := by
    rw [Nat.testBit_eq_decide_div_mod_eq, isMarked_iff.mp h]
    decide
  rw [offsetOf, UInt64.toNat_and,
    show (~~~(place maxToken ||| mark)).toNat = (2 ^ 40 - 1) ||| 2 ^ 62 by decide,
    Nat.and_or_distrib_left, Nat.and_two_pow, hclear, Nat.and_two_pow_sub_one_eq_mod]
  simp

/-! ### Starts of mappings -/

theorem toNat_encode (x : UInt64) :
    (encode x).toNat = 2 ^ 63 + x.toNat % 2 ^ 22 * 2 ^ 40 := by
  have hplace : (place (x &&& maxToken)).toNat = x.toNat % 2 ^ 22 * 2 ^ 40 := by
    rw [place, toNat_shiftLeft (by decide), show tokenShift.toNat = 40 by decide,
      toNat_and_maxToken, Nat.mod_eq_of_lt (by omega)]
  rw [encode, UInt64.toNat_or, hplace, show mark.toNat = 2 ^ 63 * 1 by decide,
    ← Nat.two_pow_add_eq_or_of_lt (by omega), Nat.mul_one]

theorem toNat_encode_of_le (ht : t ≤ maxToken) : (encode t).toNat = 2 ^ 63 + t.toNat * 2 ^ 40 := by
  rw [toNat_encode, Nat.mod_eq_of_lt (le_maxToken_iff.mp ht)]

theorem isMarked_encode (x : UInt64) : isMarked (encode x) = true := by
  rw [isMarked_iff, toNat_encode]
  omega

theorem toNat_tokenOf_encode (x : UInt64) : (tokenOf (encode x)).toNat = x.toNat % 2 ^ 22 := by
  rw [toNat_tokenOf, toNat_encode]
  omega

theorem offsetOf_encode (x : UInt64) : offsetOf (encode x) = 0 := by
  rw [← UInt64.toNat_inj, toNat_offsetOf (isMarked_encode x), toNat_encode]
  show _ = 0
  omega

/-- Two numbers start the same mapping just when they agree in the bits that have room. -/
theorem encode_eq_encode_iff {x y : UInt64} :
    encode x = encode y ↔ x.toNat % 2 ^ 22 = y.toNat % 2 ^ 22 := by
  rw [← UInt64.toNat_inj, toNat_encode, toNat_encode]
  omega

/-! ### Offsets behind a start -/

/-- The start of a mapping leaves room for the offset. -/
theorem toNat_encode_add (x : UInt64) (hk : k.toNat < 2 ^ 40) :
    (encode x + k).toNat = (encode x).toNat + k.toNat := by
  rw [UInt64.toNat_add, toNat_encode]
  omega

/-- The bits of the offset are clear in the start of a mapping, so adding is the same as joining. -/
theorem encode_add_eq_or (x : UInt64) (hk : k.toNat < 2 ^ 40) : encode x + k = encode x ||| k := by
  have hstart : (encode x).toNat = 2 ^ 40 * (2 ^ 23 + x.toNat % 2 ^ 22) := by
    rw [toNat_encode]
    omega
  rw [← UInt64.toNat_inj, toNat_encode_add x hk, UInt64.toNat_or, hstart]
  exact Nat.two_pow_add_eq_or_of_lt hk _

/-- What is added to the start of a mapping leaves its token alone up to `2 ^ 40`, and no longer. -/
theorem tokenOf_encode_add (ht : t ≤ maxToken) :
    isMarked (encode t + k) = true ∧ tokenOf (encode t + k) = t ↔ k.toNat < 2 ^ 40 := by
  have hlt := le_maxToken_iff.mp ht
  have hk := k.toNat_lt
  rw [isMarked_iff, ← UInt64.toNat_inj, toNat_tokenOf, UInt64.toNat_add, toNat_encode_of_le ht]
  omega

theorem offsetOf_encode_add (ht : t ≤ maxToken) (hk : k.toNat < 2 ^ 40) :
    offsetOf (encode t + k) = k := by
  rw [← UInt64.toNat_inj, toNat_offsetOf ((tokenOf_encode_add ht).mpr hk).1,
    toNat_encode_add t hk, toNat_encode_of_le ht]
  omega

/-- The ranges from two starts do not meet before the next start. -/
theorem encode_add_ne {u : UInt64} (ht : t ≤ maxToken) (hu : u ≤ maxToken) (hne : t ≠ u)
    {i j : Nat} (hi : i < 2 ^ 40) (hj : j < 2 ^ 40) :
    (encode t).toNat + i ≠ (encode u).toNat + j := by
  rw [ne_eq, ← UInt64.toNat_inj] at hne
  rw [toNat_encode_of_le ht, toNat_encode_of_le hu]
  omega

/-- Token and offset are all there is to a marked address. -/
theorem encode_tokenOf_add_offsetOf (h : isMarked a = true) :
    encode (tokenOf a) + offsetOf a = a := by
  have hoffset := toNat_offsetOf h
  have hmark := isMarked_iff.mp h
  rw [← UInt64.toNat_inj, toNat_encode_add _ (by omega), toNat_encode_of_le (tokenOf_le a),
    toNat_tokenOf, hoffset]
  omega

/-- A mapping address is a token and an offset. Every token that has room and every offset below
`2 ^ 40` make one, without a carry, and are read back from it; every marked word is made so from the
token and the offset that are read from it. And whatever number is encoded, the address is marked,
starts a mapping and keeps the low 22 bits of the number, so that numbers that agree in these, and no
others, share an address. -/
theorem address_is_token_and_offset :
    (∀ t k : UInt64, t ≤ maxToken → k.toNat < 2 ^ 40 →
      (encode t).toNat + k.toNat < 2 ^ 64 ∧ encode t + k = encode t ||| k ∧
      isMarked (encode t + k) = true ∧ tokenOf (encode t + k) = t ∧ offsetOf (encode t + k) = k) ∧
    (∀ a : UInt64, isMarked a = true →
      tokenOf a ≤ maxToken ∧ (offsetOf a).toNat < 2 ^ 40 ∧
      (encode (tokenOf a)).toNat + (offsetOf a).toNat = a.toNat ∧
      encode (tokenOf a) + offsetOf a = a) ∧
    (∀ x : UInt64, isMarked (encode x) = true ∧ (tokenOf (encode x)).toNat = x.toNat % 2 ^ 22 ∧
      offsetOf (encode x) = 0) ∧
    (∀ x y : UInt64, encode x = encode y ↔ x.toNat % 2 ^ 22 = y.toNat % 2 ^ 22) := by
  refine ⟨fun t k ht hk => ?_, fun a h => ?_, fun x => ?_, fun x y => encode_eq_encode_iff⟩
  · obtain ⟨hmarked, htoken⟩ := (tokenOf_encode_add ht).mpr hk
    refine ⟨?_, encode_add_eq_or t hk, hmarked, htoken, offsetOf_encode_add ht hk⟩
    rw [← toNat_encode_add t hk]
    exact UInt64.toNat_lt _
  · have hoffset : (offsetOf a).toNat < 2 ^ 40 := by
      rw [toNat_offsetOf h]
      exact Nat.mod_lt _ (by decide)
    refine ⟨tokenOf_le a, hoffset, ?_, encode_tokenOf_add_offsetOf h⟩
    rw [← toNat_encode_add _ hoffset, encode_tokenOf_add_offsetOf h]
  · exact ⟨isMarked_encode x, toNat_tokenOf_encode x, offsetOf_encode x⟩

end BufferObjects.MapAddress
