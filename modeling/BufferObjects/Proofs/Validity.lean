import BufferObjects.Proofs.Addressing
import BufferObjects.Proofs.Dependable
import BufferObjects.Proofs.Probing

/-!
Which configurations are without a defect. The check works in 64-bit words: it shifts a number back
to see whether bits were lost, and looks whether a sum came out less than its summands. Here is said
in numbers what it decides, that it decides just that, and that none of its own steps leaves the word
on the way. A configuration that passes is good for what follows: a device can be set up with it, and
every token that is hashed over its space of candidates has room in an address and is read back from
there.
-/

namespace BufferObjects

/-! ### Steps that stop -/

namespace Word

/-- A sum, unless it leaves the word. -/
def add? (a b : UInt64) : Option UInt64 :=
  if a.toNat + b.toNat < UInt64.size then some (a + b) else none

/-- A shift to the left, unless it is by a whole word or more. -/
def shiftLeft? (a s : UInt64) : Option UInt64 := if s.toNat < 64 then some (a <<< s) else none

def shiftRight? (a s : UInt64) : Option UInt64 := if s.toNat < 64 then some (a >>> s) else none

/-- A sum that leaves the word is less than its summands. -/
theorem add?_eq (a b : UInt64) : add? a b = if a + b < a then none else some (a + b) := by
  have ha := a.toNat_lt
  have hb := b.toNat_lt
  have hsum := UInt64.toNat_add a b
  by_cases hfits : a.toNat + b.toNat < UInt64.size
  · rw [Nat.mod_eq_of_lt hfits] at hsum
    have hle : ¬ a + b < a := by
      rw [UInt64.lt_iff_toNat_lt]
      omega
    rw [add?, if_pos hfits, if_neg hle]
  · rw [Nat.not_lt] at hfits
    have hlt : a + b < a := by
      rw [UInt64.lt_iff_toNat_lt, hsum]
      simp only [UInt64.size] at hfits
      omega
    rw [add?, if_neg (Nat.not_lt.mpr hfits), if_pos hlt]

end Word

namespace Config

variable {c : Config}

/-- The check of a configuration in which every sum and every shift stops when it leaves its word;
nothing if one of them does. Only of the largest token it is asked whether it does. -/
def guardedDefect? (c : Config) : Option (Option Defect) :=
  match c.badOrder? with
  | some order => some (some (.tableOrder order))
  | none =>
    if MapAddress.maxToken < c.maxTokenIndex.toUInt64 then
      some (some (.indexBeyondAddress c.maxTokenIndex))
    else if !c.hashesTokens then some none
    else
      (Word.add? c.maxTokenIndex.toUInt64 1).bind fun space =>
        if space < 2 then some (some (.spaceTooSmall space))
        else if !isPowerOfTwo space then some (some (.spaceNoPowerOfTwo space))
        else if 64 ≤ c.tokenShift then some (some (.addendOverlapsCandidate c.tokenAdd))
        else
          (if 0 < c.tokenShift then Word.shiftLeft? 1 c.tokenShift.toUInt64 else some 0).bind
            fun bound =>
              if 0 < c.tokenShift ∧ bound ≤ c.tokenAdd then
                some (some (.addendOverlapsCandidate c.tokenAdd))
              else
                (Word.shiftLeft? c.maxTokenIndex.toUInt64 c.tokenShift.toUInt64).bind
                  fun shifted =>
                    (Word.shiftRight? shifted c.tokenShift.toUInt64).bind fun back =>
                      if back = c.maxTokenIndex.toUInt64 then
                        match Word.add? shifted c.tokenAdd with
                        | some largest =>
                          some (if largest ≤ MapAddress.maxToken then none
                            else some (.tokenBeyondAddress c.tokenShift))
                        | none => some (some (.tokenBeyondAddress c.tokenShift))
                      else some (some (.tokenBeyondAddress c.tokenShift))

theorem add?_indexCount (c : Config) :
    Word.add? c.maxTokenIndex.toUInt64 1 = some c.indexCount := by
  have hlt := c.maxTokenIndex.toNat_lt
  have hfits : c.maxTokenIndex.toUInt64.toNat + (1 : UInt64).toNat < UInt64.size := by
    rw [UInt32.toNat_toUInt64, UInt64.toNat_one]
    exact Nat.lt_of_lt_of_le (Nat.succ_lt_succ hlt) (by decide)
  rw [Word.add?, if_pos hfits, indexCount]

/-- No step of the check leaves its word. -/
theorem guardedDefect?_eq (c : Config) : c.guardedDefect? = some c.defect? := by
  unfold guardedDefect? defect?
  cases c.badOrder? with
  | some order => rfl
  | none =>
    dsimp only
    by_cases hindex : MapAddress.maxToken < c.maxTokenIndex.toUInt64
    · rw [if_pos hindex, if_pos hindex]
    by_cases hhash : !c.hashesTokens
    · rw [if_neg hindex, if_neg hindex, if_pos hhash, if_pos hhash]
    rw [if_neg hindex, if_neg hindex, if_neg hhash, if_neg hhash, add?_indexCount,
      Option.bind_some]
    by_cases hsmall : c.indexCount < 2
    · rw [if_pos hsmall, if_pos hsmall]
    by_cases hodd : !isPowerOfTwo c.indexCount
    · rw [if_neg hsmall, if_neg hsmall, if_pos hodd, if_pos hodd]
    rw [if_neg hsmall, if_neg hsmall, if_neg hodd, if_neg hodd]
    by_cases hshift : 64 ≤ c.tokenShift
    · rw [if_pos hshift, if_pos (Or.inl hshift)]
    rw [if_neg hshift]
    -- from here on every shift is by less than the word
    have hlt : c.tokenShift.toUInt64.toNat < 64 := by
      rw [UInt32.toNat_toUInt64]
      exact UInt32.lt_iff_toNat_lt.mp (UInt32.not_le.mp hshift)
    have hbound : (if 0 < c.tokenShift then Word.shiftLeft? 1 c.tokenShift.toUInt64 else some 0) =
        some (if 0 < c.tokenShift then 1 <<< c.tokenShift.toUInt64 else 0) := by
      rw [Word.shiftLeft?, if_pos hlt]
      split <;> rfl
    have hoverlap : (0 < c.tokenShift ∧
          (if 0 < c.tokenShift then (1 : UInt64) <<< c.tokenShift.toUInt64 else 0) ≤ c.tokenAdd) ↔
        64 ≤ c.tokenShift ∨
          (0 < c.tokenShift ∧ (1 : UInt64) <<< c.tokenShift.toUInt64 ≤ c.tokenAdd) := by
      rw [or_iff_right hshift]
      refine and_congr_right fun hpos => ?_
      rw [if_pos hpos]
    rw [hbound, Option.bind_some, Word.shiftLeft?, if_pos hlt, Option.bind_some, Word.shiftRight?,
      if_pos hlt, Option.bind_some, tokensFit, largestToken?]
    dsimp only
    rw [if_congr hoverlap rfl rfl]
    by_cases haddend : 64 ≤ c.tokenShift ∨
        (0 < c.tokenShift ∧ (1 : UInt64) <<< c.tokenShift.toUInt64 ≤ c.tokenAdd)
    · rw [if_pos haddend, if_pos haddend]
    rw [if_neg haddend, if_neg haddend]
    by_cases hback : (c.maxTokenIndex.toUInt64 <<< c.tokenShift.toUInt64) >>>
        c.tokenShift.toUInt64 = c.maxTokenIndex.toUInt64
    · rw [if_pos hback, if_pos hback, Word.add?_eq]
      by_cases hsum : c.maxTokenIndex.toUInt64 <<< c.tokenShift.toUInt64 + c.tokenAdd <
          c.maxTokenIndex.toUInt64 <<< c.tokenShift.toUInt64
      · rw [if_pos hsum]
        rfl
      · rw [if_neg hsum]
        simp
    · rw [if_neg hback, if_neg hback]
      rfl

/-! ### What is decided -/

/-- What a configuration must be like, in numbers. -/
structure IsValid (c : Config) : Prop where
  handleOrder_le : c.handleOrder.toNat ≤ 24
  nameOrder_le : c.nameOrder.toNat ≤ 24
  tokenOrder_le : c.tokenOrder.toNat ≤ 24
  index_le : c.maxTokenIndex.toNat ≤ MapAddress.maxToken.toNat
  hashed : c.tokenShift.toNat ≠ 0 ∨ c.tokenAdd.toNat ≠ 0 →
    (c.maxTokenIndex.toNat + 1).isPowerOfTwo ∧ 2 ≤ c.maxTokenIndex.toNat + 1 ∧
    c.tokenShift.toNat < 64 ∧
    (0 < c.tokenShift.toNat → c.tokenAdd.toNat < 2 ^ c.tokenShift.toNat) ∧
    c.maxTokenIndex.toNat * 2 ^ c.tokenShift.toNat + c.tokenAdd.toNat ≤ MapAddress.maxToken.toNat

theorem hashesTokens_iff :
    c.hashesTokens = true ↔ c.tokenShift.toNat ≠ 0 ∨ c.tokenAdd.toNat ≠ 0 := by
  rw [hashesTokens, Bool.or_eq_true, bne_iff_ne, bne_iff_ne, ne_eq, ne_eq, ← UInt32.toNat_inj,
    ← UInt64.toNat_inj]
  rfl

theorem badOrder?_eq_none_iff :
    c.badOrder? = none ↔ c.handleOrder.toNat ≤ 24 ∧ c.nameOrder.toNat ≤ 24 ∧
      c.tokenOrder.toNat ≤ 24 := by
  have horder (order : UInt32) : ¬ maxTableOrder < order ↔ order.toNat ≤ 24 := by
    rw [UInt32.not_lt, UInt32.le_iff_toNat_le]
    rfl
  simp [badOrder?, horder]

/-- The largest token has room just when it has in numbers, too. -/
theorem tokensFit_iff (hs : c.tokenShift.toNat < 64) :
    c.tokensFit = true ↔
      c.maxTokenIndex.toNat * 2 ^ c.tokenShift.toNat + c.tokenAdd.toNat ≤
        MapAddress.maxToken.toNat := by
  refine ⟨le_of_tokensFit hs, fun hle => ?_⟩
  have hword := MapAddress.maxToken.toNat_lt
  have hs' : c.tokenShift.toUInt64.toNat < 64 := by simpa using hs
  have hshifted : (c.maxTokenIndex.toUInt64 <<< c.tokenShift.toUInt64).toNat =
      c.maxTokenIndex.toNat * 2 ^ c.tokenShift.toNat := by
    rw [toNat_shiftLeft hs', UInt32.toNat_toUInt64, UInt32.toNat_toUInt64]
    exact Nat.mod_eq_of_lt (by omega)
  have hback : (c.maxTokenIndex.toUInt64 <<< c.tokenShift.toUInt64) >>> c.tokenShift.toUInt64 =
      c.maxTokenIndex.toUInt64 := by
    rw [← UInt64.toNat_inj, UInt64.toNat_shiftRight, Nat.mod_eq_of_lt hs', hshifted,
      UInt32.toNat_toUInt64, UInt32.toNat_toUInt64, Nat.shiftRight_eq_div_pow,
      Nat.mul_div_cancel _ (Nat.two_pow_pos _)]
  have hsum : (c.maxTokenIndex.toUInt64 <<< c.tokenShift.toUInt64 + c.tokenAdd).toNat =
      c.maxTokenIndex.toNat * 2 ^ c.tokenShift.toNat + c.tokenAdd.toNat := by
    rw [UInt64.toNat_add, hshifted]
    exact Nat.mod_eq_of_lt (by omega)
  have hgrows : ¬ c.maxTokenIndex.toUInt64 <<< c.tokenShift.toUInt64 + c.tokenAdd <
      c.maxTokenIndex.toUInt64 <<< c.tokenShift.toUInt64 := by
    rw [UInt64.lt_iff_toNat_lt, hsum, hshifted]
    omega
  simp only [tokensFit, largestToken?, hback, if_true, if_neg hgrows]
  exact decide_eq_true (UInt64.le_iff_toNat_le.mpr (hsum ▸ hle))

/-- What passes the check is valid. -/
theorem IsValid.of_defect? (h : c.defect? = none) : c.IsValid := by
  have hroom := HasRoom.of_defect? h
  have horders : c.badOrder? = none := by
    unfold defect? at h
    split at h
    · cases h
    · assumption
  obtain ⟨hhandle, hname, htoken⟩ := badOrder?_eq_none_iff.mp horders
  refine ⟨hhandle, hname, htoken, hroom.index_le, fun hhash => ?_⟩
  have hhash := hashesTokens_iff.mpr hhash
  have hchecked := Checked.of_defect? h hhash
  have hpower := (isPowerOfTwo_iff _).mp hchecked.isPowerOfTwo
  have htwo := hchecked.two_le
  rw [toNat_indexCount] at hpower htwo
  exact ⟨hpower, htwo, hroom.shift_lt hhash, hchecked.add_lt, hroom.token_le hhash⟩

/-- And what is valid passes. -/
theorem IsValid.defect?_eq_none (h : c.IsValid) : c.defect? = none := by
  have horders := badOrder?_eq_none_iff.mpr ⟨h.handleOrder_le, h.nameOrder_le, h.tokenOrder_le⟩
  have hindex : ¬ MapAddress.maxToken < c.maxTokenIndex.toUInt64 := by
    rw [UInt64.lt_iff_toNat_lt, UInt32.toNat_toUInt64]
    exact Nat.not_lt.mpr h.index_le
  rw [defect?, horders]
  dsimp only
  rw [if_neg hindex]
  cases hhash : c.hashesTokens with
  | false => rfl
  | true =>
    obtain ⟨hpower, htwo, hshift, hadd, hfits⟩ := h.hashed (hashesTokens_iff.mp hhash)
    rw [← toNat_indexCount] at hpower htwo
    have hspace : ¬ c.indexCount < 2 := UInt64.not_lt.mpr (UInt64.le_iff_toNat_le.mpr htwo)
    have haddend : ¬ (64 ≤ c.tokenShift ∨
        (0 < c.tokenShift ∧ (1 : UInt64) <<< c.tokenShift.toUInt64 ≤ c.tokenAdd)) := by
      rw [not_or, not_and, UInt32.not_le, UInt64.not_le, UInt32.lt_iff_toNat_lt,
        UInt32.lt_iff_toNat_lt, UInt64.lt_iff_toNat_lt, toNat_one_shiftLeft hshift]
      exact ⟨hshift, hadd⟩
    simp [hspace, (isPowerOfTwo_iff _).mpr hpower, haddend, (tokensFit_iff hshift).mpr hfits]

theorem defect?_eq_none_iff : c.defect? = none ↔ c.IsValid :=
  ⟨IsValid.of_defect?, IsValid.defect?_eq_none⟩

/-! ### What a valid configuration is good for -/

/-- A table of an order that is not too high can be had if memory has room for its buckets. -/
theorem create_of_le {α : Type} {order : UInt32} (hle : order.toNat ≤ 24) :
    (∃ t : KeyTable α, KeyTable.create order true = .ok t) ∧
      KeyTable.create (α := α) order false = .error .outOfMemory := by
  have horder : ¬ maxTableOrder < order := UInt32.not_lt.mpr (UInt32.le_iff_toNat_le.mpr hle)
  exact ⟨⟨_, if_neg horder⟩, if_neg horder⟩

/-- A device can be set up just when its configuration is valid and there is room for its tables,
and without a valid configuration memory is not even asked. -/
theorem newDevice_iff (w : World) (features : Features) :
    ((∃ d, (w.newDevice c features).2 = .ok d) ↔
      c.IsValid ∧ w.memory.buckets = true ∧ w.memory.tokenBuckets = true) ∧
    ((w.newDevice c features).2 = .error .invalidArgument ↔ ¬ c.IsValid) := by
  rw [← defect?_eq_none_iff]
  unfold World.newDevice
  cases hdefect : c.defect? with
  | some defect => simp
  | none =>
    have hvalid := IsValid.of_defect? hdefect
    obtain ⟨⟨names, hnames⟩, hnoNames⟩ := create_of_le (α := ObjectRef) hvalid.nameOrder_le
    obtain ⟨⟨tokens, htokens⟩, hnoTokens⟩ := create_of_le (α := ObjectRef) hvalid.tokenOrder_le
    cases hfirst : w.memory.buckets <;> cases hsecond : w.memory.tokenBuckets <;>
      simp [NumberedTable.create, TokenTable.create, hfirst, hsecond, hnames, hnoNames, htokens,
        hnoTokens, Except.map, RequestError.ofTable]

/-- What an insertion under any key of a space of tokens comes to: a key with room in an address,
made without leaving the word, or a refusal because all of them are taken. -/
theorem TokenSpace.of_insertAny_ok {α : Type} {bits shift : UInt32} {add : UInt64}
    (h : TokenSpace bits shift add) {t t' : KeyTable α} {item : α} {seed key : UInt64} {room : Bool}
    (hok : t.insertAny item seed bits shift add room = .ok (key, t')) :
    ∃ k < 2 ^ bits.toNat, key.toNat = k * 2 ^ shift.toNat + add.toNat ∧
      key ≤ MapAddress.maxToken := by
  have hspec := t.insertAny_spec item seed bits shift add room
  rw [hok] at hspec
  cases hspec with
  | @filed k _ hk hins =>
    have hkey := h.toNat_candidate hk
    refine ⟨k, hk, hkey, UInt64.le_iff_toNat_le.mpr ?_⟩
    rw [hkey]
    exact h.key_le k hk

/-- The address of a token with room in it is marked, and the token is read back from it. -/
theorem tokenOf_encode {t : Token} (ht : t ≤ MapAddress.maxToken) :
    MapAddress.isMarked (MapAddress.encode t) = true ∧
      MapAddress.tokenOf (MapAddress.encode t) = t := by
  have h := (MapAddress.tokenOf_encode_add (k := 0) ht).mpr (by decide)
  rwa [UInt64.add_zero] at h

/-- The check finds no defect just when the configuration is valid in numbers, and comes to the same
with every step guarded against leaving its word; a device can be set up just then, if memory has
room for its tables, and is refused for its configuration otherwise. With a valid configuration that
hashes tokens, no candidate leaves its word, an insertion under any of them into any table is refused
only because all are taken or memory has no room, and the key it answers has room in an address and
is read back from it. -/
theorem check_exact_and_sufficient (c : Config) :
    (c.defect? = none ↔ c.IsValid) ∧
    c.guardedDefect? = some c.defect? ∧
    (∀ (w : World) features,
      ((∃ d, (w.newDevice c features).2 = .ok d) ↔
        c.IsValid ∧ w.memory.buckets = true ∧ w.memory.tokenBuckets = true) ∧
      ((w.newDevice c features).2 = .error .invalidArgument ↔ ¬ c.IsValid)) ∧
    (c.IsValid → c.hashesTokens = true →
      (∀ k < 2 ^ c.tokenBits.toNat, (KeyTable.candidate c.tokenShift c.tokenAdd k).toNat =
        k * 2 ^ c.tokenShift.toNat + c.tokenAdd.toNat) ∧
      ∀ (α : Type) (t : KeyTable α) (item : α) (seed : UInt64) (room : Bool),
        let result := t.insertAny item seed c.tokenBits c.tokenShift c.tokenAdd room
        result ≠ .error .invalidKeySpace ∧ (∀ f, result ≠ .fault f) ∧
        ∀ key t', result = .ok (key, t') →
          (∃ k < 2 ^ c.tokenBits.toNat,
            key.toNat = k * 2 ^ c.tokenShift.toNat + c.tokenAdd.toNat) ∧
          key ≤ MapAddress.maxToken ∧ MapAddress.tokenOf (MapAddress.encode key) = key ∧
          MapAddress.isMarked (MapAddress.encode key) = true) := by
  refine ⟨defect?_eq_none_iff, c.guardedDefect?_eq, newDevice_iff, fun hvalid hhash => ?_⟩
  have hspace := tokenSpace_of_defect? hvalid.defect?_eq_none hhash
  refine ⟨fun k hk => hspace.toNat_candidate hk, fun α t item seed room => ?_⟩
  intro result
  refine ⟨fun herror => ?_, fun f hfault => ?_, fun key t' hok => ?_⟩
  · rcases hspace.insertAny_cases t item seed room with ⟨_, hresult⟩ | hresult | ⟨-, hresult⟩ <;>
      cases herror.symm.trans hresult
  · rcases hspace.insertAny_cases t item seed room with ⟨_, hresult⟩ | hresult | ⟨-, hresult⟩ <;>
      cases hfault.symm.trans hresult
  · obtain ⟨k, hk, hkey, hle⟩ := TokenSpace.of_insertAny_ok hspace hok
    obtain ⟨hmarked, htoken⟩ := tokenOf_encode hle
    exact ⟨⟨k, hk, hkey⟩, hle, htoken, hmarked⟩

/-- Tokens that are 1 modulo 4, over 256 indices. Beside token 1 an insertion is told the token 5,
which has room and is read back. -/
theorem check_exact_and_sufficient_aligned :
    ∃ c : Config, c = { maxTokenIndex := 255, tokenShift := 2, tokenAdd := 1 } ∧ c.IsValid ∧
      c.hashesTokens = true ∧
      ∃ t', (⟨0, #[[(1, 7)]], 1⟩ : KeyTable Nat).insertAny 8 0 c.tokenBits c.tokenShift c.tokenAdd
          true = .ok (5, t') ∧
        MapAddress.tokenOf (MapAddress.encode 5) = 5 ∧
        MapAddress.isMarked (MapAddress.encode 5) = true := by
  let c : Config := { maxTokenIndex := 255, tokenShift := 2, tokenAdd := 1 }
  have hhash : c.hashesTokens = true := by decide
  have hbits : c.tokenBits = 8 := by decide +kernel
  obtain ⟨hexact, -, -, hsufficient⟩ := check_exact_and_sufficient c
  have hvalid : c.IsValid := hexact.mp (by decide +kernel)
  have hspace : KeyTable.KeySpace c.tokenBits c.tokenShift c.tokenAdd := by
    rw [hbits]
    exact ⟨by decide, by decide, by decide, by decide⟩
  have hfound : KeyTable.searchWithin (⟨0, #[[(1, 7)]], 1⟩ : KeyTable Nat) 0 c.tokenBits c.tokenShift
      c.tokenAdd 2 = some (some 5) := by decide +kernel
  have hok := hspace.insertAny_eq (⟨0, #[[(1, 7)]], 1⟩ : KeyTable Nat) 8 0 hfound true
  obtain ⟨-, -, hkeys⟩ :=
    (hsufficient hvalid hhash).2 Nat (⟨0, #[[(1, 7)]], 1⟩ : KeyTable Nat) 8 0 true
  obtain ⟨-, -, hback, hmarked⟩ := hkeys 5 _ hok
  exact ⟨c, rfl, hvalid, hhash, _, hok, hback, hmarked⟩

end Config

end BufferObjects
