import BufferObjects.Proofs.FiniteMap
import BufferObjects.Proofs.LeastFree
import BufferObjects.Proofs.TokenTable

/-!
Tables that can be relied on. That a table is well formed is most of what its operations assume; two
things come to it. An allocator counts the ids it has in use, so that its count never passes zero,
and what a source of hashed tokens is made of describes a space of keys that have room in a word.
From all this follows that nothing asked of a table goes wrong: every position is inside its array,
no sum or difference leaves its word, and whatever is refused is refused for want of a free number
or of memory.
-/

namespace BufferObjects

variable {α : Type}

/-! ### Key tables -/

namespace KeyTable

variable {t : KeyTable α}

/-- Every bucket asked for is there, and the entries are counted right. -/
structure Dependable (t : KeyTable α) : Prop where
  bucketOf_lt : ∀ key, t.bucketOf key < t.buckets.size
  size_eq : t.size = t.toList.length
  size_le : t.size ≤ 2 ^ 32

/-- Keys below a bound are not more than the bound, as none comes twice. -/
theorem WellFormed.size_le (h : t.WellFormed) {n : Nat}
    (hkeys : ∀ key item, t.find? key = some item → key.toNat < n) : t.size ≤ n := by
  have hnodup : ((t.toList.map Prod.fst).map UInt64.toNat).Nodup :=
    h.nodup_keys.map fun _ _ heq => UInt64.toNat_inj.mp heq
  have hsub : (t.toList.map Prod.fst).map UInt64.toNat ⊆ List.range n := by
    intro k hk
    obtain ⟨key, hkey, rfl⟩ := List.mem_map.mp hk
    obtain ⟨⟨_, item⟩, hitem, rfl⟩ := List.mem_map.mp hkey
    exact List.mem_range.mpr (hkeys _ item (h.mem_toList_iff.mp hitem))
  have hle := (List.subperm_of_subset hnodup hsub).length_le
  simpa [h.size_eq] using hle

theorem WellFormed.dependable (h : t.WellFormed)
    (hkeys : ∀ key item, t.find? key = some item → key.toNat < 2 ^ 32) : t.Dependable :=
  ⟨h.bucketOf_lt, h.size_eq, h.size_le hkeys⟩

end KeyTable

/-! ### Allocators -/

namespace IdAllocator

variable {a a' : IdAllocator} {id : UInt32} {room : Bool}

/-- The allocator counts the ids it has in use. -/
def Tallied (a : IdAllocator) : Prop := ∃ first last used, a.Holds first last used

theorem Tallied.create (first last : UInt32) : (create first last).Tallied :=
  ⟨first, last, ∅, .create first last⟩

theorem Tallied.of_alloc (h : a.Tallied) (halloc : a.alloc room = .ok (id, a')) : a'.Tallied := by
  obtain ⟨first, last, used, h⟩ := h
  exact ⟨first, last, _, (h.of_alloc halloc).2⟩

theorem Tallied.of_alike (h : a.Tallied) (halike : a.Alike a') : a'.Tallied := by
  obtain ⟨first, last, used, h⟩ := h
  exact ⟨first, last, used, halike.wellFormed h.wellFormed, halike.first_eq.trans h.first_eq,
    halike.last_eq.trans h.last_eq, fun id => by rw [halike.isAllocated_eq, h.isAllocated_iff],
    halike.allocated_eq.trans h.allocated_eq⟩

theorem Tallied.of_free (h : a.Tallied) (hfree : a.free id = .ok a') : a'.Tallied := by
  obtain ⟨first, last, used, h⟩ := h
  by_cases hid : id ∈ used
  · obtain ⟨b, hb, hholds⟩ := h.exists_free hid
    obtain rfl : b = a' := Except.ok.inj (hb.symm.trans hfree)
    exact ⟨first, last, _, hholds⟩
  · rw [h.free_of_notMem hid] at hfree
    cases hfree

/-- Every word asked for is there, ids do not pass the end of their word, and neither does the count
of those in use. -/
structure Dependable (a : IdAllocator) : Prop where
  word_lt : ∀ index < a.used.size, index / 64 < a.used.words.size
  toNat_first_add : ∀ index < a.capacity,
    (a.first + UInt32.ofNat index).toNat = a.first.toNat + index
  allocated_le : a.allocated ≤ 2 ^ 32
  allocated_pos : ∀ id, a.isAllocated id = true → 0 < a.allocated

theorem Tallied.dependable (h : a.Tallied) : a.Dependable := by
  obtain ⟨first, last, used, h⟩ := h
  refine ⟨fun index hindex => h.wellFormed.used.index_lt hindex, fun index hindex => ?_, ?_,
    fun id hid => ?_⟩
  · exact (indexOf?_eq_some_iff.mp (indexOf?_first_add hindex)).2.2
  · rw [h.allocated_eq, ← Finset.card_range (2 ^ 32)]
    refine Finset.card_le_card_of_injOn UInt32.toNat (fun id _ => ?_)
      fun _ _ _ _ heq => UInt32.toNat_inj.mp heq
    simpa using id.toNat_lt
  · rw [h.allocated_eq]
    exact Finset.card_pos.mpr ⟨id, (h.isAllocated_iff id).mp hid⟩

end IdAllocator

/-! ### Tables of ids -/

namespace NumberedTable

variable {t t' : NumberedTable α} {first id : UInt32} {item : α} {memory : Memory}

/-- An item is filed unless every id is in use or memory refuses, and one that is there can be taken
out again, its id with it. -/
structure Dependable (t : NumberedTable α) : Prop where
  entries : t.entries.Dependable
  ids : t.ids.Dependable
  issue : ∀ item memory, (∃ t' id, t.issue item memory = (t', .ok id)) ∨
    t.issue item memory = (t, .error (.noId .outOfSpace)) ∨
    (memory.ids = false ∧ t.issue item memory = (t, .error (.noId .outOfMemory))) ∨
    (memory.entry = false ∧ ∃ t' id, t.Alike t' ∧
      t.issue item memory = (t', .error (.notFiled id .outOfMemory)))
  remove : ∀ id item, t.find? id = some item → ∃ entries' ids',
    t.entries.remove id.toUInt64 = .ok (item, entries') ∧ t.ids.free id = .ok ids'

theorem tallied_of_create {order : UInt32} (hcreate : create order first memory = .ok t) :
    t.ids.Tallied := by
  obtain ⟨entries, -, rfl⟩ := of_map_eq_ok hcreate
  exact .create first unboundedMaxId

theorem tallied_of_issue (htallied : t.ids.Tallied)
    (hissue : t.issue item memory = (t', .ok id)) : t'.ids.Tallied := by
  unfold issue at hissue
  split at hissue
  · simp at hissue
  · next id' ids' halloc =>
    split at hissue
    · cases hissue
      exact htallied.of_alloc halloc
    · split at hissue <;> simp at hissue

theorem tallied_of_withdraw {freed : Except Fault Unit} (htallied : t.ids.Tallied)
    (hwith : t.withdraw id = .ok (item, t', freed)) : t'.ids.Tallied := by
  unfold withdraw at hwith
  split at hwith
  · simp at hwith
  · split at hwith
    · next ids hfree =>
      cases hwith
      exact htallied.of_free hfree
    · cases hwith
      exact htallied

theorem WellFormed.dependable (h : t.WellFormed first) (htallied : t.ids.Tallied) :
    t.Dependable := by
  refine ⟨h.numbered.table.dependable fun key item hfind => ?_, htallied.dependable, fun item => ?_,
    fun id item hfind => ?_⟩
  · obtain ⟨id, rfl, -⟩ := (h.numbered.isSome_find?_iff key).mp (by rw [hfind]; rfl)
    simpa using id.toNat_lt
  · intro memory
    have hissuing := h.issuing item memory
    generalize t.issue item memory = issued at hissuing ⊢
    cases hissuing with
    | filed => exact Or.inl ⟨_, _, rfl⟩
    | full => exact Or.inr (Or.inl rfl)
    | noIds refused => exact Or.inr (Or.inr (Or.inl ⟨refused, rfl⟩))
    | noEntry refused alike => exact Or.inr (Or.inr (Or.inr ⟨refused, _, _, alike, rfl⟩))
  · obtain ⟨entries', ids', hrem, hfree, -⟩ := h.exists_parts hfind
    exact ⟨entries', ids', hrem, hfree⟩

end NumberedTable

/-! ### Spaces of hashed tokens -/

theorem toNat_one_shiftLeft {shift : UInt32} (h : shift.toNat < 64) :
    ((1 : UInt64) <<< shift.toUInt64).toNat = 2 ^ shift.toNat := by
  rw [toNat_shiftLeft (by simpa using h), UInt64.toNat_one, UInt32.toNat_toUInt64, Nat.one_mul]
  exact Nat.mod_eq_of_lt (Nat.pow_lt_pow_right Nat.one_lt_two h)

theorem KeyTable.invalidSpace_eq_false_iff {bits shift : UInt32} {add : UInt64}
    (hbits : 0 < bits.toNat) (hsum : bits.toNat + shift.toNat < UInt32.size) :
    invalidSpace bits shift add = false ↔
      bits.toNat + shift.toNat ≤ 64 ∧ (0 < shift.toNat → add.toNat < 2 ^ shift.toNat) := by
  have hword : (bits + shift).toNat = bits.toNat + shift.toNat := by
    rw [UInt32.toNat_add]
    exact Nat.mod_eq_of_lt hsum
  simp only [invalidSpace, Bool.or_eq_false_iff, Bool.and_eq_false_imp, decide_eq_true_eq,
    decide_eq_false_iff_not, UInt32.lt_iff_toNat_lt, UInt64.le_iff_toNat_le, hword, Nat.not_lt,
    Nat.not_le, UInt32.reduceToNat]
  refine and_congr_right fun hle => imp_congr_right fun hpos => ?_
  rw [toNat_one_shiftLeft (by omega)]

/-- A width, a shift and an addend that describe a space of keys, all of them with room in an
address. -/
structure TokenSpace (bits shift : UInt32) (add : UInt64) : Prop where
  bits_pos : 0 < bits.toNat
  bits_lt : bits.toNat < 64
  shift_lt : shift.toNat < 64
  add_lt : 0 < shift.toNat → add.toNat < 2 ^ shift.toNat
  key_le : ∀ k < 2 ^ bits.toNat,
    k * 2 ^ shift.toNat + add.toNat ≤ MapAddress.maxToken.toNat

namespace TokenSpace

variable {bits shift : UInt32} {add : UInt64}

/-- Keys that have room in an address have room in a word, and to spare. -/
theorem add_le (h : TokenSpace bits shift add) : bits.toNat + shift.toNat ≤ 64 := by
  have hpos := h.bits_pos
  have hkey := h.key_le (2 ^ (bits.toNat - 1)) (Nat.pow_lt_pow_right (by decide) (by omega))
  rw [← Nat.pow_add] at hkey
  have hmax : MapAddress.maxToken.toNat < 2 ^ 22 := by decide
  have hlt : bits.toNat - 1 + shift.toNat < 22 :=
    (Nat.pow_lt_pow_iff_right Nat.one_lt_two).mp (by omega)
  omega

theorem toNat_candidate (h : TokenSpace bits shift add) {k : Nat} (hk : k < 2 ^ bits.toNat) :
    (KeyTable.candidate shift add k).toNat = k * 2 ^ shift.toNat + add.toNat := by
  have hmax : MapAddress.maxToken.toNat < 2 ^ 64 := by decide
  exact KeyTable.toNat_candidate h.shift_lt (Nat.lt_of_le_of_lt (h.key_le k hk) hmax)

theorem invalidSpace_eq (h : TokenSpace bits shift add) :
    KeyTable.invalidSpace bits shift add = false := by
  have hsum := h.add_le
  have hword : bits.toNat + shift.toNat < UInt32.size := Nat.lt_of_le_of_lt hsum (by decide)
  exact (KeyTable.invalidSpace_eq_false_iff h.bits_pos hword).mpr ⟨hsum, h.add_lt⟩

/-- An insertion under any free candidate fails only when all of them are taken or memory has no
room for the entry. -/
theorem insertAny_cases (h : TokenSpace bits shift add) (t : KeyTable α) (item : α)
    (seed : UInt64) (room : Bool) :
    (∃ found, t.insertAny item seed bits shift add room = .ok found) ∨
      t.insertAny item seed bits shift add room = .error .keySpaceExhausted ∨
      (room = false ∧ t.insertAny item seed bits shift add room = .error .outOfMemory) := by
  have hbits : ¬ (bits = 0 ∨ 63 < bits) := by
    rw [← UInt32.toNat_inj, UInt32.lt_iff_toNat_lt]
    have hpos := h.bits_pos
    have hlt := h.bits_lt
    simp only [UInt32.toNat_zero, UInt32.reduceToNat]
    omega
  have hsum : ¬ UInt32.size ≤ bits.toNat + shift.toNat := by
    have hle := h.add_le
    simp only [UInt32.size]
    omega
  have hspec := t.insertAny_spec item seed bits shift add room
  generalize t.insertAny item seed bits shift add room = outcome at hspec
  cases hspec with
  | filed hk hins => exact Or.inl ⟨_, rfl⟩
  | exhausted => exact Or.inr (Or.inl rfl)
  | noRoom _ _ hroom => exact Or.inr (Or.inr ⟨hroom, rfl⟩)
  | invalid hinvalid =>
    rw [h.invalidSpace_eq] at hinvalid
    exact absurd (hinvalid.resolve_right nofun) hbits
  | overflow hle => exact absurd hle hsum

end TokenSpace

namespace Config

variable {c : Config}

theorem trailingZeros_two_pow : ∀ k < 64, trailingZeros (2 ^ k) = k := by decide +kernel

/-- What is checked of a configuration that hashes tokens. -/
structure Checked (c : Config) : Prop where
  two_le : 2 ≤ c.indexCount.toNat
  isPowerOfTwo : isPowerOfTwo c.indexCount = true
  add_lt : 0 < c.tokenShift.toNat → c.tokenAdd.toNat < 2 ^ c.tokenShift.toNat

theorem Checked.of_defect? (h : c.defect? = none) (hhash : c.hashesTokens = true) :
    c.Checked := by
  have hshift := (HasRoom.of_defect? h).shift_lt hhash
  unfold defect? at h
  split at h
  · cases h
  split at h
  · cases h
  rw [if_neg (by simp [hhash])] at h
  split at h
  · cases h
  next htwo =>
  split at h
  · cases h
  next hpower =>
  split at h
  · cases h
  next hadd =>
  refine ⟨UInt64.le_iff_toNat_le.mp (UInt64.not_lt.mp htwo), by simpa using hpower,
    fun hpos => ?_⟩
  rw [not_or, not_and, UInt64.not_le, UInt64.lt_iff_toNat_lt] at hadd
  have hlt := hadd.2 (UInt32.lt_iff_toNat_lt.mpr hpos)
  rwa [toNat_one_shiftLeft hshift] at hlt

/-- A number of indices that is a power of two is the number of candidates. -/
theorem Checked.two_pow_tokenBits (h : c.Checked) :
    2 ^ c.tokenBits.toNat = c.maxTokenIndex.toNat + 1 := by
  obtain ⟨k, hk⟩ := (Config.isPowerOfTwo_iff _).mp h.isPowerOfTwo
  have hword : 2 ^ k < 2 ^ 64 := hk ▸ c.indexCount.toNat_lt
  have hk64 : k < 64 := (Nat.pow_lt_pow_iff_right Nat.one_lt_two).mp hword
  rw [toNat_tokenBits, hk, trailingZeros_two_pow k hk64, ← hk, toNat_indexCount]

/-- What a configuration without a defect hashes tokens over is a space of keys. -/
theorem tokenSpace_of_defect? (h : c.defect? = none) (hhash : c.hashesTokens = true) :
    TokenSpace c.tokenBits c.tokenShift c.tokenAdd := by
  have hroom := HasRoom.of_defect? h
  have hchecked := Checked.of_defect? h hhash
  have hcount := hchecked.two_pow_tokenBits
  have htwo := hchecked.two_le
  rw [toNat_indexCount, ← hcount] at htwo
  have hbits : c.tokenBits.toNat < 64 := by
    have hlast := c.maxTokenIndex.toNat_lt
    exact (Nat.pow_lt_pow_iff_right Nat.one_lt_two).mp (by omega)
  refine ⟨Nat.pos_of_ne_zero fun hzero => ?_, hbits, hroom.shift_lt hhash, hchecked.add_lt,
    fun k hk => ?_⟩
  · rw [hzero] at htwo
    exact absurd htwo (by decide)
  · have hle : k ≤ c.maxTokenIndex.toNat := by omega
    have hmul := Nat.mul_le_mul_right (2 ^ c.tokenShift.toNat) hle
    have hmax := hroom.token_le hhash
    omega

end Config

/-! ### Tables of tokens -/

/-- A source that counts its ids, or hashes over a space of keys. -/
def TokenSource.InOrder : TokenSource → Prop
  | dense ids => ids.Tallied
  | hashed bits shift add => TokenSpace bits shift add

theorem TokenSource.InOrder.of_alike {s s' : TokenSource} (h : s.InOrder) (halike : s.Alike s') :
    s'.InOrder := by
  cases halike with
  | dense halike => exact IdAllocator.Tallied.of_alike h halike
  | hashed => exact h

namespace TokenTable

variable {t t' : TokenTable} {object : ObjectRef} {seed : UInt64} {token : Token} {memory : Memory}

/-- An object is filed unless every token is in use or memory refuses, and the token of one that is
there can be given back. Whatever tokens are made from, making one leaves no word. -/
structure Dependable (t : TokenTable) : Prop where
  entries : t.entries.Dependable
  ids : ∀ ids, t.source = .dense ids → ids.Dependable
  space : ∀ bits shift add, t.source = .hashed bits shift add → TokenSpace bits shift add ∧
    ∀ k < 2 ^ bits.toNat,
      (KeyTable.candidate shift add k).toNat = k * 2 ^ shift.toNat + add.toNat
  issue : ∀ object seed memory, (∃ t' token, t.issue object seed memory = (t', .ok token)) ∨
    t.issue object seed memory = (t, .error .keySpaceExhausted) ∨
    ((memory.ids = false ∨ memory.entry = false) ∧ ∃ t', t.Alike t' ∧
      t.issue object seed memory = (t', .error .outOfMemory))
  release : ∀ token object, t.entries.find? token = some object → ∃ t' entries',
    t.freeId token = .ok t' ∧ t'.entries.remove token = .ok (object, entries')

theorem inOrder_of_create {c : Config} (hsane : c.defect? = none)
    (hcreate : create c memory = .ok t) : t.source.InOrder := by
  obtain ⟨entries, -, rfl⟩ := of_map_eq_ok hcreate
  dsimp only
  split
  · next hhash => exact Config.tokenSpace_of_defect? hsane hhash
  · exact IdAllocator.Tallied.create ..

theorem inOrder_of_issue (horder : t.source.InOrder)
    (hissue : t.issue object seed memory = (t', .ok token)) : t'.source.InOrder := by
  unfold issue at hissue
  split at hissue
  · next ids hsource =>
    rw [hsource] at horder
    split at hissue
    · simp at hissue
    · next id ids' halloc =>
      split at hissue
      · cases hissue
        exact IdAllocator.Tallied.of_alloc horder halloc
      · split at hissue <;> simp at hissue
  · split at hissue
    · cases hissue
      exact horder
    · simp at hissue
    · simp at hissue

theorem inOrder_of_freeId (horder : t.source.InOrder) (hfree : t.freeId token = .ok t') :
    t'.source.InOrder := by
  unfold freeId at hfree
  split at hfree
  · next ids hsource =>
    rw [hsource] at horder
    obtain ⟨ids', hids, rfl⟩ := of_map_eq_ok hfree
    exact IdAllocator.Tallied.of_free horder hids
  · cases hfree
    exact horder

/-- What it comes to that an object is to have a token. If it gets none, either all are in use or
memory has refused something, and the tokens in use are those that were. -/
inductive Issuing (t : TokenTable) (memory : Memory) :
    TokenTable × Outcome RequestError Token → Prop
  | filed {t' : TokenTable} {token : Token} : Issuing t memory (t', .ok token)
  | exhausted : Issuing t memory (t, .error .keySpaceExhausted)
  | noRoom {t' : TokenTable} (refused : memory.ids = false ∨ memory.entry = false)
      (alike : t.Alike t') : Issuing t memory (t', .error .outOfMemory)

theorem WellFormed.issuing (h : t.WellFormed) (horder : t.source.InOrder) (object : ObjectRef)
    (seed : UInt64) (memory : Memory) : Issuing t memory (t.issue object seed memory) := by
  unfold issue
  split
  · next ids hsource =>
    have hnum := h.numbered ids hsource
    rcases halloc : ids.alloc memory.ids with e | ⟨id, ids'⟩ <;> dsimp only
    · obtain ⟨rfl, -⟩ | ⟨rfl, hroom, -⟩ := hnum.allocator.of_alloc_error halloc
      · exact .exhausted
      · exact .noRoom (Or.inl hroom) (.refl t)
    cases hentry : memory.entry with
    | true =>
      obtain ⟨entries', hins, -⟩ := hnum.exists_insert halloc object
      rw [hins]
      exact .filed
    | false =>
      obtain ⟨hins, ids'', hfree, halike⟩ := hnum.exists_giveBack halloc object
      rw [hins]
      dsimp only
      rw [hfree]
      exact .noRoom (Or.inr hentry) ⟨rfl, hsource ▸ .dense halike⟩
  · next bits shift add hsource =>
    rw [hsource] at horder
    obtain ⟨found, hany⟩ | hany | ⟨hroom, hany⟩ :=
      TokenSpace.insertAny_cases horder t.entries object seed memory.entry
    all_goals rw [hany]
    · exact .filed
    · exact .exhausted
    · exact .noRoom (Or.inr hroom) (.refl t)

theorem WellFormed.dependable (h : t.WellFormed) (horder : t.source.InOrder) : t.Dependable := by
  refine ⟨h.table.dependable fun key object hfind => ?_, fun ids hids => ?_,
    fun bits shift add hsource => ?_, fun object seed => ?_, fun token object hfind => ?_⟩
  · have hle := UInt64.le_iff_toNat_le.mp (h.fits.le_maxToken (h.given key object hfind))
    have hmax : MapAddress.maxToken.toNat < 2 ^ 32 := by decide
    omega
  · rw [hids] at horder
    exact IdAllocator.Tallied.dependable horder
  · rw [hsource] at horder
    exact ⟨horder, fun k hk => TokenSpace.toNat_candidate horder hk⟩
  · intro memory
    have hissuing := h.issuing horder object seed memory
    generalize t.issue object seed memory = issued at hissuing ⊢
    cases hissuing with
    | filed => exact Or.inl ⟨_, _, rfl⟩
    | exhausted => exact Or.inr (Or.inl rfl)
    | noRoom refused alike => exact Or.inr (Or.inr ⟨refused, _, alike, rfl⟩)
  · obtain ⟨t', entries', hfree, hrem, -⟩ := h.exists_release hfind
    exact ⟨t', entries', hfree, hrem⟩

end TokenTable

end BufferObjects
