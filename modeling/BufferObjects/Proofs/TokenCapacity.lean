import BufferObjects.Proofs.Addressing
import BufferObjects.Proofs.Machine.Reports
import BufferObjects.Proofs.Probing

/-!
How many objects of a device can have a mapping token. There are two ways to make tokens, and they
have one law in common. Each of them goes through its tokens in a fixed order, the least index first
or the candidates from the hash of the object on, and takes the first that is free; either order has
one token for each index of the configuration and none twice, because hashing is allowed only over a
power of two. So as long as there is memory a token is refused just when there are as many as
indices, and since only living objects have entries, each object that ends or gives its token back
makes room for one.
-/

namespace BufferObjects

namespace Config

/-- How many tokens there are. -/
def room (c : Config) : Nat := c.maxTokenIndex.toNat + 1

/-- The tokens in the order in which they are tried for an object with this number: the indices as
they come, or the hashed candidates from the one on that the number leads to. -/
def nthToken (c : Config) (id : UInt64) (i : Nat) : Token :=
  if c.hashesTokens then KeyTable.nthCandidate id c.tokenBits c.tokenShift c.tokenAdd i
  else UInt64.ofNat i

variable {c : Config}

theorem keySpace_of_defect? (h : c.defect? = none) (hhash : c.hashesTokens = true) :
    KeyTable.KeySpace c.tokenBits c.tokenShift c.tokenAdd :=
  have hspace := tokenSpace_of_defect? h hhash
  ⟨hspace.bits_pos, hspace.bits_lt, hspace.add_le, hspace.add_lt⟩

theorem two_pow_tokenBits_eq_room (h : c.defect? = none) (hhash : c.hashesTokens = true) :
    2 ^ c.tokenBits.toNat = c.room :=
  (Checked.of_defect? h hhash).two_pow_tokenBits

theorem nthToken_injOn (h : c.defect? = none) (id : UInt64) :
    Set.InjOn (c.nthToken id) (Set.Iio c.room) := by
  cases hhash : c.hashesTokens with
  | true =>
    have hspace := keySpace_of_defect? h hhash
    rw [← two_pow_tokenBits_eq_room h hhash]
    intro i hi j hj heq
    simp only [nthToken, hhash, if_true, KeyTable.nthCandidate] at heq
    have hpos := Nat.two_pow_pos c.tokenBits.toNat
    exact KeyTable.turn_injOn hi hj <|
      hspace.candidate_injOn (Nat.mod_lt _ hpos) (Nat.mod_lt _ hpos) heq
  | false =>
    intro i hi j hj heq
    have hmax := c.maxTokenIndex.toNat_lt
    simp only [room, Set.mem_Iio] at hi hj
    simp only [nthToken, hhash, if_false, Bool.false_eq_true, ← UInt64.toNat_inj,
      UInt64.toNat_ofNat'] at heq
    omega

end Config

/-! ### Tables of tokens -/

namespace TokenTable

variable {t : TokenTable} {c : Config} {object : ObjectRef} {seed : UInt64} {token : Token}
  {memory : Memory}

/-- A table as its device keeps it: well formed, its numbers in order, and with the range that a
configuration without a defect asks for. -/
structure SetUp (t : TokenTable) (c : Config) : Prop where
  wellFormed : t.WellFormed
  inOrder : t.source.InOrder
  sane : c.defect? = none
  range : t.source.range = c.tokenRange

namespace SetUp

theorem source_cases (h : t.SetUp c) :
    (c.hashesTokens = true ∧ t.source = .hashed c.tokenBits c.tokenShift c.tokenAdd) ∨
      (c.hashesTokens = false ∧ ∃ ids, t.source = .dense ids ∧ ids.first = firstTokenIndex ∧
        ids.last = c.maxTokenIndex) := by
  have hrange := h.range
  unfold Config.tokenRange at hrange
  cases hsource : t.source with
  | dense ids =>
    rw [hsource] at hrange
    split at hrange
    · cases hrange
    · next hhash =>
      obtain ⟨hfirst, hlast⟩ := TokenRange.dense.inj hrange
      exact Or.inr ⟨by simpa using hhash, ids, rfl, hfirst, hlast⟩
  | hashed bits shift add =>
    rw [hsource] at hrange
    split at hrange
    · next hhash =>
      obtain ⟨rfl, rfl, rfl⟩ := TokenRange.hashed.inj hrange
      exact Or.inl ⟨hhash, rfl⟩
    · cases hrange

/-- Every token in use has its place in the order. -/
theorem exists_nthToken (h : t.SetUp c) (seed : UInt64)
    (hfind : t.entries.find? token = some object) : ∃ i < c.room, token = c.nthToken seed i := by
  have hgiven := h.wellFormed.given token object hfind
  rcases h.source_cases with ⟨hhash, hsource⟩ | ⟨hdense, ids, hsource, -, hlast⟩
  · rw [hsource] at hgiven
    obtain ⟨k, hk, rfl⟩ := hgiven
    have hspace := Config.keySpace_of_defect? h.sane hhash
    obtain ⟨i, hi, rfl⟩ := KeyTable.exists_turn (hspace.hash_lt seed) hk
    rw [Config.two_pow_tokenBits_eq_room h.sane hhash] at hi
    exact ⟨i, hi, by simp [Config.nthToken, hhash, KeyTable.nthCandidate]⟩
  · rw [hsource, TokenSource.Gives, hlast, UInt64.le_iff_toNat_le, UInt32.toNat_toUInt64] at hgiven
    refine ⟨token.toNat, Nat.lt_succ_of_le hgiven, ?_⟩
    simp [Config.nthToken, hdense]

/-- What an issue does, and answers: the first token in the order that is free, or a refusal because
none is, or because one is but memory has refused to make room for it. -/
inductive Issued (t : TokenTable) (c : Config) (object : ObjectRef) (seed : UInt64)
    (memory : Memory) : TokenTable × Outcome RequestError Token → Prop
  | given {i : Nat} {t' : TokenTable} : i < c.room →
      (∀ k < i, (t.entries.find? (c.nthToken seed k)).isSome = true) →
      t.entries.find? (c.nthToken seed i) = none → t'.WellFormed →
      (∀ j, t'.entries.find? j =
        if j = c.nthToken seed i then some object else t.entries.find? j) →
      Issued t c object seed memory (t', .ok (c.nthToken seed i))
  | exhausted : (∀ i < c.room, (t.entries.find? (c.nthToken seed i)).isSome = true) →
      Issued t c object seed memory (t, .error .keySpaceExhausted)
  | noRoom {i : Nat} {t' : TokenTable} : i < c.room →
      t.entries.find? (c.nthToken seed i) = none →
      memory.ids = false ∨ memory.entry = false → t.Alike t' →
      Issued t c object seed memory (t', .error .outOfMemory)

/-- Where tokens are ids, an index is taken as a token when it is taken as an id. -/
theorem isSome_find?_of_isAllocated (h : t.SetUp c) {ids : IdAllocator}
    (hdense : c.hashesTokens = false) (hsource : t.source = .dense ids) (seed : UInt64) {i : Nat}
    (hi : i < 2 ^ 32) (hid : ids.isAllocated (UInt32.ofNat i) = true) :
    (t.entries.find? (c.nthToken seed i)).isSome = true := by
  have hnth : c.nthToken seed i = (UInt32.ofNat i).toUInt64 := by
    rw [Config.nthToken, hdense, if_neg Bool.false_ne_true, ← UInt64.toNat_inj,
      UInt32.toNat_toUInt64, UInt32.toNat_ofNat_of_lt' hi]
    exact UInt64.toNat_ofNat_of_lt' (Nat.lt_trans hi (by decide))
  rw [hnth, (h.wellFormed.numbered ids hsource).isSome_find?_toUInt64, hid]

/-- An id that is free is a free token. -/
theorem find?_eq_none_of_isAllocated (h : t.SetUp c) {ids : IdAllocator}
    (hdense : c.hashesTokens = false) (hsource : t.source = .dense ids)
    (hlast : ids.last = c.maxTokenIndex) (seed : UInt64) {id : UInt32} (hle : id ≤ ids.last)
    (hid : ids.isAllocated id = false) :
    id.toNat < c.room ∧ t.entries.find? (c.nthToken seed id.toNat) = none := by
  have hnth : c.nthToken seed id.toNat = id.toUInt64 := by simp [Config.nthToken, hdense]
  rw [hlast, UInt32.le_iff_toNat_le] at hle
  refine ⟨Nat.lt_succ_of_le hle, ?_⟩
  rw [hnth, ← Option.not_isSome_iff_eq_none,
    (h.wellFormed.numbered ids hsource).isSome_find?_toUInt64, hid]
  exact Bool.false_ne_true

/-- Where tokens are ids, the least that is free is the first free one. -/
theorem issued_dense (h : t.SetUp c) {ids : IdAllocator} (hdense : c.hashesTokens = false)
    (hsource : t.source = .dense ids) (hfirst : ids.first = firstTokenIndex)
    (hlast : ids.last = c.maxTokenIndex) (object : ObjectRef) (seed : UInt64) (memory : Memory) :
    Issued t c object seed memory (t.issue object seed memory) := by
  have hnumbered := h.wellFormed.numbered ids hsource
  have hzero (id : UInt32) : ids.first ≤ id := by
    rw [hfirst, UInt32.le_iff_toNat_le]
    exact Nat.zero_le _
  rcases hissue : t.issue object seed memory with ⟨t', outcome⟩
  have hspec := hissue
  simp only [issue, hsource] at hspec
  cases halloc : ids.alloc memory.ids with
  | error e =>
    rw [halloc] at hspec
    cases hspec
    obtain ⟨rfl, hall⟩ | ⟨rfl, hmemory, hcramped⟩ := hnumbered.allocator.of_alloc_error halloc
    · refine .exhausted fun i hi => ?_
      have hword : i < 2 ^ 32 := Nat.lt_of_lt_of_le hi (Nat.succ_le_of_lt c.maxTokenIndex.toNat_lt)
      refine h.isSome_find?_of_isAllocated hdense hsource seed hword (hall _ (hzero _) ?_)
      rw [hlast, UInt32.le_iff_toNat_le, UInt32.toNat_ofNat_of_lt' hword]
      exact Nat.le_of_lt_succ hi
    · obtain ⟨id, -, hle, hid⟩ := hcramped.exists_free hnumbered.allocator
      obtain ⟨hroom, hfree⟩ :=
        h.find?_eq_none_of_isAllocated hdense hsource hlast seed hle hid
      exact .noRoom hroom hfree (Or.inl hmemory) (.refl t)
  | ok found =>
    obtain ⟨id, ids'⟩ := found
    have hadds := hnumbered.allocator.adds_of_alloc halloc
    obtain ⟨hroom, hnone⟩ :=
      h.find?_eq_none_of_isAllocated hdense hsource hlast seed hadds.range.2 hadds.wasFree
    cases hentry : memory.entry with
    | false =>
      obtain ⟨hins, ids'', hfree, halike⟩ := hnumbered.exists_giveBack halloc object
      simp only [halloc, hentry, hins, hfree] at hspec
      cases hspec
      exact .noRoom hroom hnone (Or.inr hentry) ⟨rfl, hsource ▸ .dense halike⟩
    | true =>
      obtain ⟨entries', hins, -⟩ := hnumbered.exists_insert halloc object
      simp only [halloc, hentry, hins] at hspec
      obtain ⟨-, rfl⟩ := Prod.mk.inj hspec
      obtain ⟨hwf, -, hfind⟩ := h.wellFormed.of_issue hissue
      have hnth : c.nthToken seed id.toNat = id.toUInt64 := by simp [Config.nthToken, hdense]
      rw [← hnth] at hfind ⊢
      refine .given hroom (fun k hk => ?_) hnone hwf hfind
      have hword : k < 2 ^ 32 := Nat.lt_trans hk id.toNat_lt
      refine h.isSome_find?_of_isAllocated hdense hsource seed hword (hadds.least _ (hzero _) ?_)
      rwa [UInt32.lt_iff_toNat_lt, UInt32.toNat_ofNat_of_lt' hword]

/-- Hashed candidates are probed from the first on. -/
theorem issued_hashed (h : t.SetUp c) (hhash : c.hashesTokens = true)
    (hsource : t.source = .hashed c.tokenBits c.tokenShift c.tokenAdd) (object : ObjectRef)
    (seed : UInt64) (memory : Memory) :
    Issued t c object seed memory (t.issue object seed memory) := by
  have hspace := Config.keySpace_of_defect? h.sane hhash
  have hroom := Config.two_pow_tokenBits_eq_room h.sane hhash
  have hprobed := h.wellFormed.table.probed hspace object seed memory.entry
  have hnth (i : Nat) : c.nthToken seed i =
      KeyTable.nthCandidate seed c.tokenBits c.tokenShift c.tokenAdd i := by
    rw [Config.nthToken, if_pos hhash]
  rcases hissue : t.issue object seed memory with ⟨t', outcome⟩
  have hspec := hissue
  simp only [issue, hsource] at hspec
  simp only [KeyTable.Call.act] at hprobed
  rcases hany : t.entries.insertAny object seed c.tokenBits c.tokenShift c.tokenAdd memory.entry
    with ⟨key, entries'⟩ | e | f
  all_goals
    rw [hany] at hspec hprobed
    obtain ⟨rfl, rfl⟩ := Prod.mk.inj hspec
    cases hprobed
  · next i hi htaken hnone _ _ _ _ =>
    obtain ⟨hwf, -, hfind⟩ := h.wellFormed.of_issue hissue
    rw [← hnth] at hnone hfind ⊢
    exact .given (hroom ▸ hi) (fun k hk => hnth k ▸ htaken k hk) hnone hwf hfind
  · next i hi _ hnone _ hrefused =>
    exact .noRoom (hroom ▸ hi) (hnth i ▸ hnone) (Or.inr hrefused) (.refl t)
  · next hall _ =>
    refine .exhausted fun i hi => ?_
    rw [hnth]
    exact hall _ (Nat.mod_lt _ (Nat.two_pow_pos _))

/-- Whatever tokens are made from, an issue goes through them in their order. -/
theorem issued (h : t.SetUp c) (object : ObjectRef) (seed : UInt64) (memory : Memory) :
    Issued t c object seed memory (t.issue object seed memory) := by
  rcases h.source_cases with ⟨hhash, hsource⟩ | ⟨hdense, ids, hsource, hfirst, hlast⟩
  · exact h.issued_hashed hhash hsource object seed memory
  · exact h.issued_dense hdense hsource hfirst hlast object seed memory

/-! ### Counting -/

theorem boundKeys_subset (h : t.SetUp c) (seed : UInt64) :
    KeyTable.boundKeys t.entries.find? ⊆ c.nthToken seed '' Set.Iio c.room := by
  intro token htoken
  obtain ⟨object, hobject⟩ := Option.isSome_iff_exists.mp htoken
  obtain ⟨i, hi, rfl⟩ := h.exists_nthToken seed hobject
  exact ⟨i, hi, rfl⟩

theorem ncard_order (h : t.SetUp c) (seed : UInt64) :
    (c.nthToken seed '' Set.Iio c.room).ncard = c.room := by
  rw [(Config.nthToken_injOn h.sane seed).ncard_image, ← Finset.coe_range, Set.ncard_coe_finset,
    Finset.card_range]

theorem finite_order (c : Config) (seed : UInt64) :
    (c.nthToken seed '' Set.Iio c.room).Finite := by
  rw [← Finset.coe_range]
  exact (Finset.finite_toSet _).image _

/-- With a free token there are fewer entries than tokens. -/
theorem size_lt (h : t.SetUp c) {i : Nat} (hi : i < c.room)
    (hnone : t.entries.find? (c.nthToken seed i) = none) : t.entries.size < c.room := by
  have hfree : c.nthToken seed i ∉ KeyTable.boundKeys t.entries.find? := by
    simp [KeyTable.boundKeys, hnone]
  have hsub := (Set.ssubset_iff_of_subset (h.boundKeys_subset seed)).mpr
    ⟨_, Set.mem_image_of_mem _ hi, hfree⟩
  have hlt := Set.ncard_lt_ncard hsub (finite_order c seed)
  rwa [h.ncard_order, ← h.wellFormed.table.holds.size_eq] at hlt

/-- Without one there are as many. -/
theorem le_size (h : t.SetUp c)
    (hall : ∀ i < c.room, (t.entries.find? (c.nthToken seed i)).isSome = true) :
    c.room ≤ t.entries.size := by
  have hsub : c.nthToken seed '' Set.Iio c.room ⊆ KeyTable.boundKeys t.entries.find? := by
    rintro _ ⟨i, hi, rfl⟩
    exact hall i hi
  have hle := Set.ncard_le_ncard hsub h.wellFormed.table.holds.finite_boundKeys
  rwa [h.ncard_order, ← h.wellFormed.table.holds.size_eq] at hle

end SetUp

end TokenTable

/-! ### Objects -/

namespace World

variable {w : World} {d : DeviceRef} {o : ObjectRef} {t : Token}

/-- How many objects of a device have a token. -/
def tokenCount (w : World) (d : DeviceRef) : Nat := (w.device d).tokens.entries.size

/-- Whether a living object of a device has a token. -/
def Taken (w : World) (d : DeviceRef) (t : Token) : Prop := ∃ p, w.Carries d p t

theorem TokensSound.isSome_find?_iff (h : w.TokensSound) (halive : (w.device d).alive = true) :
    ((w.device d).tokens.entries.find? t).isSome = true ↔ w.Taken d t := by
  rw [Option.isSome_iff_exists]
  exact exists_congr fun p => h.find?_iff_carries halive t p

theorem TokensSound.tokenCount_eq (h : w.TokensSound) (halive : (w.device d).alive = true) :
    w.tokenCount d = {t | w.Taken d t}.ncard := by
  rw [tokenCount, (h.wellFormed d halive).table.holds.size_eq]
  exact congrArg Set.ncard (Set.ext fun t => h.isSome_find?_iff halive)

/-- What a request for a token does for an object without one: with room for one more it makes the
first that is not taken, and without it leaves nothing but a report; when there is room for one more
but memory refuses what it is asked for, nobody can tell the world from the one before. -/
inductive Mints (w : World) (d : DeviceRef) (o : ObjectRef) :
    World × Outcome RequestError Token → Prop
  | given {i : Nat} {w' : World} : w.tokenCount d < (w.device d).config.room →
      i < (w.device d).config.room →
      (∀ k < i, w.Taken d ((w.device d).config.nthToken (w.object o).id k)) →
      ¬ w.Taken d ((w.device d).config.nthToken (w.object o).id i) →
      (w'.object o).token = some ((w.device d).config.nthToken (w.object o).id i) →
      w'.tokenCount d = w.tokenCount d + 1 →
      Mints w d o (w', .ok ((w.device d).config.nthToken (w.object o).id i))
  | refused {ns : List Notice} : (w.device d).config.room ≤ w.tokenCount d →
      Mints w d o (w.noteAll ns, .error .keySpaceExhausted)
  | noRoom {w' : World} : w.tokenCount d < (w.device d).config.room →
      w.memory.ids = false ∨ w.memory.entry = false → w.Restores w' →
      Mints w d o (w', .error .outOfMemory)

theorem mints_createToken (htokens : w.TokensSound)
    (hsetUp : (w.device d).tokens.SetUp (w.device d).config)
    (halive : (w.device d).alive = true) (hlive : 0 < (w.object o).refs)
    (hnone : (w.object o).token = none) : Mints w d o (w.createToken d o) := by
  have hissued := hsetUp.issued o (w.object o).id w.memory
  unfold createToken
  simp only [hnone]
  rcases hissue : (w.device d).tokens.issue o (w.object o).id w.memory with ⟨tokens', outcome⟩
  rw [hissue] at hissued
  cases hissued with
  | @given i _ hi htaken hfree hwf hfind =>
    have hcount : tokens'.entries.size = (w.device d).tokens.entries.size + 1 := by
      have hfound := (hfind _).trans (if_pos rfl)
      refine (hwf.table.size_add_one (htokens.wellFormed d halive).table hfound fun j => ?_).symm
      rw [hfind]
      split
      · next hj => rw [hj, hfree]
      · rfl
    refine .given (hsetUp.size_lt hi hfree) hi
      (fun k hk => (htokens.isSome_find?_iff halive).mp (htaken k hk)) ?_ ?_ ?_
    · rw [← htokens.isSome_find?_iff halive, hfree]
      exact Bool.false_ne_true
    · simp [setToken, object_updateObject, setTokens, lt_size_of_refs hlive]
    · simp [tokenCount, setToken, setTokens, device_updateDevice, lt_size_of_alive halive, hcount]
  | exhausted hall =>
    dsimp only
    rw [setTokens_self]
    exact .refused (hsetUp.le_size hall)
  | noRoom hi hfree hrefused halike =>
    exact .noRoom (hsetUp.size_lt hi hfree) hrefused
      ((Restores.setTokens halike).trans (.noteAll _ _))

end World

namespace Machine

variable {m m' : Machine} {x : Move} {d : DeviceRef} {o : ObjectRef} {t : Token}

open World

theorem setUp_of_orderlyRun {moves : List Move} (hrun : empty.orderlyRun? moves = some m)
    (halive : (m.world.device d).alive = true) :
    (m.world.device d).tokens.SetUp (m.world.device d).config := by
  have hfitted := fitted_of_tameRun (tameRun?_of_orderlyRun? hrun)
  have hd := lt_size_of_alive halive
  exact ⟨(Sound.of_run hrun).world.tokens.wellFormed d halive, (calm_of_run hrun).tokens d,
    hfitted.sane d hd, hfitted.range d hd⟩

/-- An object that ends at a living device, or whose token is destroyed, has none afterwards. -/
theorem Sound.token_of_endsToken (h : m.Sound) (hmove : m.orderlyMove? x = some m')
    (hlt : o < m.world.objects.size) (hhome : (m.world.object o).home = d)
    (halive : (m'.world.device d).alive = true) (hends : endsToken o x m' = true) :
    (m'.world.object o).token = none := by
  obtain ⟨-, hx, -⟩ := orderlyMove?_eq_some.mp hmove
  rcases endsToken_iff.mp hends with hzero | ⟨e, rfl⟩
  · by_contra hsome
    rw [← ne_eq, Option.ne_none_iff_isSome] at hsome
    have hhome' := ((h.turn hmove).home o hlt).trans hhome
    have hlive := (h.move hmove).world.tokens.live o hsome (by rwa [hhome'])
    omega
  · obtain ⟨-, rfl⟩ := call?_eq_some.mp hx
    exact token_destroyToken m.world e o

/-- The token of such an object is taken no more, and no other token is touched. -/
theorem Sound.carries_of_endsToken (h : m.Sound) (hmove : m.orderlyMove? x = some m')
    (hcarries : m.world.Carries d o t) (halive : (m'.world.device d).alive = true)
    (hends : endsToken o x m' = true) (p : ObjectRef) (u : Token) :
    m'.world.Carries d p u ↔ u ≠ t ∧ m.world.Carries d p u := by
  obtain ⟨-, hx, -⟩ := orderlyMove?_eq_some.mp hmove
  have hnone := h.token_of_endsToken hmove (lt_size_of_refs hcarries.live) hcarries.home halive
    hends
  have hspares := spares_of_move hx
  -- the move is about this object, so the others keep their tokens
  have habout : m.retokened? x = some o := by
    by_contra hother
    have hkept := (hspares.token_eq o hother).trans hcarries.token
    rw [hnone] at hkept
    cases hkept
  rw [(h.move hmove).world.tokens.carries_iff halive,
    h.world.tokens.carries_iff hcarries.alive]
  by_cases hp : o = p
  · subst hp
    rw [hnone, hcarries.token]
    constructor
    · rintro ⟨-, hu⟩
      cases hu
    · rintro ⟨hne, -, hu⟩
      exact absurd (Option.some.inj hu).symm hne
  · have hkept : (m'.world.object p).token = (m.world.object p).token :=
      hspares.token_eq p (by simp [habout, hp])
    have hmoved (hu : (m.world.object p).token = some u) :
        (m'.world.object p).home = (m.world.object p).home := by
      refine (h.turn hmove).home p (Nat.lt_of_not_le fun hge => ?_)
      rw [object_of_size_le hge] at hu
      cases hu
    rw [hkept]
    constructor
    · rintro ⟨hhome, hu⟩
      rw [hmoved hu] at hhome
      refine ⟨?_, hhome, hu⟩
      rintro rfl
      exact hp (h.world.tokens.unique o p u hcarries.token hu (hcarries.home.trans hhome.symm))
    · rintro ⟨-, hhome, hu⟩
      exact ⟨(hmoved hu).trans hhome, hu⟩

theorem Sound.tokenCount_of_endsToken (h : m.Sound) (hmove : m.orderlyMove? x = some m')
    (hcarries : m.world.Carries d o t) (halive : (m'.world.device d).alive = true)
    (hends : endsToken o x m' = true) : m'.world.tokenCount d + 1 = m.world.tokenCount d := by
  have htokens := h.world.tokens
  have htokens' := (h.move hmove).world.tokens
  have hleaves := h.carries_of_endsToken hmove hcarries halive hends
  have hfound := (htokens.find?_iff_carries hcarries.alive t o).mpr hcarries
  refine (htokens.wellFormed d hcarries.alive).table.size_add_one
    (htokens'.wellFormed d halive).table hfound fun u => Option.ext fun p => ?_
  rw [htokens'.find?_iff_carries halive, hleaves]
  split
  · next hu => simp [hu]
  · next hu => simp [hu, htokens.find?_iff_carries hcarries.alive]

/-- Both ways to make tokens use all that there is, in every state of an orderly run. The entries of
a living device are the tokens that its living objects have. The order in which tokens are tried has
one for each index and none twice. An object without a token gets the first that no living object
has when there are fewer than indices and memory refuses nothing; when there are as many, nothing
changes and it is told that the space is used up. An object that ends, or whose token is destroyed,
makes room for one more. -/
theorem capacity_of_orderlyRun {moves : List Move} (hrun : empty.orderlyRun? moves = some m)
    (halive : (m.world.device d).alive = true) :
    m.world.tokenCount d = {t | m.world.Taken d t}.ncard ∧
    (∀ id, Set.InjOn ((m.world.device d).config.nthToken id)
      (Set.Iio (m.world.device d).config.room)) ∧
    (∀ o, 0 < (m.world.object o).refs → (m.world.object o).token = none →
      Mints m.world d o (m.world.createToken d o)) ∧
    (∀ x m' o t, m.orderlyMove? x = some m' → m.world.Carries d o t →
      (m'.world.device d).alive = true → endsToken o x m' = true →
      m'.world.tokenCount d + 1 = m.world.tokenCount d ∧
      ∀ p u, m'.world.Carries d p u ↔ u ≠ t ∧ m.world.Carries d p u) := by
  have h := Sound.of_run hrun
  have hsetUp := setUp_of_orderlyRun hrun halive
  refine ⟨h.world.tokens.tokenCount_eq halive, Config.nthToken_injOn hsetUp.sane,
    fun o hlive hnone => mints_createToken h.world.tokens hsetUp halive hlive hnone,
    fun x m' o t hmove hcarries halive' hends =>
      ⟨h.tokenCount_of_endsToken hmove hcarries halive' hends,
        h.carries_of_endsToken hmove hcarries halive' hends⟩⟩

/-- A device with hashed tokens over two indices, and three objects, two of which have got one. -/
def crowded : List Move :=
  [.call (.newDevice
      { handleOrder := 2, nameOrder := 2, tokenOrder := 2,
        maxTokenIndex := 1, tokenShift := 1, tokenAdd := 1 } default), .finish,
    .call (.createObject 0 4096), .answer .accept, .finish,
    .call (.createObject 0 4096), .answer .accept, .finish,
    .call (.createObject 0 4096), .answer .accept, .finish,
    .call (.createToken 0 0), .finish, .call (.createToken 0 1), .finish]

/-- The third object is refused a token. Once the token of the first is destroyed there is room for
one. -/
theorem capacity_of_orderlyRun_crowded :
    ∃ m m', empty.orderlyRun? crowded = some m ∧
      m.orderlyMove? (.call (.destroyToken 0 0)) = some m' ∧
      (∃ ns, m.world.createToken 0 2 = (m.world.noteAll ns, .error .keySpaceExhausted)) ∧
      m'.world.tokenCount 0 + 1 = m.world.tokenCount 0 ∧ ¬ m'.world.Taken 0 3 := by
  have hread : ((empty.orderlyRun? crowded).bind fun m =>
      (m.orderlyMove? (.call (.destroyToken 0 0))).map fun m' =>
        ([(m.world.object 2).refs, m.world.tokenCount 0, (m.world.device 0).config.room],
          [(m.world.object 0).token, (m.world.object 2).token],
          [(m.world.device 0).alive, (m'.world.device 0).alive],
          [(m.world.object 0).refs, (m.world.object 0).home])) =
      some ([1, 2, 2], [some 3, none], [true, true], [1, 0]) := by decide +kernel
  obtain ⟨m, hrun, hfacts⟩ := Option.bind_eq_some_iff.mp hread
  obtain ⟨m', hmove, hfacts⟩ := Option.map_eq_some_iff.mp hfacts
  simp only [Prod.mk.injEq, List.cons.injEq, and_true] at hfacts
  obtain ⟨⟨hlive, hcount, hroom⟩, ⟨htoken, hnone⟩, ⟨halive, halive'⟩, ⟨hrefs, hhome⟩⟩ := hfacts
  obtain ⟨-, -, hmints, hends⟩ := capacity_of_orderlyRun (d := 0) hrun halive
  obtain ⟨hleft, hcarries⟩ := hends (.call (.destroyToken 0 0)) m' 0 3 hmove
    ⟨halive, by omega, hhome, htoken⟩ halive' (endsToken_iff.mpr (Or.inr ⟨0, rfl⟩))
  refine ⟨m, m', hrun, hmove, ?_, hleft, fun ⟨p, hp⟩ => ((hcarries p 3).mp hp).1 rfl⟩
  have hrefused := hmints 2 (by omega) hnone
  rcases hcreate : m.world.createToken 0 2 with ⟨w', outcome⟩
  rw [hcreate] at hrefused
  cases hrefused with
  | given hlt => omega
  | refused => exact ⟨_, rfl⟩
  | noRoom hlt => omega

end Machine

end BufferObjects
