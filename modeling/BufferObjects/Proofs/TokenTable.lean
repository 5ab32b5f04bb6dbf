import BufferObjects.Proofs.Config
import BufferObjects.Proofs.NumberedTable
import BufferObjects.World.Entities

/-!
Mapping tokens in use, whatever they are made from. Where they are the least free indices the
indices in use are the keys of the table; hashed candidates leave no trace but the table itself.
Either way an issue files one object under a token that had none and that has room in an address,
or files nothing; and a token can be released.
-/

namespace BufferObjects

/-- The tokens that a source can give. -/
def TokenSource.Gives : TokenSource → Token → Prop
  | dense ids, t => t ≤ ids.last.toUInt64
  | hashed bits shift add, t => ∃ k < 2 ^ bits.toNat, t = KeyTable.candidate shift add k

/-- What a source gives has room in an address, and to look for it breaks nothing. -/
def TokenSource.Fits : TokenSource → Prop
  | dense ids => ids.last.toUInt64 ≤ MapAddress.maxToken
  | hashed bits shift add => bits.toNat + shift.toNat < UInt32.size ∧
      ∀ k < 2 ^ bits.toNat, KeyTable.candidate shift add k ≤ MapAddress.maxToken

theorem TokenSource.Fits.le_maxToken {s : TokenSource} {t : Token} (h : s.Fits) (ht : s.Gives t) :
    t ≤ MapAddress.maxToken := by
  cases s with
  | dense ids => exact UInt64.le_trans ht h
  | hashed bits shift add =>
    obtain ⟨k, hk, rfl⟩ := ht
    exact h.2 k hk

/-- The same source, but for how far a bitmap has grown. -/
inductive TokenSource.Alike : TokenSource → TokenSource → Prop
  | dense {ids ids' : IdAllocator} : ids.Alike ids' → Alike (dense ids) (dense ids')
  | hashed (bits shift : UInt32) (add : UInt64) :
    Alike (hashed bits shift add) (hashed bits shift add)

theorem TokenSource.Alike.refl : ∀ s : TokenSource, s.Alike s
  | .dense ids => .dense (.refl ids)
  | .hashed bits shift add => .hashed bits shift add

theorem TokenSource.Alike.trans {s s' s'' : TokenSource} (h : s.Alike s') (h' : s'.Alike s'') :
    s.Alike s'' := by
  cases h with
  | dense h =>
    cases h' with
    | dense h' => exact .dense (h.trans h')
  | hashed => exact h'

namespace TokenTable

/-- The same entries, and the same ids in use where tokens are ids. -/
structure Alike (t t' : TokenTable) : Prop where
  entries_eq : t'.entries = t.entries
  source : t.source.Alike t'.source

/-- A well-formed table of tokens that its source can give; where tokens are ids, the ids in use are
its keys. -/
structure WellFormed (t : TokenTable) : Prop where
  table : t.entries.WellFormed
  numbered : ∀ ids, t.source = .dense ids → Numbered t.entries ids
  fits : t.source.Fits
  given : ∀ token object, t.entries.find? token = some object → t.source.Gives token

theorem WellFormed.of_create {c : Config} {memory : Memory} {t : TokenTable} (hroom : c.HasRoom)
    (h : create c memory = .ok t) : t.WellFormed ∧ ∀ token, t.entries.find? token = none := by
  obtain ⟨entries, hentries, rfl⟩ := of_map_eq_ok h
  obtain ⟨hwf, hnil⟩ := KeyTable.WellFormed.of_create hentries
  have hfree (token : Token) : entries.find? token = none := by
    rw [Option.eq_none_iff_forall_ne_some]
    intro object hobject
    have hmem := hwf.mem_toList_iff.mpr hobject
    simp [hnil] at hmem
  refine ⟨⟨hwf, fun ids hids => ?_, ?_, fun token object hfound => ?_⟩, hfree⟩
  · dsimp only at hids
    split at hids
    · cases hids
    · cases hids
      exact .of_create hentries
  · dsimp only
    split
    · next hhash =>
      refine ⟨?_, fun k hk => hroom.candidate_le hhash hk⟩
      have hbits := Config.trailingZeros_le c.indexCount.toNat
      have hshift := hroom.shift_lt hhash
      rw [← Config.toNat_tokenBits] at hbits
      exact Nat.lt_of_le_of_lt (Nat.add_le_add hbits (Nat.le_of_lt hshift)) (by decide)
    · refine UInt64.le_iff_toNat_le.mpr ?_
      simpa [IdAllocator.create] using hroom.index_le
  · rw [hfree] at hfound
    cases hfound

/-- Ids that are handed out and taken back leave the range as it is. -/
theorem gives_dense {ids ids' : IdAllocator} (h : ids'.last = ids.last) (token : Token) :
    (TokenSource.dense ids').Gives token ↔ (TokenSource.dense ids).Gives token := by
  rw [TokenSource.Gives, TokenSource.Gives, h]

theorem Alike.refl (t : TokenTable) : t.Alike t := ⟨rfl, .refl _⟩

theorem Alike.trans {t t' t'' : TokenTable} (h : t.Alike t') (h' : t'.Alike t'') : t.Alike t'' :=
  ⟨h'.entries_eq.trans h.entries_eq, h.source.trans h'.source⟩

theorem Alike.wellFormed {t t' : TokenTable} (h : t.Alike t') (hwf : t.WellFormed) :
    t'.WellFormed := by
  obtain ⟨entries, source⟩ := t
  obtain ⟨entries', source'⟩ := t'
  obtain ⟨htable, hnumbered, hfits, hgiven⟩ := hwf
  obtain ⟨rfl : entries' = entries, hsource⟩ := h
  cases hsource with
  | hashed => exact ⟨htable, hnumbered, hfits, hgiven⟩
  | @dense ids ids' halike =>
    have hnum := hnumbered ids rfl
    refine ⟨htable, ?_, ?_, fun token object hfind => ?_⟩
    · rintro _ ⟨⟩
      exact hnum.of_alike halike
    · rwa [TokenSource.Fits, halike.last_eq]
    · exact (gives_dense halike.last_eq token).mpr (hgiven token object hfind)

theorem WellFormed.of_issue {t t' : TokenTable} {object : ObjectRef} {seed : UInt64}
    {memory : Memory} {token : Token} (h : t.WellFormed)
    (hissue : t.issue object seed memory = (t', .ok token)) :
    t'.WellFormed ∧ t.entries.find? token = none ∧
      ∀ j, t'.entries.find? j = if j = token then some object else t.entries.find? j := by
  have hfits := h.fits
  have hgiven := h.given
  unfold issue at hissue
  split at hissue
  · next ids hsource =>
    rw [hsource] at hfits hgiven
    split at hissue
    · simp at hissue
    · next id ids' halloc =>
      split at hissue
      case h_2 => split at hissue <;> simp at hissue
      next entries' hins =>
      have hnum := (h.numbered ids hsource).of_insert halloc hins
      have hadds := (h.numbered ids hsource).allocator.adds_of_alloc halloc
      -- an id just handed out is no key yet, and is in the range
      obtain ⟨hwf, -, hnone⟩ := h.table.of_insert hins
      have hfind := h.table.find?_of_insert hins
      have hlast : id ≤ ids.last := by
        rw [← hadds.last_eq]
        exact (IdAllocator.range_of_isAllocated (by simp [hadds.isAllocated_eq])).2
      cases hissue
      refine ⟨⟨hwf, ?_, ?_, fun j o hj => (gives_dense hadds.last_eq j).mpr ?_⟩, hnone, hfind⟩
      · rintro ids'' ⟨⟩
        exact hnum
      · rwa [TokenSource.Fits, hadds.last_eq]
      · rw [hfind] at hj
        split at hj
        · next heq =>
          rw [heq]
          exact UInt64.le_iff_toNat_le.mpr (by simpa using UInt32.le_iff_toNat_le.mp hlast)
        · exact hgiven j o hj
  · next bits shift add hsource =>
    split at hissue
    · next key entries' hany =>
      -- whatever candidate was hit upon, inserting under it would have refused a key in use
      have hspec := t.entries.insertAny_spec object seed bits shift add memory.entry
      rw [hany] at hspec
      cases hspec with
      | @filed k _ hk hins =>
      obtain ⟨hwf, -, hnone⟩ := h.table.of_insert hins
      have hfind := h.table.find?_of_insert hins
      cases hissue
      refine ⟨⟨hwf, ?_, hfits, fun j o hj => ?_⟩, hnone, hfind⟩
      · intro ids hids
        cases hsource.symm.trans hids
      · rw [hfind] at hj
        split at hj
        · next heq =>
          rw [heq]
          change t.source.Gives _
          rw [hsource]
          exact ⟨k, hk, rfl⟩
        · exact hgiven j o hj
    · simp at hissue
    · simp at hissue

/-- A refusal leaves the tokens as they were, and nothing breaks. -/
theorem WellFormed.of_issue_failed {t t' : TokenTable} {object : ObjectRef} {seed : UInt64}
    {memory : Memory} {failed : Outcome RequestError Token} (h : t.WellFormed)
    (hissue : t.issue object seed memory = (t', failed)) (hfailed : ∀ token, failed ≠ .ok token) :
    t.Alike t' ∧ ∀ f, failed ≠ .fault f := by
  unfold issue at hissue
  split at hissue
  · next ids hsource =>
    split at hissue
    · cases hissue
      exact ⟨.refl t, nofun⟩
    · next id ids' halloc =>
      split at hissue
      · cases hissue
        exact absurd rfl (hfailed _)
      · obtain ⟨-, ids'', hfree, halike⟩ :=
          (h.numbered ids hsource).exists_giveBack halloc object
        rw [hfree] at hissue
        cases hissue
        exact ⟨⟨rfl, hsource ▸ .dense halike⟩, nofun⟩
  · next bits shift add hsource =>
    split at hissue
    · cases hissue
      exact absurd rfl (hfailed _)
    · cases hissue
      exact ⟨.refl t, nofun⟩
    · next f hfault =>
      have hfits := h.fits
      rw [hsource] at hfits
      have hspec := t.entries.insertAny_spec object seed bits shift add memory.entry
      rw [hfault] at hspec
      cases hspec with
      | overflow hsum => exact absurd hsum (Nat.not_le.mpr hfits.1)

/-- How an issue answers that gives ids for tokens. -/
def ofIssue : Except IssueError UInt32 → Outcome RequestError Token
  | .ok id => .ok id.toUInt64
  | .error (.noId e) => .error (.ofTokenId e)
  | .error (.notFiled _ e) => .error (.ofTable e)
  | .error (.notReturned _ f) => .fault f

/-- Where tokens are ids they are issued as ids are. -/
theorem issue_of_dense {t : TokenTable} {ids : IdAllocator} (hsource : t.source = .dense ids)
    (object : ObjectRef) (seed : UInt64) (memory : Memory) :
    (t.issue object seed memory).2 =
      ofIssue ((NumberedTable.mk t.entries ids).issue object memory).2 := by
  simp only [issue, hsource, NumberedTable.issue]
  rcases ids.alloc memory.ids with e | ⟨id, ids'⟩ <;> dsimp only
  · rfl
  · rcases t.entries.insert id.toUInt64 object memory.entry with e | entries <;> dsimp only
    · rcases ids'.free id with f | ids'' <;> rfl
    · rfl

/-- Alike tables issue the same token next, or both none; only for want of memory may the first
refuse what the second issues. -/
theorem WellFormed.issue_of_alike {t t' : TokenTable} (h : t.WellFormed) (halike : t.Alike t')
    (object : ObjectRef) (seed : UInt64) (memory : Memory) :
    (t'.issue object seed memory).2 = (t.issue object seed memory).2 ∨
      memory.ids = false ∧ (t.issue object seed memory).2 = .error .outOfMemory := by
  obtain ⟨entries, source⟩ := t
  obtain ⟨entries', source'⟩ := t'
  obtain ⟨rfl : entries' = entries, hsource⟩ := halike
  cases hsource with
  | hashed => exact Or.inl rfl
  | @dense ids ids' halike =>
    have hids : NumberedTable.Alike ⟨entries', ids⟩ ⟨entries', ids'⟩ := ⟨rfl, halike⟩
    rw [issue_of_dense rfl, issue_of_dense rfl]
    refine (NumberedTable.issue_of_alike (h.numbered ids rfl) hids object memory).imp
      (fun heq => by rw [heq]) fun ⟨hroom, hnone⟩ => ⟨hroom, by rw [hnone]; rfl⟩

theorem WellFormed.exists_release {t : TokenTable} {object : ObjectRef} {token : Token}
    (h : t.WellFormed) (hfind : t.entries.find? token = some object) :
    ∃ t' entries', t.freeId token = .ok t' ∧ t'.entries.remove token = .ok (object, entries') ∧
      WellFormed { t' with entries := entries' } ∧
      ∀ j, entries'.find? j = if j = token then none else t.entries.find? j := by
  have hfits := h.fits
  -- what is left was there before
  have hgiven {entries' : KeyTable ObjectRef}
      (hrem : t.entries.remove token = .ok (object, entries')) (j : Token) (o : ObjectRef)
      (hj : entries'.find? j = some o) : t.source.Gives j := by
    rw [h.table.find?_of_remove hrem] at hj
    split at hj
    · cases hj
    · exact h.given j o hj
  cases hsource : t.source with
  | dense ids =>
    rw [hsource] at hfits hgiven
    obtain ⟨id, entries', ids', hid, hrem, hfree, hremoves, hnum⟩ :=
      (h.numbered ids hsource).exists_remove hfind
    have hback : token.toUInt32 = id := by rw [← hid, UInt32.toUInt32_toUInt64]
    refine ⟨{ t with source := .dense ids' }, entries', ?_, hrem, ⟨hnum.table, ?_, ?_,
      fun j o hj => (gives_dense hremoves.last_eq j).mpr (hgiven hrem j o hj)⟩,
      h.table.find?_of_remove hrem⟩
    · simp [freeId, hsource, hback, hfree, Except.map]
    · rintro ids'' ⟨⟩
      exact hnum
    · rwa [TokenSource.Fits, hremoves.last_eq]
  | hashed bits shift add =>
    obtain ⟨entries', hrem⟩ := KeyTable.exists_remove hfind
    obtain ⟨hwf, -, -⟩ := h.table.of_remove hrem
    refine ⟨t, entries', ?_, hrem, ⟨hwf, ?_, hfits, hgiven hrem⟩, h.table.find?_of_remove hrem⟩
    · simp [freeId, hsource]
    · intro ids hids
      cases hsource.symm.trans hids

end TokenTable

end BufferObjects
