import BufferObjects.NumberedTable
import BufferObjects.Proofs.IdAllocator
import BufferObjects.Proofs.KeyTable

/-!
Tables whose keys are ids. What holds a key table and an allocator together is that the keys are
exactly the ids in use; it is kept by filing an item under an id just handed out and by taking an
item out and its id back. From it follows that neither ever goes wrong: an id handed out is no key
yet, and the id of a key can be taken back. What can go wrong is that there is no id left or no
memory, and then the table is as good as before.
-/

open scoped List

namespace BufferObjects

variable {α : Type}

/-- The keys of a table are the ids in use. -/
structure Numbered (entries : KeyTable α) (ids : IdAllocator) : Prop where
  table : entries.WellFormed
  allocator : ids.WellFormed
  isSome_find?_iff : ∀ key, (entries.find? key).isSome = true ↔
    ∃ id : UInt32, id.toUInt64 = key ∧ ids.isAllocated id = true

namespace Numbered

variable {entries entries' : KeyTable α} {ids ids' : IdAllocator}

theorem isSome_find?_toUInt64 (h : Numbered entries ids) (id : UInt32) :
    (entries.find? id.toUInt64).isSome = ids.isAllocated id := by
  rw [Bool.eq_iff_iff, h.isSome_find?_iff]
  constructor
  · rintro ⟨id', heq, hused⟩
    have : id' = id := UInt32.toUInt64_inj.mp heq
    exact this ▸ hused
  · intro hused
    exact ⟨id, rfl, hused⟩

theorem of_create {order first last : UInt32} {room : Bool}
    (h : KeyTable.create order room = .ok entries) : Numbered entries (.create first last) := by
  obtain ⟨hwf, hnil⟩ := KeyTable.WellFormed.of_create h
  refine ⟨hwf, .create .., fun key => ?_⟩
  have hnone : entries.find? key = none := by
    rw [Option.eq_none_iff_forall_ne_some]
    intro item hitem
    have hmem := hwf.mem_toList_iff.mpr hitem
    simp [hnil] at hmem
  simp [hnone]

/-- An id just handed out is no key. -/
theorem find?_of_alloc (h : Numbered entries ids) {id : UInt32} {room : Bool}
    (halloc : ids.alloc room = .ok (id, ids')) : entries.find? id.toUInt64 = none := by
  have hfree := h.isSome_find?_toUInt64 id
  rw [(h.allocator.adds_of_alloc halloc).wasFree] at hfree
  simpa using hfree

theorem of_insert (h : Numbered entries ids) {id : UInt32} {item : α} {room room' : Bool}
    (halloc : ids.alloc room = .ok (id, ids'))
    (hins : entries.insert id.toUInt64 item room' = .ok entries') : Numbered entries' ids' := by
  have hadds := h.allocator.adds_of_alloc halloc
  obtain ⟨hwf, -, -⟩ := h.table.of_insert hins
  refine ⟨hwf, hadds.wellFormed, fun key => ?_⟩
  rw [h.table.find?_of_insert hins]
  split
  · next hkey =>
    simp only [Option.isSome_some, true_iff]
    exact ⟨id, hkey.symm, by simp [hadds.isAllocated_eq]⟩
  · next hkey =>
    rw [h.isSome_find?_iff]
    constructor
    · rintro ⟨j, hj, hused⟩
      exact ⟨j, hj, by simp [hadds.isAllocated_eq, hused]⟩
    · rintro ⟨j, hj, hused⟩
      have hne : j ≠ id := fun heq => hkey (heq ▸ hj.symm)
      rw [hadds.isAllocated_eq, decide_eq_false hne, Bool.or_false] at hused
      exact ⟨j, hj, hused⟩

/-- So an item can be filed under it, if memory has room for the entry. -/
theorem exists_insert (h : Numbered entries ids) {id : UInt32} {room : Bool}
    (halloc : ids.alloc room = .ok (id, ids')) (item : α) :
    ∃ entries', entries.insert id.toUInt64 item true = .ok entries' ∧ Numbered entries' ids' := by
  obtain ⟨entries', hins⟩ := KeyTable.exists_insert item (h.find?_of_alloc halloc)
  exact ⟨entries', hins, h.of_insert halloc hins⟩

/-- If there is no room for the entry, the id can be given back, and the ids in use are those that
were. -/
theorem exists_giveBack (h : Numbered entries ids) {id : UInt32} {room : Bool}
    (halloc : ids.alloc room = .ok (id, ids')) (item : α) :
    entries.insert id.toUInt64 item false = .error .outOfMemory ∧
      ∃ ids'', ids'.free id = .ok ids'' ∧ ids.Alike ids'' := by
  have hadds := h.allocator.adds_of_alloc halloc
  have hused : ids'.isAllocated id = true := by simp [hadds.isAllocated_eq]
  obtain ⟨ids'', hfree, hremoves⟩ := hadds.wellFormed.exists_free hused
  exact ⟨KeyTable.insert_of_noRoom item (h.find?_of_alloc halloc), ids'', hfree,
    hadds.alike_of_removes hremoves⟩

/-- Only the ids in use matter. -/
theorem of_alike (h : Numbered entries ids) (halike : ids.Alike ids') : Numbered entries ids' where
  table := h.table
  allocator := halike.wellFormed h.allocator
  isSome_find?_iff key := by simp only [h.isSome_find?_iff, halike.isAllocated_eq]

theorem exists_remove (h : Numbered entries ids) {key : UInt64} {item : α}
    (hfind : entries.find? key = some item) :
    ∃ id entries' ids', id.toUInt64 = key ∧ entries.remove key = .ok (item, entries') ∧
      ids.free id = .ok ids' ∧ ids.Removes id ids' ∧ Numbered entries' ids' := by
  obtain ⟨id, hid, hused⟩ := (h.isSome_find?_iff key).mp (by simp [hfind])
  obtain ⟨entries', hrem⟩ := KeyTable.exists_remove hfind
  obtain ⟨ids', hfree, hremoves⟩ := h.allocator.exists_free hused
  obtain ⟨hwf, -, -⟩ := h.table.of_remove hrem
  refine ⟨id, entries', ids', hid, hrem, hfree, hremoves, hwf, hremoves.wellFormed, fun j => ?_⟩
  rw [h.table.find?_of_remove hrem]
  split
  · next hj =>
    simp only [Option.isSome_none, Bool.false_eq_true, false_iff, not_exists, not_and]
    rintro j' hj' hused'
    have : j' = id := UInt32.toUInt64_inj.mp (hj'.trans (hj.trans hid.symm))
    subst this
    simp [hremoves.isAllocated_eq] at hused'
  · next hj =>
    rw [h.isSome_find?_iff]
    constructor
    · rintro ⟨j', hj', hused'⟩
      have hne : j' ≠ id := fun heq => hj (hj'.symm.trans (heq ▸ hid))
      exact ⟨j', hj', by simp [hremoves.isAllocated_eq, hused', hne]⟩
    · rintro ⟨j', hj', hused'⟩
      rw [hremoves.isAllocated_eq, Bool.and_eq_true] at hused'
      exact ⟨j', hj', hused'.1⟩

end Numbered

theorem IssueError.outcome_ne_ok {β : Type} (e : IssueError) (b : β) : e.outcome ≠ .ok b := by
  cases e <;> nofun

namespace NumberedTable

/-- The keys are the ids in use, and these start at `first`. -/
structure WellFormed (t : NumberedTable α) (first : UInt32) : Prop where
  numbered : Numbered t.entries t.ids
  first_eq : t.ids.first = first
  last_eq : t.ids.last = unboundedMaxId

/-- The items, in listing order. -/
def items (t : NumberedTable α) : List α := t.entries.toList.map Prod.snd

theorem WellFormed.of_create {order first : UInt32} {memory : Memory} {t : NumberedTable α}
    (h : create order first memory = .ok t) : t.WellFormed first ∧ t.items = [] := by
  obtain ⟨entries, hentries, rfl⟩ := of_map_eq_ok h
  refine ⟨⟨.of_create hentries, rfl, rfl⟩, ?_⟩
  simp [items, (KeyTable.WellFormed.of_create hentries).2]

theorem WellFormed.mem_items_iff {t : NumberedTable α} {first : UInt32} (h : t.WellFormed first)
    {item : α} : item ∈ t.items ↔ ∃ id, t.find? id = some item := by
  simp only [items, List.mem_map, Prod.exists, exists_eq_right, h.numbered.table.mem_toList_iff]
  constructor
  · rintro ⟨key, hkey⟩
    obtain ⟨id, rfl, -⟩ := (h.numbered.isSome_find?_iff key).mp (by simp [hkey])
    exact ⟨id, hkey⟩
  · rintro ⟨id, hid⟩
    exact ⟨_, hid⟩

/-! ### The same items under the same ids -/

/-- The same entries, and the same ids in use. -/
structure Alike (t t' : NumberedTable α) : Prop where
  entries_eq : t'.entries = t.entries
  ids : t.ids.Alike t'.ids

namespace Alike

variable {t t' t'' : NumberedTable α} {first : UInt32}

theorem refl (t : NumberedTable α) : t.Alike t := ⟨rfl, .refl _⟩

theorem trans (h : t.Alike t') (h' : t'.Alike t'') : t.Alike t'' :=
  ⟨h'.entries_eq.trans h.entries_eq, h.ids.trans h'.ids⟩

theorem find?_eq (h : t.Alike t') (id : UInt32) : t'.find? id = t.find? id := by
  rw [find?, find?, h.entries_eq]

theorem items_eq (h : t.Alike t') : t'.items = t.items := by rw [items, items, h.entries_eq]

theorem wellFormed (h : t.Alike t') (hwf : t.WellFormed first) : t'.WellFormed first where
  numbered := h.entries_eq ▸ hwf.numbered.of_alike h.ids
  first_eq := h.ids.first_eq.trans hwf.first_eq
  last_eq := h.ids.last_eq.trans hwf.last_eq

end Alike

/-! ### Issuing -/

/-- One item more, under an id that was free. -/
structure Issues (t : NumberedTable α) (item : α) (id : UInt32) (t' : NumberedTable α) : Prop where
  entries : t.entries.insert id.toUInt64 item true = .ok t'.entries
  ids : t.ids.Adds id t'.ids
  items_perm : t'.items ~ item :: t.items
  wasFree : t.find? id = none
  find?_eq : ∀ j, t'.find? j = if j = id then some item else t.find? j

/-- What it comes to that an item is to have an id. If it gets none, either all are in use or memory
has refused something, and the items are under the ids they had. -/
inductive Issuing (t : NumberedTable α) (first : UInt32) (item : α) (memory : Memory) :
    NumberedTable α × Except IssueError UInt32 → Prop
  | filed {t' : NumberedTable α} {id : UInt32} (wellFormed : t'.WellFormed first)
      (issues : t.Issues item id t') (first_le : first ≤ id) (le_max : id ≤ unboundedMaxId)
      (below : ∀ j, first ≤ j → j < id → t.find? j ≠ none) :
      Issuing t first item memory (t', .ok id)
  | full (all : ∀ j, first ≤ j → j ≤ unboundedMaxId → t.find? j ≠ none) :
      Issuing t first item memory (t, .error (.noId .outOfSpace))
  | noIds (refused : memory.ids = false) :
      Issuing t first item memory (t, .error (.noId .outOfMemory))
  | noEntry {t' : NumberedTable α} {id : UInt32} (refused : memory.entry = false)
      (alike : t.Alike t') : Issuing t first item memory (t', .error (.notFiled id .outOfMemory))

theorem WellFormed.issuing {t : NumberedTable α} {first : UInt32} (h : t.WellFormed first)
    (item : α) (memory : Memory) : Issuing t first item memory (t.issue item memory) := by
  have hused (j : UInt32) : t.find? j ≠ none ↔ t.ids.isAllocated j = true := by
    rw [← Option.isSome_iff_ne_none, find?, h.numbered.isSome_find?_toUInt64]
  unfold issue
  rcases halloc : t.ids.alloc memory.ids with e | ⟨id, ids'⟩ <;> dsimp only
  · obtain ⟨rfl, hall⟩ | ⟨rfl, hroom, -⟩ := h.numbered.allocator.of_alloc_error halloc
    · refine .full fun j hfirst hlast => (hused j).mpr ?_
      exact hall j (by rwa [h.first_eq]) (by rwa [h.last_eq])
    · exact .noIds hroom
  have hadds := h.numbered.allocator.adds_of_alloc halloc
  cases hentry : memory.entry with
  | true =>
    obtain ⟨entries', hins, hnum⟩ := h.numbered.exists_insert halloc item
    obtain ⟨-, hperm, hnone⟩ := h.numbered.table.of_insert hins
    have hrange := hadds.range
    rw [h.first_eq, h.last_eq] at hrange
    rw [hins]
    refine .filed ⟨hnum, hadds.first_eq.trans h.first_eq, hadds.last_eq.trans h.last_eq⟩
      ⟨hins, hadds, hperm.map _, hnone, fun j => ?_⟩ hrange.1 hrange.2 fun j hfirst hlt => ?_
    · simp only [find?, h.numbered.table.find?_of_insert hins, UInt32.toUInt64_inj]
    · exact (hused j).mpr (hadds.least j (by rwa [h.first_eq]) hlt)
  | false =>
    obtain ⟨hins, ids'', hfree, halike⟩ := h.numbered.exists_giveBack halloc item
    rw [hins]
    dsimp only
    rw [hfree]
    exact .noEntry hentry ⟨rfl, halike⟩

theorem WellFormed.of_issue {t t' : NumberedTable α} {first id : UInt32} {item : α}
    {memory : Memory} (h : t.WellFormed first) (hissue : t.issue item memory = (t', .ok id)) :
    t'.WellFormed first ∧ t.Issues item id t' := by
  have hissuing := h.issuing item memory
  rw [hissue] at hissuing
  cases hissuing with
  | filed wellFormed issues => exact ⟨wellFormed, issues⟩

/-- Without an id the items are where they were. -/
theorem WellFormed.of_issue_error {t t' : NumberedTable α} {first : UInt32} {item : α}
    {memory : Memory} {e : IssueError} (h : t.WellFormed first)
    (hissue : t.issue item memory = (t', .error e)) : t.Alike t' := by
  have hissuing := h.issuing item memory
  rw [hissue] at hissuing
  cases hissuing with
  | full | noIds => exact .refl t
  | noEntry _ alike => exact alike

/-- Nothing breaks when an id cannot be had. -/
theorem WellFormed.outcome_of_issue_error {β : Type} {t t' : NumberedTable α} {first : UInt32}
    {item : α} {memory : Memory} {e : IssueError} (h : t.WellFormed first)
    (hissue : t.issue item memory = (t', .error e)) :
    ∃ cause, e.outcome (β := β) = .error cause ∧ (cause = .outOfSpace ∨ cause = .outOfMemory) ∧
      ∀ taken, t.issueReport taken e = [] := by
  have hissuing := h.issuing item memory
  rw [hissue] at hissuing
  cases hissuing with
  | full => exact ⟨_, rfl, Or.inl rfl, fun _ => rfl⟩
  | noIds => exact ⟨_, rfl, Or.inr rfl, fun _ => rfl⟩
  | noEntry => exact ⟨_, rfl, Or.inr rfl, fun _ => rfl⟩

/-! ### Withdrawing -/

/-- One item less, the one that was under an id. -/
structure Withdraws (t : NumberedTable α) (item : α) (id : UInt32) (t' : NumberedTable α) :
    Prop where
  items_perm : t.items ~ item :: t'.items
  find?_eq : ∀ j, t'.find? j = if j = id then none else t.find? j

/-- An item that is there can be withdrawn, its entry and its id alike. -/
theorem WellFormed.exists_parts {t : NumberedTable α} {first id : UInt32} {item : α}
    (h : t.WellFormed first) (hfind : t.find? id = some item) :
    ∃ entries' ids', t.entries.remove id.toUInt64 = .ok (item, entries') ∧
      t.ids.free id = .ok ids' ∧ WellFormed ⟨entries', ids'⟩ first ∧
      t.Withdraws item id ⟨entries', ids'⟩ := by
  obtain ⟨id', entries', ids', hid, hrem, hfree, hremoves, hnum⟩ := h.numbered.exists_remove hfind
  obtain rfl := UInt32.toUInt64_inj.mp hid
  obtain ⟨-, hperm, -⟩ := h.numbered.table.of_remove hrem
  refine ⟨entries', ids', hrem, hfree,
    ⟨hnum, hremoves.first_eq.trans h.first_eq, hremoves.last_eq.trans h.last_eq⟩,
    ⟨hperm.map _, fun j => ?_⟩⟩
  simp only [find?, h.numbered.table.find?_of_remove hrem, UInt32.toUInt64_inj]

/-- Withdrawing answers with what is found, and never breaks. -/
theorem WellFormed.of_withdraw {t t' : NumberedTable α} {first id : UInt32} {item : α}
    {freed : Except Fault Unit} (h : t.WellFormed first)
    (hwith : t.withdraw id = .ok (item, t', freed)) :
    freed = .ok () ∧ t.find? id = some item ∧ t'.WellFormed first ∧ t.Withdraws item id t' := by
  unfold withdraw at hwith
  split at hwith
  · simp at hwith
  · next item' entries hrem =>
    obtain ⟨entries', ids', hrem', hfree, hwf, hw⟩ :=
      h.exists_parts (KeyTable.find?_of_remove_ok hrem)
    obtain rfl : entries = entries' := by simpa using hrem.symm.trans hrem'
    rw [hfree] at hwith
    cases hwith
    exact ⟨rfl, KeyTable.find?_of_remove_ok hrem, hwf, hw⟩

theorem find?_of_withdraw_error {t : NumberedTable α} {id : UInt32} {e : TableError}
    (h : t.withdraw id = .error e) : t.find? id = none := by
  unfold withdraw at h
  split at h
  · next hrem => exact KeyTable.find?_of_remove_error hrem
  · split at h <;> simp at h

/-! ### Issuing and withdrawing again -/

/-- Withdrawing what was just issued leaves no trace. -/
theorem WellFormed.withdraw_of_issue {t t' : NumberedTable α} {first id : UInt32} {item : α}
    {memory : Memory} (h : t.WellFormed first) (hissue : t.issue item memory = (t', .ok id)) :
    ∃ t'', t'.withdraw id = .ok (item, t'', .ok ()) ∧ t.Alike t'' := by
  obtain ⟨-, hissues⟩ := h.of_issue hissue
  have hused : t'.ids.isAllocated id = true := by simp [hissues.ids.isAllocated_eq]
  obtain ⟨ids'', hfree, hremoves⟩ := hissues.ids.wellFormed.exists_free hused
  refine ⟨⟨t.entries, ids''⟩, ?_, rfl, hissues.ids.alike_of_removes hremoves⟩
  rw [withdraw, h.numbered.table.remove_of_insert hissues.entries]
  dsimp only
  rw [hfree]

/-- Alike tables issue the same id next, or both none; only for want of memory may the first refuse
what the second issues. -/
theorem issue_of_alike {t t' : NumberedTable α} (hnum : Numbered t.entries t.ids)
    (halike : t.Alike t') (item : α) (memory : Memory) :
    (t'.issue item memory).2 = (t.issue item memory).2 ∨
      memory.ids = false ∧ (t.issue item memory).2 = .error (.noId .outOfMemory) := by
  have hnum' := hnum.of_alike halike.ids
  obtain hsame | ⟨hroom, halloc⟩ := hnum.allocator.alloc_of_alike halike.ids memory.ids
  · left
    unfold issue
    rcases halloc : t.ids.alloc memory.ids with e | ⟨id, ids⟩ <;>
      rcases halloc' : t'.ids.alloc memory.ids with e' | ⟨id', ids'⟩ <;>
      rw [halloc, halloc'] at hsame <;> dsimp only
    · cases hsame
      rfl
    · cases hsame
    · cases hsame
    · obtain rfl : id' = id := Except.ok.inj hsame
      cases memory.entry with
      | true =>
        obtain ⟨entries, hins, -⟩ := hnum.exists_insert halloc item
        rw [halike.entries_eq, hins]
      | false =>
        obtain ⟨hins, back, hfree, -⟩ := hnum.exists_giveBack halloc item
        obtain ⟨-, back', hfree', -⟩ := hnum'.exists_giveBack halloc' item
        rw [halike.entries_eq, hins]
        dsimp only
        rw [hfree, hfree']
  · refine Or.inr ⟨hroom, ?_⟩
    rw [issue, halloc]

end NumberedTable

end BufferObjects
