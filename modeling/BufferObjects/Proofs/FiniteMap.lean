import BufferObjects.Proofs.KeyTable
import Mathlib.Data.Set.Card

/-!
Key tables against finite maps. A table stands for the map of what is found in it, and each of its
operations does to that map what its name says. A miss is right although the search gives up at the
first larger key, because chains ascend and every key is in the bucket of its hash through any
sequence of operations; that is what `WellFormed` keeps. So every answer of a sequence of calls can
be told from the map and from what memory answers.
-/

namespace BufferObjects

/-! ### Rewriting an item -/

namespace Chain

variable {α : Type} {c c' : Chain α} {key : UInt64} {item : α} {f : α → α}

theorem map_fst_update? (c : Chain α) (key : UInt64) (f : α → α) :
    (c.update? key f).map Prod.fst = (c.find? key).map f := by
  induction c with
  | nil => rfl
  | cons x rest ih =>
    obtain ⟨k, a⟩ := x
    simp only [update?, find?]
    split
    · rfl
    · split
      · rfl
      · rw [← ih, Option.map_map]
        rfl

theorem keys_of_update? (h : c.update? key f = some (item, c')) :
    c'.map Prod.fst = c.map Prod.fst := by
  induction c generalizing c' with
  | nil => cases h
  | cons x rest ih =>
    obtain ⟨k, a⟩ := x
    simp only [update?] at h
    split at h
    · cases h
      rfl
    · split at h
      · cases h
      · obtain ⟨⟨b, others⟩, hrest, heq⟩ := Option.map_eq_some_iff.mp h
        cases heq
        rw [List.map_cons, List.map_cons, ih hrest]

theorem find?_of_update? (h : c.update? key f = some (item, c')) (j : UInt64) :
    c'.find? j = if j = key then some item else c.find? j := by
  induction c generalizing c' with
  | nil => cases h
  | cons x rest ih =>
    obtain ⟨k, a⟩ := x
    simp only [update?] at h
    split at h
    · next hk =>
      cases h
      subst hk
      by_cases hj : j = k
      · simp [find?, hj]
      · simp [find?, hj, Ne.symm hj]
    · next hk =>
      split at h
      · cases h
      · next hle =>
        obtain ⟨⟨b, others⟩, hrest, heq⟩ := Option.map_eq_some_iff.mp h
        cases heq
        rw [find?, find?, ih hrest]
        by_cases hj : j = key
        · -- a search for the key itself passes the head, as the rewriting did
          rw [hj, if_neg hk, if_neg hle, if_pos rfl, if_pos rfl]
        · rw [if_neg hj, if_neg hj]

theorem Ascending.of_keys (h : c.Ascending) (hkeys : c'.map Prod.fst = c.map Prod.fst) :
    c'.Ascending := by
  unfold Ascending at h ⊢
  rw [← List.pairwise_map (f := Prod.fst) (R := (· < ·))] at h ⊢
  rwa [hkeys]

end Chain

namespace KeyTable

variable {α : Type} {t t' : KeyTable α} {key : UInt64} {item : α}

theorem chainOf_replace_of_ne {j : UInt64} (hj : t.bucketOf j ≠ t.bucketOf key) (chain : Chain α)
    (size : Nat) :
    chainOf { t with buckets := t.buckets.setIfInBounds (t.bucketOf key) chain, size } j =
      t.chainOf j := by
  change (t.buckets.setIfInBounds (t.bucketOf key) chain).getD (t.bucketOf j) [] =
    t.buckets.getD (t.bucketOf j) []
  simp [Array.getD_eq_getD_getElem?, Array.getElem?_setIfInBounds_ne (Ne.symm hj)]

theorem exists_update {a : α} (f : α → α) (h : t.find? key = some a) :
    ∃ t', t.update key f = .ok (f a, t') := by
  have hfound := Chain.map_fst_update? (t.chainOf key) key f
  rw [← find?, h, Option.map_some] at hfound
  obtain ⟨⟨b, chain⟩, hchain, rfl⟩ := Option.map_eq_some_iff.mp hfound
  exact ⟨_, by rw [update, hchain]⟩

theorem update_of_find?_eq_none (f : α → α) (h : t.find? key = none) :
    t.update key f = .error .notFound := by
  have hfound := Chain.map_fst_update? (t.chainOf key) key f
  rw [← find?, h, Option.map_none, Option.map_eq_none_iff] at hfound
  rw [update, hfound]

/-- Rewriting the item of a key changes what is found under that key and nothing else. -/
theorem WellFormed.of_update (h : t.WellFormed) {f : α → α}
    (hupdate : t.update key f = .ok (item, t')) :
    t'.WellFormed ∧ ∀ j, t'.find? j = if j = key then some item else t.find? j := by
  unfold update at hupdate
  split at hupdate
  · cases hupdate
  · next b chain hchain =>
    cases hupdate
    have hkeys := Chain.keys_of_update? hchain
    have hplaced (e : UInt64 × α) (he : e ∈ chain) : t.bucketOf e.1 = t.bucketOf key := by
      have hmem : e.1 ∈ (t.chainOf key).map Prod.fst := hkeys ▸ List.mem_map_of_mem he
      obtain ⟨e', he', heq⟩ := List.mem_map.mp hmem
      rw [← heq]
      exact h.placed_chainOf he'
    have hlen : chain.length = (t.chainOf key).length := by
      simpa using congrArg List.length hkeys
    have hsize : t.size + (t.chainOf key).length = t.size + chain.length := by rw [hlen]
    obtain ⟨hwf, -⟩ := h.replace ((h.ascending_chainOf key).of_keys hkeys) hplaced hsize
    refine ⟨hwf, fun j => ?_⟩
    have hfind := Chain.find?_of_update? hchain j
    by_cases hj : t.bucketOf j = t.bucketOf key
    · have hchains : t.chainOf j = t.chainOf key := by rw [chainOf, chainOf, hj]
      have hreplaced := chainOf_replace (h.bucketOf_lt key) chain t.size
      rw [find?, find?, hchains, ← hfind]
      change ((t.buckets.setIfInBounds (t.bucketOf key) chain).getD (t.bucketOf j) []).find? j = _
      rw [hj]
      exact congrArg (Chain.find? j) hreplaced
    · rw [if_neg fun heq => hj (by rw [heq])]
      exact congrArg (Chain.find? j) (chainOf_replace_of_ne hj chain t.size)

/-! ### Refusals -/

theorem WellFormed.insert_of_find?_eq_some (h : t.WellFormed) {a : α} (item : α)
    (hfind : t.find? key = some a) (room : Bool) :
    t.insert key item room = .error .duplicateKey := by
  cases hins : t.insert key item room with
  | ok t' => exact absurd ((h.of_insert hins).2.2.symm.trans hfind) nofun
  | error e =>
    unfold insert at hins
    split at hins
    · cases hins
      rfl
    · next chain hchain =>
      -- a chain takes up only a key that it does not have
      have hnone := ((h.ascending_chainOf key).of_insert? hchain).2.2
      exact absurd (hnone.symm.trans hfind) nofun

theorem remove_of_find?_eq_none (h : t.find? key = none) : t.remove key = .error .notFound := by
  cases hrem : t.remove key with
  | ok removed => exact absurd (h.symm.trans (find?_of_remove_ok hrem)) nofun
  | error e =>
    unfold remove at hrem
    split at hrem <;> cases hrem
    rfl

/-! ### Listing and emptying -/

/-- No key is listed twice: not in one chain, which ascends, and not in two, which hold the keys of
different hashes. -/
theorem WellFormed.nodup_keys (h : t.WellFormed) : (t.toList.map Prod.fst).Nodup := by
  rw [List.Nodup, List.pairwise_map, toList, List.pairwise_flatten]
  constructor
  · intro chain hchain
    exact (h.ascending chain (Array.mem_toList_iff.mp hchain)).imp UInt64.ne_of_lt
  · rw [List.pairwise_iff_getElem]
    intro i j hi hj hij x hx y hy heq
    have hix := h.placed i hi x hx
    have hjy := h.placed j hj y hy
    rw [heq] at hix
    exact Nat.ne_of_lt hij (hix.symm.trans hjy)

theorem WellFormed.of_drain (h : t.WellFormed) :
    t.drain.2.WellFormed ∧ ∀ key, t.drain.2.find? key = none := by
  have hempty (chain : Chain α) (hchain : chain ∈ t.drain.2.buckets) : chain = [] := by
    obtain ⟨c, -, rfl⟩ := Array.mem_map.mp hchain
    rfl
  have hsize : t.drain.2.buckets.size = t.buckets.size := Array.size_map
  have hwf : t.drain.2.WellFormed := by
    refine ⟨h.order_le, hsize.trans h.size_buckets, fun chain hchain => ?_, fun i hi e he => ?_, ?_⟩
    · rw [hempty chain hchain]
      exact List.Pairwise.nil
    · rw [hempty _ (Array.getElem_mem hi)] at he
      cases he
    · have hnil : t.drain.2.toList = [] := by
        rw [toList, List.flatten_eq_nil_iff]
        exact fun chain hchain => hempty chain (Array.mem_toList_iff.mp hchain)
      rw [hnil]
      rfl
  refine ⟨hwf, fun key => ?_⟩
  rw [find?, chainOf_eq (hwf.bucketOf_lt key), hempty _ (Array.getElem_mem _)]
  rfl

/-! ### Calls and the map they are about -/

/-- A call on a table; one that may need memory comes with what memory answers. -/
inductive Call (α : Type)
  | insert (key : UInt64) (item : α) (room : Bool)
  | insertAny (item : α) (seed : UInt64) (bits shift : UInt32) (add : UInt64) (room : Bool)
  | find (key : UInt64)
  /-- Finds an item and writes to it. -/
  | write (key : UInt64) (f : α → α)
  | contains (key : UInt64)
  | remove (key : UInt64)
  | size
  | list
  | drain

inductive Reply (α : Type)
  | done
  | key (key : UInt64)
  | item (item : α)
  | truth (b : Bool)
  | count (n : Nat)
  | entries (es : List (UInt64 × α))
  | error (cause : TableError)
  | fault (fault : Fault)

/-- Makes a call: the table after it and the reply. -/
def Call.act (t : KeyTable α) : Call α → KeyTable α × Reply α
  | insert key item room =>
    match t.insert key item room with
    | .ok t' => (t', .done)
    | .error e => (t, .error e)
  | insertAny item seed bits shift add room =>
    match t.insertAny item seed bits shift add room with
    | .ok (key, t') => (t', .key key)
    | .error e => (t, .error e)
    | .fault f => (t, .fault f)
  | find key =>
    match t.find key with
    | .ok item => (t, .item item)
    | .error e => (t, .error e)
  | write key f =>
    match t.update key f with
    | .ok (item, t') => (t', .item item)
    | .error e => (t, .error e)
  | contains key => (t, .truth (t.contains key))
  | remove key =>
    match t.remove key with
    | .ok (item, t') => (t', .item item)
    | .error e => (t, .error e)
  | size => (t, .count t.size)
  | list => (t, .entries t.toList)
  | drain => (t.drain.2, .entries t.drain.1)

/-- The replies to calls made one after the other. -/
def replies (t : KeyTable α) : List (Call α) → List (Reply α)
  | [] => []
  | call :: calls => (call.act t).2 :: replies (call.act t).1 calls

/-- The table after calls. -/
def after (t : KeyTable α) (calls : List (Call α)) : KeyTable α :=
  calls.foldl (fun t call => (call.act t).1) t

/-- The keys that a map binds. -/
def boundKeys (m : UInt64 → Option α) : Set UInt64 := {key | (m key).isSome = true}

/-- Every binding of a map, once. -/
structure Lists (m : UInt64 → Option α) (es : List (UInt64 × α)) : Prop where
  nodup : (es.map Prod.fst).Nodup
  mem_iff : ∀ key item, (key, item) ∈ es ↔ m key = some item

/-- What a call on a map may reply, and the map after it. -/
inductive Allows (m : UInt64 → Option α) : Call α → Reply α → (UInt64 → Option α) → Prop
  | insert {key : UInt64} {item : α} : m key = none →
      Allows m (.insert key item true) .done (Function.update m key (some item))
  | duplicate {key : UInt64} {item a : α} {room : Bool} : m key = some a →
      Allows m (.insert key item room) (.error .duplicateKey) m
  | noRoom {key : UInt64} {item : α} : m key = none →
      Allows m (.insert key item false) (.error .outOfMemory) m
  | insertAny {item : α} {seed : UInt64} {bits shift : UInt32} {add : UInt64} {k : Nat} :
      k < 2 ^ bits.toNat → m (candidate shift add k) = none →
        Allows m (.insertAny item seed bits shift add true) (.key (candidate shift add k))
          (Function.update m (candidate shift add k) (some item))
  | noKey {item : α} {seed : UInt64} {bits shift : UInt32} {add : UInt64} {e : TableError}
      {room : Bool} : e = .invalidKeySpace ∨ e = .keySpaceExhausted →
        Allows m (.insertAny item seed bits shift add room) (.error e) m
  | noRoomForAny {item : α} {seed : UInt64} {bits shift : UInt32} {add : UInt64} {k : Nat} :
      k < 2 ^ bits.toNat → m (candidate shift add k) = none →
        Allows m (.insertAny item seed bits shift add false) (.error .outOfMemory) m
  | noSum {item : α} {seed : UInt64} {bits shift : UInt32} {add : UInt64} {room : Bool} :
      UInt32.size ≤ bits.toNat + shift.toNat →
        Allows m (.insertAny item seed bits shift add room) (.fault .additionOverflow) m
  | find {key : UInt64} {a : α} : m key = some a → Allows m (.find key) (.item a) m
  | notFound {key : UInt64} : m key = none → Allows m (.find key) (.error .notFound) m
  | write {key : UInt64} {f : α → α} {a : α} : m key = some a →
      Allows m (.write key f) (.item (f a)) (Function.update m key (some (f a)))
  | notWritten {key : UInt64} {f : α → α} : m key = none →
      Allows m (.write key f) (.error .notFound) m
  | contains {key : UInt64} : Allows m (.contains key) (.truth (m key).isSome) m
  | remove {key : UInt64} {a : α} : m key = some a →
      Allows m (.remove key) (.item a) (Function.update m key none)
  | notRemoved {key : UInt64} : m key = none → Allows m (.remove key) (.error .notFound) m
  | size : Allows m .size (.count (boundKeys m).ncard) m
  | list {es : List (UInt64 × α)} : Lists m es → Allows m .list (.entries es) m
  | drain {es : List (UInt64 × α)} : Lists m es → Allows m .drain (.entries es) fun _ => none

/-- Replies told from a map, with the map at their end. -/
inductive Tells : (UInt64 → Option α) → List (Call α) → List (Reply α) → (UInt64 → Option α) → Prop
  | nil (m : UInt64 → Option α) : Tells m [] [] m
  | cons {m m' m'' : UInt64 → Option α} {call : Call α} {calls : List (Call α)} {reply : Reply α}
      {replies : List (Reply α)} :
      Allows m call reply m' → Tells m' calls replies m'' →
        Tells m (call :: calls) (reply :: replies) m''

/-- A well-formed table in which just the bindings of a map are found. -/
structure Holds (t : KeyTable α) (m : UInt64 → Option α) : Prop where
  wellFormed : t.WellFormed
  find?_eq : ∀ key, t.find? key = m key

theorem Holds.of_create {order : UInt32} {room : Bool} (h : create order room = .ok t) :
    t.Holds fun _ => none := by
  obtain ⟨hwf, hnil⟩ := WellFormed.of_create h
  refine ⟨hwf, fun key => Option.eq_none_iff_forall_ne_some.mpr fun item hitem => ?_⟩
  have hmem := hwf.mem_toList_iff.mpr hitem
  rw [hnil] at hmem
  cases hmem

theorem Holds.lists {m : UInt64 → Option α} (h : t.Holds m) : Lists m t.toList where
  nodup := h.wellFormed.nodup_keys
  mem_iff key item := by rw [h.wellFormed.mem_toList_iff, h.find?_eq]

theorem Lists.boundKeys_eq {m : UInt64 → Option α} {es : List (UInt64 × α)} (h : Lists m es) :
    boundKeys m = (es.map Prod.fst).toFinset := by
  ext key
  simp only [boundKeys, Set.mem_ofPred_eq, Option.isSome_iff_exists, List.coe_toFinset,
    List.mem_map, Prod.exists, exists_and_right, exists_eq_right, h.mem_iff]

theorem Lists.ncard_eq {m : UInt64 → Option α} {es : List (UInt64 × α)} (h : Lists m es) :
    (boundKeys m).ncard = es.length := by
  rw [h.boundKeys_eq, Set.ncard_coe_finset, List.toFinset_card_of_nodup h.nodup, List.length_map]

theorem Holds.size_eq {m : UInt64 → Option α} (h : t.Holds m) : t.size = (boundKeys m).ncard := by
  rw [h.lists.ncard_eq, h.wellFormed.size_eq]

theorem Holds.finite_boundKeys {m : UInt64 → Option α} (h : t.Holds m) : (boundKeys m).Finite := by
  rw [h.lists.boundKeys_eq]
  exact Finset.finite_toSet _

theorem WellFormed.holds (h : t.WellFormed) : t.Holds t.find? := ⟨h, fun _ => rfl⟩

/-- Of two tables one of which has one key less, the smaller counts one entry less. -/
theorem WellFormed.size_add_one (h : t.WellFormed) (h' : t'.WellFormed)
    (hsome : t.find? key = some item)
    (hfind : ∀ j, t'.find? j = if j = key then none else t.find? j) : t'.size + 1 = t.size := by
  have hkeys : boundKeys t'.find? = boundKeys t.find? \ {key} := by
    ext j
    by_cases hj : j = key <;> simp [boundKeys, hfind, hj]
  have hmem : key ∈ boundKeys t.find? := by simp [boundKeys, hsome]
  rw [h'.holds.size_eq, h.holds.size_eq, hkeys,
    Set.ncard_sdiff_singleton_add_one hmem h.holds.finite_boundKeys]

/-- A table in which one key has changed holds the map in which that key has changed. -/
theorem Holds.of_find? {m : UInt64 → Option α} {found : Option α} (h : t.Holds m)
    (hwf : t'.WellFormed) (hfind : ∀ j, t'.find? j = if j = key then found else t.find? j) :
    t'.Holds (Function.update m key found) := by
  refine ⟨hwf, fun j => ?_⟩
  rw [hfind, h.find?_eq, Function.update_apply]

theorem allows_act {m : UInt64 → Option α} (h : t.Holds m) (call : Call α) :
    ∃ m', Allows m call (call.act t).2 m' ∧ (call.act t).1.Holds m' := by
  have hwf := h.wellFormed
  have hfound (key : UInt64) : m key = t.find? key := (h.find?_eq key).symm
  cases call with
  | insert key item room =>
    cases hkey : t.find? key with
    | none =>
      cases room with
      | false =>
        simp only [Call.act, insert_of_noRoom item hkey]
        exact ⟨m, .noRoom ((hfound key).trans hkey), h⟩
      | true =>
        obtain ⟨t', hins⟩ := exists_insert item hkey
        simp only [Call.act, hins]
        exact ⟨_, .insert ((hfound key).trans hkey),
          h.of_find? (hwf.of_insert hins).1 (hwf.find?_of_insert hins)⟩
    | some a =>
      simp only [Call.act, hwf.insert_of_find?_eq_some item hkey]
      exact ⟨m, .duplicate ((hfound key).trans hkey), h⟩
  | insertAny item seed bits shift add room =>
    have hspec := t.insertAny_spec item seed bits shift add room
    simp only [Call.act]
    generalize t.insertAny item seed bits shift add room = outcome at hspec
    cases hspec with
    | @noRoom k hk hnone hroom =>
      subst hroom
      exact ⟨m, .noRoomForAny hk ((hfound _).trans hnone), h⟩
    | @filed k t' hk hins =>
      obtain ⟨hwf', -, hnone⟩ := hwf.of_insert hins
      obtain ⟨rfl, -⟩ := of_insert_ok hins
      exact ⟨_, .insertAny hk ((hfound _).trans hnone), h.of_find? hwf' (hwf.find?_of_insert hins)⟩
    | exhausted => exact ⟨m, .noKey (Or.inr rfl), h⟩
    | invalid => exact ⟨m, .noKey (Or.inl rfl), h⟩
    | overflow hsum => exact ⟨m, .noSum hsum, h⟩
  | find key =>
    cases hkey : t.find? key with
    | none =>
      simp only [Call.act, KeyTable.find, hkey]
      exact ⟨m, .notFound ((hfound key).trans hkey), h⟩
    | some a =>
      simp only [Call.act, KeyTable.find, hkey]
      exact ⟨m, .find ((hfound key).trans hkey), h⟩
  | write key f =>
    cases hkey : t.find? key with
    | none =>
      simp only [Call.act, update_of_find?_eq_none f hkey]
      exact ⟨m, .notWritten ((hfound key).trans hkey), h⟩
    | some a =>
      obtain ⟨t', hupdate⟩ := exists_update f hkey
      obtain ⟨hwf', hfind⟩ := hwf.of_update hupdate
      simp only [Call.act, hupdate]
      exact ⟨_, .write ((hfound key).trans hkey), h.of_find? hwf' hfind⟩
  | contains key =>
    have htruth : t.contains key = (m key).isSome := by rw [hfound, KeyTable.contains]
    simp only [Call.act, htruth]
    exact ⟨m, .contains, h⟩
  | remove key =>
    cases hkey : t.find? key with
    | none =>
      simp only [Call.act, remove_of_find?_eq_none hkey]
      exact ⟨m, .notRemoved ((hfound key).trans hkey), h⟩
    | some a =>
      obtain ⟨t', hrem⟩ := exists_remove hkey
      simp only [Call.act, hrem]
      exact ⟨_, .remove ((hfound key).trans hkey),
        h.of_find? (hwf.of_remove hrem).1 (hwf.find?_of_remove hrem)⟩
  | size =>
    simp only [Call.act, h.size_eq]
    exact ⟨m, .size, h⟩
  | list => exact ⟨m, .list h.lists, h⟩
  | drain => exact ⟨_, .drain h.lists, hwf.of_drain.1, hwf.of_drain.2⟩

/-- The replies of a table that holds a map are told from that map, and the table after the calls
holds the map that the telling ends in. -/
theorem tells_replies {m : UInt64 → Option α} (h : t.Holds m) (calls : List (Call α)) :
    ∃ m', Tells m calls (replies t calls) m' ∧ (after t calls).Holds m' := by
  induction calls generalizing t m with
  | nil => exact ⟨m, .nil m, h⟩
  | cons call calls ih =>
    obtain ⟨m', hallows, hholds⟩ := allows_act h call
    obtain ⟨m'', htells, hafter⟩ := ih hholds
    exact ⟨m'', .cons hallows htells, hafter⟩

/-- A key table is a finite map. With memory for its buckets a table can be had of every order up to
the largest, and whatever calls are made on it, each reply is what a map gives that was empty at
first; only want of memory can keep a new key out. The table after the calls finds what that map
binds, counts its bindings, and looks for every key in a bucket that it has. -/
theorem create_finite_map {order : UInt32} (horder : order ≤ maxTableOrder) :
    ∃ t : KeyTable α, create order true = .ok t ∧
      ∀ calls, ∃ m, Tells (fun _ => none) calls (replies t calls) m ∧
        (∀ key, (after t calls).find? key = m key) ∧
        (after t calls).size = (boundKeys m).ncard ∧
        ∀ key, (after t calls).bucketOf key < (after t calls).buckets.size := by
  obtain ⟨t, ht⟩ : ∃ t : KeyTable α, create order true = .ok t :=
    ⟨_, if_neg (UInt32.not_lt.mpr horder)⟩
  refine ⟨t, ht, fun calls => ?_⟩
  obtain ⟨m, htells, hholds⟩ := tells_replies (.of_create ht) calls
  exact ⟨m, htells, hholds.find?_eq, hholds.size_eq, hholds.wellFormed.bucketOf_lt⟩

/-- Two keys in a table of one bucket: the second comes first in its chain, neither can come in
twice, and a third for which there is no room does not come in. -/
theorem finite_map_of_one_bucket :
    let calls : List (Call Nat) := [.insert 7 1 true, .insert 3 2 true, .insert 7 4 true,
      .insert 5 6 false, .list]
    (0 : UInt32) ≤ maxTableOrder ∧ ∃ t : KeyTable Nat, create 0 true = .ok t ∧
      (∃ m, Tells (fun _ => none) calls (replies t calls) m) ∧
      replies t calls = [.done, .done, .error .duplicateKey, .error .outOfMemory,
        .entries [(3, 2), (7, 1)]] := by
  intro calls
  have horder : (0 : UInt32) ≤ maxTableOrder := by decide
  obtain ⟨t, ht, hreplies⟩ := create_finite_map (α := Nat) horder
  obtain ⟨m, htells, -⟩ := hreplies calls
  refine ⟨horder, t, ht, ⟨m, htells⟩, ?_⟩
  cases ht
  rfl

end KeyTable

end BufferObjects
