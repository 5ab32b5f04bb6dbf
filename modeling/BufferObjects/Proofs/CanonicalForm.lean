import BufferObjects.Proofs.Probing

/-!
A key table has one form for each set of bindings. Chains ascend and every key is in the bucket of
its hash, so the order in which the entries are listed is strict: by hash, and by key where the
hashes agree. A strictly sorted list is determined by its members, and every chain is the part of
the listing that has its hash. What has been inserted and removed before leaves no trace.
-/

namespace BufferObjects.KeyTable

variable {α : Type} {t t' : KeyTable α}

/-! ### The order of the listing -/

/-- One entry is listed before another: by hash, and by key where the hashes agree. -/
def Precedes (order : UInt32) (x y : UInt64 × α) : Prop :=
  hashKey x.1 order < hashKey y.1 order ∨ hashKey x.1 order = hashKey y.1 order ∧ x.1 < y.1

variable {order : UInt32}

theorem Precedes.irrefl (x : UInt64 × α) : ¬ Precedes order x x := by
  rintro (h | ⟨-, h⟩) <;> exact UInt64.lt_irrefl _ h

theorem Precedes.asymm {x y : UInt64 × α} (h : Precedes order x y) : ¬ Precedes order y x := by
  rintro (h' | ⟨heq', h'⟩) <;> rcases h with h | ⟨heq, h⟩
  · exact UInt64.lt_asymm h h'
  · exact UInt64.ne_of_lt h' heq.symm
  · exact UInt64.ne_of_lt h heq'.symm
  · exact UInt64.lt_asymm h h'

instance : Std.Irrefl (Precedes (α := α) order) := ⟨Precedes.irrefl⟩

instance : Std.Antisymm (Precedes (α := α) order) := ⟨fun _ _ h h' => absurd h' h.asymm⟩

/-- Entries are listed by bucket, and the buckets go by hash. -/
theorem WellFormed.pairwise_toList (h : t.WellFormed) : t.toList.Pairwise (Precedes t.order) := by
  rw [toList, List.pairwise_flatten, List.pairwise_iff_getElem]
  constructor
  · intro chain hchain
    obtain ⟨i, hi, rfl⟩ := Array.mem_iff_getElem.mp (Array.mem_toList_iff.mp hchain)
    refine (h.ascending _ (Array.getElem_mem hi)).imp_of_mem fun {x y} hx hy hlt => Or.inr ⟨?_, hlt⟩
    exact UInt64.toNat_inj.mp ((h.placed i hi x hx).trans (h.placed i hi y hy).symm)
  · intro i j hi hj hij x hx y hy
    have hxi : (hashKey x.1 t.order).toNat = i := h.placed i hi x hx
    have hyj : (hashKey y.1 t.order).toNat = j := h.placed j hj y hy
    exact Or.inl (UInt64.lt_iff_toNat_lt.mpr (by omega))

/-- A sorted list of the bindings is the listing. -/
theorem WellFormed.eq_toList (h : t.WellFormed) {es : List (UInt64 × α)}
    (hsorted : es.Pairwise (Precedes t.order))
    (hmem : ∀ key item, (key, item) ∈ es ↔ t.find? key = some item) : es = t.toList :=
  hsorted.eq_of_mem_iff h.pairwise_toList fun ⟨key, item⟩ =>
    (hmem key item).trans h.mem_toList_iff.symm

/-! ### Chains as parts of the listing -/

theorem WellFormed.mem_buckets_iff (h : t.WellFormed) {i : Nat} (hi : i < t.buckets.size)
    (e : UInt64 × α) : e ∈ t.buckets[i] ↔ e ∈ t.toList ∧ t.bucketOf e.1 = i := by
  rw [toList, List.mem_flatten]
  constructor
  · exact fun he => ⟨⟨_, Array.getElem_mem_toList hi, he⟩, h.placed i hi e he⟩
  · rintro ⟨⟨chain, hchain, he⟩, rfl⟩
    obtain ⟨j, hj, rfl⟩ := Array.mem_iff_getElem.mp (Array.mem_toList_iff.mp hchain)
    have hplaced := h.placed j hj e he
    subst hplaced
    exact he

theorem WellFormed.getElem_buckets (h : t.WellFormed) {i : Nat} (hi : i < t.buckets.size) :
    t.buckets[i] = t.toList.filter fun e => t.bucketOf e.1 = i := by
  have hsorted : t.buckets[i].Pairwise (Precedes t.order) :=
    (List.pairwise_flatten.mp h.pairwise_toList).1 _ (Array.getElem_mem_toList hi)
  refine hsorted.eq_of_mem_iff (h.pairwise_toList.filter _) fun e => ?_
  rw [h.mem_buckets_iff hi, List.mem_filter, decide_eq_true_iff]

theorem WellFormed.chainOf_eq_filter (h : t.WellFormed) (key : UInt64) :
    t.chainOf key = t.toList.filter fun e => hashKey e.1 t.order = hashKey key t.order := by
  rw [chainOf_eq (h.bucketOf_lt key), h.getElem_buckets (h.bucketOf_lt key)]
  simp only [bucketOf, UInt64.toNat_inj]

/-- Two tables of one order with the same bindings are equal. -/
theorem WellFormed.ext (h : t.WellFormed) (h' : t'.WellFormed) (horder : t.order = t'.order)
    (hfind : ∀ key, t.find? key = t'.find? key) : t = t' := by
  have hlist : t.toList = t'.toList :=
    h'.eq_toList (horder ▸ h.pairwise_toList) fun key item => by
      rw [h.mem_toList_iff, hfind]
  have hbuckets : t.buckets = t'.buckets := by
    refine Array.ext (by rw [h.size_buckets, h'.size_buckets, horder]) fun i hi hi' => ?_
    rw [h.getElem_buckets hi, h'.getElem_buckets hi', hlist]
    refine List.filter_congr fun e _ => ?_
    rw [bucketOf, bucketOf, horder]
  have hsize : t.size = t'.size := by rw [h.size_eq, h'.size_eq, hlist]
  cases t
  cases t'
  cases horder
  cases hbuckets
  cases hsize
  rfl

/-! ### Calls -/

/-- No call changes the order. -/
theorem order_act (t : KeyTable α) (call : Call α) : (call.act t).1.order = t.order := by
  have hinsert {key : UInt64} {item : α} {room : Bool} {t' : KeyTable α}
      (h : t.insert key item room = .ok t') : t'.order = t.order := by
    obtain ⟨-, chain, -, rfl⟩ := of_insert_ok h
    rfl
  cases call with
  | insert key item room =>
    simp only [Call.act]
    split
    · next hins => exact hinsert hins
    · rfl
  | insertAny item seed bits shift add room =>
    have hspec := t.insertAny_spec item seed bits shift add room
    simp only [Call.act]
    split
    · next hins =>
      rw [hins] at hspec
      cases hspec with
      | filed _ hins => exact hinsert hins
    · rfl
    · rfl
  | write key f =>
    simp only [Call.act]
    split
    · next hupdate =>
      unfold update at hupdate
      split at hupdate <;> cases hupdate
      rfl
    · rfl
  | remove key =>
    simp only [Call.act]
    split
    · next hrem =>
      unfold remove at hrem
      split at hrem <;> cases hrem
      rfl
    · rfl
  | find key =>
    simp only [Call.act]
    split <;> rfl
  | _ => rfl

theorem order_after (t : KeyTable α) (calls : List (Call α)) : (after t calls).order = t.order := by
  induction calls generalizing t with
  | nil => rfl
  | cons call calls ih => exact (ih _).trans (order_act t call)

theorem order_of_create {room : Bool} (h : create order room = .ok t) : t.order = order := by
  unfold create at h
  split at h
  · cases h
  · split at h <;> cases h
    rfl

/-- The form of a table does not tell its history. After any calls the listing is sorted by hash and
then by key, is the only list of the bindings that is, and is what emptying the table hands over;
the chain of a key is the part of the listing that has the hash of the key, and the report of the
chain is made from that. After other calls that end in the same bindings the table is the same, with
the same buckets, and so it lists, hands over and reports the same. -/
theorem canonical_form {room : Bool} {t₀ : KeyTable α} (hcreate : create order room = .ok t₀)
    (calls : List (Call α)) :
    let t := after t₀ calls
    (t.toList.Pairwise (Precedes order) ∧
      (∀ key item, (key, item) ∈ t.toList ↔ t.find? key = some item) ∧
      ∀ es : List (UInt64 × α), es.Pairwise (Precedes order) →
        (∀ key item, (key, item) ∈ es ↔ t.find? key = some item) → es = t.toList) ∧
    t.drain.1 = t.toList ∧
    (∀ key, t.chainOf key =
      t.toList.filter fun e => hashKey e.1 order = hashKey key order) ∧
    (∀ key, t.chainReport key = .chainKey key :: .chainBucket (hashKey key order).toNat ::
      (t.toList.filter fun e => hashKey e.1 order = hashKey key order).map
        fun e => .chainEntry e.1) ∧
    ∀ calls', (∀ key, t.find? key = (after t₀ calls').find? key) → t = after t₀ calls' := by
  intro t
  have hwf (calls : List (Call α)) : (after t₀ calls).WellFormed := WellFormed.of_after hcreate calls
  have horder (calls : List (Call α)) : (after t₀ calls).order = order :=
    (order_after t₀ calls).trans (order_of_create hcreate)
  have hchain (key : UInt64) : t.chainOf key =
      t.toList.filter fun e => hashKey e.1 order = hashKey key order := by
    rw [(hwf calls).chainOf_eq_filter, horder]
  refine ⟨⟨horder calls ▸ (hwf calls).pairwise_toList, fun _ _ => (hwf calls).mem_toList_iff,
    fun es hsorted hmem => (hwf calls).eq_toList ((horder calls).symm ▸ hsorted) hmem⟩, rfl, hchain,
    fun key => ?_, fun calls' hfind => ?_⟩
  · rw [chainReport, hchain, bucketOf, horder]
  · exact (hwf calls).ext (hwf calls') ((horder calls).trans (horder calls').symm) hfind

/-- Three keys in two buckets: filed in one order and with an item rewritten, or in another order
after the table has been emptied and with a key that is taken out again. -/
theorem canonical_form_of_two_histories :
    let calls : List (Call Nat) :=
      [.insert 5 8 true, .insert 2 1 true, .insert 1 7 true, .write 2 (· + 8)]
    let calls' : List (Call Nat) :=
      [.insert 3 4 true, .drain, .insert 1 7 true, .insert 3 6 true, .insert 2 9 true,
        .insert 5 8 true, .remove 3]
    ∃ t₀ : KeyTable Nat, create 1 true = .ok t₀ ∧ after t₀ calls = after t₀ calls' ∧
      (after t₀ calls).toList.map Prod.fst = [2, 5, 1] := by
  intro calls calls'
  have hcreate : create 1 true = .ok (⟨1, #[[], []], 0⟩ : KeyTable Nat) := rfl
  obtain ⟨⟨-, hmem, -⟩, -, -, -, heq⟩ := canonical_form hcreate calls
  obtain ⟨⟨-, hmem', -⟩, -⟩ := canonical_form hcreate calls'
  have hlist : (after (⟨1, #[[], []], 0⟩ : KeyTable Nat) calls).toList =
      (after ⟨1, #[[], []], 0⟩ calls').toList := by decide +kernel
  refine ⟨_, hcreate, heq _ fun key => Option.ext fun item => ?_, by decide +kernel⟩
  rw [← hmem, ← hmem', hlist]

end BufferObjects.KeyTable
