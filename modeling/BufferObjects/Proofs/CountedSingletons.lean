import BufferObjects.Proofs.SingletonHistory

/-!
Singletons are counted. What holds of a slot in the course of a run is an induction over its
history, which is a list however deep the calls were nested: the uses of the slot are what was taken
less what was let go, and the object in it is the only one that was made for it and not released.
-/

namespace BufferObjects.Singletons

variable {τ α : Type}

/-! ### What the history of a slot comes to -/

/-- Whether an entry is a successful request for a kind. -/
def Entry.takes (k : SingletonKind) (e : Entry τ α) : Bool :=
  e.kind = k && match e.deed with | .fills _ | .joins _ => true | _ => false

/-- Whether an entry is a successful letting go of a kind. -/
def Entry.letsGo (k : SingletonKind) (e : Entry τ α) : Bool :=
  e.kind = k && match e.deed with | .leaves _ | .empties _ => true | _ => false

/-- Whether an entry fills the slot of a kind with the object of an identity. -/
def Entry.makes (k : SingletonKind) (identity : Nat) (e : Entry τ α) : Bool :=
  e.kind = k && match e.deed with | .fills x => x.identity = identity | _ => false

/-- Whether an entry empties the slot of a kind of the object of an identity. -/
def Entry.releases (k : SingletonKind) (identity : Nat) (e : Entry τ α) : Bool :=
  e.kind = k && match e.deed with | .empties x => x.identity = identity | _ => false

/-- Whether the object of an identity is in the slot of a kind, as a number. -/
def held (r : Singletons τ α) (k : SingletonKind) (identity : Nat) : Nat :=
  if (r.slot k).object.map Singleton.identity = some identity then 1 else 0

/-- What entries since an empty registry say about the slot of a kind: it is occupied as long as it
is in use, its uses are what was taken and not let go, and the object in it was made once, as every
object, and is the only one that was made and not released. -/
structure Accounts (k : SingletonKind) (es : List (Entry τ α)) (r : Singletons τ α) : Prop where
  occupied_iff : (r.slot k).object.isSome = true ↔ 0 < r.useCount k
  taken_eq : es.countP (·.takes k) = es.countP (·.letsGo k) + r.useCount k
  made_eq : ∀ identity, es.countP (·.makes k identity) =
    es.countP (·.releases k identity) + r.held k identity
  made_once : ∀ identity, es.countP (·.makes k identity) ≤ 1
  not_made : ∀ identity, r.nextIdentity ≤ identity → es.countP (·.makes k identity) = 0

theorem Accounts.empty (k : SingletonKind) :
    Accounts k [] (Singletons.empty : Singletons τ α) := by
  refine ⟨?_, ?_, fun _ => ?_, fun _ => Nat.zero_le _, fun _ _ => rfl⟩ <;>
    simp [useCount, held, SingletonSlot.empty]

theorem Accounts.of_leads {k : SingletonKind} {es : List (Entry τ α)} {r r' : Singletons τ α}
    (h : Accounts k es r) (hleads : Leads r r') : Accounts k es r' := by
  have huses : r'.useCount k = r.useCount k := by rw [useCount, useCount, hleads.slot_eq]
  refine ⟨?_, ?_, fun id => ?_, h.made_once,
    fun id hid => h.not_made id (Nat.le_trans hleads.next_le hid)⟩
  · rw [huses, hleads.slot_eq]
    exact h.occupied_iff
  · rw [huses]
    exact h.taken_eq
  · rw [held, hleads.slot_eq]
    exact h.made_eq id

section Accounts

variable {k : SingletonKind} {e : Entry τ α} {es es' : List (Entry τ α)} {r r' : Singletons τ α}

/-- An entry keeps the accounts if it moves uses and objects as it says. -/
theorem Accounts.snoc (h : Accounts k es r)
    (hoccupied : (r'.slot k).object.isSome = true ↔ 0 < r'.useCount k)
    (huses : r.useCount k + (e.takes k).toNat = (e.letsGo k).toNat + r'.useCount k)
    (hobject : ∀ id, r.held k id + (e.makes k id).toNat = (e.releases k id).toNat + r'.held k id)
    (hnew : ∀ id, e.makes k id = true → r.nextIdentity ≤ id ∧ id < r'.nextIdentity)
    (hle : r.nextIdentity ≤ r'.nextIdentity) : Accounts k (es ++ [e]) r' := by
  have hcount (p : Entry τ α → Bool) : (es ++ [e]).countP p = es.countP p + (p e).toNat := by
    rw [List.countP_append, List.countP_singleton]
    cases p e <;> rfl
  refine ⟨hoccupied, ?_, fun id => ?_, fun id => ?_, fun id hid => ?_⟩
  · have htaken := h.taken_eq
    rw [hcount, hcount]
    omega
  · have hmade := h.made_eq id
    have hmoved := hobject id
    rw [hcount, hcount]
    omega
  · rw [hcount]
    cases hmakes : e.makes k id with
    | false => exact h.made_once id
    | true =>
      -- an identity is given to one object only, so this is the first made with it
      rw [h.not_made id (hnew id hmakes).1]
      exact Nat.le_refl 1
  · have hnot := h.not_made id (Nat.le_trans hle hid)
    cases hmakes : e.makes k id with
    | false => rw [hcount, hnot, hmakes]; rfl
    | true => exact absurd (hnew id hmakes).2 (Nat.not_lt.mpr hid)

variable [DecidableEq τ]

theorem Accounts.of_lawful (h : Accounts k es e.before.registry) (he : e.Lawful) :
    Accounts k (es ++ [e]) e.after.registry := by
  by_cases hk : e.kind = k
  · subst hk
    have hdoes := he.does
    have hfresh := he.fresh
    generalize hstep : e.step = step at hdoes
    generalize hs : e.before.registry.slot e.kind = s at hdoes
    generalize hs' : e.after.registry.slot e.kind = s' at hdoes
    generalize hdeed : e.deed = deed at hdoes hfresh
    have hoccupied := h.occupied_iff
    rw [useCount, hs] at hoccupied
    refine h.snoc ?_ ?_ (fun id => ?_) (fun id hmakes => ?_) he.next_le
    · rw [useCount, hs']
      cases hdoes with
      | faults => exact hoccupied
      | _ => simp [SingletonSlot.empty]
    · rw [useCount, useCount, hs, hs']
      cases hdoes <;> simp [Entry.takes, Entry.letsGo, hdeed, SingletonSlot.empty]
      all_goals omega
    · rw [held, held, hs, hs']
      cases hdoes <;> simp [Entry.makes, Entry.releases, hdeed, SingletonSlot.empty]
      all_goals split <;> next hid => simp [hid]
    · unfold Entry.makes at hmakes
      rw [hdeed] at hmakes
      cases hdoes with
      | @fills x =>
        obtain rfl : x.identity = id := by simpa using hmakes
        exact hfresh x rfl
      | _ => simp at hmakes
  · -- a call for another kind
    have hslot := he.others k (Ne.symm hk)
    refine h.snoc ?_ ?_ (fun id => ?_) (fun id hmakes => ?_) he.next_le
    · rw [useCount, hslot]
      exact h.occupied_iff
    · simp [Entry.takes, Entry.letsGo, hk, useCount, hslot]
    · simp [Entry.makes, Entry.releases, hk, held, hslot]
    · simp [Entry.makes, hk] at hmakes

theorem Accounts.of_chained {last : Singletons τ α} (h : Accounts k es r)
    (hchained : Chained r es' last) (hlawful : ∀ e ∈ es', e.Lawful) :
    Accounts k (es ++ es') last := by
  induction hchained generalizing es with
  | nil hleads =>
    rw [List.append_nil]
    exact h.of_leads hleads
  | @cons r last e rest hleads _ ih =>
    have hsnoc := (h.of_leads hleads).of_lawful (hlawful e (List.mem_cons_self ..))
    have hrest := ih hsnoc fun e' he' => hlawful e' (List.mem_cons_of_mem _ he')
    rwa [List.append_assoc] at hrest

end Accounts

theorem Chained.of_append {es es' : List (Entry τ α)} {r r' : Singletons τ α}
    (h : Chained r (es ++ es') r') : ∃ mid, Chained r es mid ∧ Chained mid es' r' := by
  induction es generalizing r with
  | nil => exact ⟨r, .nil (.refl r), h⟩
  | cons e es ih =>
    cases h with
    | cons hleads hrest =>
      obtain ⟨mid, hmid, hmid'⟩ := ih hrest
      exact ⟨mid, .cons hleads hmid, hmid'⟩

/-- What a call for a kind comes to while its slot holds an object: no other object is given and
none is made. -/
def Deed.Keeps (x : Singleton τ α) : Deed τ α → Prop
  | fills _ => False
  | joins y => y = x
  | fails _ => False
  | mistypes => True
  | leaves y => y = x
  | empties y => y = x
  | faults => True

theorem Does.object_of_fills {h : Holders τ α} {k : SingletonKind} {step : Step τ α}
    {s s' : SingletonSlot τ α} {x : Singleton τ α} (hdoes : Does h k step s (.fills x) s') :
    s'.object = some x := by
  cases hdoes
  rfl

theorem Does.keeps {h : Holders τ α} {k : SingletonKind} {step : Step τ α}
    {s s' : SingletonSlot τ α} {deed : Deed τ α} {x : Singleton τ α}
    (hdoes : Does h k step s deed s') (hx : s.object = some x) :
    deed.Keeps x ∧ ((∀ y, deed ≠ .empties y) → s'.object = some x) := by
  cases hdoes with
  | fills | fails => cases hx
  | joins | leaves =>
    cases hx
    exact ⟨rfl, fun _ => rfl⟩
  | mistypes | faults => exact ⟨trivial, fun _ => hx⟩
  | empties =>
    cases hx
    exact ⟨rfl, fun hnot => absurd rfl (hnot _)⟩

/-- As long as nobody empties a slot that is occupied, all that is done there is done with the
object in it. -/
theorem Chained.keeps [DecidableEq τ] {k : SingletonKind} {es : List (Entry τ α)}
    {r r' : Singletons τ α} {x : Singleton τ α} (h : Chained r es r')
    (hlawful : ∀ e ∈ es, e.Lawful) (hx : (r.slot k).object = some x)
    (hfull : ∀ e ∈ es, e.kind = k → ∀ y, e.deed ≠ .empties y) :
    (r'.slot k).object = some x ∧ ∀ e ∈ es, e.kind = k → e.deed.Keeps x := by
  induction h with
  | nil hleads => exact ⟨by rw [hleads.slot_eq, hx], fun e he => absurd he List.not_mem_nil⟩
  | @cons r r' e es hleads _ ih =>
    have he := hlawful e (List.mem_cons_self ..)
    rw [← hleads.slot_eq] at hx
    have hown : (e.after.registry.slot k).object = some x ∧ (e.kind = k → e.deed.Keeps x) := by
      by_cases hk : e.kind = k
      · have hnot := hfull e (List.mem_cons_self ..) hk
        subst hk
        have hkeeps := he.does.keeps hx
        exact ⟨hkeeps.2 hnot, fun _ => hkeeps.1⟩
      · rw [he.others k (Ne.symm hk)]
        exact ⟨hx, fun heq => absurd heq hk⟩
    obtain ⟨hlast, hrest⟩ := ih (fun e' he' => hlawful e' (List.mem_cons_of_mem _ he')) hown.1
      fun e' he' => hfull e' (List.mem_cons_of_mem _ he')
    refine ⟨hlast, fun e' he' => ?_⟩
    rcases List.mem_cons.mp he' with rfl | he'
    · exact hown.2
    · exact hrest e' he'

theorem isIdle_iff {r : Singletons τ α}
    (h : ∀ k, (r.slot k).object.isSome = true ↔ 0 < r.useCount k) :
    r.isIdle = true ↔ ∀ k, r.useCount k = 0 := by
  unfold isIdle
  rw [List.all_eq_true]
  constructor
  · intro hidle k
    have hnone := hidle k (by cases k <;> decide)
    rw [Option.isNone_iff_eq_none] at hnone
    have hcount := h k
    rw [hnone] at hcount
    simpa using hcount
  · intro hcounts k _
    rw [Option.isNone_iff_eq_none, ← Option.not_isSome_iff_eq_none, h, hcounts]
    exact Nat.lt_irrefl 0

/-- Singletons are counted. In every run of calls that do not ask for a kind from within its own
closures, every call moves the slot of its kind as a counter with an object moves and leaves the
other slots alone, also when it fails. At every point of the run a slot is occupied just while it is
in use, its uses are what was taken less what was let go, and an object was made once and is
released at most once, when it is no longer in the slot. From when a slot is filled until it is
emptied all that succeeds there is about the one object, and no other is made. -/
theorem run_counts_singletons [DecidableEq τ] {script : List (Step τ α)}
    (hoff : Step.keepOff [] Holders.empty script = true) :
    (∀ e ∈ Step.historyAll Holders.empty script, e.Lawful) ∧
    (∀ es es', Step.historyAll Holders.empty script = es ++ es' → ∃ r : Singletons τ α,
      Chained empty es r ∧ Chained r es' (Step.runAll Holders.empty script).1.registry ∧
      (∀ k, Accounts k es r) ∧ (r.isIdle = true ↔ ∀ k, r.useCount k = 0)) ∧
    ∀ es e mid es' x, Step.historyAll Holders.empty script = es ++ e :: (mid ++ es') →
      e.deed = .fills x → (∀ e' ∈ mid, e'.kind = e.kind → ∀ y, e'.deed ≠ .empties y) →
      ∀ e' ∈ mid, e'.kind = e.kind → e'.deed.Keeps x := by
  obtain ⟨-, hlawful, hchained, -⟩ := accounted_runAll script Holders.Sound.empty hoff
  refine ⟨hlawful, fun es es' hes => ?_, fun es e mid es' x hes hfills hfull => ?_⟩
  · rw [hes] at hlawful hchained
    obtain ⟨r, hr, hr'⟩ := hchained.of_append
    have haccounts (k : SingletonKind) : Accounts k es r := by
      have := (Accounts.empty k).of_chained hr fun e he =>
        hlawful e (List.mem_append_left _ he)
      rwa [List.nil_append] at this
    exact ⟨r, hr, hr', haccounts, isIdle_iff fun k => (haccounts k).occupied_iff⟩
  · rw [hes] at hlawful hchained
    obtain ⟨r, -, hr⟩ := hchained.of_append
    cases hr with
    | cons _ hrest =>
      obtain ⟨mid', hmid, -⟩ := hrest.of_append
      have he : e.Lawful := hlawful e (by simp)
      have hx : (e.after.registry.slot e.kind).object = some x := by
        have hdoes := he.does
        rw [hfills] at hdoes
        exact hdoes.object_of_fills
      exact (hmid.keeps (fun e' he' => hlawful e' (by simp [he'])) hx hfull).2

/-- A singleton whose making takes one of another kind and whose release lets that one go; it is
asked for twice, and let go once too often. -/
def nestedScript : List (Step Nat Nat) :=
  [.acquire .buffers 0 7 "first" none [.acquire .memory 1 8 "inner" none []],
    .acquire .buffers 0 9 "second" none [],
    .release .buffers "first" [],
    .release .buffers "second" [.release .memory "inner" []],
    .release .buffers "second" []]

theorem counted_nestedScript :
    Step.keepOff [] Holders.empty nestedScript = true ∧
    (∀ e ∈ Step.historyAll Holders.empty nestedScript, e.Lawful) ∧
    (∀ es es', Step.historyAll Holders.empty nestedScript = es ++ es' →
      ∃ r : Singletons Nat Nat, Chained empty es r ∧
        Chained r es' (Step.runAll Holders.empty nestedScript).1.registry ∧
        (∀ k, Accounts k es r) ∧ (r.isIdle = true ↔ ∀ k, r.useCount k = 0)) ∧
    (Step.historyAll Holders.empty nestedScript).map (·.kind) =
      [.memory, .buffers, .buffers, .buffers, .buffers, .memory, .buffers] := by
  have hoff : Step.keepOff [] Holders.empty nestedScript = true := by decide
  obtain ⟨hlawful, haccounts, -⟩ := run_counts_singletons hoff
  exact ⟨hoff, hlawful, haccounts, by decide⟩

end BufferObjects.Singletons
