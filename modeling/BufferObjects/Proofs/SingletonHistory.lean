import BufferObjects.Singleton.Script

/-!
Histories of runs on singletons. A run is a tree, because making and releasing an object may use
other kinds; read in the order in which its calls take effect it is a list, the history of the run.
Every entry of the history moves the slot of its own kind as a counter with an object would move,
and leaves the other slots alone; this is shown by induction on the tree.

A call that runs a closure has the slot of its kind locked meanwhile, so the closure must not ask
for that kind again, at any depth.
-/

namespace BufferObjects.Singletons

variable {τ α : Type}

/-! ### Slots -/

section Slots

variable (r : Singletons τ α) (k j : SingletonKind) (x : SingletonSlot τ α)

@[simp] theorem slot_setSlot : (r.setSlot k x).slot k = x := by cases k <;> rfl

theorem slot_setSlot_of_ne {k j : SingletonKind} (h : j ≠ k) :
    (r.setSlot k x).slot j = r.slot j := by
  cases k <;> cases j <;> first | rfl | exact absurd rfl h

@[simp] theorem nextIdentity_setSlot : (r.setSlot k x).nextIdentity = r.nextIdentity := by
  cases k <;> rfl

@[simp] theorem slot_note (n : Notice) : (r.note n).slot k = r.slot k := by cases k <;> rfl

@[simp] theorem nextIdentity_note (n : Notice) : (r.note n).nextIdentity = r.nextIdentity := rfl

@[simp] theorem slot_make (type : τ) (value : α) : (r.make type value).1.slot k = r.slot k := by
  cases k <;> rfl

@[simp] theorem slot_empty : (empty : Singletons τ α).slot k = .empty := by cases k <;> rfl

end Slots

/-! ### Histories -/

/-- What a call comes to at the slot of its kind. -/
inductive Deed (τ α : Type) where
  /-- Fills the slot with a new object. -/
  | fills (x : Singleton τ α)
  /-- Joins the users of the object that is there. -/
  | joins (x : Singleton τ α)
  /-- Could not make the object. -/
  | fails (cause : RequestError)
  /-- Finds an object of another type. -/
  | mistypes
  /-- Is not the last to let the object go. -/
  | leaves (x : Singleton τ α)
  /-- Is the last, and has the object released. -/
  | empties (x : Singleton τ α)
  /-- Lets go of what is not there. -/
  | faults

/-- A call of a run, with what was there when it was made, just before it took effect and just
after. -/
structure Entry (τ α : Type) where
  kind : SingletonKind
  step : Step τ α
  deed : Deed τ α
  asked : Holders τ α
  before : Holders τ α
  after : Holders τ α

mutual

/-- The calls of a step in the order in which they take effect: making an object comes before it is
in the slot, releasing it after it has left the slot. -/
def Step.history [DecidableEq τ] (h : Holders τ α) : Step τ α → List (Entry τ α)
  | .acquire kind type value target error inner =>
    let step := Step.acquire kind type value target error inner
    match h.registry.join kind type with
    | (r, .joined x) => [⟨kind, step, .joins x, h, h, { h with registry := r }⟩]
    | (r, .otherType) => [⟨kind, step, .mistypes, h, h, { h with registry := r }⟩]
    | (r, .vacant) =>
      let made := (Step.runAll { h with registry := r } inner).1
      Step.historyAll { h with registry := r } inner ++
        match error with
        | some e => [⟨kind, step, .fails e, h, made, made⟩]
        | none =>
          let (r', x) := made.registry.fill kind type value
          [⟨kind, step, .fills x, h, made, { made with registry := r' }⟩]
  | .release kind object inner =>
    let step := Step.release kind object inner
    match h.get? object with
    | none => []
    | some x =>
      match h.registry.leave kind x with
      | (r, .error _) => [⟨kind, step, .faults, h, h, { h with registry := r }⟩]
      | (r, .ok none) => [⟨kind, step, .leaves x, h, h, { h with registry := r }⟩]
      | (r, .ok (some y)) =>
        ⟨kind, step, .empties y, h, h, { h with registry := r }⟩ ::
          Step.historyAll { h with registry := r } inner
  | .stray .. => []
  | .same .. => []
  | .useCount _ => []
  | .isIdle => []

def Step.historyAll [DecidableEq τ] (h : Holders τ α) : List (Step τ α) → List (Entry τ α)
  | [] => []
  | s :: rest => Step.history h s ++ Step.historyAll (Step.run h s).1 rest

end

mutual

/-- Whether a step leaves the locked kinds alone: a call is for no kind whose slot a call around it
has locked. -/
def Step.keepsOff [DecidableEq τ] (locked : List SingletonKind) (h : Holders τ α) :
    Step τ α → Bool
  | .acquire kind type _ _ _ inner =>
    !locked.contains kind &&
      match h.registry.join kind type with
      | (r, .vacant) => Step.keepOff (kind :: locked) { h with registry := r } inner
      | _ => true
  | .release kind object inner =>
    match h.get? object with
    | none => true
    | some x =>
      !locked.contains kind &&
        match h.registry.leave kind x with
        | (r, .ok (some _)) => Step.keepOff (kind :: locked) { h with registry := r } inner
        | _ => true
  | .stray .. => true
  | .same .. => true
  | .useCount _ => true
  | .isIdle => true

def Step.keepOff [DecidableEq τ] (locked : List SingletonKind) (h : Holders τ α) :
    List (Step τ α) → Bool
  | [] => true
  | s :: rest => Step.keepsOff locked h s && Step.keepOff locked (Step.run h s).1 rest

end

/-! ### The law of a slot -/

/-- What a call made with `h` finds in the slot of its kind, what it comes to there, and how it
leaves the slot: a slot is empty and unused, or has an object and users. -/
inductive Does (h : Holders τ α) (k : SingletonKind) :
    Step τ α → SingletonSlot τ α → Deed τ α → SingletonSlot τ α → Prop
  | fills {x : Singleton τ α} {target : String} {inner : List (Step τ α)} :
      Does h k (.acquire k x.type x.value target none inner) .empty (.fills x) ⟨some x, 1⟩
  | fails {type : τ} {value : α} {target : String} {e : RequestError} {inner : List (Step τ α)} :
      Does h k (.acquire k type value target (some e) inner) .empty (.fails e) .empty
  | joins {x : Singleton τ α} {n : Nat} {value : α} {target : String} {error : Option RequestError}
      {inner : List (Step τ α)} :
      Does h k (.acquire k x.type value target error inner) ⟨some x, n + 1⟩ (.joins x)
        ⟨some x, n + 2⟩
  | mistypes {x : Singleton τ α} {n : Nat} {type : τ} {value : α} {target : String}
      {error : Option RequestError} {inner : List (Step τ α)} : x.type ≠ type →
      Does h k (.acquire k type value target error inner) ⟨some x, n + 1⟩ .mistypes ⟨some x, n + 1⟩
  | leaves {x : Singleton τ α} {n : Nat} {object : String} {inner : List (Step τ α)} :
      h.get? object = some x →
      Does h k (.release k object inner) ⟨some x, n + 2⟩ (.leaves x) ⟨some x, n + 1⟩
  | empties {x : Singleton τ α} {object : String} {inner : List (Step τ α)} :
      h.get? object = some x →
      Does h k (.release k object inner) ⟨some x, 1⟩ (.empties x) .empty
  | faults {x : Singleton τ α} {slot : SingletonSlot τ α} {object : String}
      {inner : List (Step τ α)} : h.get? object = some x → slot.object ≠ some x →
      Does h k (.release k object inner) slot .faults slot

/-- What is answered and what happens when a call comes to a deed: an object is made just when a
slot was to be filled, and released just when it is emptied. -/
def Deed.Shows (k : SingletonKind) (answer : Answer τ α) (events : List (Event τ α)) :
    Deed τ α → Prop
  | fills x => answer = .object x.type x.value ∧ ∃ inner, events = [.making k inner]
  | joins x => answer = .object x.type x.value ∧ events = []
  | fails e => answer = .error e ∧ ∃ inner, events = [.making k inner]
  | mistypes => answer = .error .invalidArgument ∧ events = []
  | leaves _ => answer = .done ∧ events = []
  | empties x => answer = .done ∧ ∃ inner, events = [.releasing k x.value inner]
  | faults => answer = .fault .unmatchedRelease ∧ events = []

/-- The object that a successful request is given. -/
def Deed.given? : Deed τ α → Option (Singleton τ α)
  | fills x => some x
  | joins x => some x
  | _ => none

/-- Where a request wants the object put. -/
def Step.target? : Step τ α → Option String
  | .acquire _ _ _ target _ _ => some target
  | _ => none

/-- A call that keeps the law of its slot and touches no other, and whose closure leaves its slot
alone. -/
structure Entry.Lawful [DecidableEq τ] (e : Entry τ α) : Prop where
  does : Does e.asked e.kind e.step (e.before.registry.slot e.kind) e.deed
    (e.after.registry.slot e.kind)
  asked_eq : e.asked.registry.slot e.kind = e.before.registry.slot e.kind
  others : ∀ k, k ≠ e.kind → e.after.registry.slot k = e.before.registry.slot k
  shows : e.deed.Shows e.kind (e.step.run e.asked).2.1 (e.step.run e.asked).2.2
  given : ∀ x target, e.deed.given? = some x → e.step.target? = some target →
    (e.step.run e.asked).1.get? target = some x
  next_le : e.before.registry.nextIdentity ≤ e.after.registry.nextIdentity
  fresh : ∀ x, e.deed = .fills x →
    e.before.registry.nextIdentity ≤ x.identity ∧ x.identity < e.after.registry.nextIdentity

/-- The same slots, and no identity given back. -/
structure Leads (r r' : Singletons τ α) : Prop where
  slot_eq : ∀ k, r'.slot k = r.slot k
  next_le : r.nextIdentity ≤ r'.nextIdentity

/-- Entries that lead from one registry to another: between two of them no slot changes. -/
inductive Chained : Singletons τ α → List (Entry τ α) → Singletons τ α → Prop
  | nil {r r' : Singletons τ α} : Leads r r' → Chained r [] r'
  | cons {r r' : Singletons τ α} {e : Entry τ α} {es : List (Entry τ α)} :
      Leads r e.before.registry → Chained e.after.registry es r' → Chained r (e :: es) r'

/-! ### Sound holders -/

/-- A slot is empty and unused, or has an object and users. -/
def Counted (s : SingletonSlot τ α) : Prop := s = .empty ∨ ∃ x n, s = ⟨some x, n + 1⟩

namespace Holders

/-- An object in a named slot or in the slot of a kind. -/
def Knows (h : Holders τ α) (x : Singleton τ α) : Prop :=
  (∃ name, (name, x) ∈ h.slots) ∨ ∃ k, (h.registry.slot k).object = some x

/-- Slots are counted, and an object is known by its identity. -/
structure Sound (h : Holders τ α) : Prop where
  counted : ∀ k, Counted (h.registry.slot k)
  lt_next : ∀ x, h.Knows x → x.identity < h.registry.nextIdentity
  eq_of_identity : ∀ x y, h.Knows x → h.Knows y → x.identity = y.identity → x = y

theorem Sound.empty : (empty : Holders τ α).Sound := by
  have hnone (x : Singleton τ α) : ¬ (Holders.empty : Holders τ α).Knows x := by
    rintro (⟨name, hx⟩ | ⟨k, hx⟩)
    · cases hx
    · cases k <;> cases hx
  exact ⟨fun k => .inl (slot_empty k), fun x hx => absurd hx (hnone x),
    fun x y hx => absurd hx (hnone x)⟩

variable {h h' : Holders τ α} {x : Singleton τ α} {name : String}

theorem knows_of_get? (hget : h.get? name = some x) : h.Knows x := by
  unfold get? at hget
  obtain ⟨l₁, l₂, hslots, -⟩ := List.lookup_eq_some_iff.mp hget
  exact .inl ⟨name, by simp [hslots]⟩

@[simp] theorem get?_put (h : Holders τ α) (name : String) (x : Singleton τ α) :
    (h.put name x).get? name = some x := by
  simp [get?, put]

theorem knows_of_put {y : Singleton τ α} (hy : (h.put name x).Knows y) : y = x ∨ h.Knows y := by
  rcases hy with ⟨other, hy⟩ | ⟨k, hy⟩
  · rcases List.mem_cons.mp hy with heq | hy
    · exact .inl (Prod.mk.inj heq).2
    · exact .inr (.inl ⟨other, (List.mem_filter.mp hy).1⟩)
  · exact .inr (.inr ⟨k, hy⟩)

theorem Sound.put (hs : h.Sound) (name : String) (hx : h.Knows x) : (h.put name x).Sound := by
  have hknows (y : Singleton τ α) (hy : (h.put name x).Knows y) : h.Knows y := by
    rcases knows_of_put hy with rfl | hy
    · exact hx
    · exact hy
  exact ⟨hs.counted, fun y hy => hs.lt_next y (hknows y hy),
    fun y z hy hz => hs.eq_of_identity y z (hknows y hy) (hknows z hz)⟩

theorem Sound.note (hs : h.Sound) (n : Notice) :
    ({ h with registry := h.registry.note n } : Holders τ α).Sound := by
  have hknows (y : Singleton τ α)
      (hy : ({ h with registry := h.registry.note n } : Holders τ α).Knows y) : h.Knows y := by
    rcases hy with hy | ⟨k, hy⟩
    · exact .inl hy
    · exact .inr ⟨k, by simpa using hy⟩
  refine ⟨fun k => ?_, fun y hy => hs.lt_next y (hknows y hy),
    fun y z hy hz => hs.eq_of_identity y z (hknows y hy) (hknows z hz)⟩
  rw [slot_note]
  exact hs.counted k

/-- A slot may be given any object that is known. -/
theorem Sound.setSlot (hs : h.Sound) (k : SingletonKind) {s : SingletonSlot τ α}
    (hcounted : Counted s) (hobject : ∀ y, s.object = some y → h.Knows y) :
    ({ h with registry := h.registry.setSlot k s } : Holders τ α).Sound := by
  have hknows (y : Singleton τ α)
      (hy : ({ h with registry := h.registry.setSlot k s } : Holders τ α).Knows y) :
      h.Knows y := by
    rcases hy with hy | ⟨j, hy⟩
    · exact .inl hy
    · by_cases hj : j = k
      · rw [hj, slot_setSlot] at hy
        exact hobject y hy
      · rw [slot_setSlot_of_ne h.registry s hj] at hy
        exact .inr ⟨j, hy⟩
  refine ⟨fun j => ?_, fun y hy => ?_,
    fun y z hy hz => hs.eq_of_identity y z (hknows y hy) (hknows z hz)⟩
  · by_cases hj : j = k
    · rw [hj, slot_setSlot]
      exact hcounted
    · rw [slot_setSlot_of_ne h.registry s hj]
      exact hs.counted j
  · rw [nextIdentity_setSlot]
    exact hs.lt_next y (hknows y hy)

/-- A new object has an identity that no known one has. -/
theorem Sound.make (hs : h.Sound) (type : τ) (value : α) (name : String) :
    (({ h with registry := (h.registry.make type value).1 } : Holders τ α).put name
      (h.registry.make type value).2).Sound := by
  have hknows {y : Singleton τ α}
      (hy : (({ h with registry := (h.registry.make type value).1 } : Holders τ α).put name
        (h.registry.make type value).2).Knows y) :
      y = ⟨h.registry.nextIdentity, type, value⟩ ∨ h.Knows y := by
    rcases knows_of_put hy with rfl | hy | ⟨k, hy⟩
    · exact .inl rfl
    · exact .inr (.inl hy)
    · exact .inr (.inr ⟨k, by simpa using hy⟩)
  refine ⟨fun k => ?_, fun y hy => ?_, fun y z hy hz heq => ?_⟩
  · have hslot := hs.counted k
    rwa [← slot_make h.registry k type value] at hslot
  · change y.identity < h.registry.nextIdentity + 1
    rcases hknows hy with rfl | hy
    · exact Nat.lt_succ_self _
    · exact Nat.lt_succ_of_lt (hs.lt_next y hy)
  · rcases hknows hy with rfl | hy <;> rcases hknows hz with rfl | hz
    · rfl
    · exact absurd heq.symm (Nat.ne_of_lt (hs.lt_next z hz))
    · exact absurd heq (Nat.ne_of_lt (hs.lt_next y hy))
    · exact hs.eq_of_identity y z hy hz heq

end Holders

/-! ### What a call comes to -/

section Calls

variable {h : Holders τ α} {x : Singleton τ α}

/-- Asking for a singleton joins, is refused for its type, or finds nothing, as the slot is. -/
theorem join_cases [DecidableEq τ] (hs : h.Sound) (k : SingletonKind) (type : τ) :
    (h.registry.slot k = .empty ∧ h.registry.join k type = (h.registry, .vacant)) ∨
    (∃ x n, h.registry.slot k = ⟨some x, n + 1⟩ ∧ x.type = type ∧
      h.registry.join k type = (h.registry.setSlot k ⟨some x, n + 2⟩, .joined x)) ∨
    ∃ x n, h.registry.slot k = ⟨some x, n + 1⟩ ∧ x.type ≠ type ∧
      h.registry.join k type = (h.registry.note (.singletonOfOtherType k.index), .otherType) := by
  rcases hs.counted k with hslot | ⟨x, n, hslot⟩
  · exact .inl ⟨hslot, by simp [join, hslot, SingletonSlot.empty]⟩
  · by_cases htype : x.type = type
    · exact .inr (.inl ⟨x, n, hslot, htype, by simp [join, hslot, htype]⟩)
    · exact .inr (.inr ⟨x, n, hslot, htype, by simp [join, hslot, htype]⟩)

/-- Letting a known object go counts down or empties the slot if it is the one that is there, and
faults if it is not. -/
theorem leave_cases (hs : h.Sound) (k : SingletonKind) (hx : h.Knows x) :
    (∃ n, h.registry.slot k = ⟨some x, n + 2⟩ ∧
      h.registry.leave k x = (h.registry.setSlot k ⟨some x, n + 1⟩, .ok none)) ∨
    (h.registry.slot k = ⟨some x, 1⟩ ∧
      h.registry.leave k x =
        ((h.registry.setSlot k .empty).note (.singletonReleased k.index), .ok (some x))) ∨
    ((h.registry.slot k).object ≠ some x ∧
      h.registry.leave k x =
        (h.registry.note (.unmatchedRelease k.index), .error .unmatchedRelease)) := by
  rcases hs.counted k with hslot | ⟨y, n, hslot⟩
  · exact .inr (.inr (by simp [leave, isUsing, hslot, SingletonSlot.empty]))
  · by_cases hid : y.identity = x.identity
    · obtain rfl := hs.eq_of_identity y x (.inr ⟨k, by rw [hslot]⟩) hx hid
      cases n with
      | zero => exact .inr (.inl ⟨hslot, by simp [leave, isUsing, hslot]⟩)
      | succ n => exact .inl ⟨n, hslot, by simp [leave, isUsing, hslot]⟩
    · refine .inr (.inr ⟨?_, by simp [leave, isUsing, hslot, hid]⟩)
      rw [hslot]
      rintro ⟨⟩
      exact hid rfl

end Calls

/-! ### Runs keep their accounts -/

theorem Leads.refl (r : Singletons τ α) : Leads r r := ⟨fun _ => rfl, Nat.le_refl _⟩

theorem Leads.trans {r r' r'' : Singletons τ α} (h : Leads r r') (h' : Leads r' r'') :
    Leads r r'' :=
  ⟨fun k => (h'.slot_eq k).trans (h.slot_eq k), Nat.le_trans h.next_le h'.next_le⟩

theorem Chained.of_leads {r r' r'' : Singletons τ α} {es : List (Entry τ α)} (h : Leads r r')
    (h' : Chained r' es r'') : Chained r es r'' := by
  cases h' with
  | nil hleads => exact .nil (h.trans hleads)
  | cons hleads hrest => exact .cons (h.trans hleads) hrest

theorem Chained.append {r r' r'' : Singletons τ α} {es es' : List (Entry τ α)}
    (h : Chained r es r') (h' : Chained r' es' r'') : Chained r (es ++ es') r'' := by
  induction h with
  | nil hleads => exact h'.of_leads hleads
  | cons hleads _ ih => exact .cons hleads (ih h')

/-- Between two holders lies a history of lawful entries, in which the locked slots rest. -/
structure Accounted [DecidableEq τ] (locked : List SingletonKind) (h : Holders τ α)
    (es : List (Entry τ α)) (h' : Holders τ α) : Prop where
  sound : h'.Sound
  lawful : ∀ e ∈ es, e.Lawful
  chained : Chained h.registry es h'.registry
  rests : ∀ k ∈ locked, h'.registry.slot k = h.registry.slot k

section Accounted

variable [DecidableEq τ] {locked : List SingletonKind} {h h' h'' : Holders τ α}
  {es es' : List (Entry τ α)} {k : SingletonKind}

/-- A step that is no call. -/
theorem Accounted.of_leads (hs : h'.Sound) (hleads : Leads h.registry h'.registry) :
    Accounted locked h [] h' where
  sound := hs
  lawful _ he := absurd he List.not_mem_nil
  chained := .nil hleads
  rests k _ := hleads.slot_eq k

theorem Accounted.append (hh' : Accounted locked h es h') (hh'' : Accounted locked h' es' h'') :
    Accounted locked h (es ++ es') h'' where
  sound := hh''.sound
  lawful e he := (List.mem_append.mp he).elim (hh'.lawful e) (hh''.lawful e)
  chained := hh'.chained.append hh''.chained
  rests k hk := (hh''.rests k hk).trans (hh'.rests k hk)

theorem Accounted.of_cons (hh' : Accounted (k :: locked) h es h') : Accounted locked h es h' :=
  { hh' with rests := fun j hj => hh'.rests j (List.mem_cons_of_mem _ hj) }

/-- A call of a kind that is not locked. -/
theorem Accounted.of_lawful {e : Entry τ α} (hs : h'.Sound) (he : e.Lawful)
    (hlocked : locked.contains e.kind = false) (hbefore : Leads h.registry e.before.registry)
    (hafter : Leads e.after.registry h'.registry) : Accounted locked h [e] h' where
  sound := hs
  lawful e' he' := by rwa [List.mem_singleton.mp he']
  chained := .cons hbefore (.nil hafter)
  rests j hj := by
    have hne : j ≠ e.kind := by
      rintro rfl
      rw [List.contains_eq_mem, decide_eq_false_iff_not] at hlocked
      exact hlocked hj
    rw [hafter.slot_eq, he.others j hne, hbefore.slot_eq]

/-! ### The calls one by one -/

section Calls

variable {type : τ} {value : α} {target object : String} {error : Option RequestError}
  {inner : List (Step τ α)} {x : Singleton τ α} {n : Nat}

theorem accounted_joined (hs : h.Sound) (hlocked : locked.contains k = false)
    (hslot : h.registry.slot k = ⟨some x, n + 1⟩)
    (hjoin : h.registry.join k x.type = (h.registry.setSlot k ⟨some x, n + 2⟩, .joined x)) :
    let step := Step.acquire k x.type value target error inner
    Accounted locked h (step.history h) (step.run h).1 := by
  intro step
  let after : Holders τ α := { h with registry := h.registry.setSlot k ⟨some x, n + 2⟩ }
  have hrun : step.run h = (after.put target x, .object x.type x.value, []) := by
    rw [Step.run, hjoin]
  have hhistory : step.history h = [⟨k, step, .joins x, h, h, after⟩] := by
    rw [Step.history, hjoin]
  have hknown : h.Knows x := .inr ⟨k, by rw [hslot]⟩
  have hafter : after.Sound :=
    hs.setSlot k (.inr ⟨x, n + 1, rfl⟩) fun y hy => Option.some.inj hy ▸ hknown
  have hlawful : Entry.Lawful ⟨k, step, .joins x, h, h, after⟩ := by
    refine ⟨?_, rfl, fun j hj => slot_setSlot_of_ne _ _ hj, ?_, ?_, by simp [after], nofun⟩
    · simp only [hslot, after, slot_setSlot]
      exact .joins
    · rw [hrun]
      exact ⟨rfl, rfl⟩
    · rintro y name ⟨⟩ ⟨⟩
      rw [hrun, Holders.get?_put]
  rw [hrun, hhistory]
  have hput : after.Knows x := .inr ⟨k, by simp [after]⟩
  exact .of_lawful (hafter.put target hput) hlawful hlocked (.refl _) (.refl _)

theorem accounted_otherType (hs : h.Sound) (hlocked : locked.contains k = false)
    (hslot : h.registry.slot k = ⟨some x, n + 1⟩) (htype : x.type ≠ type)
    (hjoin : h.registry.join k type =
      (h.registry.note (.singletonOfOtherType k.index), .otherType)) :
    let step := Step.acquire k type value target error inner
    Accounted locked h (step.history h) (step.run h).1 := by
  intro step
  let after : Holders τ α := { h with registry := h.registry.note (.singletonOfOtherType k.index) }
  have hrun : step.run h = (after, .error .invalidArgument, []) := by rw [Step.run, hjoin]
  have hhistory : step.history h = [⟨k, step, .mistypes, h, h, after⟩] := by
    rw [Step.history, hjoin]
  have hlawful : Entry.Lawful ⟨k, step, .mistypes, h, h, after⟩ := by
    refine ⟨?_, rfl, fun j _ => slot_note _ j _, ?_, nofun, Nat.le_refl _, nofun⟩
    · simp only [hslot, after, slot_note]
      exact .mistypes htype
    · rw [hrun]
      exact ⟨rfl, rfl⟩
  rw [hrun, hhistory]
  exact .of_lawful (hs.note _) hlawful hlocked (.refl _) (.refl _)

/-- An object that cannot be made leaves the slot empty. -/
theorem accounted_failed {e : RequestError} (hlocked : locked.contains k = false)
    (hslot : h.registry.slot k = .empty) (hjoin : h.registry.join k type = (h.registry, .vacant))
    (hinner : Accounted (k :: locked) h (Step.historyAll h inner) (Step.runAll h inner).1) :
    let step := Step.acquire k type value target (some e) inner
    Accounted locked h (step.history h) (step.run h).1 := by
  intro step
  let made := (Step.runAll h inner).1
  have hrun : step.run h = (made, .error e, [.making k (Step.runAll h inner).2]) := by
    rw [Step.run, hjoin]
  have hhistory : step.history h =
      Step.historyAll h inner ++ [⟨k, step, .fails e, h, made, made⟩] := by
    rw [Step.history, hjoin]
  have hempty : made.registry.slot k = .empty :=
    (hinner.rests k (List.mem_cons_self ..)).trans hslot
  have hlawful : Entry.Lawful ⟨k, step, .fails e, h, made, made⟩ := by
    refine ⟨?_, hslot.trans hempty.symm, fun _ _ => rfl, ?_, nofun, Nat.le_refl _, nofun⟩
    · simp only [hempty]
      exact .fails
    · rw [hrun]
      exact ⟨rfl, _, rfl⟩
  rw [hrun, hhistory]
  exact hinner.of_cons.append (.of_lawful hinner.sound hlawful hlocked (.refl _) (.refl _))

/-- The closure runs with the slot locked and empty; then the new object fills it. -/
theorem accounted_filled (hlocked : locked.contains k = false)
    (hslot : h.registry.slot k = .empty) (hjoin : h.registry.join k type = (h.registry, .vacant))
    (hinner : Accounted (k :: locked) h (Step.historyAll h inner) (Step.runAll h inner).1) :
    let step := Step.acquire k type value target none inner
    Accounted locked h (step.history h) (step.run h).1 := by
  intro step
  let made := (Step.runAll h inner).1
  let x := (made.registry.fill k type value).2
  let after : Holders τ α := { made with registry := (made.registry.fill k type value).1 }
  have hrun : step.run h =
      (after.put target x, .object x.type x.value, [.making k (Step.runAll h inner).2]) := by
    rw [Step.run, hjoin]
  have hhistory : step.history h =
      Step.historyAll h inner ++ [⟨k, step, .fills x, h, made, after⟩] := by
    rw [Step.history, hjoin]
  have hempty : made.registry.slot k = .empty :=
    (hinner.rests k (List.mem_cons_self ..)).trans hslot
  have hfull : after.registry.slot k = ⟨some x, 1⟩ := by
    change ((((made.registry.make type value).1.setSlot k
      ⟨some x, ((made.registry.make type value).1.slot k).uses + 1⟩).note _).slot k) = _
    rw [slot_note, slot_setSlot, slot_make, hempty]
    rfl
  have hothers (j : SingletonKind) (hj : j ≠ k) :
      after.registry.slot j = made.registry.slot j := by
    change ((((made.registry.make type value).1.setSlot k _).note _).slot j) = _
    rw [slot_note, slot_setSlot_of_ne _ _ hj, slot_make]
  have hnext : after.registry.nextIdentity = made.registry.nextIdentity + 1 := by
    change (((made.registry.make type value).1.setSlot k _).note _).nextIdentity = _
    rw [nextIdentity_note, nextIdentity_setSlot]
    rfl
  have hlawful : Entry.Lawful ⟨k, step, .fills x, h, made, after⟩ := by
    refine ⟨?_, hslot.trans hempty.symm, hothers, ?_, ?_, ?_, ?_⟩
    · simp only [hempty, hfull]
      exact .fills (x := x)
    · rw [hrun]
      exact ⟨rfl, _, rfl⟩
    · rintro y name ⟨⟩ ⟨⟩
      rw [hrun, Holders.get?_put]
    · exact hnext ▸ Nat.le_succ _
    · rintro y ⟨⟩
      exact ⟨Nat.le_refl _, hnext ▸ Nat.lt_succ_self _⟩
  have hsound : (after.put target x).Sound := by
    have hmade := hinner.sound.make type value target
    have hknown : Holders.Knows (({ made with registry := (made.registry.make type value).1 } :
        Holders τ α).put target (made.registry.make type value).2) x :=
      .inl ⟨target, List.mem_cons_self ..⟩
    refine (hmade.setSlot k (s := ⟨some x, _⟩) (.inr ⟨x, _, rfl⟩) fun y hy => ?_).note
      (.singletonCreated k.index)
    exact Option.some.inj hy ▸ hknown
  rw [hrun, hhistory]
  exact hinner.of_cons.append (.of_lawful hsound hlawful hlocked (.refl _) (.refl _))

theorem accounted_left (hs : h.Sound) (hlocked : locked.contains k = false)
    (hget : h.get? object = some x) (hslot : h.registry.slot k = ⟨some x, n + 2⟩)
    (hleave : h.registry.leave k x = (h.registry.setSlot k ⟨some x, n + 1⟩, .ok none)) :
    let step := Step.release k object inner
    Accounted locked h (step.history h) (step.run h).1 := by
  intro step
  let after : Holders τ α := { h with registry := h.registry.setSlot k ⟨some x, n + 1⟩ }
  have hrun : step.run h = (after, .done, []) := by
    rw [Step.run, hget]
    simp only [hleave, after]
  have hhistory : step.history h = [⟨k, step, .leaves x, h, h, after⟩] := by
    rw [Step.history, hget]
    simp only [hleave, after, step]
  have hlawful : Entry.Lawful ⟨k, step, .leaves x, h, h, after⟩ := by
    refine ⟨?_, rfl, fun j hj => slot_setSlot_of_ne _ _ hj, ?_, nofun, by simp [after], nofun⟩
    · simp only [hslot, after, slot_setSlot]
      exact .leaves hget
    · rw [hrun]
      exact ⟨rfl, rfl⟩
  rw [hrun, hhistory]
  refine .of_lawful (hs.setSlot k (.inr ⟨x, n, rfl⟩) fun y hy => ?_) hlawful hlocked
    (.refl _) (.refl _)
  exact Option.some.inj hy ▸ Holders.knows_of_get? hget

/-- The last use leaves the slot empty, and then the closure runs with the slot locked. -/
theorem accounted_emptied (hs : h.Sound) (hlocked : locked.contains k = false)
    (hget : h.get? object = some x) (hslot : h.registry.slot k = ⟨some x, 1⟩)
    (hleave : h.registry.leave k x =
      ((h.registry.setSlot k .empty).note (.singletonReleased k.index), .ok (some x)))
    (hinner : ∀ after : Holders τ α, after.Sound →
      after = { h with
        registry := (h.registry.setSlot k .empty).note (.singletonReleased k.index) } →
      Accounted (k :: locked) after (Step.historyAll after inner) (Step.runAll after inner).1) :
    let step := Step.release k object inner
    Accounted locked h (step.history h) (step.run h).1 := by
  intro step
  let after : Holders τ α :=
    { h with registry := (h.registry.setSlot k .empty).note (.singletonReleased k.index) }
  have hrun : step.run h = ((Step.runAll after inner).1, .done,
      [.releasing k x.value (Step.runAll after inner).2]) := by
    rw [Step.run, hget]
    simp only [hleave, after]
  have hhistory : step.history h =
      [⟨k, step, .empties x, h, h, after⟩] ++ Step.historyAll after inner := by
    rw [Step.history, hget]
    simp only [hleave, after, step, List.singleton_append]
  have hlawful : Entry.Lawful ⟨k, step, .empties x, h, h, after⟩ := by
    refine ⟨?_, rfl, fun j hj => ?_, ?_, nofun, by simp [after], nofun⟩
    · simp only [hslot, after, slot_note, slot_setSlot]
      exact .empties hget
    · simp only [after, slot_note, slot_setSlot_of_ne _ _ hj]
    · rw [hrun]
      exact ⟨rfl, _, rfl⟩
  have hafter : after.Sound := (hs.setSlot k (.inl rfl) nofun).note _
  rw [hrun, hhistory]
  exact (Accounted.of_lawful hafter hlawful hlocked (.refl _) (.refl _)).append
    (hinner after hafter rfl).of_cons

theorem accounted_faulted (hs : h.Sound) (hlocked : locked.contains k = false)
    (hget : h.get? object = some x) (hslot : (h.registry.slot k).object ≠ some x)
    (hleave : h.registry.leave k x =
      (h.registry.note (.unmatchedRelease k.index), .error .unmatchedRelease)) :
    let step := Step.release k object inner
    Accounted locked h (step.history h) (step.run h).1 := by
  intro step
  let after : Holders τ α := { h with registry := h.registry.note (.unmatchedRelease k.index) }
  have hrun : step.run h = (after, .fault .unmatchedRelease, []) := by
    rw [Step.run, hget]
    simp only [hleave, after]
  have hhistory : step.history h = [⟨k, step, .faults, h, h, after⟩] := by
    rw [Step.history, hget]
    simp only [hleave, after, step]
  have hlawful : Entry.Lawful ⟨k, step, .faults, h, h, after⟩ := by
    refine ⟨?_, rfl, fun j _ => slot_note _ j _, ?_, nofun, Nat.le_refl _, nofun⟩
    · simp only [after, slot_note]
      exact .faults hget hslot
    · rw [hrun]
      exact ⟨rfl, rfl⟩
  rw [hrun, hhistory]
  exact .of_lawful (hs.note _) hlawful hlocked (.refl _) (.refl _)

end Calls

end Accounted

/-! ### Whole runs -/

section Runs

variable [DecidableEq τ]

mutual

theorem accounted_run (step : Step τ α) {locked : List SingletonKind} {h : Holders τ α}
    (hs : h.Sound) (hoff : step.keepsOff locked h = true) :
    Accounted locked h (step.history h) (step.run h).1 := by
  match step with
  | .acquire kind type value target error inner =>
    rw [Step.keepsOff, Bool.and_eq_true, Bool.not_eq_true'] at hoff
    obtain ⟨hlocked, hoff⟩ := hoff
    rcases join_cases hs kind type with
      ⟨hslot, hjoin⟩ | ⟨x, n, hslot, rfl, hjoin⟩ | ⟨x, n, hslot, htype, hjoin⟩
    · rw [hjoin] at hoff
      have hinner := accounted_runAll inner hs hoff
      cases error with
      | some e => exact accounted_failed hlocked hslot hjoin hinner
      | none => exact accounted_filled hlocked hslot hjoin hinner
    · exact accounted_joined hs hlocked hslot hjoin
    · exact accounted_otherType hs hlocked hslot htype hjoin
  | .release kind object inner =>
    rw [Step.keepsOff] at hoff
    cases hget : h.get? object with
    | none =>
      rw [Step.history, Step.run, hget]
      exact .of_leads hs (.refl _)
    | some x =>
      rw [hget] at hoff
      simp only [Bool.and_eq_true, Bool.not_eq_true'] at hoff
      obtain ⟨hlocked, hoff⟩ := hoff
      rcases leave_cases hs kind (Holders.knows_of_get? hget) with
        ⟨n, hslot, hleave⟩ | ⟨hslot, hleave⟩ | ⟨hslot, hleave⟩
      · exact accounted_left hs hlocked hget hslot hleave
      · rw [hleave] at hoff
        refine accounted_emptied hs hlocked hget hslot hleave fun after hafter heq => ?_
        subst heq
        exact accounted_runAll inner hafter hoff
      · exact accounted_faulted hs hlocked hget hslot hleave
  | .stray type value target =>
    rw [Step.history, Step.run]
    exact .of_leads (hs.make type value target) ⟨fun k => slot_make _ k type value, Nat.le_succ _⟩
  | .same a b =>
    rw [Step.history, Step.run]
    exact .of_leads hs (.refl _)
  | .useCount kind =>
    rw [Step.history, Step.run]
    exact .of_leads hs (.refl _)
  | .isIdle =>
    rw [Step.history, Step.run]
    exact .of_leads hs (.refl _)

theorem accounted_runAll (script : List (Step τ α)) {locked : List SingletonKind}
    {h : Holders τ α} (hs : h.Sound) (hoff : Step.keepOff locked h script = true) :
    Accounted locked h (Step.historyAll h script) (Step.runAll h script).1 := by
  match script with
  | [] =>
    rw [Step.historyAll, Step.runAll]
    exact .of_leads hs (.refl _)
  | step :: rest =>
    rw [Step.keepOff, Bool.and_eq_true] at hoff
    have hfirst := accounted_run step hs hoff.1
    rw [Step.historyAll, Step.runAll]
    exact hfirst.append (accounted_runAll rest hfirst.sound hoff.2)

end

end Runs

end BufferObjects.Singletons
