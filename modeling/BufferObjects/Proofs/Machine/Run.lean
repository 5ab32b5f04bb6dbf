import BufferObjects.Proofs.Machine.Step

/-!
Runs of the machine. A run is orderly if calls that go past the clients are about objects of the
device they are made to, and if no count of references leaves its word. Everything in this library
that is promised of counts, names and ends is promised of orderly runs, at whatever point of them:
between operations as well as inside any hook. Tame runs allow a little more: a call may be about an
object of another device as long as it neither gives nor takes a number there. Each tame move keeps
the machine sound, so every state of such a run is.
-/

open scoped List

namespace BufferObjects

/-- Whether no object has more references than can be counted. Whoever takes one more is stopped for
good, so that nothing is ever seen beyond. -/
def World.countsFit (w : World) : Bool := w.objects.all fun x => x.refs ≤ 2 ^ 63

namespace Machine

/-- Whether a move is one that the library is meant for. -/
def isOrderly (m : Machine) : Move → Bool
  | .call r => r.isOwn m.world
  | _ => true

/-- Makes an orderly move, if it can be made and every count fits afterwards. -/
def orderlyMove? (m : Machine) (x : Move) : Option Machine :=
  if m.isOrderly x then (m.move? x).filter fun m' => m'.world.countsFit else none

/-- Whether a move gives and takes numbers of objects only at their own devices. -/
def isTame (m : Machine) : Move → Bool
  | .call r => r.isTame m.world
  | _ => true

/-- Makes a tame move, if it can be made and every count fits afterwards. -/
def tameMove? (m : Machine) (x : Move) : Option Machine :=
  if m.isTame x then (m.move? x).filter fun m' => m'.world.countsFit else none

/-- Makes tame moves one after the other. -/
def tameRun? (m : Machine) : List Move → Option Machine
  | [] => some m
  | x :: xs => (m.tameMove? x).bind fun m' => m'.tameRun? xs

/-- Makes orderly moves one after the other. -/
def orderlyRun? (m : Machine) : List Move → Option Machine
  | [] => some m
  | x :: xs => (m.orderlyMove? x).bind fun m' => m'.orderlyRun? xs

/-- Makes orderly moves one after the other, as long as each of them passes a test. -/
def orderlyRunWhile? (test : Machine → Move → Machine → Bool) (m : Machine) :
    List Move → Option Machine
  | [] => some m
  | x :: xs => ((m.orderlyMove? x).filter (test m x)).bind fun m' => m'.orderlyRunWhile? test xs

/-- Makes tame moves one after the other, as long as each of them passes a test. -/
def tameRunWhile? (test : Machine → Move → Machine → Bool) (m : Machine) :
    List Move → Option Machine
  | [] => some m
  | x :: xs => ((m.tameMove? x).filter (test m x)).bind fun m' => m'.tameRunWhile? test xs

/-- How most runs begin: a device with small tables gets a client and an object, which its driver
prepares and its caller holds. -/
def opening : List Move :=
  [.call (.newDevice { handleOrder := 2, nameOrder := 2, tokenOrder := 2 } default), .finish,
    .call (.openClient 0), .finish, .call (.createObject 0 4096), .answer .accept, .finish]

/-- The references that are held outside the world. -/
def outside (m : Machine) : List ObjectRef :=
  m.operations.flatMap Operation.references ++ m.held

/-- The uses that operations in progress have taken over. -/
def uses (m : Machine) : List ObjectRef := m.operations.flatMap Operation.uncounted

/-- What is true at every point of an orderly run. -/
structure Sound (m : Machine) : Prop where
  world : m.world.Sound m.outside m.uses
  countsFit : ∀ o, (m.world.object o).refs ≤ 2 ^ 63
  operations : ∀ op ∈ m.operations, op.Sound m.world
  /-- What a handle is being made of stays with the caller. -/
  lent : ∀ op ∈ m.operations, ∀ c o, op.request = .createHandle c o → o ∈ m.held
  /-- A client is not dropped under another operation. -/
  apart : m.operations.Pairwise fun inner outer =>
    ∀ c, inner.request = .dropClient c → outer.request.client? ≠ some c

variable {m m' : Machine} {r : Request} {x : Move} {xs ys : List Move}

/-! ### Moves and runs -/

theorem refs_le_of_countsFit {w : World} (h : w.countsFit = true) (o : ObjectRef) :
    (w.object o).refs ≤ 2 ^ 63 := by
  rcases Nat.lt_or_ge o w.objects.size with hlt | hge
  · rw [World.countsFit, Array.all_eq_true] at h
    simpa [World.object, hlt] using h o hlt
  · rw [World.object_of_size_le hge]
    decide

theorem orderlyMove?_eq_some :
    m.orderlyMove? x = some m' ↔ m.isOrderly x = true ∧ m.move? x = some m' ∧
      m'.world.countsFit = true := by
  unfold orderlyMove?
  split
  · next h => simp [h, Option.filter_eq_some_iff]
  · next h => simp [h]

theorem tameMove?_eq_some :
    m.tameMove? x = some m' ↔ m.isTame x = true ∧ m.move? x = some m' ∧
      m'.world.countsFit = true := by
  unfold tameMove?
  split
  · next h => simp [h, Option.filter_eq_some_iff]
  · next h => simp [h]

theorem isTame_of_isOrderly (h : m.isOrderly x = true) : m.isTame x = true := by
  cases x with
  | call r => exact Bool.or_eq_true_iff.mpr (Or.inl h)
  | _ => rfl

theorem tameMove?_of_orderlyMove? (h : m.orderlyMove? x = some m') : m.tameMove? x = some m' := by
  obtain ⟨horderly, hx, hfit⟩ := orderlyMove?_eq_some.mp h
  exact tameMove?_eq_some.mpr ⟨isTame_of_isOrderly horderly, hx, hfit⟩

theorem tameRun?_of_orderlyRun? (h : m.orderlyRun? xs = some m') : m.tameRun? xs = some m' := by
  induction xs generalizing m with
  | nil => exact h
  | cons x xs ih =>
    obtain ⟨m₁, hx, hxs⟩ := Option.bind_eq_some_iff.mp h
    exact Option.bind_eq_some_iff.mpr ⟨m₁, tameMove?_of_orderlyMove? hx, ih hxs⟩

theorem tameRun?_induction {P : Machine → Prop}
    (hstep : ∀ m x m', P m → m.tameMove? x = some m' → P m') (h : P m)
    (hrun : m.tameRun? xs = some m') : P m' := by
  induction xs generalizing m with
  | nil =>
    cases hrun
    exact h
  | cons x xs ih =>
    obtain ⟨m₁, hx, hxs⟩ := Option.bind_eq_some_iff.mp hrun
    exact ih (hstep m x m₁ h hx) hxs

theorem orderlyRun?_induction {P : Machine → Prop}
    (hstep : ∀ m x m', P m → m.orderlyMove? x = some m' → P m') (h : P m)
    (hrun : m.orderlyRun? xs = some m') : P m' := by
  induction xs generalizing m with
  | nil =>
    cases hrun
    exact h
  | cons x xs ih =>
    obtain ⟨m₁, hx, hxs⟩ := Option.bind_eq_some_iff.mp hrun
    exact ih (hstep m x m₁ h hx) hxs

theorem orderlyRunWhile?_induction {test : Machine → Move → Machine → Bool} {P : Machine → Prop}
    (hstep : ∀ m x m', P m → m.orderlyMove? x = some m' → test m x m' = true → P m') (h : P m)
    (hrun : m.orderlyRunWhile? test xs = some m') : P m' := by
  induction xs generalizing m with
  | nil =>
    cases hrun
    exact h
  | cons x xs ih =>
    obtain ⟨m₁, hx, hxs⟩ := Option.bind_eq_some_iff.mp hrun
    obtain ⟨hmove, htest⟩ := Option.filter_eq_some_iff.mp hx
    exact ih (hstep m x m₁ h hmove htest) hxs

theorem tameRun?_of_tameRunWhile? {test : Machine → Move → Machine → Bool}
    (h : m.tameRunWhile? test xs = some m') : m.tameRun? xs = some m' := by
  induction xs generalizing m with
  | nil => exact h
  | cons x xs ih =>
    obtain ⟨m₁, hx, hxs⟩ := Option.bind_eq_some_iff.mp h
    obtain ⟨hmove, -⟩ := Option.filter_eq_some_iff.mp hx
    exact Option.bind_eq_some_iff.mpr ⟨m₁, hmove, ih hxs⟩

theorem tameRun?_eq_tameRunWhile? (m : Machine) (xs : List Move) :
    m.tameRun? xs = m.tameRunWhile? (fun _ _ _ => true) xs := by
  induction xs generalizing m with
  | nil => rfl
  | cons x xs ih =>
    rw [tameRun?, tameRunWhile?]
    cases m.tameMove? x with
    | none => rfl
    | some m' => exact ih m'

theorem tameRunWhile?_append {test : Machine → Move → Machine → Bool} {m' : Machine}
    (hrun : m.tameRunWhile? test xs = some m') (ys : List Move) :
    m.tameRunWhile? test (xs ++ ys) = m'.tameRunWhile? test ys := by
  induction xs generalizing m with
  | nil =>
    cases hrun
    rfl
  | cons x xs ih =>
    obtain ⟨m₁, hx, hxs⟩ := Option.bind_eq_some_iff.mp hrun
    rw [List.cons_append, tameRunWhile?, hx]
    exact ih hxs

theorem tameRun?_append {m' : Machine} (hrun : m.tameRun? xs = some m') (ys : List Move) :
    m.tameRun? (xs ++ ys) = m'.tameRun? ys := by
  rw [tameRun?_eq_tameRunWhile?] at hrun ⊢
  rw [tameRunWhile?_append hrun, tameRun?_eq_tameRunWhile?]

theorem tameRunWhile?_cons {test : Machine → Move → Machine → Bool}
    (hmove : m.tameMove? x = some m') (htest : test m x m' = true) :
    m.tameRunWhile? test (x :: xs) = m'.tameRunWhile? test xs := by
  rw [tameRunWhile?, hmove, Option.filter_some, if_pos htest, Option.bind_some]

theorem call?_eq_some :
    m.call? r = some m' ↔ m.permits r = true ∧
      m' = ⟨(r.start m.world).1, m.heldDuring r, (r.start m.world).2 :: m.operations⟩ := by
  unfold call?
  split
  · next h => simp [h, eq_comm]
  · next h => simp [h]

theorem held_of_permits (h : m.permits r = true) {d : DeviceRef} (hd : r.device? = some d) :
    (m.world.device d).held = true := by
  simp only [permits, canReach, Bool.and_eq_true, Option.all_eq_true] at h
  exact h.1.2.1.1.1 d hd

theorem present_of_permits (h : m.permits r = true) {c : ClientRef} (hc : r.client? = some c) :
    (m.world.client c).present = true := by
  simp only [permits, canReach, Bool.and_eq_true, Option.all_eq_true] at h
  exact h.1.2.1.1.2 c hc

theorem mem_held_of_permits (h : m.permits r = true) {o : ObjectRef} (ho : r.object? = some o) :
    o ∈ m.held := by
  simp only [permits, canReach, Bool.and_eq_true, Option.all_eq_true, List.contains_iff_mem] at h
  exact h.1.2.1.2 o ho

theorem of_work? (h : m.work? = some m') : ∃ op outer task rest,
    m.operations = op :: outer ∧ op.todo = task :: rest ∧ task.hook? = none ∧
      m' = ⟨(carryOut m.world op task rest).1, m.held,
        (carryOut m.world op task rest).2 :: outer⟩ := by
  unfold work? at h
  split at h
  · next op outer hops =>
    split at h
    · next task rest htodo =>
      split at h
      · cases h
      · next hhook =>
        cases h
        exact ⟨op, outer, task, rest, hops, htodo, by simpa using hhook, rfl⟩
    · cases h
  · cases h

theorem of_answer? {v : Verdict} (h : m.answer? v = some m') : ∃ op outer task rest call,
    m.operations = op :: outer ∧ op.todo = task :: rest ∧ task.hook? = some call ∧
      m' = ⟨(conclude m.world op task rest v).1, m.held,
        (conclude m.world op task rest v).2 :: outer⟩ := by
  unfold answer? at h
  split at h
  · next op outer hops =>
    split at h
    · next task rest htodo =>
      split at h
      · next hhook =>
        cases h
        obtain ⟨call, hcall⟩ := Option.isSome_iff_exists.mp hhook
        exact ⟨op, outer, task, rest, call, hops, htodo, hcall, rfl⟩
      · cases h
    · cases h
  · cases h

theorem of_finish (h : m.move? .finish = some m') : ∃ op outer,
    m.operations = op :: outer ∧ op.todo = [] ∧
      m' = ⟨m.world, (handedOver op.outcome).toList ++ m.held, outer⟩ := by
  simp only [move?, finish?] at h
  split at h
  · next op outer hops =>
    split at h
    · next htodo =>
      cases h
      exact ⟨op, outer, hops, by simpa using htodo, rfl⟩
    · cases h
  · cases h

/-! ### Operations further out -/

/-- Uses are taken over together with references. -/
theorem count_uncounted_le {w : World} {ops : List Operation} (h : ∀ op ∈ ops, op.Sound w)
    (o : ObjectRef) :
    (ops.flatMap Operation.uncounted).count o ≤ (ops.flatMap Operation.references).count o := by
  induction ops with
  | nil => exact Nat.le_refl _
  | cons op ops ih =>
    have hhead := (h op List.mem_cons_self).due.count_uncounted_le o
    have htail := ih fun op' hop' => h op' (List.mem_cons_of_mem _ hop')
    have hown : op.uncounted.count o ≤ op.references.count o := by
      rw [Operation.references, List.count_append]
      exact Nat.le_trans hhead (Nat.le_add_right _ _)
    simp only [List.flatMap_cons, List.count_append]
    omega

/-- While an operation waits at a hook about an object, it has the object or its caller has, unless
the hook tells of the object's end. -/
theorem mem_of_hook {w : World} {op : Operation} {o : ObjectRef} (h : op.Sound w) {hook : Hook}
    (hhook : op.hook? = some ⟨hook, o⟩) :
    o ∈ op.references ∨ (∃ c, op.request = .createHandle c o) ∨ (w.object o).refs = 0 := by
  obtain ⟨r, todo, outcome⟩ := op
  have hfreed := h.freed o
  have hdue := h.due
  dsimp only at hdue
  cases hdue with
  | agenda hagenda =>
    cases hagenda with
    | close d p hc =>
      obtain ⟨-, rfl⟩ : .closed _ = hook ∧ p = o := by
        simpa [Operation.hook?, Task.hook?] using hhook
      exact Or.inl (by simp [Operation.references, Task.references])
    | done | drop | uncount | forget | leave => simp [Operation.hook?, Task.hook?] at hhook
  | freed p _ =>
    obtain ⟨-, rfl⟩ : .freed = hook ∧ p = o := by simpa [Operation.hook?, Task.hook?] using hhook
    exact Or.inr (Or.inr (hfreed List.mem_cons_self).2)
  | prepare p =>
    obtain ⟨-, rfl⟩ : .prepare = hook ∧ p = o := by simpa [Operation.hook?, Task.hook?] using hhook
    exact Or.inl (by simp [Operation.references, handedOver, Reply.object?])
  | opened hd p hc hrest =>
    obtain ⟨-, rfl⟩ : .opened _ = hook ∧ p = o := by
      simpa [Operation.hook?, Task.hook?] using hhook
    rcases hrest with ⟨-, hr⟩ | rfl
    · exact Or.inr (Or.inl ⟨_, hr⟩)
    · exact Or.inl (by simp [Operation.references, Task.references])

theorem heldDuring_of_ne {r : Request} (h : ∀ o, r ≠ .dropObject o) : m.heldDuring r = m.held := by
  cases r with
  | dropObject o => exact absurd rfl (h o)
  | _ => rfl

namespace Sound

theorem alive_of_permits (h : m.Sound) (hperm : m.permits r = true) {d : DeviceRef}
    (hd : r.device? = some d) : (m.world.device d).alive = true :=
  h.world.kept.of_held (held_of_permits hperm hd)

theorem live_of_permits (h : m.Sound) (hperm : m.permits r = true) {o : ObjectRef}
    (ho : r.object? = some o) : 0 < (m.world.object o).refs :=
  h.world.live_of_outside (List.mem_append_right _ (mem_held_of_permits hperm ho))

theorem ready (h : m.Sound) (hperm : m.permits r = true) (htame : r.isTame m.world = true) :
    r.Ready m.world (m.operations.flatMap Operation.references ++ m.heldDuring r) := by
  simp only [permits, canReach, Bool.and_eq_true, Option.all_eq_true, List.contains_iff_mem,
    Bool.or_eq_true] at hperm
  obtain ⟨⟨-, ⟨⟨hdevice, hclient⟩, hobject⟩, hviewed⟩, -⟩ := hperm
  refine ⟨fun d hd => h.world.kept.of_held (hdevice d hd), hclient, fun o ho => ?_,
    fun o ho hname => ?_, htame⟩
  · exact h.world.live_of_outside (List.mem_append_right _ (hobject o ho))
  · have hheld : m.heldDuring r = m.held := heldDuring_of_ne (by rintro p rfl; cases ho)
    rw [hheld]
    rcases hviewed o ho with hin | hlent
    · exact List.mem_append_right _ hin
    · obtain ⟨op, hop, hhook⟩ := List.any_eq_true.mp hlent
      obtain ⟨hook, hcall⟩ : ∃ hook, op.hook? = some ⟨hook, o⟩ := by
        change op.hook?.any _ = true at hhook
        cases hcall : op.hook? with
        | none => simp [hcall] at hhook
        | some call =>
          obtain rfl : call.object = o := by simpa [hcall] using hhook
          exact ⟨call.hook, rfl⟩
      -- what a hook is about is held by the operation or by its caller, unless it is dead
      rcases mem_of_hook (h.operations op hop) hcall with hmem | ⟨c, hr⟩ | hdead
      · exact List.mem_append_left _ (List.mem_flatMap.mpr ⟨op, hop, hmem⟩)
      · exact List.mem_append_right _ (h.lent op hop c o hr)
      · exact absurd hdead (Nat.ne_of_gt (h.world.live_of_name hname))

theorem begins (h : m.Sound) (hperm : m.permits r = true) (htame : r.isTame m.world = true) :
    r.Begins m.world (m.operations.flatMap Operation.references ++ m.heldDuring r) m.uses
      (r.start m.world).1 (r.start m.world).2 := by
  refine r.begins (h.ready hperm htame) ?_
  cases r with
  | dropObject o =>
    have ho : o ∈ m.held := mem_held_of_permits hperm rfl
    refine h.world.perm ?_ (.refl _)
    rw [outside]
    calc [o] ++ (m.operations.flatMap Operation.references ++ m.held.erase o)
      _ ~ m.operations.flatMap Operation.references ++ ([o] ++ m.held.erase o) :=
        List.perm_append_comm_assoc _ _ _
      _ ~ m.operations.flatMap Operation.references ++ m.held :=
        (List.perm_cons_erase ho).symm.append_left _
  | _ => exact h.world

theorem continues (h : m.Sound) {op : Operation} {outer : List Operation} {task : Task}
    {rest : List Task} (hops : m.operations = op :: outer) (htodo : op.todo = task :: rest)
    (hhook : task.hook? = none) :
    Continues m.world (outer.flatMap Operation.references ++ m.held)
      (outer.flatMap Operation.uncounted) op.request none (carryOut m.world op task rest).1
      (carryOut m.world op task rest).2 := by
  have houter (op' : Operation) (hop' : op' ∈ outer) : op'.Sound m.world :=
    h.operations op' (by rw [hops]; exact List.mem_cons_of_mem _ hop')
  have hworld := h.world
  rw [outside, uses, hops, List.flatMap_cons, List.flatMap_cons, List.append_assoc] at hworld
  refine (h.operations op (by rw [hops]; exact List.mem_cons_self)).continues htodo hhook hworld
    (fun p => ?_) h.countsFit fun p hp => ?_
  · rw [List.count_append]
    exact Nat.le_trans (count_uncounted_le houter p) (Nat.le_add_right _ _)
  · obtain ⟨op', hop', hp'⟩ := List.mem_flatMap.mp hp
    exact (houter op' hop').isKept_of_uncounted hp'

theorem concludes (h : m.Sound) {op : Operation} {outer : List Operation} {task : Task}
    {rest : List Task} {call : HookCall} (hops : m.operations = op :: outer)
    (htodo : op.todo = task :: rest) (hhook : task.hook? = some call) (v : Verdict) :
    Continues m.world (outer.flatMap Operation.references ++ m.held)
      (outer.flatMap Operation.uncounted) op.request (call.preparedBy v)
      (conclude m.world op task rest v).1 (conclude m.world op task rest v).2 := by
  have hworld := h.world
  rw [outside, uses, hops, List.flatMap_cons, List.flatMap_cons, List.append_assoc] at hworld
  exact (h.operations op (by rw [hops]; exact List.mem_cons_self)).concludes htodo hhook hworld v

/-! ### Moves keep the machine sound -/

theorem call (h : m.Sound) (htame : r.isTame m.world = true) (hcall : m.call? r = some m')
    (hfit : m'.world.countsFit = true) : m'.Sound := by
  obtain ⟨hperm, rfl⟩ := call?_eq_some.mp hcall
  have hbegins := h.begins hperm htame
  simp only [permits, pullsAway, canReach, Bool.and_eq_true, Bool.not_eq_true',
    Option.all_eq_true, List.contains_iff_mem] at hperm
  obtain ⟨⟨-, ⟨⟨-, -⟩, hobject⟩, -⟩, hpull⟩ := hperm
  refine ⟨?_, refs_le_of_countsFit hfit, fun op hop => ?_, fun op hop c o hr => ?_, ?_⟩
  · rw [outside, uses, List.flatMap_cons, List.flatMap_cons, List.append_assoc]
    exact hbegins.sound
  · rcases List.mem_cons.mp hop with rfl | hop
    · exact hbegins.operation
    · exact (h.operations op hop).keeps hbegins.keeps
  · rcases List.mem_cons.mp hop with rfl | hold
    · rw [hbegins.request_eq] at hr
      rw [heldDuring_of_ne (by rintro p rfl; cases hr)]
      exact hobject o (by rw [hr]; rfl)
    · have ho := h.lent op hold c o hr
      by_cases hdrop : r = .dropObject o
      · -- someone else's handle is being made of it, so the caller has it twice
        subst hdrop
        have hany : (m.operations.any fun op =>
            op.request.object? == some o || op.request.viewed? == some o) = true :=
          List.any_eq_true.mpr ⟨op, hold, by simp [hr, Request.object?]⟩
        simp only [hany, Bool.and_true, decide_eq_false_iff_not, Nat.not_lt] at hpull
        refine List.count_pos_iff.mp ?_
        rw [heldDuring, List.count_erase_self]
        omega
      · cases r with
        | dropObject p => exact (List.mem_erase_of_ne fun heq => hdrop (by rw [heq])).mpr ho
        | _ => exact ho
  · refine List.pairwise_cons.mpr ⟨fun op hop c hc => ?_, h.apart⟩
    rw [hbegins.request_eq] at hc
    subst hc
    intro heq
    exact absurd (by simp [heq]) (List.any_eq_false.mp hpull op hop)

theorem of_continues (h : m.Sound) {op op' : Operation} {outer : List Operation} {w : World}
    {prepared : Option ObjectRef} (hops : m.operations = op :: outer)
    (hcont : Continues m.world (outer.flatMap Operation.references ++ m.held)
      (outer.flatMap Operation.uncounted) op.request prepared w op')
    (hfit : w.countsFit = true) : Sound ⟨w, m.held, op' :: outer⟩ := by
  have hapart := h.apart
  rw [hops, List.pairwise_cons] at hapart
  obtain ⟨hinner, houter⟩ := hapart
  refine ⟨?_, refs_le_of_countsFit hfit, fun p hp => ?_, fun p hp c o hr => ?_, ?_⟩
  · rw [outside, uses, List.flatMap_cons, List.flatMap_cons, List.append_assoc]
    exact hcont.sound
  · rcases List.mem_cons.mp hp with rfl | hp
    · exact hcont.operation
    · refine (h.operations p (by rw [hops]; exact List.mem_cons_of_mem _ hp)).mono
        hcont.turn.toFollows fun c hc hpresent => hcont.present c ?_ hpresent
      -- a client that goes here is not that of an operation further out
      intro hdrop
      exact hinner p hp c hdrop hc
  · rcases List.mem_cons.mp hp with rfl | hp
    · rw [hcont.request_eq] at hr
      exact h.lent op (by rw [hops]; exact List.mem_cons_self) c o hr
    · exact h.lent p (by rw [hops]; exact List.mem_cons_of_mem _ hp) c o hr
  · exact List.pairwise_cons.mpr ⟨fun p hp c hc => hinner p hp c (hcont.request_eq ▸ hc), houter⟩

theorem finish (h : m.Sound) (hfin : m.move? .finish = some m') : m'.Sound := by
  obtain ⟨op, outer, hops, htodo, rfl⟩ := of_finish hfin
  have hworld := h.world
  have hlent := h.lent
  have hapart := h.apart
  have hoperations := h.operations
  rw [outside, uses, hops] at hworld
  rw [hops] at hlent hapart hoperations
  refine ⟨hworld.perm ?_ ?_, h.countsFit, fun p hp => hoperations p (List.mem_cons_of_mem _ hp),
    fun p hp c o hr => ?_, (List.pairwise_cons.mp hapart).2⟩
  · -- the reference in the outcome passes to the caller
    simp only [outside, List.flatMap_cons, Operation.references, htodo, List.flatMap_nil,
      List.nil_append, List.append_assoc]
    exact List.perm_append_comm_assoc _ _ _
  · simp [uses, Operation.uncounted, htodo]
  · exact List.mem_append_right _ (hlent p (List.mem_cons_of_mem _ hp) c o hr)

/-- What memory will answer is no part of the order. -/
theorem memory (h : m.Sound) (memory : Memory) :
    Sound { m with world := m.world.under memory } where
  world := (World.Restores.under m.world memory).sound h.world
  countsFit := h.countsFit
  operations op hop := (h.operations op hop).keeps (World.Restores.under m.world memory).keeps
  lent := h.lent
  apart := h.apart

theorem tameMove (h : m.Sound) (hmove : m.tameMove? x = some m') : m'.Sound := by
  obtain ⟨htame, hx, hfit⟩ := tameMove?_eq_some.mp hmove
  cases x with
  | call r => exact h.call htame hx hfit
  | work =>
    obtain ⟨op, outer, task, rest, hops, htodo, hhook, rfl⟩ := of_work? hx
    exact h.of_continues hops (h.continues hops htodo hhook) hfit
  | answer v =>
    obtain ⟨op, outer, task, rest, call, hops, htodo, hhook, rfl⟩ := of_answer? hx
    exact h.of_continues hops (h.concludes hops htodo hhook v) hfit
  | finish => exact h.finish hx
  | memory memory =>
    cases hx
    exact h.memory memory

theorem move (h : m.Sound) (hmove : m.orderlyMove? x = some m') : m'.Sound :=
  h.tameMove (tameMove?_of_orderlyMove? hmove)

theorem empty : Machine.empty.Sound :=
  ⟨.empty, fun _ => Nat.zero_le _, List.forall_mem_nil _, List.forall_mem_nil _, .nil⟩

/-- Every state of an orderly run is sound. -/
theorem of_run (hrun : Machine.empty.orderlyRun? xs = some m) : m.Sound :=
  orderlyRun?_induction (fun _ _ _ h hmove => h.move hmove) empty hrun

/-- And so is every state of a tame run. -/
theorem of_tameRun (hrun : Machine.empty.tameRun? xs = some m) : m.Sound :=
  tameRun?_induction (fun _ _ _ h hmove => h.tameMove hmove) empty hrun

end Sound

end Machine

end BufferObjects
