import BufferObjects.Proofs.Machine.Run

/-!
What a driver gets to see. A trace lists the hooks that are called and the answers to them, in
order; a hook is called when an operation arrives at it, and not again when the operation comes back
to it because a request made inside the hook is over.

The trace is tied to the state by a chronicle. Each object is asked about once, and is prepared if
and only if the answer was yes; the driver has been told of its end if and only if it was prepared
and is dead.
-/

open scoped List

namespace BufferObjects

/-- What passes between the library and a driver. -/
inductive Event
  | told (call : HookCall)
  | answered (call : HookCall) (v : Verdict)
  deriving DecidableEq, Repr

/-- The object that an answer is about the preparation of. -/
def Event.asked : Event → List ObjectRef
  | answered ⟨.prepare, o⟩ _ => [o]
  | _ => []

/-- The object that a task asks the driver to prepare. -/
def Task.preparing : Task → List ObjectRef
  | prepare o => [o]
  | _ => []

/-- The objects that an operation has still to ask about. -/
def Operation.preparing (op : Operation) : List ObjectRef := op.todo.flatMap Task.preparing

namespace Machine

/-- The hook that a move has led to. -/
def told? (x : Move) (m' : Machine) : Option HookCall :=
  match x with
  | .finish | .memory _ => none
  | _ => m'.hook?

/-- The answer that a move gives. -/
def answered? (m : Machine) : Move → Option Event
  | .answer v => m.hook?.map (Event.answered · v)
  | _ => none

/-- The object that a move prepares. -/
def preparedBy? (m : Machine) : Move → Option ObjectRef
  | .answer v => m.hook?.bind (HookCall.preparedBy · v)
  | _ => none

/-- What a driver sees of a move. -/
def events (m : Machine) (x : Move) (m' : Machine) : List Event :=
  (m.answered? x).toList ++ ((told? x m').map .told).toList

/-- What a driver sees of a run. -/
def trace (m : Machine) : List Move → List Event
  | [] => []
  | x :: xs =>
    match m.move? x with
    | some m' => m.events x m' ++ m'.trace xs
    | none => []

/-- The objects that operations in progress have still to ask about. -/
def preparing (m : Machine) : List ObjectRef := m.operations.flatMap Operation.preparing

variable {m m' : Machine} {x : Move} {xs : List Move}

theorem orderlyRun?_trace_induction {P : List Event → Machine → Prop} {t : List Event}
    (hstep : ∀ t m x m', P t m → m.orderlyMove? x = some m' → P (t ++ m.events x m') m')
    (h : P t m) (hrun : m.orderlyRun? xs = some m') : P (t ++ m.trace xs) m' := by
  induction xs generalizing t m with
  | nil =>
    cases hrun
    rwa [trace, List.append_nil]
  | cons x xs ih =>
    obtain ⟨m₁, hx, hxs⟩ := Option.bind_eq_some_iff.mp hrun
    obtain ⟨-, hmove, -⟩ := orderlyMove?_eq_some.mp hx
    have hnext := ih (hstep t m x m₁ h hx) hxs
    rwa [List.append_assoc, ← show m.trace (x :: xs) = m.events x m₁ ++ m₁.trace xs by
      rw [trace, hmove]] at hnext

theorem tameRunWhile?_trace_induction {test : Machine → Move → Machine → Bool}
    {P : List Event → Machine → Prop} {t : List Event}
    (hstep : ∀ t m x m', P t m → m.tameMove? x = some m' → test m x m' = true →
      P (t ++ m.events x m') m')
    (h : P t m) (hrun : m.tameRunWhile? test xs = some m') : P (t ++ m.trace xs) m' := by
  induction xs generalizing t m with
  | nil =>
    cases hrun
    rwa [trace, List.append_nil]
  | cons x xs ih =>
    obtain ⟨m₁, hx, hxs⟩ := Option.bind_eq_some_iff.mp hrun
    obtain ⟨hmove, htest⟩ := Option.filter_eq_some_iff.mp hx
    have hnext := ih (hstep t m x m₁ h hmove htest) hxs
    rwa [List.append_assoc, ← show m.trace (x :: xs) = m.events x m₁ ++ m₁.trace xs by
      rw [trace, (tameMove?_eq_some.mp hmove).2.1]] at hnext

theorem hook?_cons (w : World) (held : List ObjectRef) (op : Operation) (outer : List Operation) :
    hook? ⟨w, held, op :: outer⟩ = op.hook? := by
  obtain ⟨r, todo, outcome⟩ := op
  cases todo <;> rfl

theorem hook?_of_operations {op : Operation} {outer : List Operation} {task : Task}
    {rest : List Task} (hops : m.operations = op :: outer) (htodo : op.todo = task :: rest) :
    m.hook? = task.hook? := by
  obtain ⟨w, held, operations⟩ := m
  dsimp only at hops
  subst hops
  rw [hook?_cons, Operation.hook?, htodo]
  rfl

/-! ### What a move does to the objects -/

theorem Sound.turn_of_tameMove (h : m.Sound) (hmove : m.tameMove? x = some m') :
    Turn m.world m'.world (m.preparedBy? x) (told? x m') := by
  obtain ⟨htame, hx, -⟩ := tameMove?_eq_some.mp hmove
  cases x with
  | call r =>
    obtain ⟨hperm, rfl⟩ := call?_eq_some.mp hx
    have hbegins := h.begins hperm htame
    refine .of_keeps hbegins.keeps fun o ho => ?_
    simp only [told?, hook?_cons, Operation.hook?] at ho
    cases htodo : (r.start m.world).2.todo with
    | nil => simp [htodo] at ho
    | cons task rest =>
      have hfreed : task = .tellFreed o := by
        cases task <;> simp_all [Task.hook?]
      exact hbegins.quiet o (by rw [htodo, hfreed]; exact List.mem_cons_self)
  | work =>
    obtain ⟨op, outer, task, rest, hops, htodo, hhook, rfl⟩ := of_work? hx
    simp only [told?, hook?_cons]
    exact (h.continues hops htodo hhook).turn
  | answer v =>
    obtain ⟨op, outer, task, rest, call, hops, htodo, hhook, rfl⟩ := of_answer? hx
    simp only [told?, hook?_cons, preparedBy?, hook?_of_operations hops htodo, hhook]
    exact (h.concludes hops htodo hhook v).turn
  | finish =>
    obtain ⟨op, outer, -, -, rfl⟩ := of_finish hx
    refine .of_keeps (.refl _) fun o ho => ?_
    cases ho
  | memory memory =>
    cases hx
    refine .of_keeps (World.Restores.under m.world memory).keeps fun o ho => ?_
    cases ho

theorem Sound.turn (h : m.Sound) (hmove : m.orderlyMove? x = some m') :
    Turn m.world m'.world (m.preparedBy? x) (told? x m') :=
  h.turn_of_tameMove (tameMove?_of_orderlyMove? hmove)

/-- An operation that asks about an object has nothing else to do. -/
theorem eq_of_mem_prepare {w : World} {op : Operation} {o : ObjectRef} (h : op.Sound w)
    (ho : .prepare o ∈ op.todo) : op.todo = [.prepare o] := by
  obtain ⟨r, todo, outcome⟩ := op
  have hdue := h.due
  dsimp only at hdue ho ⊢
  cases hdue with
  | agenda hagenda => exact absurd ho (hagenda.not_mem_prepare o)
  | freed p hagenda =>
    rcases List.mem_cons.mp ho with heq | hin
    · cases heq
    · exact absurd hin (hagenda.not_mem_prepare o)
  | prepare p =>
    obtain rfl : o = p := by simpa using ho
    rfl
  | opened hd p hc hrest =>
    rcases hrest with ⟨rfl, -⟩ | rfl <;> simp at ho

theorem mem_preparing {todo : List Task} {o : ObjectRef} :
    o ∈ todo.flatMap Task.preparing ↔ .prepare o ∈ todo := by
  rw [List.mem_flatMap]
  constructor
  · rintro ⟨t, ht, ho⟩
    cases t with
    | prepare p =>
      obtain rfl : o = p := by simpa [Task.preparing] using ho
      exact ht
    | _ => simp [Task.preparing] at ho
  · intro ho
    exact ⟨_, ho, by simp [Task.preparing]⟩

theorem preparing_eq_nil {op : Operation} (h : ∀ o, .prepare o ∉ op.todo) : op.preparing = [] :=
  List.eq_nil_iff_forall_not_mem.mpr fun o ho => h o (mem_preparing.mp ho)

theorem asked_eq {w : World} {op : Operation} {task : Task} {rest : List Task} {call : HookCall}
    (h : op.Sound w) (htodo : op.todo = task :: rest) (hhook : task.hook? = some call)
    (v : Verdict) :
    (Event.answered call v).asked = op.preparing := by
  by_cases hprep : ∃ o, .prepare o ∈ op.todo
  · obtain ⟨o, ho⟩ := hprep
    have htodo' := eq_of_mem_prepare h ho
    obtain ⟨rfl, rfl⟩ : task = .prepare o ∧ rest = [] := by simpa [htodo'] using htodo.symm
    cases hhook
    rw [Operation.preparing, htodo]
    rfl
  · rw [not_exists] at hprep
    rw [preparing_eq_nil hprep]
    cases task with
    | prepare o => exact absurd (htodo ▸ List.mem_cons_self) (hprep o)
    | tellOpened | tellClosed | tellFreed =>
      cases hhook
      rfl
    | _ => cases hhook

/-- What is asked about after a move was to be asked before, or is a new object. -/
theorem Sound.asks (h : m.Sound) (hmove : m.orderlyMove? x = some m') :
    ∃ new : List ObjectRef, new.Nodup ∧
      (∀ o ∈ new, m.world.objects.size ≤ o ∧ o < m'.world.objects.size) ∧
      (m.answered? x).toList.flatMap Event.asked ++ m'.preparing = new ++ m.preparing := by
  obtain ⟨horderly, hx, -⟩ := orderlyMove?_eq_some.mp hmove
  cases x with
  | call r =>
    obtain ⟨hperm, rfl⟩ := call?_eq_some.mp hx
    have hbegins := h.begins hperm (isTame_of_isOrderly horderly)
    refine ⟨(r.start m.world).2.preparing, ?_, fun o ho => hbegins.prepares o (mem_preparing.mp ho),
      rfl⟩
    by_cases hprep : ∃ o, .prepare o ∈ (r.start m.world).2.todo
    · obtain ⟨o, ho⟩ := hprep
      rw [Operation.preparing, eq_of_mem_prepare hbegins.operation ho]
      simp [Task.preparing]
    · rw [preparing_eq_nil (not_exists.mp hprep)]
      exact .nil
  | work =>
    obtain ⟨op, outer, task, rest, hops, htodo, hhook, rfl⟩ := of_work? hx
    have hop := h.operations op (by rw [hops]; exact List.mem_cons_self)
    refine ⟨[], .nil, nofun, ?_⟩
    -- asking waits for the driver, so an operation at work has nothing to ask
    have hbefore : op.preparing = [] := preparing_eq_nil fun o ho => by
      have htodo' := eq_of_mem_prepare hop ho
      obtain ⟨rfl, -⟩ : task = .prepare o ∧ rest = [] := by simpa [htodo'] using htodo.symm
      cases hhook
    rw [preparing, preparing, hops, List.flatMap_cons, List.flatMap_cons, hbefore,
      preparing_eq_nil (h.continues hops htodo hhook).prepares]
    rfl
  | answer v =>
    obtain ⟨op, outer, task, rest, call, hops, htodo, hhook, rfl⟩ := of_answer? hx
    have hop := h.operations op (by rw [hops]; exact List.mem_cons_self)
    refine ⟨[], .nil, nofun, ?_⟩
    rw [preparing, preparing, hops, List.flatMap_cons, List.flatMap_cons,
      preparing_eq_nil (h.concludes hops htodo hhook v).prepares, answered?,
      hook?_of_operations hops htodo, hhook, ← asked_eq hop htodo hhook v]
    simp
  | finish =>
    obtain ⟨op, outer, hops, htodo, rfl⟩ := of_finish hx
    refine ⟨[], .nil, nofun, ?_⟩
    rw [preparing, preparing, hops, List.flatMap_cons, Operation.preparing, htodo]
    rfl
  | memory memory =>
    cases hx
    exact ⟨[], .nil, nofun, rfl⟩

/-! ### The chronicle of a run -/

/-- How what has been seen is tied to the state. -/
structure Chronicle (t : List Event) (m : Machine) : Prop where
  sound : m.Sound
  asked_nodup : (t.flatMap Event.asked ++ m.preparing).Nodup
  asked_lt : ∀ o ∈ t.flatMap Event.asked ++ m.preparing, o < m.world.objects.size
  prepared_iff : ∀ o, .answered ⟨.prepare, o⟩ .accept ∈ t ↔ (m.world.object o).prepared = true
  count_freed : ∀ o, t.count (.told ⟨.freed, o⟩) =
    if (m.world.object o).prepared = true ∧ (m.world.object o).refs = 0 then 1 else 0

theorem Chronicle.empty : Chronicle [] Machine.empty := by
  refine ⟨.empty, .nil, nofun, fun o => ?_, fun o => ?_⟩
  · exact iff_of_false List.not_mem_nil nofun
  · rw [if_neg (fun h => nomatch h.1), List.count_nil]

theorem count_told_events (call : HookCall) :
    (m.events x m').count (.told call) = if told? x m' = some call then 1 else 0 := by
  have hanswered : (m.answered? x).toList.count (.told call) = 0 := by
    cases x with
    | answer v => cases hhook : m.hook? <;> simp [answered?, hhook]
    | _ => rfl
  rw [events, List.count_append, hanswered, Nat.zero_add]
  cases told? x m' with
  | none => rfl
  | some call => simp [List.count_singleton]

theorem preparedBy_eq_some {call : HookCall} {v : Verdict} {o : ObjectRef} :
    call.preparedBy v = some o ↔ call = ⟨.prepare, o⟩ ∧ v = .accept := by
  obtain ⟨hook, p⟩ := call
  cases hook <;> cases v <;> simp [HookCall.preparedBy]

theorem mem_events_prepare {o : ObjectRef} :
    .answered ⟨.prepare, o⟩ .accept ∈ m.events x m' ↔ m.preparedBy? x = some o := by
  have htold : .answered ⟨.prepare, o⟩ .accept ∉ ((told? x m').map Event.told).toList := by simp
  rw [events, List.mem_append, or_iff_left htold]
  cases x with
  | answer v =>
    cases hhook : m.hook? with
    | none => simp [answered?, preparedBy?, hhook]
    | some call =>
      rw [preparedBy?, hhook, Option.bind_some, preparedBy_eq_some]
      simp [answered?, hhook, eq_comm]
  | _ => simp [answered?, preparedBy?]

theorem asked_events : (m.events x m').flatMap Event.asked =
    (m.answered? x).toList.flatMap Event.asked := by
  have htold : ((told? x m').map Event.told).toList.flatMap Event.asked = [] := by
    cases told? x m' <;> rfl
  rw [events, List.flatMap_append, htold, List.append_nil]

theorem Chronicle.move {t : List Event} (h : Chronicle t m) (hmove : m.orderlyMove? x = some m') :
    Chronicle (t ++ m.events x m') m' := by
  obtain ⟨new, hnodup, hnew, heq⟩ := h.sound.asks hmove
  have hturn := h.sound.turn hmove
  have hsize := hturn.size_objects
  -- an object that is not there yet is prepared neither before the move nor by it
  have hunborn (o : ObjectRef) (ho : m.world.objects.size ≤ o) :
      (m'.world.object o).prepared = false ∧ (m.world.object o).prepared = false ∧
        m.preparedBy? x ≠ some o := by
    refine ⟨?_, by rw [World.object_of_size_le ho]; rfl, fun hprep => ?_⟩
    · rcases Nat.lt_or_ge o m'.world.objects.size with hlt | hge
      · exact (hturn.born o hlt ho).2
      · rw [World.object_of_size_le hge]
        rfl
    · exact absurd (hturn.prepared_live o hprep).1 (Nat.not_lt.mpr ho)
  -- what is asked about is new, or it was asked about or to be asked before
  have hasked : (t ++ m.events x m').flatMap Event.asked ++ m'.preparing ~
      new ++ (t.flatMap Event.asked ++ m.preparing) := by
    rw [List.flatMap_append, asked_events, List.append_assoc, heq]
    exact List.perm_append_comm_assoc _ _ _
  refine ⟨h.sound.move hmove, ?_, fun o ho => ?_, fun o => ?_, fun o => ?_⟩
  · rw [hasked.nodup_iff, List.nodup_append]
    refine ⟨hnodup, h.asked_nodup, fun o ho p hp heq => ?_⟩
    subst heq
    exact absurd (h.asked_lt o hp) (Nat.not_lt.mpr (hnew o ho).1)
  · rcases List.mem_append.mp (hasked.mem_iff.mp ho) with hin | hin
    · exact (hnew o hin).2
    · exact Nat.lt_of_lt_of_le (h.asked_lt o hin) hsize
  · rw [List.mem_append, h.prepared_iff o, mem_events_prepare]
    rcases Nat.lt_or_ge o m.world.objects.size with hlt | hge
    · rw [hturn.prepared_eq o hlt]
      simp
    · obtain ⟨hnew, hold, hnone⟩ := hunborn o hge
      simp [hnew, hold, hnone]
  · rw [List.count_append, h.count_freed o, count_told_events]
    simp only [hturn.freed_iff o]
    rcases Nat.lt_or_ge o m.world.objects.size with hlt | hge
    · rw [hturn.prepared_eq o hlt]
      have hdead := hturn.dead o hlt
      by_cases hprep : m.preparedBy? x = some o
      · -- what is being prepared is alive, before and after
        have hlive := (hturn.prepared_live o hprep).2
        have hlive' : (m.world.object o).refs ≠ 0 := fun hzero => by
          rw [hdead hzero] at hlive
          exact absurd hlive (Nat.lt_irrefl 0)
        simp [Nat.ne_of_gt hlive, hlive']
      · by_cases hzero : (m.world.object o).refs = 0
        · simp [hprep, hzero, hdead hzero]
        · have hpos := Nat.pos_of_ne_zero hzero
          cases (m.world.object o).prepared <;> simp [hprep, hzero, hpos, hlt]
    · obtain ⟨hnew, hold, hnone⟩ := hunborn o hge
      simp [hnew, hold]

theorem Chronicle.of_run (hrun : Machine.empty.orderlyRun? xs = some m) :
    Chronicle (Machine.empty.trace xs) m :=
  orderlyRun?_trace_induction (fun _ _ _ _ h hmove => h.move hmove) Chronicle.empty hrun

end Machine

end BufferObjects
