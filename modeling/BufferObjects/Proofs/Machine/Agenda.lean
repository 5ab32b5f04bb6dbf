import BufferObjects.Machine.Basic
import BufferObjects.Proofs.World.Handles
import BufferObjects.Proofs.World.Lifetime

/-!
What an operation in progress has in its hands and on its list. In its hands are the references of
its pending `drop` tasks, the one that its answer hands over, and the uses it has still to uncount.
On its list a use is uncounted right before the reference is given up that came with it, so that the
object is there whenever its name goes.
-/

namespace BufferObjects

/-- The reference that a task gives up. -/
def Task.references : Task → List ObjectRef
  | drop o => [o]
  | _ => []

/-- The use that a task takes back. -/
def Task.uncounted : Task → List ObjectRef
  | uncount _ o => [o]
  | _ => []

namespace Operation

/-- The references that an operation holds. -/
def references (op : Operation) : List ObjectRef :=
  op.todo.flatMap Task.references ++ (Machine.handedOver op.outcome).toList

/-- The uses that an operation has taken over and not uncounted. -/
def uncounted (op : Operation) : List ObjectRef := op.todo.flatMap Task.uncounted

end Operation

/-- Tasks that can wait behind others. -/
inductive Agenda (r : Request) : List Task → Prop
  | done : Agenda r []
  | drop {rest : List Task} (o : ObjectRef) (h : Agenda r rest) : Agenda r (.drop o :: rest)
  | uncount {rest : List Task} {c : ClientRef} (d : DeviceRef) (o : ObjectRef)
      (hc : r.client? = some c) (h : Agenda r rest) : Agenda r (.uncount d o :: .drop o :: rest)
  | close {rest : List Task} {c : ClientRef} (d : DeviceRef) (o : ObjectRef)
      (hc : r.client? = some c) (h : Agenda r rest) :
      Agenda r (.tellClosed c o :: .uncount d o :: .drop o :: rest)
  | forget {c : ClientRef} (hr : r = .dropClient c) : Agenda r [.forgetClient c]
  | leave (d : DeviceRef) : Agenda r [.leaveDevice d]

/-- What can be left to do of an operation, with its outcome. An object that has ended is told of at
once; an object is prepared, and a handle told of, first of all. -/
inductive Due (r : Request) : List Task → Outcome RequestError Reply → Prop
  | agenda {todo : List Task} {outcome : Outcome RequestError Reply} (h : Agenda r todo) :
      Due r todo outcome
  | freed {rest : List Task} {outcome : Outcome RequestError Reply} (o : ObjectRef)
      (h : Agenda r rest) : Due r (.tellFreed o :: rest) outcome
  | prepare (o : ObjectRef) : Due r [.prepare o] (.ok (.object o))
  | opened {rest : List Task} {outcome : Outcome RequestError Reply} {c : ClientRef} (h : Handle)
      (o : ObjectRef) (hc : r.client? = some c)
      (hrest : rest = [] ∧ r = .createHandle c o ∨ rest = [.drop o])
      (hnone : Machine.handedOver outcome = none) : Due r (.tellOpened c h o :: rest) outcome

/-! ### The shape of a list -/

namespace Agenda

variable {r : Request} {todo : List Task}

/-- Every use still to be uncounted has its reference right behind it. -/
theorem count_uncounted_le (h : Agenda r todo) (o : ObjectRef) :
    (todo.flatMap Task.uncounted).count o ≤ (todo.flatMap Task.references).count o := by
  induction h with
  | done => exact Nat.le_refl _
  | drop p _ ih => exact Nat.le_trans ih List.count_le_count_cons
  | uncount d p _ _ ih | close d p _ _ ih =>
    simpa [Task.references, Task.uncounted, List.count_cons] using ih
  | forget _ | leave _ => exact Nat.le_refl _

/-- Of the tasks that can wait behind others only the closing of a handle waits for the driver. -/
theorem hook_of_mem (h : Agenda r todo) {t : Task} (ht : t ∈ todo) :
    t.hook? = none ∨ ∃ c o, t = .tellClosed c o := by
  induction h with
  | done => cases ht
  | drop o _ ih =>
    rcases List.mem_cons.mp ht with rfl | ht
    · exact Or.inl rfl
    · exact ih ht
  | uncount d o _ _ ih =>
    simp only [List.mem_cons] at ht
    rcases ht with rfl | rfl | ht
    · exact Or.inl rfl
    · exact Or.inl rfl
    · exact ih ht
  | close d o _ _ ih =>
    simp only [List.mem_cons] at ht
    rcases ht with rfl | rfl | rfl | ht
    · exact Or.inr ⟨_, o, rfl⟩
    · exact Or.inl rfl
    · exact Or.inl rfl
    · exact ih ht
  | forget _ | leave _ =>
    obtain rfl := List.mem_singleton.mp ht
    exact Or.inl rfl

theorem not_mem_tellFreed (h : Agenda r todo) (o : ObjectRef) : .tellFreed o ∉ todo := by
  intro ht
  rcases h.hook_of_mem ht with heq | ⟨c, p, heq⟩ <;> cases heq

theorem not_mem_prepare (h : Agenda r todo) (o : ObjectRef) : .prepare o ∉ todo := by
  intro ht
  rcases h.hook_of_mem ht with heq | ⟨c, p, heq⟩ <;> cases heq

theorem closings {rest : List Task} (h : Agenda r rest) {w : World} {c : ClientRef}
    (hc : r.client? = some c) (entries : List ObjectRef) :
    Agenda r (entries.flatMap (Task.closing w c) ++ rest) := by
  induction entries with
  | nil => exact h
  | cons o entries ih => exact .close _ o hc ih

end Agenda

namespace Due

variable {r : Request} {todo : List Task} {outcome : Outcome RequestError Reply}

theorem count_uncounted_le (h : Due r todo outcome) (o : ObjectRef) :
    (todo.flatMap Task.uncounted).count o ≤ (todo.flatMap Task.references).count o := by
  cases h with
  | agenda h => exact h.count_uncounted_le o
  | freed p h => exact h.count_uncounted_le o
  | prepare p => exact Nat.le_refl _
  | opened hd p hc hrest =>
    rcases hrest with ⟨rfl, -⟩ | rfl
    · exact Nat.le_refl _
    · exact Nat.zero_le _

theorem tail {task : Task} {rest : List Task} (h : Due r (task :: rest) outcome)
    (hu : ∀ d o, task ≠ .uncount d o) (hc : ∀ c o, task ≠ .tellClosed c o) : Agenda r rest := by
  cases h with
  | agenda h =>
    cases h with
    | drop _ h => exact h
    | uncount d o => exact absurd rfl (hu d o)
    | close d o => exact absurd rfl (hc _ o)
    | forget | leave => exact .done
  | freed _ h => exact h
  | prepare => exact .done
  | opened _ o _ hrest =>
    rcases hrest with ⟨rfl, -⟩ | rfl
    · exact .done
    · exact .drop o .done

end Due

/-! ### An operation in its world -/

/-- What is true of an operation in progress. -/
structure Operation.Sound (w : World) (op : Operation) : Prop where
  due : Due op.request op.todo op.outcome
  /-- The client is there until the operation itself gives it up. -/
  present : ∀ c, op.request.client? = some c →
    (∀ t ∈ op.todo, ∃ d, t = .leaveDevice d) ∨ (w.client c).present = true
  uncounts : ∀ d o, .uncount d o ∈ op.todo → o < w.objects.size ∧ (w.object o).home = d ∧
    ∃ c, op.request.client? = some c ∧ c < w.clients.size ∧ (w.client c).device = d
  closed : ∀ c, .forgetClient c ∈ op.todo → c < w.clients.size ∧ (w.client c).handles = none
  freed : ∀ o, .tellFreed o ∈ op.todo → o < w.objects.size ∧ (w.object o).refs = 0
  faultless : ∀ f, op.outcome ≠ .fault f

namespace Operation.Sound

variable {w w' : World} {op : Operation}

/-- What is true of an operation in progress stays true while others are carried out, as long as
they leave its client alone. -/
theorem mono (h : op.Sound w) (hw : w.Follows w')
    (hpresent : ∀ c, op.request.client? = some c → (w.client c).present = true →
      (w'.client c).present = true) : op.Sound w' where
  due := h.due
  present c hc := (h.present c hc).imp id (hpresent c hc)
  uncounts d o ho := by
    obtain ⟨hlt, hhome, c, hc, hltc, hdevice⟩ := h.uncounts d o ho
    exact ⟨Nat.lt_of_lt_of_le hlt hw.size_objects, (hw.home o hlt).trans hhome, c, hc,
      Nat.lt_of_lt_of_le hltc hw.size_clients, (hw.device c hltc).trans hdevice⟩
  closed c hc := by
    obtain ⟨hlt, hnone⟩ := h.closed c hc
    exact ⟨Nat.lt_of_lt_of_le hlt hw.size_clients, hw.closed c hlt hnone⟩
  freed o ho := by
    obtain ⟨hlt, hzero⟩ := h.freed o ho
    exact ⟨Nat.lt_of_lt_of_le hlt hw.size_objects, hw.dead o hlt hzero⟩
  faultless := h.faultless

theorem keeps (h : op.Sound w) (hw : w.Keeps w') : op.Sound w' :=
  h.mono hw.toFollows fun c _ hc => (hw.present c (World.lt_size_of_present hc)).trans hc

theorem of_nil (w : World) (r : Request) {outcome : Outcome RequestError Reply}
    (houtcome : ∀ f, outcome ≠ .fault f) : Operation.Sound w ⟨r, [], outcome⟩ :=
  ⟨.agenda .done, fun _ _ => Or.inl (by simp), by simp, by simp, by simp, houtcome⟩

theorem of_subset (h : op.Sound w) {todo : List Task} {outcome : Outcome RequestError Reply}
    (hdue : Due op.request todo outcome) (houtcome : ∀ f, outcome ≠ .fault f)
    (hsub : ∀ t ∈ todo, t ∈ op.todo) : Operation.Sound w ⟨op.request, todo, outcome⟩ where
  due := hdue
  present c hc := (h.present c hc).imp (fun hall t ht => hall t (hsub t ht)) id
  uncounts d o ho := h.uncounts d o (hsub _ ho)
  closed c hc := h.closed c (hsub _ hc)
  freed o ho := h.freed o (hsub _ ho)
  faultless := houtcome

/-- Whoever has a use to uncount keeps the device of the object. -/
theorem isKept_of_uncounted (h : op.Sound w) {o : ObjectRef} (ho : o ∈ op.uncounted) :
    w.isKept (w.object o).home = true := by
  obtain ⟨t, ht, hot⟩ := List.mem_flatMap.mp ho
  cases t with
  | uncount d p =>
    obtain rfl : o = p := by simpa [Task.uncounted] using hot
    obtain ⟨-, hhome, c, hc, -, hdevice⟩ := h.uncounts d o ht
    rcases h.present c hc with hall | hpresent
    · obtain ⟨e, he⟩ := hall _ ht
      cases he
    · rw [World.isKept, Bool.or_eq_true]
      exact Or.inr (World.hasClient_iff.mpr ⟨c, hpresent, hdevice.trans hhome.symm⟩)
  | _ => simp [Task.uncounted] at hot

end Operation.Sound

end BufferObjects
