import BufferObjects.Proofs.Machine.Reports
import Mathlib.Data.UInt

/-!
What a failing request returns. Every cause has an error number, and the number is returned negated,
so a failure is told from a success by its sign; the one cause that is returned as zero is a driver's
refusal with the code zero, because zero is the number of success. The library never brings that
cause about by itself: an operation answers with a driver's code only if its own driver refused it
with that code, and a refusal is what the operation answers in the end.
-/

namespace BufferObjects

/-! ### Numbers -/

namespace Errno

variable {e : Errno} {c : Int32}

theorem code_pos_iff : 0 < e.code ↔ e ≠ success := by
  cases e <;> decide

/-- The numbers in use are looked up exactly. -/
theorem ofCode?_eq_some_iff : ofCode? c = some e ↔ (e.code : Int) = c.toInt := by
  constructor
  · intro h
    unfold ofCode? at h
    split at h
    case h_13 => cases h
    all_goals
      next hc =>
      cases h
      rw [hc]
      rfl
  · intro h
    rw [ofCode?, ← h]
    cases e <;> rfl

theorem ofCode?_eq_none_iff : ofCode? c = none ↔ ∀ e : Errno, (e.code : Int) ≠ c.toInt := by
  simp only [Option.eq_none_iff_forall_ne_some, ne_eq, ofCode?_eq_some_iff]

end Errno

namespace RequestError

variable {e : RequestError} {c : Int32}

/-- A driver's code that is a number in use is returned as it is, negated. -/
theorem returned_driver_of_known (h : ∃ n : Errno, (n.code : Int) = c.toInt) :
    (driver c).returned = -c.toInt := by
  obtain ⟨n, hn⟩ := h
  rw [returned, errno, Errno.ofCode?_eq_some_iff.mpr hn, Option.getD_some, Errno.returned, hn]

/-- Any other code of a driver is returned as an input or output error. -/
theorem returned_driver_of_unknown (h : ∀ n : Errno, (n.code : Int) ≠ c.toInt) :
    (driver c).returned = Errno.inputOutput.returned := by
  rw [returned, errno, Errno.ofCode?_eq_none_iff.mpr h, Option.getD_none]

theorem errno_eq_success_iff : e.errno = .success ↔ e = .driver 0 := by
  cases e with
  | driver c =>
    rw [driver.injEq, ← Int32.toInt_inj, Int32.toInt_zero, errno]
    constructor
    · intro h
      cases hcode : Errno.ofCode? c with
      | some n =>
        rw [hcode, Option.getD_some] at h
        rw [← Errno.ofCode?_eq_some_iff.mp hcode, h]
        rfl
      | none =>
        rw [hcode] at h
        cases h
    · intro h
      have hcode : Errno.ofCode? c = some .success := Errno.ofCode?_eq_some_iff.mpr h.symm
      rw [hcode, Option.getD_some]
  | _ => decide

/-- Every cause but one is returned as a negative number. -/
theorem returned_neg_iff : e.returned < 0 ↔ e ≠ .driver 0 := by
  rw [ne_eq, ← errno_eq_success_iff, ← ne_eq, ← Errno.code_pos_iff]
  show -(e.errno.code : Int) < 0 ↔ _
  omega

end RequestError

/-! ### Refusals of the library itself -/

def RequestError.isDriver : RequestError → Bool
  | driver _ => true
  | _ => false

/-- Whether a call ended with a driver's code. -/
def Outcome.byDriver {α : Type} : Outcome RequestError α → Bool
  | .error e => e.isDriver
  | .ok _ | .fault _ => false

theorem Outcome.byDriver_map {α β : Type} (f : α → β) (outcome : Outcome RequestError α) :
    (outcome.map f).byDriver = outcome.byDriver := by
  cases outcome <;> rfl

theorem Outcome.byDriver_ofTable {α : Type} (e : TableError) :
    (.error (.ofTable e) : Outcome RequestError α).byDriver = false := by
  cases e <;> rfl

theorem Outcome.byDriver_issue {α : Type} (e : IssueError) :
    (e.outcome : Outcome RequestError α).byDriver = false := by
  cases e with
  | noId e => cases e <;> rfl
  | notFiled id e => exact byDriver_ofTable e
  | notReturned => rfl

theorem Outcome.byDriver_ofTokenId {α : Type} (e : IdError) :
    (.error (.ofTokenId e) : Outcome RequestError α).byDriver = false := by
  cases e <;> rfl

namespace World

variable (w : World) (d : DeviceRef) (c : ClientRef) (o : ObjectRef)

open Outcome

theorem byDriver_newDevice (config : Config) (features : Features) :
    (ofExcept (w.newDevice config features).2).byDriver = false := by
  unfold newDevice
  split
  · rfl
  · split
    · rfl
    · exact byDriver_ofTable _
    · exact byDriver_ofTable _

theorem byDriver_newClient : (ofExcept (w.newClient d).2).byDriver = false := by
  unfold newClient
  split
  · rfl
  · dsimp only
    split
    · exact byDriver_ofTable _
    · rfl

theorem byDriver_newObject (size : UInt64) :
    (ofExcept (w.newObject d size).2).byDriver = false := by
  unfold newObject
  split
  · rfl
  · split <;> rfl

theorem byDriver_openHandle : (w.openHandle c o).2.byDriver = false := by
  unfold openHandle
  dsimp only
  split
  · rfl
  · split
    · rfl
    · split
      · rfl
      · exact byDriver_issue _

theorem byDriver_publishName : (w.publishName d o).2.byDriver = false := by
  unfold publishName
  dsimp only
  split
  · rfl
  · split
    · rfl
    · split
      · rfl
      · exact byDriver_issue _

theorem byDriver_createToken : (w.createToken d o).2.byDriver = false := by
  have hissue (t : TokenTable) (seed : UInt64) (memory : Memory) :
      (t.issue o seed memory).2.byDriver = false := by
    unfold TokenTable.issue
    split
    · split
      · exact byDriver_ofTokenId _
      · split
        · rfl
        · split
          · exact byDriver_ofTable _
          · rfl
    · split
      · rfl
      · exact byDriver_ofTable _
      · rfl
  unfold createToken
  dsimp only
  split
  · rfl
  · next htoken =>
    have hissued := hissue (w.device d).tokens (w.object o).id w.memory
    split
    · rfl
    · next tokens failed _ heq => rwa [heq] at hissued

end World

/-! ### Operations and the refusals they meet -/

/-- An operation and the causes with which its driver has refused it so far. -/
inductive Operation.Heeds (op : Operation) : List RequestError → Prop
  /-- It can be refused at its next task or not at all, and no driver is to blame for its outcome. -/
  | unrefused (hbehind : ∀ t ∈ op.todo.tail, t.isRefusable = false)
      (houtcome : op.outcome.byDriver = false) : op.Heeds []
  /-- It has been refused for good, and that is its outcome unless it has run into a fault. -/
  | refused {e : RequestError} (htodo : ∀ t ∈ op.todo, t.isRefusable = false)
      (houtcome : op.outcome = .error e ∨ ∃ f, op.outcome = .fault f) : op.Heeds [e]

namespace Request

variable {w : World} {r : Request} {d : DeviceRef}

open Operation

theorem heeds_finished {outcome : Outcome RequestError Reply} (h : outcome.byDriver = false) :
    (Operation.finished r outcome).Heeds [] :=
  .unrefused (List.forall_mem_nil _) h

/-- A single task leaves nothing behind it that could be refused. -/
theorem heeds_single {task : Task} {outcome : Outcome RequestError Reply}
    (h : outcome.byDriver = false) : Operation.Heeds ⟨r, [task], outcome⟩ [] :=
  .unrefused (List.forall_mem_nil _) h

theorem heeds_answerObject {reply : ObjectRef → Reply} {found : Except RequestError ObjectRef}
    (h : ∀ e, found = .error e → e.isDriver = false) :
    (answerObject w r reply found).2.Heeds [] := by
  cases found with
  | ok o => exact heeds_finished rfl
  | error e => exact heeds_finished (h e rfl)

theorem heeds_startDelete (w : World) (r : Request) (c : ClientRef) (h : Handle) :
    (startDelete w r c h).2.Heeds [] := by
  unfold startDelete
  split
  · exact heeds_finished rfl
  · exact .unrefused (by simp [Task.closing, Task.isRefusable]) rfl
  · exact .unrefused (by simp [Operation.fail, finished]) rfl

theorem heeds_startOpen (w : World) (r : Request) (c : ClientRef) (o : ObjectRef)
    (reply : Handle → Reply) {after : List Task} (hafter : ∀ t ∈ after, t.isRefusable = false) :
    (startOpen w r c o reply after).2.Heeds [] := by
  have hopen := w.byDriver_openHandle c o
  unfold startOpen
  split
  · exact .unrefused hafter rfl
  · next heq =>
    rw [heq] at hopen
    exact .unrefused (fun t ht => hafter t (List.mem_of_mem_tail ht)) hopen
  · exact .unrefused (fun t ht => hafter t (List.mem_of_mem_tail ht)) rfl

theorem heeds_guarded {c? : Option ClientRef} {body : World → World × Operation}
    (hbody : (body w).2.Heeds []) :
    (match access w d c? with
      | (w, .error e) => (w, Operation.finished r (.error e))
      | (w, .ok ()) => body w).2.Heeds [] := by
  refine guarded_cases (P := fun x => x.2.Heeds []) (fun _ _ => hbody) fun ns e haccess => ?_
  rcases error_of_access haccess with rfl | rfl <;> exact heeds_finished rfl

/-- No request begins with a refusal by its driver, and each can be refused at one point only. -/
theorem heeds_start (w : World) (r : Request) : (r.start w).2.Heeds [] := by
  cases r with
  | newDevice config features =>
    exact heeds_finished ((Outcome.byDriver_map ..).trans (w.byDriver_newDevice config features))
  | dropDevice d => exact heeds_single rfl
  | openClient d => exact heeds_finished ((Outcome.byDriver_map ..).trans (w.byDriver_newClient d))
  | closeClient c =>
    exact .unrefused
      (fun t ht => Task.isRefusable_closings _ _ _ t (List.mem_of_mem_tail ht)) rfl
  | dropClient c =>
    refine .unrefused (fun t ht => ?_) rfl
    rcases List.mem_append.mp (List.mem_of_mem_tail ht) with hin | hin
    · exact Task.isRefusable_closings _ _ _ t hin
    · obtain rfl := List.mem_singleton.mp hin
      rfl
  | createObject d size =>
    have hnew := w.byDriver_newObject d size
    simp only [start]
    split
    · exact heeds_single rfl
    · next heq =>
      rw [heq] at hnew
      exact heeds_finished hnew
  | cloneObject o => exact heeds_finished rfl
  | dropObject o => exact heeds_single rfl
  | createHandle c o => exact heeds_startOpen w _ c o _ (List.forall_mem_nil _)
  | lookupHandle c h =>
    exact heeds_answerObject fun e he => by rw [World.error_of_lookupHandle he]; rfl
  | deleteHandle c h => exact heeds_startDelete w _ c h
  | nameHandle d c h =>
    refine heeds_guarded ?_
    cases hlook : w.lookupHandle c h with
    | error e =>
      obtain rfl := World.error_of_lookupHandle hlook
      exact heeds_finished rfl
    | ok o =>
      exact heeds_single
        ((Outcome.byDriver_map ..).trans ((w.retain o).byDriver_publishName d o))
  | openName d c n =>
    refine heeds_guarded ?_
    cases hresolve : w.resolveName d n with
    | error e =>
      obtain rfl := World.error_of_resolveName hresolve
      exact heeds_finished rfl
    | ok o => exact heeds_startOpen (w.retain o) _ c o _ (by simp [Task.isRefusable])
  | closeHandle d c h => exact heeds_guarded (heeds_startDelete w _ c h)
  | mapHandle d c h =>
    refine heeds_guarded ?_
    cases hlook : w.lookupHandle c h with
    | error e =>
      obtain rfl := World.error_of_lookupHandle hlook
      exact heeds_finished rfl
    | ok o =>
      exact heeds_single
        ((Outcome.byDriver_map ..).trans ((w.retain o).byDriver_createToken d o))
  | objectAtAddress d a =>
    exact heeds_answerObject fun e he => by rw [World.error_of_objectAtAddress he]; rfl
  | mapRange d a length =>
    refine heeds_guarded ?_
    split
    · exact heeds_finished rfl
    · next hfailed =>
      rcases World.error_of_mappingAt (congrArg Prod.snd hfailed) with rfl | rfl
      · exact heeds_finished rfl
      · exact heeds_finished rfl
  | publishName d o =>
    exact heeds_finished ((Outcome.byDriver_map ..).trans (w.byDriver_publishName d o))
  | resolveName d n =>
    exact heeds_answerObject fun e he => by rw [World.error_of_resolveName he]; rfl
  | retireName d o =>
    simp only [start]
    split
    · exact heeds_finished rfl
    · refine .unrefused (fun t ht => ?_) rfl
      have hin := List.mem_of_mem_tail ht
      simp only [Operation.fail, finished, List.filter_nil, List.append_nil, List.mem_map] at hin
      obtain ⟨p, -, rfl⟩ := hin
      rfl
  | createToken d o =>
    exact heeds_finished ((Outcome.byDriver_map ..).trans (w.byDriver_createToken d o))
  | resolveToken d t =>
    exact heeds_answerObject fun e he => by rw [World.error_of_resolveToken he]; rfl
  | destroyToken d o =>
    refine heeds_finished ((Outcome.byDriver_map ..).trans ?_)
    show (Outcome.ofChecked (w.destroyToken d o).2).byDriver = false
    cases (w.destroyToken d o).2 <;> rfl

end Request

namespace Machine

variable {m m' : Machine} {w : World} {op : Operation} {task : Task} {rest : List Task}
  {causes : List RequestError} {x : Move} {moves : List Move}

theorem any_isRefusable_hook? (task : Task) :
    (task.hook?.any fun call => call.hook.isRefusable) = task.isRefusable := by
  cases task <;> rfl

theorem heeds_of_later {op' : Operation} (h : op.Heeds causes) (htodo : op.todo = task :: rest)
    (htodo' : ∀ t ∈ op'.todo, t ∈ rest ∨ t.isRefusable = false)
    (houtcome : op'.outcome = op.outcome ∨ ∃ f, op'.outcome = .fault f) : op'.Heeds causes := by
  cases h with
  | unrefused hbehind hown =>
    rw [htodo, List.tail_cons] at hbehind
    refine .unrefused (fun t ht => ?_) ?_
    · exact (htodo' t (List.mem_of_mem_tail ht)).elim (hbehind t) id
    · rcases houtcome with hsame | ⟨f, hfault⟩
      · rw [hsame, hown]
      · rw [hfault]
        rfl
  | refused hnone hrefused =>
    rw [htodo] at hnone
    refine .refused (fun t ht => ?_) ?_
    · exact (htodo' t ht).elim (fun hin => hnone t (List.mem_cons_of_mem _ hin)) id
    · rcases houtcome with hsame | hfault
      · rw [hsame]
        exact hrefused
      · exact Or.inr hfault

/-- A refusal takes effect: the operation is left with its cause and can be refused no more. -/
theorem heeds_conclude_refuse (e : RequestError) (htask : task.isRefusable = true)
    (hrest : ∀ t ∈ rest, t.isRefusable = false) :
    (conclude w op task rest (.refuse e)).2.Heeds [e] := by
  have hlater {o : ObjectRef} {t : Task} (ht : t ∈ Task.drop o :: rest) : t.isRefusable = false := by
    rcases List.mem_cons.mp ht with rfl | hin
    · rfl
    · exact hrest t hin
  cases task with
  | prepare o => exact .refused (fun t ht => hlater ht) (Or.inl rfl)
  | tellOpened c h o =>
    simp only [conclude, undoHandle]
    split
    · exact .refused hrest (Or.inl rfl)
    · refine .refused (fun t ht => ?_) (Or.inl rfl)
      rcases List.mem_cons.mp ht with rfl | hin
      · rfl
      · exact hlater hin
    · refine .refused (fun t ht => ?_) (Or.inr ⟨_, rfl⟩)
      exact (mem_fail ht).elim (hrest t) id
  | tellClosed | tellFreed | uncount | drop | forgetClient | leaveDevice => cases htask

/-- An answer is heeded, whether it refuses or not. -/
theorem heeds_conclude (h : op.Heeds causes) (htodo : op.todo = task :: rest) (v : Verdict) :
    (conclude w op task rest v).2.Heeds
      ((if task.isRefusable then match v with
          | .refuse e => [e]
          | .accept => []
        else []) ++ causes) := by
  cases htask : task.isRefusable with
  | false =>
    exact heeds_of_later h htodo (sameHandles_conclude w op rest (Task.opening?_eq_none htask) v).2
      (Or.inl (outcome_conclude w op rest htask v))
  | true =>
    cases h with
    | refused hnone _ =>
      rw [htodo, List.forall_mem_cons, htask] at hnone
      cases hnone.1
    | unrefused hbehind houtcome =>
      rw [htodo, List.tail_cons] at hbehind
      cases v with
      | refuse e => exact heeds_conclude_refuse e htask hbehind
      | accept =>
        have hsame : (conclude w op task rest .accept).2 = { op with todo := rest } := by
          cases task <;> rfl
        rw [hsame]
        exact .unrefused (fun t ht => hbehind t (List.mem_of_mem_tail ht)) houtcome

/-- Every move keeps the operations in step with the refusals they have met. -/
theorem heeds_of_move {causes : List (List RequestError)}
    (h : List.Forall₂ Operation.Heeds m.operations causes) (hmove : m.move? x = some m') :
    List.Forall₂ Operation.Heeds m'.operations (m.refusalsAfter causes x) := by
  cases x with
  | call r =>
    obtain ⟨-, rfl⟩ := call?_eq_some.mp hmove
    exact .cons (Request.heeds_start m.world r) h
  | work =>
    obtain ⟨op, outer, task, rest, hops, htodo, hhook, rfl⟩ := of_work? hmove
    rw [hops] at h
    cases h with
    | cons hop houter =>
      exact .cons (heeds_of_later hop htodo (sameHandles_carryOut m.world op rest hhook).2
        (outcome_carryOut m.world op task rest).2) houter
  | answer v =>
    obtain ⟨op, outer, task, rest, call, hops, htodo, -, rfl⟩ := of_answer? hmove
    have hhook : m.hook? = task.hook? := hook?_of_operations hops htodo
    rw [hops] at h
    cases h with
    | cons hop houter =>
      have hconclude := heeds_conclude (w := m.world) hop htodo v
      refine .cons ?_ houter
      cases v with
      | accept => simpa [refusal?] using hconclude
      | refuse e =>
        rw [refusal?, hhook, any_isRefusable_hook?]
        split
        · next htask => simpa [htask] using hconclude
        · next htask => simpa [htask] using hconclude
  | finish =>
    obtain ⟨op, outer, hops, -, rfl⟩ := of_finish hmove
    rw [hops] at h
    cases h with
    | cons _ houter => exact houter
  | memory memory =>
    cases hmove
    exact h

theorem heeds_of_run {causes : List (List RequestError)}
    (h : List.Forall₂ Operation.Heeds m.operations causes) (hrun : m.run? moves = some m') :
    List.Forall₂ Operation.Heeds m'.operations (m.refusals causes moves) := by
  induction moves generalizing m causes with
  | nil =>
    cases hrun
    exact h
  | cons x xs ih =>
    obtain ⟨m₁, hx, hxs⟩ := Option.bind_eq_some_iff.mp hrun
    rw [refusals, hx]
    exact ih (heeds_of_move h hx) hxs

/-- An operation that ends with an error returns a negative number, or its driver refused it with the
code zero. -/
theorem returned_of_heeds {e : RequestError} (h : op.Heeds causes) (he : op.outcome = .error e) :
    e.returned < 0 ∨ e = .driver 0 ∧ causes = [.driver 0] := by
  rw [RequestError.returned_neg_iff]
  cases h with
  | unrefused _ hown =>
    left
    rintro rfl
    rw [he] at hown
    cases hown
  | refused _ houtcome =>
    rcases houtcome with hcause | ⟨f, hfault⟩
    · rw [Outcome.error.inj (hcause.symm.trans he)]
      by_cases hzero : e = .driver 0
      · exact Or.inr ⟨hzero, by rw [hzero]⟩
      · exact Or.inl hzero
    · rw [hfault] at he
      cases he

theorem outcome_of_heeds {e : RequestError} (h : op.Heeds causes) (he : e ∈ causes) :
    op.outcome = .error e ∨ ∃ f, op.outcome = .fault f := by
  cases h with
  | unrefused => cases he
  | refused _ houtcome =>
    obtain rfl := List.mem_singleton.mp he
    exact houtcome

theorem operations_of_finish? {outcome : Outcome RequestError Reply}
    (h : m.finish? = some (outcome, m')) :
    ∃ op outer, m.operations = op :: outer ∧ op.outcome = outcome := by
  unfold finish? at h
  split at h
  · next op outer hops =>
    split at h
    · cases h
      exact ⟨op, outer, hops, rfl⟩
    · cases h
  · cases h

/-- A failure is returned as a negative number, and the one exception is a refusal with the code
zero. Known codes of drivers come through, all others count as input or output errors; and at the end
of any operation of any run, an error is one that is returned as a negative number or the zero of its
own driver, and if its driver refused, then that is what it answers, short of a fault, which no tame
run has. -/
theorem failure_returns_negative (hrun : empty.run? moves = some m) :
    (∀ e : RequestError, e.returned < 0 ↔ e ≠ .driver 0) ∧
    (∀ e : TableError, (RequestError.ofTable e).returned < 0) ∧
    (∀ e : IdError, (RequestError.ofId e).returned < 0 ∧ (RequestError.ofTokenId e).returned < 0) ∧
    (∀ c : Int32, (∃ n : Errno, (n.code : Int) = c.toInt) →
      (RequestError.driver c).returned = -c.toInt) ∧
    (∀ c : Int32, (∀ n : Errno, (n.code : Int) ≠ c.toInt) →
      (RequestError.driver c).returned = Errno.inputOutput.returned) ∧
    ∀ outcome m', m.finish? = some (outcome, m') →
      ∃ causes outer, empty.refusals [] moves = causes :: outer ∧
        (∀ e, outcome = .error e → e.returned < 0 ∨ e = .driver 0 ∧ causes = [.driver 0]) ∧
        ∀ e ∈ causes, outcome = .error e ∨
          empty.tameRun? moves ≠ some m ∧ ∃ f, outcome = .fault f := by
  refine ⟨fun e => RequestError.returned_neg_iff, fun e => ?_, fun e => ⟨?_, ?_⟩,
    fun c => RequestError.returned_driver_of_known, fun c => RequestError.returned_driver_of_unknown,
    fun outcome m' hfinish => ?_⟩
  · cases e <;> decide
  · cases e <;> decide
  · cases e <;> decide
  · have hheeds : List.Forall₂ Operation.Heeds m.operations (empty.refusals [] moves) :=
      heeds_of_run .nil hrun
    obtain ⟨op, outer, hops, rfl⟩ := operations_of_finish? hfinish
    rw [hops] at hheeds
    obtain ⟨causes, rest, hop, -, hrefusals⟩ := List.forall₂_cons_left_iff.mp hheeds
    refine ⟨causes, rest, hrefusals, fun e => returned_of_heeds hop, fun e he => ?_⟩
    refine (outcome_of_heeds hop he).imp_right fun ⟨f, hfault⟩ => ⟨fun htame => ?_, f, hfault⟩
    have hin : op ∈ m.operations := by
      rw [hops]
      exact List.mem_cons_self
    exact ((Sound.of_tameRun htame).operations op hin).faultless f hfault

/-- A driver refuses a new handle with the number of an input or output error: that is what is
returned once the handle has been taken back. -/
theorem failure_returns_negative_refused :
    let moves := opening ++
      [.call (.createHandle 0 0), .answer (.refuse (.driver 5)), .work, .work]
    ∃ m m' outer, empty.run? moves = some m ∧ m.finish? = some (.error (.driver 5), m') ∧
      empty.refusals [] moves = [.driver 5] :: outer ∧ (RequestError.driver 5).returned < 0 ∧
      (RequestError.driver 5).returned = -5 := by
  intro moves
  have hread : ((empty.run? moves).bind finish?).map Prod.fst = some (.error (.driver 5)) := by
    decide +kernel
  obtain ⟨⟨outcome, m'⟩, hbind, rfl⟩ := Option.map_eq_some_iff.mp hread
  obtain ⟨m, hrun, hfinish⟩ := Option.bind_eq_some_iff.mp hbind
  obtain ⟨-, -, -, hknown, -, hends⟩ := failure_returns_negative hrun
  obtain ⟨causes, outer, hrefusals, hreturned, -⟩ := hends _ _ hfinish
  have hcauses : (empty.refusals [] moves).head? = some [.driver 5] := by decide +kernel
  rw [hrefusals, List.head?_cons, Option.some.injEq] at hcauses
  have hnegative := (hreturned _ rfl).resolve_right fun hzero => by cases hzero.1
  exact ⟨m, m', outer, hrun, hfinish, hcauses ▸ hrefusals, hnegative,
    hknown 5 ⟨.inputOutput, by decide⟩⟩

/-- A driver refuses a new handle with the code zero: the handle is taken back, and zero is returned
as if there had been no failure. -/
theorem refusal_with_zero_returns_zero :
    let moves := opening ++
      [.call (.createHandle 0 0), .answer (.refuse (.driver 0)), .work, .work]
    ∃ m m', empty.run? moves = some m ∧ m.finish? = some (.error (.driver 0), m') ∧
      m'.world.lookupHandle 0 1 = .error .invalidHandle ∧ (RequestError.driver 0).returned = 0 := by
  intro moves
  have hread : ((empty.run? moves).bind finish?).map (fun x =>
      (x.1, x.2.world.lookupHandle 0 1)) =
        some (.error (.driver 0), .error .invalidHandle) := by
    decide +kernel
  obtain ⟨⟨outcome, m'⟩, hbind, hfacts⟩ := Option.map_eq_some_iff.mp hread
  obtain ⟨m, hrun, hfinish⟩ := Option.bind_eq_some_iff.mp hbind
  obtain ⟨rfl, hlook⟩ := Prod.mk.inj hfacts
  exact ⟨m, m', hrun, hfinish, hlook, by decide⟩

end Machine

end BufferObjects
