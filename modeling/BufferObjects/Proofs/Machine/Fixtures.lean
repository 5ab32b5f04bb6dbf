import BufferObjects.Proofs.Machine.Marks
import BufferObjects.Proofs.World.Fixtures

/-!
What things are made with, along a run. Only a call can make a device or an object; every other
move, and every other call, leaves all that things keep as it is. So in every state that moves lead
to the devices are set up as their configurations say, and the objects belong to devices that manage
buffers.
-/

namespace BufferObjects

variable {w : World} {r : Request}

namespace Request

open World

/-! ### How requests begin -/

@[simp] theorem fixtures_answerObject (w : World) (r : Request) (reply : ObjectRef → Reply)
    (found : Except RequestError ObjectRef) :
    (answerObject w r reply found).1.fixtures = w.fixtures := by
  cases found with
  | ok o => exact fixtures_retain w o
  | error e => rfl

@[simp] theorem fixtures_startDelete (w : World) (r : Request) (c : ClientRef) (h : Handle) :
    (startDelete w r c h).1.fixtures = w.fixtures := by
  have htake := fixtures_takeHandle w c h
  unfold startDelete
  split
  all_goals
    next heq =>
    rw [heq] at htake
    exact htake

@[simp] theorem fixtures_startOpen (w : World) (r : Request) (c : ClientRef) (o : ObjectRef)
    (reply : Handle → Reply) (after : List Task) :
    (startOpen w r c o reply after).1.fixtures = w.fixtures := by
  have hopen := fixtures_openHandle w c o
  unfold startOpen
  split
  all_goals
    next heq =>
    rw [heq] at hopen
    exact hopen

theorem fixtures_guarded {d : DeviceRef} {c? : Option ClientRef} {body : World → World × Operation}
    (hbody : (body w).1.fixtures = w.fixtures) :
    (match access w d c? with
      | (w, .error e) => (w, Operation.finished r (.error e))
      | (w, .ok ()) => body w).1.fixtures = w.fixtures :=
  guarded_cases (P := fun x => x.1.fixtures = w.fixtures) (fun _ _ => hbody)
    fun ns _ _ => fixtures_noteAll w ns

/-- What a request makes. -/
def makes : Request → Bool
  | newDevice .. | createObject .. => true
  | _ => false

/-- A request that makes nothing leaves everything that things keep as it is. -/
theorem fixtures_start (w : World) (h : r.makes = false) :
    (r.start w).1.fixtures = w.fixtures := by
  cases r with
  | newDevice | createObject => cases h
  | dropDevice d => exact fixtures_updateDevice rfl
  | openClient d => exact fixtures_newClient w d
  | closeClient c => exact fixtures_closeClient w c
  | dropClient c => exact fixtures_closeClient w c
  | cloneObject o => exact fixtures_retain w o
  | dropObject o => rfl
  | createHandle c o => exact fixtures_startOpen w _ c o _ _
  | lookupHandle c hd => exact fixtures_answerObject w _ _ _
  | deleteHandle c hd => exact fixtures_startDelete w _ c hd
  | nameHandle d c hd =>
    refine fixtures_guarded ?_
    split
    · rfl
    · simp
  | openName d c n =>
    refine fixtures_guarded ?_
    split
    · rfl
    · simp
  | closeHandle d c hd => exact fixtures_guarded (fixtures_startDelete w _ c hd)
  | mapHandle d c hd =>
    refine fixtures_guarded ?_
    split
    · rfl
    · simp
  | objectAtAddress d a =>
    simp only [start]
    rcases objectAtAddress_spec w d a with ⟨o, hfound, -⟩ | ⟨ns, e, hfound⟩ <;> simp [hfound]
  | mapRange d a length =>
    refine fixtures_guarded ?_
    rcases mappingAt_spec w d a length with ⟨o, offset, hfound, -⟩ | ⟨ns, e, hfound⟩ <;>
      simp [hfound]
  | publishName d o => exact fixtures_publishName w d o
  | resolveName d n => exact fixtures_answerObject w _ _ _
  | retireName d o =>
    have hretire := fixtures_retireName w d o
    simp only [start]
    split
    all_goals
      next heq =>
      rw [heq] at hretire
      exact hretire
  | createToken d o => exact fixtures_createToken w d o
  | resolveToken d t => exact fixtures_answerObject w _ _ _
  | destroyToken d o => exact fixtures_destroyToken w d o

theorem fitted_start (h : w.Fitted) (hd : ∀ d, r.device? = some d → d < w.devices.size) :
    (r.start w).1.Fitted := by
  cases hmakes : r.makes with
  | false => exact h.of_fixtures (fixtures_start w hmakes)
  | true =>
    cases r with
    | newDevice config features => exact h.newDevice config features
    | createObject d size =>
      have hnew := h.newObject (hd d rfl) size
      simp only [start]
      split
      all_goals
        next heq =>
        rw [heq] at hnew
        exact hnew
    | _ => cases hmakes

end Request

namespace Machine

variable {m m' : Machine} {x : Move} {op : Operation} {task : Task} {rest : List Task}

open World

/-! ### Tasks and answers -/

theorem fixtures_carryOut (w : World) (op : Operation) (task : Task) (rest : List Task) :
    (carryOut w op task rest).1.fixtures = w.fixtures := by
  cases task with
  | uncount d o =>
    have huncount := fixtures_uncountHandle w o
    simp only [carryOut]
    rcases hcount : w.uncountHandle o with ⟨w₁, f | last⟩
    · rw [hcount] at huncount
      exact huncount
    · rw [hcount] at huncount
      cases last with
      | false => exact huncount
      | true =>
        have hretire := (fixtures_retireName w₁ d o).trans huncount
        dsimp only
        rcases heq : w₁.retireName d o with ⟨w₂, b | ok⟩
        all_goals
          rw [heq] at hretire
          exact hretire
  | drop o =>
    have hdrop := fixtures_dropRef w o
    simp only [carryOut]
    rcases heq : w.dropRef o with ⟨w', f | dropped⟩
    · rw [heq] at hdrop
      exact hdrop
    · rw [heq] at hdrop
      cases dropped <;> exact hdrop
  | forgetClient c => rfl
  | leaveDevice d => exact fixtures_leaveDevice w d
  | prepare | tellOpened | tellClosed | tellFreed => rfl

theorem fixtures_undoHandle (w : World) (op : Operation) (c : ClientRef) (h : Handle) :
    (undoHandle w op c h).1.fixtures = w.fixtures := by
  have htake := fixtures_takeHandle w c h
  unfold undoHandle
  split
  all_goals
    next heq =>
    rw [heq] at htake
    exact htake

theorem fixtures_conclude (w : World) (op : Operation) (task : Task) (rest : List Task)
    (v : Verdict) : (conclude w op task rest v).1.fixtures = w.fixtures := by
  unfold conclude
  dsimp only
  split
  · refine (fixtures_note ..).trans (fixtures_updateObject ?_)
    rfl
  · rfl
  · rfl
  · exact fixtures_undoHandle ..
  · rfl

/-! ### Moves -/

theorem fitted_of_move (h : m.world.Fitted) (hmove : m.move? x = some m') : m'.world.Fitted := by
  cases x with
  | call r =>
    obtain ⟨hperm, rfl⟩ := call?_eq_some.mp hmove
    exact Request.fitted_start h (lt_size_of_permits hperm)
  | work =>
    obtain ⟨op, outer, task, rest, -, -, -, rfl⟩ := of_work? hmove
    exact h.of_fixtures (fixtures_carryOut ..)
  | answer v =>
    obtain ⟨op, outer, task, rest, call, -, -, -, rfl⟩ := of_answer? hmove
    exact h.of_fixtures (fixtures_conclude ..)
  | finish =>
    obtain ⟨op, outer, -, -, rfl⟩ := of_finish hmove
    exact h
  | memory memory =>
    cases hmove
    exact h.of_fixtures (fixtures_under m.world memory)

theorem fitted_of_tameRun {moves : List Move} (hrun : empty.tameRun? moves = some m) :
    m.world.Fitted :=
  tameRun?_induction (P := fun m => m.world.Fitted)
    (fun _ _ _ h hmove => fitted_of_move h (tameMove?_eq_some.mp hmove).2.1) .empty hrun

end Machine

end BufferObjects
