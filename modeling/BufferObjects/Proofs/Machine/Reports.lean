import BufferObjects.Proofs.Machine.Tables
import BufferObjects.Proofs.Machine.Trace
import BufferObjects.Proofs.World.Reports

/-!
What moves report, and with what causes operations are refused. A sound machine in a calm world
stays in a calm world, whatever orderly move it makes; the argument goes by the parts of a move, as
that for soundness does, and takes from soundness that names and tokens are in the tables of their
devices. No request begins with the refusal of a taken key, and no task brings one about. So where
an operation answers that a key is taken, its driver has said so at one of its own hooks.
-/

namespace BufferObjects

/-- Whether a driver can refuse what it is told of. -/
def Hook.isRefusable : Hook → Bool
  | prepare | opened _ => true
  | closed _ | freed => false

variable {w : World} {op : Operation}

namespace Request

variable {r : Request} {c : ClientRef} {d : DeviceRef} {o : ObjectRef}

/-- A calm world, and an operation that is not refused for a taken key. -/
structure Composed (x : World × Operation) : Prop where
  calm : x.1.Calm
  outcome : x.2.outcome ≠ .error .duplicateKey

/-! ### The ways to begin -/

theorem error_ne_duplicate {α β : Type} {e : RequestError}
    (h : (.error e : Except RequestError α) ≠ .error .duplicateKey) :
    (.error e : Outcome RequestError β) ≠ .error .duplicateKey := by
  rintro ⟨⟩
  exact h rfl

theorem map_ne_duplicate {α : Type} {reply : α → Reply} {outcome : Outcome RequestError α}
    (h : outcome ≠ .error .duplicateKey) : outcome.map reply ≠ .error .duplicateKey := by
  cases outcome with
  | ok | fault => nofun
  | error e =>
    rintro ⟨⟩
    exact h rfl

theorem ofExcept_ne_duplicate {α : Type} {result : Except RequestError α}
    (h : result ≠ .error .duplicateKey) : Outcome.ofExcept result ≠ .error .duplicateKey := by
  cases result with
  | ok => nofun
  | error e => exact error_ne_duplicate h

theorem composed_answerObject (h : w.Calm) {reply : ObjectRef → Reply}
    {found : Except RequestError ObjectRef} (hfound : found ≠ .error .duplicateKey) :
    Composed (answerObject w r reply found) := by
  cases found with
  | ok o => exact ⟨h.updateObject o _, nofun⟩
  | error e => exact ⟨h, error_ne_duplicate hfound⟩

theorem composed_startDelete (h : w.Calm) (htables : w.TablesSound) (r : Request) (c : ClientRef)
    (hd : Handle) : Composed (startDelete w r c hd) := by
  have hcalm := h.takeHandle htables c hd
  unfold startDelete
  split
  all_goals
    next heq =>
    rw [heq] at hcalm
    first
    | exact ⟨hcalm, nofun⟩
    | exact ⟨hcalm.note rfl, nofun⟩

theorem composed_startOpen (h : w.Calm) (htables : w.TablesSound) (r : Request) (c : ClientRef)
    (o : ObjectRef) (reply : Handle → Reply) (after : List Task) :
    Composed (startOpen w r c o reply after) := by
  obtain ⟨hcalm, hne⟩ := h.openHandle htables c o
  unfold startOpen
  split
  · next heq =>
    rw [heq] at hcalm
    exact ⟨hcalm, nofun⟩
  · next heq =>
    rw [heq] at hcalm hne
    refine ⟨hcalm, ?_⟩
    rintro ⟨⟩
    exact hne rfl
  · next heq =>
    rw [heq] at hcalm
    exact ⟨hcalm, nofun⟩

theorem composed_guarded (h : w.Calm) {c? : Option ClientRef} {body : World → World × Operation}
    (hbody : Composed (body w)) :
    Composed (match access w d c? with
      | (w, .error e) => (w, Operation.finished r (.error e))
      | (w, .ok ()) => body w) := by
  have hcalm : (access w d c?).1.Calm := by
    unfold access
    split
    · exact h
    · split
      · exact h
      · split
        · exact h
        · exact h.note rfl
  refine guarded_cases (fun _ _ => hbody) fun ns e haccess => ⟨?_, ?_⟩
  · rwa [haccess] at hcalm
  · rcases error_of_access haccess with rfl | rfl <;> nofun

/-! ### Every request -/

theorem composed_start {outside uses : List ObjectRef} (h : w.Calm) (hsound : w.Sound outside uses)
    (hown : r.isOwn w = true) (halive : ∀ d, r.device? = some d → (w.device d).alive = true) :
    Composed (r.start w) := by
  have htables : w.TablesSound := hsound.clients.wellFormed
  cases r with
  | newDevice config features =>
    obtain ⟨hcalm, hne⟩ := h.newDevice config features
    exact ⟨hcalm, map_ne_duplicate (ofExcept_ne_duplicate hne)⟩
  | dropDevice d => exact ⟨h.updateDevice d id id, by rintro ⟨⟩⟩
  | openClient d =>
    obtain ⟨hcalm, hne⟩ := h.newClient d
    exact ⟨hcalm, map_ne_duplicate (ofExcept_ne_duplicate hne)⟩
  | closeClient c => exact ⟨h.closeClient c, by rintro ⟨⟩⟩
  | dropClient c => exact ⟨h.closeClient c, by rintro ⟨⟩⟩
  | createObject d size =>
    obtain ⟨hcalm, hne⟩ := h.newObject d size
    simp only [start]
    split
    · next heq =>
      rw [heq] at hcalm
      exact ⟨hcalm, by simp⟩
    · next heq =>
      rw [heq] at hcalm hne
      exact ⟨hcalm, error_ne_duplicate hne⟩
  | cloneObject o => exact ⟨h.updateObject o _, by rintro ⟨⟩⟩
  | dropObject o => exact ⟨h, by rintro ⟨⟩⟩
  | createHandle c o => exact composed_startOpen h htables _ c o _ _
  | lookupHandle c hd => exact composed_answerObject h World.lookupHandle_ne_duplicate
  | deleteHandle c hd => exact composed_startDelete h htables _ c hd
  | nameHandle d c hd =>
    refine composed_guarded h ?_
    cases hlook : w.lookupHandle c hd with
    | error e => exact ⟨h, error_ne_duplicate (hlook ▸ World.lookupHandle_ne_duplicate)⟩
    | ok o =>
      have hwf := hsound.names.wellFormed d (halive d rfl)
      obtain ⟨hcalm, hne⟩ := World.Calm.publishName (w := w.retain o) (h.updateObject o _) hwf o
      exact ⟨hcalm, map_ne_duplicate hne⟩
  | openName d c n =>
    refine composed_guarded h ?_
    cases hres : w.resolveName d n with
    | error e => exact ⟨h, error_ne_duplicate (hres ▸ World.resolveName_ne_duplicate)⟩
    | ok o => exact composed_startOpen (w := w.retain o) (h.updateObject o _) htables _ c o _ _
  | closeHandle d c hd => exact composed_guarded h (composed_startDelete h htables _ c hd)
  | mapHandle d c hd =>
    refine composed_guarded h ?_
    cases hlook : w.lookupHandle c hd with
    | error e => exact ⟨h, error_ne_duplicate (hlook ▸ World.lookupHandle_ne_duplicate)⟩
    | ok o =>
      have hwf := hsound.tokens.wellFormed d (halive d rfl)
      obtain ⟨hcalm, hne⟩ := World.Calm.createToken (w := w.retain o) (h.updateObject o _) hwf o
      exact ⟨hcalm, map_ne_duplicate hne⟩
  | objectAtAddress d a =>
    obtain ⟨hcalm, hne⟩ := h.objectAtAddress d a
    exact composed_answerObject hcalm hne
  | mapRange d a length =>
    refine composed_guarded h ?_
    obtain ⟨hcalm, hne⟩ := h.mappingAt d a length
    split
    · next heq =>
      rw [heq] at hcalm
      exact ⟨hcalm.updateObject _ _, by rintro ⟨⟩⟩
    · next heq =>
      rw [heq] at hcalm hne
      exact ⟨hcalm, error_ne_duplicate hne⟩
  | publishName d o =>
    obtain ⟨hcalm, hne⟩ := h.publishName (hsound.names.wellFormed d (halive d rfl)) o
    exact ⟨hcalm, map_ne_duplicate hne⟩
  | resolveName d n => exact composed_answerObject h World.resolveName_ne_duplicate
  | retireName d o =>
    have hcalm := h.retireName hsound.names (beq_iff_eq.mp hown)
    simp only [start]
    split
    all_goals
      next heq =>
      rw [heq] at hcalm
      exact ⟨hcalm, by rintro ⟨⟩⟩
  | createToken d o =>
    obtain ⟨hcalm, hne⟩ := h.createToken (hsound.tokens.wellFormed d (halive d rfl)) o
    exact ⟨hcalm, map_ne_duplicate hne⟩
  | resolveToken d t => exact composed_answerObject h World.resolveToken_ne_duplicate
  | destroyToken d o =>
    refine ⟨h.destroyToken hsound.tokens.toTokensAgree (beq_iff_eq.mp hown) (halive d rfl), ?_⟩
    simp only [start]
    cases (w.destroyToken d o).2 <;> rintro ⟨⟩

end Request

namespace Machine

variable {m m' : Machine} {x : Move} {task : Task} {rest : List Task} {v : Verdict}
  {e : RequestError}

/-! ### Tasks and answers -/

theorem calm_carryOut (h : w.Calm) (hnames : w.NamesSound) (htokens : w.TokensAgree)
    (hhome : ∀ d o, task = .uncount d o → (w.object o).home = d) :
    (carryOut w op task rest).1.Calm := by
  cases task with
  | uncount d o =>
    have huncount : (w.uncountHandle o).1.Calm := h.updateObject o _
    have hsame : w.SameButCounts (w.uncountHandle o).1 :=
      .updateObject w o fun _ => ⟨_, _, _, rfl⟩
    have hretire := huncount.retireName (hsame.namesSound hnames)
      ((hsame.home_eq o).trans (hhome d o rfl))
    simp only [carryOut]
    split
    · next heq =>
      rw [heq] at huncount
      exact huncount
    · next heq =>
      rw [heq] at huncount
      exact huncount
    · next heq =>
      rw [heq] at hretire
      split
      all_goals
        next heq' =>
        rw [heq'] at hretire
        exact hretire
  | drop o =>
    have hdrop := h.dropRef htokens o
    simp only [carryOut]
    split
    all_goals
      next heq =>
      rw [heq] at hdrop
      exact hdrop
  | forgetClient c => exact h.updateClient c (h.handles c)
  | leaveDevice d => exact h.leaveDevice d
  | prepare | tellOpened | tellClosed | tellFreed => exact h

theorem calm_conclude (h : w.Calm) (htables : w.TablesSound) :
    (conclude w op task rest v).1.Calm := by
  unfold conclude
  dsimp only
  split
  · exact (h.updateObject _ _).note rfl
  · exact h.note rfl
  · exact h.note rfl
  · next c hd _ _ =>
    have hrefused : (w.note (.handleRefused hd)).Calm := h.note rfl
    have htake := hrefused.takeHandle htables c hd
    unfold undoHandle
    split
    all_goals
      next heq =>
      rw [heq] at htake
      exact htake
  · exact h

/-- A task brings about no refusal. -/
theorem outcome_of_carryOut (h : (carryOut w op task rest).2.outcome = .error e) :
    op.outcome = .error e := by
  rcases (outcome_carryOut w op task rest).2 with hsame | ⟨f, hfault⟩
  · rwa [← hsame]
  · rw [hfault] at h
    cases h

/-- An answer brings about the refusal that it gives, if it can refuse at all. -/
theorem outcome_of_conclude (h : (conclude w op task rest v).2.outcome = .error e) :
    op.outcome = .error e ∨
      v = .refuse e ∧ task.hook?.any (fun call => call.hook.isRefusable) = true := by
  unfold conclude at h
  dsimp only at h
  split at h
  · exact Or.inl h
  · cases h
    exact Or.inr ⟨rfl, rfl⟩
  · exact Or.inl h
  · unfold undoHandle at h
    split at h
    · cases h
      exact Or.inr ⟨rfl, rfl⟩
    · cases h
      exact Or.inr ⟨rfl, rfl⟩
    · cases h
  · exact Or.inl h

/-! ### Moves -/

/-- Every orderly move of a sound machine leaves the world calm. -/
theorem Sound.calm_of_move (h : m.Sound) (hcalm : m.world.Calm)
    (hmove : m.orderlyMove? x = some m') : m'.world.Calm := by
  obtain ⟨hown, hx, -⟩ := orderlyMove?_eq_some.mp hmove
  cases x with
  | call r =>
    obtain ⟨hperm, rfl⟩ := call?_eq_some.mp hx
    exact (Request.composed_start hcalm h.world hown fun d hd => h.alive_of_permits hperm hd).calm
  | work =>
    obtain ⟨op, outer, task, rest, hops, htodo, -, rfl⟩ := of_work? hx
    have hop := h.operations op (by rw [hops]; exact List.mem_cons_self)
    refine calm_carryOut hcalm h.world.names h.world.tokens.toTokensAgree fun d o htask => ?_
    exact (hop.uncounts d o (by rw [htodo, htask]; exact List.mem_cons_self)).2.1
  | answer v =>
    obtain ⟨op, outer, task, rest, call, -, -, -, rfl⟩ := of_answer? hx
    exact calm_conclude hcalm h.world.clients.wellFormed
  | finish =>
    obtain ⟨op, outer, -, -, rfl⟩ := of_finish hx
    exact hcalm
  | memory memory =>
    cases hx
    exact hcalm.of_eq rfl rfl rfl

/-- Every state of an orderly run is in a calm world. -/
theorem calm_of_run {moves : List Move} (hrun : empty.orderlyRun? moves = some m) :
    m.world.Calm := by
  have hboth : m.Sound ∧ m.world.Calm :=
    orderlyRun?_induction (P := fun m => m.Sound ∧ m.world.Calm)
      (fun m x m' ⟨h, hcalm⟩ hmove => ⟨h.move hmove, h.calm_of_move hcalm hmove⟩)
      ⟨.empty, .empty⟩ hrun
  exact hboth.2

/-! ### Refusals -/

/-- The cause with which a driver refuses what it is asked for. -/
def refusal? (m : Machine) : Verdict → Option RequestError
  | .refuse e => if m.hook?.any fun call => call.hook.isRefusable then some e else none
  | .accept => none

/-- The causes with which each operation in progress has been refused, innermost operation first,
after one more move. -/
def refusalsAfter (m : Machine) (causes : List (List RequestError)) :
    Move → List (List RequestError)
  | .call _ => [] :: causes
  | .answer v => causes.modifyHead ((m.refusal? v).toList ++ ·)
  | .finish => causes.tail
  | .work | .memory _ => causes

/-- The causes with which each operation in progress has been refused, after moves. -/
def refusals (m : Machine) (causes : List (List RequestError)) : List Move →
    List (List RequestError)
  | [] => causes
  | x :: xs =>
    match m.move? x with
    | some m' => m'.refusals (m.refusalsAfter causes x) xs
    | none => causes

/-- An operation that answers that a key is taken has been told so by its driver. -/
def Blames (op : Operation) (causes : List RequestError) : Prop :=
  op.outcome = .error .duplicateKey → .duplicateKey ∈ causes

theorem Sound.blames_of_move {causes : List (List RequestError)} (h : m.Sound)
    (hcalm : m.world.Calm) (hblames : List.Forall₂ Blames m.operations causes)
    (hmove : m.orderlyMove? x = some m') :
    List.Forall₂ Blames m'.operations (m.refusalsAfter causes x) := by
  obtain ⟨hown, hx, -⟩ := orderlyMove?_eq_some.mp hmove
  cases x with
  | call r =>
    obtain ⟨hperm, rfl⟩ := call?_eq_some.mp hx
    have hbegun := Request.composed_start hcalm h.world hown fun d hd => h.alive_of_permits hperm hd
    exact .cons (fun houtcome => absurd houtcome hbegun.outcome) hblames
  | work =>
    obtain ⟨op, outer, task, rest, hops, -, -, rfl⟩ := of_work? hx
    rw [hops] at hblames
    cases hblames with
    | cons hop houter => exact .cons (fun houtcome => hop (outcome_of_carryOut houtcome)) houter
  | answer v =>
    obtain ⟨op, outer, task, rest, call, hops, htodo, -, rfl⟩ := of_answer? hx
    have hhook : m.hook? = task.hook? := hook?_of_operations hops htodo
    rw [hops] at hblames
    cases hblames with
    | cons hop houter =>
      -- the answer goes to the innermost operation, and so does the blame
      refine .cons (fun houtcome => List.mem_append.mpr ?_) houter
      rcases outcome_of_conclude houtcome with hold | ⟨rfl, hask⟩
      · exact Or.inr (hop hold)
      · rw [refusal?, hhook, if_pos hask]
        exact Or.inl List.mem_cons_self
  | finish =>
    obtain ⟨op, outer, hops, -, rfl⟩ := of_finish hx
    rw [hops] at hblames
    cases hblames with
    | cons _ houter => exact houter
  | memory memory =>
    cases hx
    exact hblames

/-- Blames are kept by whole runs, from whatever sound state in a calm world they start. -/
theorem Sound.blames_of_run {moves : List Move} {causes : List (List RequestError)} (h : m.Sound)
    (hcalm : m.world.Calm) (hblames : List.Forall₂ Blames m.operations causes)
    (hrun : m.orderlyRun? moves = some m') :
    List.Forall₂ Blames m'.operations (m.refusals causes moves) := by
  induction moves generalizing m causes with
  | nil =>
    cases hrun
    exact hblames
  | cons x xs ih =>
    obtain ⟨m₁, hx, hxs⟩ := Option.bind_eq_some_iff.mp hrun
    obtain ⟨-, hmove, -⟩ := orderlyMove?_eq_some.mp hx
    rw [refusals, hmove]
    exact ih (h.move hx) (h.calm_of_move hcalm hx) (h.blames_of_move hcalm hblames hx) hxs

end Machine

end BufferObjects
