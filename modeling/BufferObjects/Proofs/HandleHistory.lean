import BufferObjects.Proofs.Refusal

/-!
What becomes of one client's handles in a run. Only requests on the client and what its driver and
memory say to its openings are its history. As long as nobody interferes with a client's handles
while an operation on the client is in progress, the history alone says what the handles lead to and
what each request on them is answered, so that it does not matter what other clients do in between,
be it to the same objects or under the same names.
-/

namespace BufferObjects

/-- The handle that an answer gives out. -/
def Reply.handle? : Reply → Option Handle
  | handle h | opened h _ => some h
  | _ => none

/-- Opening a handle for an object of another device is out of the question, and so is one for which
memory refuses the room it takes. -/
def World.openingStep (w : World) (c : ClientRef) (o : ObjectRef) : HandleStep :=
  if (w.memory.ids && w.memory.entry) = false ∧
      (w.openHandle c o).2 = .error .outOfMemory then .barred .outOfMemory
  else if (w.object o).home = (w.client c).device then .opens o
  else .barred .invalidArgument

/-- What a request asks of the handles of its client. A name stands for the object that it leads
to. -/
def Request.handleStep? (w : World) : Request → Option HandleStep
  | createHandle c o => some (w.openingStep c o)
  | deleteHandle _ h => some (.deletes h)
  | openName d c n =>
    match (access w d (some c)).2, w.resolveName d n with
    | .error e, _ | .ok (), .error e => some (.barred e)
    | .ok (), .ok o => some (w.openingStep c o)
  | closeHandle d c h =>
    match (access w d (some c)).2 with
    | .error e => some (.barred e)
    | .ok () => some (.deletes h)
  | closeClient _ | dropClient _ => some .closes
  | _ => none

/-- What an operation in progress has to do with the newest step on the handles of its client: it
waits for what the driver says to an opening, or it has its answer and nothing can be refused any
more, or it has come to a fault. -/
inductive Operation.Tells (c : ClientRef) (b : HandleMap) : HandleDeed → Operation → Prop
  | waits {op : Operation} {h : Handle} {o : ObjectRef} {rest : List Task}
      (htodo : op.todo = .tellOpened c h o :: rest) (hrest : ∀ t ∈ rest, t.isRefusable = false)
      (hvacant : b.vacancy? = some h) (houtcome : op.outcome.map Reply.handle? = .ok (some h)) :
      Tells c b ⟨.opens o, none⟩ op
  | settled {op : Operation} {x : HandleDeed} {a : HandleAnswer}
      (htodo : ∀ t ∈ op.todo, t.isRefusable = false) (hanswer : b.answer? x = some a)
      (houtcome : op.outcome.map Reply.handle? = .ofExcept a) : Tells c b x op
  | broken {op : Operation} {x : HandleDeed} {f : Fault}
      (htodo : ∀ t ∈ op.todo, t.isRefusable = false) (houtcome : op.outcome = .fault f) :
      Tells c b x op

/-! ### Requests -/

namespace Request

variable {w w₁ w' : World} {r : Request} {c : ClientRef} {o : ObjectRef} {h : Handle}
  {after : List Task} {e : RequestError}

/-- A request begins as its step on the handles asks. -/
structure Performs (w : World) (c : ClientRef) (x : HandleStep) (w' : World) (op : Operation) :
    Prop where
  handleMap_eq : w'.handleMap c = (w.handleMap c).after ⟨x, none⟩
  tells : op.Tells c (w.handleMap c) ⟨x, none⟩

/-- What an opening asks hangs on the client, the object's home and memory alone. -/
theorem openingStep_congr (hclient : w₁.client c = w.client c)
    (hhome : (w₁.object o).home = (w.object o).home) (hmemory : w₁.memory = w.memory) :
    w₁.openingStep c o = w.openingStep c o := by
  have hanswer : (w₁.openHandle c o).2 = (w.openHandle c o).2 := by
    unfold World.openHandle
    dsimp only
    rw [hclient, hhome, hmemory]
    split
    · rfl
    · cases (w.client c).handles with
      | none => rfl
      | some table =>
        dsimp only
        rcases table.issue o w.memory with ⟨table', e | n⟩ <;> rfl
  rw [World.openingStep, World.openingStep, hanswer, hclient, hhome, hmemory]

theorem Performs.barred (hsame : w.SameHandles w') (hafter : ∀ t ∈ after, t.isRefusable = false) :
    Performs w c (.barred e) w' ⟨r, after, .error e⟩ :=
  ⟨hsame.handleMap_eq c, .settled hafter rfl rfl⟩

theorem Performs.opening (hwf : w.TablesSound) (hclients : w₁.clients = w.clients)
    (hhome : (w₁.object o).home = (w.object o).home) (hmemory : w₁.memory = w.memory)
    {reply : Handle → Reply} (hreply : ∀ h, (reply h).handle? = some h)
    (hafter : ∀ t ∈ after, t.isRefusable = false) :
    Performs w c (w.openingStep c o) (startOpen w₁ r c o reply after).1
      (startOpen w₁ r c o reply after).2 := by
  have hsame : w.SameHandles w₁ := .of_clients hclients
  have hopens := (hsame.tables hwf).opens c o
  have hmap := hsame.handleMap_eq c
  rw [← openingStep_congr (World.client_congr hclients c) hhome hmemory]
  unfold startOpen World.openingStep
  generalize w₁.openHandle c o = opened at hopens
  cases hopens with
  | given hown hvacant hremaps =>
    rw [hmap] at hvacant hremaps
    rw [if_neg (by simp), if_pos hown]
    refine ⟨?_, .waits rfl hafter hvacant (congrArg Outcome.ok (hreply _))⟩
    rw [hremaps.handleMap_eq, if_pos rfl, HandleMap.after_opens hvacant]
  | exhausted hown hnone hrestores =>
    rw [hmap] at hnone ⊢
    rw [if_neg (by split <;> simp), if_pos hown]
    refine ⟨?_, .settled (a := .error _) hafter ?_ rfl⟩
    · rw [HandleMap.after_opens_of_no_vacancy hnone]
      exact (hsame.trans hrestores.sameHandles).handleMap_eq c
    · simp only [HandleMap.answer?, hnone]
  | noRoom hown hrefused hrestores =>
    rw [if_pos ⟨Bool.and_eq_false_iff.mpr hrefused, rfl⟩]
    exact .barred (hsame.trans hrestores.sameHandles) hafter
  | foreign hforeign hrestores =>
    rw [if_neg (by simp), if_neg hforeign]
    exact .barred (hsame.trans hrestores.sameHandles) hafter

theorem Performs.deleting (hwf : w.TablesSound) :
    Performs w c (.deletes h) (startDelete w r c h).1 (startDelete w r c h).2 := by
  obtain ⟨hremaps, hfound⟩ := hwf.remaps_takeHandle c h
  have hmap := hremaps.handleMap_eq c
  rw [if_pos rfl] at hmap
  unfold startDelete
  rcases htake : w.takeHandle c h with ⟨w', _ | ⟨o, freed⟩⟩ <;> rw [htake] at hmap hfound
  · have hnone := Option.map_eq_none_iff.mp hfound.symm
    exact ⟨hmap, .settled nofun (by simp only [HandleMap.answer?, hnone, if_true]; rfl) rfl⟩
  · obtain ⟨o', hsome, heq⟩ := Option.map_eq_some_iff.mp hfound.symm
    cases heq
    refine ⟨hmap, .settled (a := .ok none) (by simp [Task.closing, Task.isRefusable]) ?_ rfl⟩
    simp only [HandleMap.answer?, hsome, reduceCtorEq, if_false]

theorem Performs.closing (hwf : w.TablesSound) (hafter : ∀ t ∈ after, t.isRefusable = false) :
    Performs w c .closes (w.closeClient c).1
      ⟨r, (w.closeClient c).2.flatMap (Task.closing (w.closeClient c).1 c) ++ after, .ok .done⟩ := by
  refine ⟨?_, .settled (fun t ht => ?_) rfl rfl⟩
  · rw [(hwf.remaps_closeClient c).handleMap_eq, if_pos rfl]
    rfl
  · rcases List.mem_append.mp ht with hin | hin
    · exact Task.isRefusable_closings _ _ _ t hin
    · exact hafter t hin

/-- Every request that is made to change a client's handles begins with its step. -/
theorem performs (hwf : w.TablesSound) (hr : r.handled? = some c) :
    ∃ x, r.handleStep? w = some x ∧ Performs w c x (r.start w).1 (r.start w).2 := by
  cases r with
  | createHandle e o =>
    obtain rfl := Option.some.inj hr
    exact ⟨_, rfl, .opening hwf rfl rfl rfl (fun _ => rfl) nofun⟩
  | deleteHandle e h =>
    obtain rfl := Option.some.inj hr
    exact ⟨_, rfl, .deleting hwf⟩
  | openName d e n =>
    obtain rfl := Option.some.inj hr
    simp only [handleStep?, start]
    rcases access_spec w d (some e) with ⟨haccess, -⟩ | ⟨ns, err, haccess⟩
    · rw [haccess]
      dsimp only
      cases w.resolveName d n with
      | error err => exact ⟨_, rfl, .barred (.of_clients rfl) nofun⟩
      | ok o =>
        refine ⟨_, rfl, .opening hwf (World.clients_retain w o) ?_ rfl (fun _ => rfl) ?_⟩
        · rw [World.object_retain]
          split <;> rfl
        · simp [Task.isRefusable]
    · rw [haccess]
      exact ⟨_, rfl, .barred (.of_clients (by simp)) nofun⟩
  | closeHandle d e h =>
    obtain rfl := Option.some.inj hr
    simp only [handleStep?, start]
    rcases access_spec w d (some e) with ⟨haccess, -⟩ | ⟨ns, err, haccess⟩
    · rw [haccess]
      exact ⟨_, rfl, .deleting hwf⟩
    · rw [haccess]
      exact ⟨_, rfl, .barred (.of_clients (by simp)) nofun⟩
  | closeClient e =>
    obtain rfl := Option.some.inj hr
    have hclosing := Performs.closing (r := .closeClient e) (c := e) hwf (List.forall_mem_nil _)
    rw [List.append_nil] at hclosing
    exact ⟨_, rfl, hclosing⟩
  | dropClient e =>
    obtain rfl := Option.some.inj hr
    exact ⟨_, rfl, .closing hwf (List.forall_mem_singleton.mpr rfl)⟩
  | _ => cases hr

theorem client?_of_handled? (hr : r.handled? = some c) : r.client? = some c := by
  cases r with
  | createHandle | deleteHandle | openName | closeHandle | closeClient | dropClient => exact hr
  | _ => cases hr

end Request

/-! ### Operations in progress -/

namespace Operation.Tells

variable {c : ClientRef} {b : HandleMap} {x : HandleDeed} {op : Operation} {w : World} {task : Task}
  {rest : List Task}

/-- The first task of an operation that waits tells of the opening, and no task of another can be
refused. -/
theorem of_isRefusable (h : op.Tells c b x) (htodo : op.todo = task :: rest)
    (htask : task.isRefusable = true) : ∃ g o, task = .tellOpened c g o ∧ x = ⟨.opens o, none⟩ ∧
      (∀ t ∈ rest, t.isRefusable = false) ∧ b.vacancy? = some g ∧
      op.outcome.map Reply.handle? = .ok (some g) := by
  have hsettled (hall : ∀ t ∈ op.todo, t.isRefusable = false) : False := by
    rw [hall task (htodo ▸ List.mem_cons_self)] at htask
    cases htask
  cases h with
  | waits htodo' hrest hvacant houtcome =>
    obtain ⟨rfl, rfl⟩ := List.cons.inj (htodo.symm.trans htodo')
    exact ⟨_, _, rfl, rfl, hrest, hvacant, houtcome⟩
  | settled hall => exact (hsettled hall).elim
  | broken hall => exact (hsettled hall).elim

/-- Once nothing can be refused, what is told stays told, unless there is a fault. -/
theorem of_settled (h : op.Tells c b x) {op' : Operation} (htodo : op.todo = task :: rest)
    (htask : task.isRefusable = false) (htodo' : ∀ t ∈ op'.todo, t ∈ rest ∨ t.isRefusable = false)
    (houtcome' : op'.outcome = op.outcome ∨ ∃ f, op'.outcome = .fault f) : op'.Tells c b x := by
  have hlater (hall : ∀ t ∈ op.todo, t.isRefusable = false) (t : Task) (ht : t ∈ op'.todo) :
      t.isRefusable = false :=
    (htodo' t ht).elim (fun hin => hall t (htodo ▸ List.mem_cons_of_mem _ hin)) id
  cases h with
  | waits htold =>
    obtain ⟨rfl, -⟩ := List.cons.inj (htodo.symm.trans htold)
    cases htask
  | settled hall hanswer houtcome =>
    rcases houtcome' with hsame | ⟨f, hf⟩
    · exact .settled (hlater hall) hanswer (by rw [hsame, houtcome])
    · exact .broken (hlater hall) hf
  | broken hall houtcome =>
    rcases houtcome' with hsame | ⟨f, hf⟩
    · exact .broken (hlater hall) (hsame.trans houtcome)
    · exact .broken (hlater hall) hf

theorem carryOut (h : op.Tells c b x) (htodo : op.todo = task :: rest)
    (hhook : task.hook? = none) : (Machine.carryOut w op task rest).2.Tells c b x := by
  have htask : task.isRefusable = false := by
    cases task with
    | prepare | tellOpened => cases hhook
    | _ => rfl
  exact h.of_settled htodo htask (Machine.sameHandles_carryOut w op rest hhook).2
    (Machine.outcome_carryOut w op task rest).2

end Operation.Tells

/-! ### Moves -/

namespace Machine

/-- Whether a move interferes with a client's handles while an operation on the client is in
progress. -/
def disturbs (m : Machine) (c : ClientRef) : Move → Bool
  | .call r => r.handled? == some c && m.operations.any fun op => op.request.client? == some c
  | _ => false

/-- A client's history after a move: a request on its handles is a new step, and what its driver
says to an opening belongs to the newest. -/
def recount (m : Machine) (c : ClientRef) (xs : List HandleDeed) : Move → List HandleDeed
  | .call r =>
    if r.handled? = some c then ((r.handleStep? m.world).map (⟨·, none⟩)).toList ++ xs else xs
  | .answer v =>
    if m.opening?.any (·.client == c) then xs.modifyHead ({ · with verdict := some v }) else xs
  | .work | .finish | .memory _ => xs

/-- Makes moves one after the other and keeps a client's history, as long as none of them
disturbs. -/
def retrace? (m : Machine) (c : ClientRef) (xs : List HandleDeed) :
    List Move → Option (Machine × List HandleDeed)
  | [] => some (m, xs)
  | x :: moves =>
    (m.move? x).bind fun m' =>
      if m.disturbs c x then none else m'.retrace? c (m.recount c xs x) moves

/-- The machine is where a client's history leads. -/
structure Retraces (c : ClientRef) (xs : List HandleDeed) (m : Machine) : Prop where
  tables : m.world.TablesSound
  unborn : m.world.clients.size ≤ c → xs = []
  handleMap_eq : c < m.world.clients.size → m.world.handleMap c = HandleMap.replay xs
  single : m.operations.Pairwise fun inner outer =>
    inner.request.handled? = some c → outer.request.handled? ≠ some c
  own : ∀ op ∈ m.operations, op.request.handled? = some c →
    ∃ x xs', xs = x :: xs' ∧ op.Tells c (HandleMap.replay xs') x
  others : ∀ op ∈ m.operations, op.request.handled? ≠ some c →
    ∀ t ∈ op.todo, ∀ y, t.opening? = some y → y.client ≠ c

namespace Retraces

variable {m m' : Machine} {c : ClientRef} {xs : List HandleDeed} {op op' : Operation}
  {outer : List Operation} {task : Task} {rest : List Task} {w : World} {held : List ObjectRef}

theorem empty (c : ClientRef) : Retraces c [] Machine.empty :=
  ⟨World.Sound.empty.clients.wellFormed, fun _ => rfl, fun hc => absurd hc (Nat.not_lt_zero c),
    .nil, List.forall_mem_nil _, List.forall_mem_nil _⟩

/-- The innermost operation goes on, and the client's handles stay as they are. -/
theorem advance (h : Retraces c xs m) (hops : m.operations = op :: outer)
    (hrequest : op'.request = op.request) (htables : w.TablesSound)
    (hsize : w.clients.size = m.world.clients.size) (hmap : w.handleMap c = m.world.handleMap c)
    (hown : ∀ b x, op.Tells c b x → op'.Tells c b x)
    (hothers : ∀ t ∈ op'.todo, t ∈ op.todo ∨ t.isRefusable = false) :
    Retraces c xs ⟨w, held, op' :: outer⟩ := by
  have hsingle := h.single
  have hown' := h.own
  have hothers' := h.others
  rw [hops] at hsingle hown' hothers'
  rw [List.forall_mem_cons] at hown' hothers'
  refine ⟨htables, fun hc => h.unborn (hsize ▸ hc), fun hc => ?_, ?_,
    List.forall_mem_cons.mpr ⟨fun hr => ?_, hown'.2⟩,
    List.forall_mem_cons.mpr ⟨fun hr t ht y hy => ?_, hothers'.2⟩⟩
  · rw [hmap, h.handleMap_eq (hsize ▸ hc)]
  · rw [List.pairwise_cons] at hsingle ⊢
    rwa [hrequest]
  · obtain ⟨x, xs', hxs, htells⟩ := hown'.1 (hrequest ▸ hr)
    exact ⟨x, xs', hxs, hown _ _ htells⟩
  · rcases hothers t ht with hin | hsettled
    · exact hothers'.1 (hrequest ▸ hr) t hin y hy
    · rw [Task.opening?_eq_none hsettled] at hy
      cases hy

theorem call (h : Retraces c xs m) {r : Request} (hcall : m.call? r = some m')
    (hdisturbs : m.disturbs c (.call r) = false) : Retraces c (m.recount c xs (.call r)) m' := by
  obtain ⟨hperm, rfl⟩ := call?_eq_some.mp hcall
  have hstarts := Request.starts m.world h.tables r
  by_cases hr : r.handled? = some c
  · -- a step on the client's own handles, made while no other operation on it is in progress
    obtain ⟨x, hx, hperforms⟩ := Request.performs h.tables hr
    have hclient := Request.client?_of_handled? hr
    have hc : c < m.world.clients.size := World.lt_size_of_present (present_of_permits hperm hclient)
    have hidle (op : Operation) (hop : op ∈ m.operations) : op.request.handled? ≠ some c := by
      intro hop'
      simp only [disturbs, hr, BEq.rfl, Bool.true_and, List.any_eq_false, beq_iff_eq] at hdisturbs
      exact hdisturbs op hop (Request.client?_of_handled? hop')
    rw [recount, if_pos hr, hx]
    refine ⟨hstarts.touches.tables, fun hge => ?_, fun _ => ?_,
      List.pairwise_cons.mpr ⟨fun op hop _ => hidle op hop, h.single⟩,
      List.forall_mem_cons.mpr ⟨fun _ => ⟨_, xs, rfl, ?_⟩, fun op hop hop' =>
        absurd hop' (hidle op hop)⟩,
      List.forall_mem_cons.mpr ⟨fun hne => absurd hr (hstarts.request_eq ▸ hne), h.others⟩⟩
    · exact absurd (Nat.lt_of_lt_of_le hc hstarts.touches.grows) (Nat.not_lt.mpr hge)
    · exact hperforms.handleMap_eq.trans (by rw [h.handleMap_eq hc]; rfl)
    · rw [← h.handleMap_eq hc]
      exact hperforms.tells
  · rw [recount, if_neg hr]
    refine ⟨hstarts.touches.tables, fun hge => ?_, fun hc => ?_,
      List.pairwise_cons.mpr ⟨fun op _ hop' => ?_, h.single⟩,
      List.forall_mem_cons.mpr ⟨fun hop' => ?_, h.own⟩,
      List.forall_mem_cons.mpr ⟨fun _ t ht y hy heq => ?_, h.others⟩⟩
    · exact h.unborn (Nat.le_trans hstarts.touches.grows hge)
    · rcases Nat.lt_or_ge c m.world.clients.size with hold | hnew
      · rw [hstarts.touches.others c hold hr, h.handleMap_eq hold]
      · rw [hstarts.touches.born c hc hnew, h.unborn hnew]
        rfl
    · exact absurd (hstarts.request_eq ▸ hop') hr
    · exact absurd (hstarts.request_eq ▸ hop') hr
    · have hfirst : (r.start m.world).2.opening? = some y := by
        have hbehind := hstarts.behind
        cases htodo : (r.start m.world).2.todo with
        | nil =>
          rw [htodo] at ht
          cases ht
        | cons task rest =>
          rw [htodo] at ht hbehind
          rcases List.mem_cons.mp ht with rfl | hin
          · rw [Operation.opening?, htodo]
            exact hy
          · rw [hbehind t hin] at hy
            cases hy
      exact hr (heq ▸ hstarts.owner y hfirst)

/-- The newest step of the client's is decided, and its operation has an answer. -/
theorem settle (h : Retraces c xs m) (hops : m.operations = op :: outer)
    (hr : op.request.handled? = some c) {x : HandleDeed} {xs' : List HandleDeed}
    (hrequest : op'.request = op.request) (hremaps : m.world.Remaps c (HandleMap.replay (x :: xs')) w)
    (hc : c < m.world.clients.size) (htells : op'.Tells c (HandleMap.replay xs') x) :
    Retraces c (x :: xs') ⟨w, held, op' :: outer⟩ := by
  have hsingle := h.single
  have hothers := h.others
  rw [hops] at hsingle hothers
  have hidle := (List.pairwise_cons.mp hsingle).1
  refine ⟨hremaps.tables, fun hge => ?_, fun _ => ?_, ?_,
    List.forall_mem_cons.mpr ⟨fun _ => ⟨_, xs', rfl, htells⟩, fun q hq hq' =>
      absurd hq' (hidle q hq hr)⟩,
    List.forall_mem_cons.mpr ⟨fun hne => absurd hr (hrequest ▸ hne),
      fun q hq => hothers q (List.mem_cons_of_mem _ hq)⟩⟩
  · exact absurd hc (Nat.not_lt.mpr (hremaps.size_eq ▸ hge))
  · rw [hremaps.handleMap_eq, if_pos rfl]
  · rw [List.pairwise_cons] at hsingle ⊢
    rwa [hrequest]

/-- What the driver says to an opening of this client becomes part of the newest step. -/
theorem answer_opening (h : Retraces c xs m) {v : Verdict} {hd : Handle} {o : ObjectRef}
    (hops : m.operations = op :: outer) (htodo : op.todo = .tellOpened c hd o :: rest) :
    Retraces c (xs.modifyHead ({ · with verdict := some v }))
      ⟨(conclude m.world op (.tellOpened c hd o) rest v).1, held,
        (conclude m.world op (.tellOpened c hd o) rest v).2 :: outer⟩ := by
  have hmem : op ∈ m.operations := hops ▸ List.mem_cons_self
  have hr : op.request.handled? = some c := by
    by_contra hne
    exact h.others op hmem hne _ (htodo ▸ List.mem_cons_self) ⟨c, hd, o⟩ rfl rfl
  obtain ⟨x, xs', rfl, htells⟩ := h.own op hmem hr
  obtain ⟨g, p, heq, rfl, hrest, hvacant, houtcome⟩ := htells.of_isRefusable htodo rfl
  obtain ⟨-, rfl, rfl⟩ := Task.tellOpened.inj heq
  have hc : c < m.world.clients.size := by
    by_contra hge
    cases h.unborn (Nat.le_of_not_lt hge)
  obtain ⟨hremaps, htodo', houtcome'⟩ := remaps_conclude h.tables op c hd o rest v
  rw [h.handleMap_eq hc, HandleMap.replay, HandleMap.after_opens hvacant,
    HandleMap.strike_enter hvacant] at hremaps
  have hrequest := request_conclude m.world op (.tellOpened c hd o) rest v
  have hsettled (t : Task) (ht : t ∈ (conclude m.world op (.tellOpened c hd o) rest v).2.todo) :
      t.isRefusable = false :=
    (htodo' t ht).elim (hrest t) id
  cases v with
  | accept =>
    rw [← HandleMap.after_opens hvacant] at hremaps
    refine h.settle hops hr hrequest hremaps hc
      (.settled (a := .ok (some hd)) hsettled ?_ (houtcome' ▸ houtcome))
    simp [HandleMap.answer?, hvacant]
  | refuse err =>
    refine h.settle hops hr hrequest hremaps hc (.settled (a := .error err) hsettled ?_ ?_)
    · simp [HandleMap.answer?, hvacant]
    · rw [houtcome']
      rfl

theorem answer (h : Retraces c xs m) {v : Verdict} (hanswer : m.answer? v = some m') :
    Retraces c (m.recount c xs (.answer v)) m' := by
  obtain ⟨op, outer, task, rest, call, hops, htodo, -, rfl⟩ := of_answer? hanswer
  have hmem : op ∈ m.operations := hops ▸ List.mem_cons_self
  have hm : m.opening? = task.opening? := by
    rw [opening?, hops, List.head?_cons, Option.bind_some, Operation.opening?, htodo,
      List.head?_cons, Option.bind_some]
  have hrequest := request_conclude m.world op task rest v
  rw [recount, hm]
  cases hopening : task.opening? with
  | none =>
    obtain ⟨hsame, hlater⟩ := sameHandles_conclude m.world op rest hopening v
    rw [if_neg (by simp)]
    refine h.advance hops hrequest (hsame.tables h.tables) hsame.size_eq (hsame.handleMap_eq c)
      (fun b x htells => ?_) fun t ht => (hlater t ht).imp_left fun hin =>
        htodo ▸ List.mem_cons_of_mem _ hin
    cases htask : task.isRefusable with
    | true =>
      obtain ⟨g, o, rfl, -⟩ := htells.of_isRefusable htodo htask
      cases hopening
    | false =>
      exact htells.of_settled htodo htask hlater (Or.inl (outcome_conclude m.world op rest htask v))
  | some y =>
    obtain ⟨e, hd, o, rfl⟩ : ∃ e hd o, task = .tellOpened e hd o := by
      cases task with
      | tellOpened e hd o => exact ⟨e, hd, o, rfl⟩
      | _ => cases hopening
    obtain rfl : ⟨e, hd, o⟩ = y := Option.some.inj hopening
    by_cases he : e = c
    · subst he
      rw [if_pos (by simp)]
      exact h.answer_opening hops htodo
    · -- the opening is another client's
      obtain ⟨hremaps, hlater, -⟩ := remaps_conclude h.tables op e hd o rest v
      rw [if_neg (by simpa using he)]
      refine h.advance hops hrequest hremaps.tables hremaps.size_eq ?_ (fun b x htells => ?_)
        fun t ht => (hlater t ht).imp_left fun hin => htodo ▸ List.mem_cons_of_mem _ hin
      · rw [hremaps.handleMap_eq, if_neg fun heq => he heq.symm]
      · obtain ⟨g, p, heq, -⟩ := htells.of_isRefusable htodo rfl
        exact absurd (Task.tellOpened.inj heq).1 he

theorem work (h : Retraces c xs m) (hwork : m.work? = some m') : Retraces c xs m' := by
  obtain ⟨op, outer, task, rest, hops, htodo, hhook, rfl⟩ := of_work? hwork
  obtain ⟨hsame, hlater⟩ := sameHandles_carryOut m.world op rest hhook
  exact h.advance hops (outcome_carryOut m.world op task rest).1 (hsame.tables h.tables)
    hsame.size_eq (hsame.handleMap_eq c) (fun b x htells => htells.carryOut htodo hhook)
    fun t ht => (hlater t ht).imp_left fun hin => htodo ▸ List.mem_cons_of_mem _ hin

theorem finish (h : Retraces c xs m) (hfinish : m.move? .finish = some m') : Retraces c xs m' := by
  obtain ⟨op, outer, hops, -, rfl⟩ := of_finish hfinish
  have hsingle := h.single
  have hown := h.own
  have hothers := h.others
  rw [hops] at hsingle hown hothers
  exact ⟨h.tables, h.unborn, h.handleMap_eq, (List.pairwise_cons.mp hsingle).2,
    (List.forall_mem_cons.mp hown).2, (List.forall_mem_cons.mp hothers).2⟩

/-! ### Runs -/

/-- Every move that does not disturb takes the machine where the history goes. -/
theorem move (h : Retraces c xs m) {x : Move} (hmove : m.move? x = some m')
    (hdisturbs : m.disturbs c x = false) : Retraces c (m.recount c xs x) m' := by
  cases x with
  | call r => exact h.call hmove hdisturbs
  | work => exact h.work hmove
  | answer v => exact h.answer hmove
  | finish => exact h.finish hmove
  | memory memory =>
    cases hmove
    exact ⟨h.tables, h.unborn, h.handleMap_eq, h.single, h.own, h.others⟩

theorem of_retrace {moves : List Move} {ys : List HandleDeed} (h : Retraces c xs m)
    (hrun : m.retrace? c xs moves = some (m', ys)) : Retraces c ys m' := by
  induction moves generalizing m xs with
  | nil =>
    cases hrun
    exact h
  | cons x moves ih =>
    obtain ⟨m₁, hmove, hrun⟩ := Option.bind_eq_some_iff.mp hrun
    split at hrun
    · cases hrun
    · next hdisturbs => exact ih (h.move hmove (by simpa using hdisturbs)) hrun

theorem of_finish? (h : Retraces c xs m) (hops : m.operations = op :: outer)
    (hr : op.request.handled? = some c) {outcome : Outcome RequestError Reply}
    (hfinish : m.finish? = some (outcome, m')) : (∃ f, outcome = .fault f) ∨
      ∃ a, (HandleMap.answers xs).head? = some (some a) ∧
        outcome.map Reply.handle? = .ofExcept a := by
  obtain ⟨x, xs', rfl, htells⟩ := h.own op (hops ▸ List.mem_cons_self) hr
  simp only [finish?, hops] at hfinish
  split at hfinish
  · next htodo =>
    cases hfinish
    rw [List.isEmpty_iff] at htodo
    cases htells with
    | waits htold =>
      rw [htodo] at htold
      cases htold
    | settled _ hanswer houtcome => exact Or.inr ⟨_, congrArg some hanswer, houtcome⟩
    | broken _ houtcome => exact Or.inl ⟨_, houtcome⟩
  · cases hfinish

end Retraces

variable {m m₁ m₂ : Machine} {c : ClientRef} {xs ys : List HandleDeed} {moves : List Move}

theorem eq_of_retrace?_of_orderlyRun? (hrun : m.retrace? c xs moves = some (m₁, ys))
    (horderly : m.orderlyRun? moves = some m₂) : m₁ = m₂ := by
  induction moves generalizing m xs with
  | nil =>
    cases hrun
    cases horderly
    rfl
  | cons x moves ih =>
    obtain ⟨m', hmove, hrun⟩ := Option.bind_eq_some_iff.mp hrun
    obtain ⟨m'', hmove', horderly⟩ := Option.bind_eq_some_iff.mp horderly
    obtain rfl : m' = m'' := Option.some.inj (hmove.symm.trans (orderlyMove?_eq_some.mp hmove').2.1)
    split at hrun
    · cases hrun
    · exact ih hrun horderly

/-- In every state of a run that does not disturb a client, its handles are what its own history
makes of them: its table and its look-ups are those of the map that the history leads to, and once
it has been closed no handle leads anywhere. An operation on its handles answers as the history
says, if it does not end in a fault, and it never does in an orderly run. Another run in which a
client has the same history, perhaps with other names for the objects, gives that client the same
handles and the same answers to look-ups, whatever else happens in either run. -/
theorem handles_of_run (hrun : empty.retrace? c [] moves = some (m, xs))
    (hc : c < m.world.clients.size) :
    m.world.handleMap c = HandleMap.replay xs ∧
    (∀ h, m.world.lookupHandle c h = (HandleMap.replay xs).lookup h) ∧
    ((∃ x ∈ xs, x.step = .closes) →
      m.world.isClosed c = true ∧ ∀ h, m.world.lookupHandle c h = .error .invalidHandle) ∧
    (∀ op outer outcome m', m.operations = op :: outer → op.request.handled? = some c →
      m.finish? = some (outcome, m') →
      (∃ f, outcome = .fault f) ∧ empty.orderlyRun? moves = none ∨
        ∃ a, (HandleMap.answers xs).head? = some (some a) ∧
          outcome.map Reply.handle? = .ofExcept a) ∧
    ∀ f c' moves' m', empty.retrace? c' [] moves' = some (m', xs.map (HandleDeed.rename f)) →
      c' < m'.world.clients.size →
      m'.world.handleMap c' = (m.world.handleMap c).rename f ∧
      (∀ h, m'.world.lookupHandle c' h = (m.world.lookupHandle c h).map f) ∧
      HandleMap.answers (xs.map (HandleDeed.rename f)) = HandleMap.answers xs := by
  have h := (Retraces.empty c).of_retrace hrun
  have hmap := h.handleMap_eq hc
  refine ⟨hmap, fun hd => ?_, fun hx => ?_, fun op outer outcome m' hops hr hfinish => ?_,
    fun f c' moves' m' hrun' hc' => ?_⟩
  · rw [World.lookupHandle_eq, hmap]
  · have hclosed : m.world.handleMap c = none := hmap.trans (HandleMap.replay_of_closes hx)
    refine ⟨Option.isNone_iff_eq_none.mpr (Option.map_eq_none_iff.mp hclosed), fun hd => ?_⟩
    rw [World.lookupHandle_eq, hclosed]
    rfl
  · refine (h.of_finish? hops hr hfinish).imp_left fun hfault => ⟨hfault, ?_⟩
    rw [Option.eq_none_iff_forall_ne_some]
    intro m₂ horderly
    obtain rfl := eq_of_retrace?_of_orderlyRun? hrun horderly
    obtain ⟨g, rfl⟩ := hfault
    have hfaultless := ((Sound.of_run horderly).operations op (hops ▸ List.mem_cons_self)).faultless
    simp only [finish?, hops] at hfinish
    split at hfinish
    · exact hfaultless g (Prod.mk.inj (Option.some.inj hfinish)).1
    · cases hfinish
  · have hmap' := ((Retraces.empty c').of_retrace hrun').handleMap_eq hc'
    rw [HandleMap.replay_rename, ← hmap] at hmap'
    refine ⟨hmap', fun hd => ?_, HandleMap.answers_rename f xs⟩
    rw [World.lookupHandle_eq, World.lookupHandle_eq, hmap', HandleMap.lookup_rename]

/-- A client that opens a handle, alone. -/
def alone : List Move :=
  opening ++ [.call (.createHandle 0 0), .answer .accept, .finish]

/-- The same, but with another object, and another client which has a handle of it, too, and deletes
it while the driver is told of the first client's. -/
def beside : List Move :=
  opening ++ [.call (.openClient 0), .finish, .call (.createObject 0 4096), .answer .accept,
    .finish, .call (.createHandle 1 1), .answer .accept, .finish, .call (.createHandle 0 1),
    .call (.deleteHandle 1 1), .answer .accept, .work, .work, .finish, .answer .accept, .finish]

/-- The client gets the same handle in both runs. -/
theorem handles_of_run_beside :
    ∃ m m', empty.retrace? 0 [] alone = some (m, [⟨.opens 0, some .accept⟩]) ∧
      empty.retrace? 0 [] beside = some (m', [⟨.opens 1, some .accept⟩]) ∧
      m.world.lookupHandle 0 1 = .ok 0 ∧ m'.world.lookupHandle 0 1 = .ok 1 := by
  have hread : (empty.retrace? 0 [] alone).map (fun s => (s.2, s.1.world.clients.size)) =
      some ([⟨.opens 0, some .accept⟩], 1) := by decide +kernel
  have hread' : (empty.retrace? 0 [] beside).map (fun s => (s.2, s.1.world.clients.size)) =
      some ([⟨.opens 1, some .accept⟩], 2) := by decide +kernel
  obtain ⟨⟨m, xs⟩, hrun, hfacts⟩ := Option.map_eq_some_iff.mp hread
  obtain ⟨⟨m', xs'⟩, hrun', hfacts'⟩ := Option.map_eq_some_iff.mp hread'
  obtain ⟨rfl, hsize⟩ := Prod.mk.inj hfacts
  obtain ⟨rfl, hsize'⟩ := Prod.mk.inj hfacts'
  obtain ⟨-, hlook, -, -, hagree⟩ := handles_of_run hrun (Nat.lt_of_lt_of_eq Nat.zero_lt_one hsize.symm)
  obtain ⟨-, hlook', -⟩ := hagree (· + 1) 0 beside m' hrun'
    (Nat.lt_of_lt_of_eq Nat.zero_lt_two hsize'.symm)
  have hfirst : m.world.lookupHandle 0 1 = .ok 0 := (hlook 1).trans (by decide +kernel)
  exact ⟨m, m', hrun, hrun', hfirst, by rw [hlook', hfirst]; rfl⟩

end Machine

end BufferObjects
