import BufferObjects.Proofs.Accounting
import BufferObjects.Proofs.Machine.Closings
import BufferObjects.Proofs.Machine.Quiet
import BufferObjects.Proofs.World.Waning

/-!
Operations that give up what has been taken out of tables. Under a driver that only answers such an
operation runs to its end and ends as it began; it leaves the clients alone and only takes away from
objects and devices. The moves that it makes are a run of the machine like any other, so whatever is
true along runs is true of it.
-/

namespace BufferObjects

/-- Whether a task gives up what has been taken out of a table, or tells of it. -/
def Task.givesUp : Task → Bool
  | tellClosed .. | tellFreed _ | uncount .. | drop _ => true
  | _ => false

theorem Task.givesUp_closing (w : World) (c : ClientRef) (o : ObjectRef) :
    ∀ t ∈ Task.closing w c o, t.givesUp = true := by
  simp [closing, givesUp]

theorem Task.givesUp_closings (w : World) (c : ClientRef) (entries : List ObjectRef) :
    ∀ t ∈ entries.flatMap (Task.closing w c), t.givesUp = true := by
  intro t ht
  obtain ⟨o, -, ht⟩ := List.mem_flatMap.mp ht
  exact givesUp_closing w c o t ht

theorem World.Wanes.countsFit {w w' : World} (h : w.Wanes w')
    (hfit : ∀ o, (w.object o).refs ≤ 2 ^ 63) : w'.countsFit = true := by
  rw [World.countsFit, Array.all_eq_true]
  intro o ho
  have hle := Nat.le_trans (h.object o).refs_le (hfit o)
  rw [decide_eq_true_iff]
  simpa [World.object, ho] using hle

namespace Machine

variable {w : World} {op : Operation} {task : Task} {rest : List Task} {driver : QuietDriver}

/-! ### One task -/

/-- What has happened to a world while something was given up: objects and devices have lost some of
what they had, and clients have not been touched. -/
structure Yields (w w' : World) : Prop extends w.Wanes w' where
  clients_eq : w'.clients = w.clients

theorem Yields.refl (w : World) : Yields w w := ⟨.refl w, rfl⟩

theorem Yields.trans {w w' w'' : World} (h : Yields w w') (h' : Yields w' w'') : Yields w w'' :=
  ⟨h.toWanes.trans h'.toWanes, h'.clients_eq.trans h.clients_eq⟩

/-- A use that is taken back, and with the last one the name. -/
theorem yields_uncount {d : DeviceRef} {o : ObjectRef}
    (hfine : ∀ f, (carryOut w op (.uncount d o) rest).2.outcome ≠ .fault f) :
    Yields w (carryOut w op (.uncount d o) rest).1 ∧
      (carryOut w op (.uncount d o) rest).2.todo = rest := by
  have hused : (w.object o).handles.value ≠ 0 := by
    intro hzero
    refine hfine .countBelowZero ?_
    simp [carryOut, World.uncountHandle, UseCount.decrement, hzero, Operation.fail]
  have huncount : Yields w (w.uncountHandle o).1 :=
    ⟨.uncountHandle hused, World.clients_uncountHandle w o⟩
  revert hfine
  simp only [carryOut]
  rcases hresult : w.uncountHandle o with ⟨w₁, f | last⟩
  · exact fun hfine => absurd rfl (hfine f)
  · rw [hresult] at huncount
    cases last with
    | false => exact fun _ => ⟨huncount, rfl⟩
    | true =>
      have hunused := World.value_of_uncountHandle hresult
      have hretire : Yields w₁ (w₁.retireName d o).1 :=
        ⟨.retireName hunused, World.clients_retireName w₁ d o⟩
      dsimp only
      rcases hname : w₁.retireName d o with ⟨w₂, b | ok⟩
      · exact fun hfine => absurd rfl (hfine b.fault)
      · rw [hname] at hretire
        exact fun _ => ⟨huncount.trans hretire, rfl⟩

/-- A reference that is given up, and with the last one the object. -/
theorem yields_drop {o : ObjectRef}
    (hfine : ∀ f, (carryOut w op (.drop o) rest).2.outcome ≠ .fault f) :
    Yields w (carryOut w op (.drop o) rest).1 ∧
      ((carryOut w op (.drop o) rest).2.todo = rest ∨
        (carryOut w op (.drop o) rest).2.todo = .tellFreed o :: rest) := by
  have hdrop : Yields w (w.dropRef o).1 := ⟨.dropRef w o, World.clients_dropRef w o⟩
  revert hfine
  simp only [carryOut]
  rcases hresult : w.dropRef o with ⟨w', f | dropped⟩
  · exact fun hfine => absurd rfl (hfine f)
  · rw [hresult] at hdrop
    cases dropped with
    | settled => exact fun _ => ⟨hdrop, Or.inl rfl⟩
    | ended => exact fun _ => ⟨hdrop, Or.inr rfl⟩

/-- A task that gives something up leads to others that do, unless it comes to a fault. -/
theorem yields_carryOut (hgives : ∀ t ∈ task :: rest, t.givesUp = true)
    (hfine : ∀ f, (carryOut w op task rest).2.outcome ≠ .fault f) :
    Yields w (carryOut w op task rest).1 ∧
      ∀ t ∈ (carryOut w op task rest).2.todo, t.givesUp = true := by
  obtain ⟨htask, hrest⟩ := List.forall_mem_cons.mp hgives
  cases task with
  | tellClosed | tellFreed => exact ⟨.refl w, hrest⟩
  | uncount d o =>
    obtain ⟨hyields, htodo⟩ := yields_uncount hfine
    exact ⟨hyields, by rwa [htodo]⟩
  | drop o =>
    obtain ⟨hyields, htodo | htodo⟩ := yields_drop hfine
    · exact ⟨hyields, by rwa [htodo]⟩
    · exact ⟨hyields, by rw [htodo]; exact List.forall_mem_cons.mpr ⟨rfl, hrest⟩⟩
  | prepare | tellOpened | forgetClient | leaveDevice => cases htask

/-- The driver is told, and whatever it says makes no difference. -/
theorem conclude_of_givesUp (w : World) (op : Operation) (rest : List Task)
    (htask : task.givesUp = true) (v : Verdict) :
    conclude w op task rest v = (w, { op with todo := rest }) := by
  cases task with
  | tellClosed | tellFreed | uncount | drop => rfl
  | prepare | tellOpened | forgetClient | leaveDevice => cases htask

/-! ### The moves of an operation -/

/-- The moves that carry an operation to its end under a driver that only answers. -/
def quietMoves (driver : QuietDriver) (w : World) (op : Operation) : List Move :=
  match _htodo : op.todo with
  | [] => []
  | task :: rest =>
    match _hhook : task.hook? with
    | some call =>
      let v := driver w call
      let next := conclude w op task rest v
      .answer v :: quietMoves driver next.1 next.2
    | none =>
      let next := carryOut w op task rest
      .work :: quietMoves driver next.1 next.2
termination_by op.bound
decreasing_by
  · exact bound_conclude w op task rest _ (by simp [_hhook]) _htodo
  · exact bound_carryOut w op task rest _hhook _htodo

theorem call_notMem_quietMoves (driver : QuietDriver) (w : World) (op : Operation) (r : Request) :
    .call r ∉ quietMoves driver w op := by
  fun_induction quietMoves driver w op with
  | case1 => exact List.not_mem_nil
  | case2 w op task rest htodo call hhook v next ih => simpa using ih
  | case3 w op task rest htodo hhook next ih => simpa using ih

variable {m m' : Machine} {r : Request} {held : List ObjectRef} {outer : List Operation}

theorem move_work (held : List ObjectRef) (outer : List Operation) (htodo : op.todo = task :: rest)
    (hhook : task.hook? = none) : move? ⟨w, held, op :: outer⟩ .work =
      some ⟨(carryOut w op task rest).1, held, (carryOut w op task rest).2 :: outer⟩ := by
  simp [move?, work?, htodo, hhook]

theorem move_answer (held : List ObjectRef) (outer : List Operation) {call : HookCall}
    (htodo : op.todo = task :: rest) (hhook : task.hook? = some call) (v : Verdict) :
    move? ⟨w, held, op :: outer⟩ (.answer v) =
      some ⟨(conclude w op task rest v).1, held, (conclude w op task rest v).2 :: outer⟩ := by
  simp [move?, answer?, htodo, hhook]

theorem move_finish (held : List ObjectRef) (outer : List Operation) (htodo : op.todo = []) :
    move? ⟨w, held, op :: outer⟩ .finish =
      some ⟨w, (handedOver op.outcome).toList ++ held, outer⟩ := by
  simp [move?, finish?, htodo]

/-- Whatever gives up comes to its end, by moves of the machine, and ends as it began. -/
theorem Sound.quietly (h : Sound ⟨w, held, op :: outer⟩)
    (hgives : ∀ t ∈ op.todo, t.givesUp = true) (driver : QuietDriver) :
    Yields w (runQuietly driver w op).1 ∧
      (runQuietly driver w op).2.outcome = op.outcome ∧
      tameRunWhile? (fun _ _ m' => outer.length < m'.operations.length) ⟨w, held, op :: outer⟩
          (quietMoves driver w op) =
        some ⟨(runQuietly driver w op).1, held, (runQuietly driver w op).2 :: outer⟩ := by
  fun_induction quietMoves driver w op with
  | case1 w op htodo =>
    rw [runQuietly_nil driver w htodo]
    exact ⟨.refl w, rfl, rfl⟩
  | case2 w op task rest htodo call hhook v next ih =>
    rw [htodo] at hgives
    obtain ⟨htask, hrest⟩ := List.forall_mem_cons.mp hgives
    have hnext : next = (w, { op with todo := rest }) := conclude_of_givesUp w op rest htask v
    have hmove : move? ⟨w, held, op :: outer⟩ (.answer v) = some ⟨next.1, held, next.2 :: outer⟩ :=
      move_answer held outer htodo hhook v
    have hfirst : Yields w next.1 := by
      rw [hnext]
      exact .refl w
    have hfit : next.1.countsFit = true := hfirst.toWanes.countsFit h.countsFit
    have hcont := h.concludes rfl htodo hhook v
    obtain ⟨hyields, houtcome, hrun⟩ := ih (h.of_continues rfl hcont hfit) (by rwa [hnext])
    rw [runQuietly_hook driver w htodo hhook,
      tameRunWhile?_cons (tameMove?_eq_some.mpr ⟨rfl, hmove, hfit⟩) (by simp)]
    exact ⟨hfirst.trans hyields, houtcome.trans (by rw [hnext]), hrun⟩
  | case3 w op task rest htodo hhook next ih =>
    rw [htodo] at hgives
    have hcont := h.continues rfl htodo hhook
    obtain ⟨hfirst, hnext⟩ := yields_carryOut (w := w) hgives hcont.operation.faultless
    have hmove : move? ⟨w, held, op :: outer⟩ .work = some ⟨next.1, held, next.2 :: outer⟩ :=
      move_work held outer htodo hhook
    have hfit : next.1.countsFit = true := hfirst.toWanes.countsFit h.countsFit
    have hsame : next.2.outcome = op.outcome :=
      (outcome_carryOut w op task rest).2.resolve_right fun ⟨f, hf⟩ =>
        hcont.operation.faultless f hf
    obtain ⟨hyields, houtcome, hrun⟩ := ih (h.of_continues rfl hcont hfit) hnext
    rw [runQuietly_work driver w htodo hhook,
      tameRunWhile?_cons (tameMove?_eq_some.mpr ⟨rfl, hmove, hfit⟩) (by simp)]
    exact ⟨hfirst.trans hyields, houtcome.trans hsame, hrun⟩

/-! ### Whole requests -/

/-- The moves that a request makes from the call to the end under a driver that only answers. -/
def performance (m : Machine) (driver : QuietDriver) (r : Request) : List Move :=
  .call r :: (quietMoves driver (r.start m.world).1 (r.start m.world).2 ++ [.finish])

/-- Makes requests one after the other; none if one of them cannot be made. -/
def performAll? (m : Machine) (driver : QuietDriver) :
    List Request → Option (List (Outcome RequestError Reply) × Machine)
  | [] => some ([], m)
  | r :: rs => (m.perform? driver r).bind fun first =>
      (first.2.performAll? driver rs).map fun others => (first.1 :: others.1, others.2)

/-- The moves that requests make one after the other. -/
def performances (m : Machine) (driver : QuietDriver) : List Request → List Move
  | [] => []
  | r :: rs => m.performance driver r ++
      match m.perform? driver r with
      | some (_, m') => m'.performances driver rs
      | none => []

/-- Makes a request and the moves that lead to its end. Until then its operation is in progress, and
others come and go in the hooks at which it waits. -/
def carry? (m : Machine) (r : Request) (xs : List Move) : Option Machine :=
  ((m.tameRunWhile? (fun _ _ m' => m.operations.length < m'.operations.length)
    (.call r :: xs)).bind fun m' => m'.tameMove? .finish).filter
      fun m' => m'.operations.length == m.operations.length

theorem carry?_eq_some {xs : List Move} : m.carry? r xs = some m' ↔
    ∃ m₁, m.tameRunWhile? (fun _ _ m' => m.operations.length < m'.operations.length)
        (.call r :: xs) = some m₁ ∧
      m₁.tameMove? .finish = some m' ∧ m'.operations.length = m.operations.length := by
  rw [carry?, Option.filter_eq_some_iff, Option.bind_eq_some_iff, beq_iff_eq]
  constructor
  · rintro ⟨⟨m₁, hrun, hfinish⟩, hlength⟩
    exact ⟨m₁, hrun, hfinish, hlength⟩
  · rintro ⟨m₁, hrun, hfinish, hlength⟩
    exact ⟨⟨m₁, hrun, hfinish⟩, hlength⟩

theorem tameRun?_of_carry? {xs : List Move} (hcarry : m.carry? r xs = some m') :
    m.tameRun? (.call r :: (xs ++ [.finish])) = some m' := by
  obtain ⟨m₁, hrun, hfinish, -⟩ := carry?_eq_some.mp hcarry
  rw [← List.cons_append, tameRun?_append (tameRun?_of_tameRunWhile? hrun), tameRun?, hfinish]
  rfl

/-- A request that only gives up runs to its end. -/
theorem Sound.performs (h : m.Sound) (hperm : m.permits r = true)
    (htame : r.isTame m.world = true) (hfit : (r.start m.world).1.countsFit = true)
    (hgives : ∀ t ∈ (r.start m.world).2.todo, t.givesUp = true) (driver : QuietDriver) :
    ∃ w, Yields (r.start m.world).1 w ∧
      m.perform? driver r = some ((r.start m.world).2.outcome,
        ⟨w, (handedOver (r.start m.world).2.outcome).toList ++ m.heldDuring r, m.operations⟩) ∧
      m.carry? r (quietMoves driver (r.start m.world).1 (r.start m.world).2) =
        some ⟨w, (handedOver (r.start m.world).2.outcome).toList ++ m.heldDuring r,
          m.operations⟩ := by
  have hcall : m.tameMove? (.call r) = some
      ⟨(r.start m.world).1, m.heldDuring r, (r.start m.world).2 :: m.operations⟩ :=
    tameMove?_eq_some.mpr ⟨htame, call?_eq_some.mpr ⟨hperm, rfl⟩, hfit⟩
  obtain ⟨hyields, houtcome, hrun⟩ := (h.tameMove hcall).quietly hgives driver
  refine ⟨_, hyields, ?_, carry?_eq_some.mpr ⟨_, (tameRunWhile?_cons hcall (by simp)).trans hrun,
    tameMove?_eq_some.mpr ⟨rfl, ?_, hyields.toWanes.countsFit (h.tameMove hcall).countsFit⟩, rfl⟩⟩
  · rw [perform?_of_permits hperm driver, houtcome]
  · rw [move_finish _ _ (todo_runQuietly ..), houtcome]

/-! ### Requests in whose hooks others are made -/

/-- An operation that only gives up is in progress; the operations that have come since are over
before it goes on. -/
structure GivingUp (outer : List Operation) (m : Machine) : Prop where
  sound : m.Sound
  operations : ∃ inner op, m.operations = inner ++ op :: outer ∧ ∀ t ∈ op.todo, t.givesUp = true

theorem GivingUp.advance {op op' : Operation} {outer outer' : List Operation}
    (h : m.GivingUp outer) (hsound : m'.Sound) (hbefore : m.operations = op :: outer')
    (hafter : m'.operations = op' :: outer')
    (hgives : (∀ t ∈ op.todo, t.givesUp = true) → ∀ t ∈ op'.todo, t.givesUp = true) :
    m'.GivingUp outer := by
  obtain ⟨inner, op₀, hops, hfirst⟩ := h.operations
  rw [hbefore] at hops
  cases inner with
  | nil =>
    obtain ⟨rfl, rfl⟩ := List.cons.inj hops
    exact ⟨hsound, [], op', hafter, hgives hfirst⟩
  | cons p inner =>
    obtain ⟨rfl, rfl⟩ := List.cons.inj hops
    exact ⟨hsound, op' :: inner, op₀, hafter, hfirst⟩

theorem GivingUp.move {x : Move} {outer : List Operation} (h : m.GivingUp outer)
    (hmove : m.tameMove? x = some m') (hstays : outer.length < m'.operations.length) :
    m'.GivingUp outer := by
  have hsound := h.sound.tameMove hmove
  obtain ⟨-, hx, -⟩ := tameMove?_eq_some.mp hmove
  cases x with
  | call r =>
    obtain ⟨inner, op, hops, hgives⟩ := h.operations
    obtain ⟨-, rfl⟩ := call?_eq_some.mp hx
    exact ⟨hsound, (r.start m.world).2 :: inner, op, by rw [hops]; rfl, hgives⟩
  | work =>
    obtain ⟨op, outer', task, rest, hops, htodo, hhook, rfl⟩ := of_work? hx
    refine h.advance hsound hops rfl fun hgives => ?_
    rw [htodo] at hgives
    exact (yields_carryOut hgives (h.sound.continues hops htodo hhook).operation.faultless).2
  | answer v =>
    obtain ⟨op, outer', task, rest, call, hops, htodo, -, rfl⟩ := of_answer? hx
    refine h.advance hsound hops rfl fun hgives => ?_
    rw [htodo] at hgives
    obtain ⟨htask, hrest⟩ := List.forall_mem_cons.mp hgives
    rwa [conclude_of_givesUp m.world op rest htask v]
  | finish =>
    obtain ⟨inner, op, hops, hgives⟩ := h.operations
    obtain ⟨op', outer', hops', -, rfl⟩ := of_finish hx
    rw [hops] at hops'
    cases inner with
    | nil =>
      obtain ⟨-, rfl⟩ := List.cons.inj hops'
      exact absurd hstays (Nat.lt_irrefl _)
    | cons p inner =>
      obtain ⟨-, rfl⟩ := List.cons.inj hops'
      exact ⟨hsound, inner, op, rfl, hgives⟩
  | memory memory =>
    cases hx
    exact ⟨hsound, h.operations⟩

/-- Whatever has been done in the hooks, a request that only gives up can be carried to its end once
they are over. -/
theorem Sound.exists_carry (h : m.Sound) (hgives : ∀ t ∈ (r.start m.world).2.todo, t.givesUp = true)
    {xs : List Move}
    (hrun : m.tameRunWhile? (fun _ _ m' => m.operations.length < m'.operations.length)
      (.call r :: xs) = some m')
    (hlength : m'.operations.length = m.operations.length + 1) :
    ∃ ys m'', m.carry? r (xs ++ ys) = some m'' := by
  obtain ⟨m₁, hx, hxs⟩ := Option.bind_eq_some_iff.mp hrun
  obtain ⟨hcall, -⟩ := Option.filter_eq_some_iff.mp hx
  have hstart : m₁.GivingUp m.operations := by
    have hsound := h.tameMove hcall
    obtain ⟨-, rfl⟩ := call?_eq_some.mp (tameMove?_eq_some.mp hcall).2.1
    exact ⟨hsound, [], _, rfl, hgives⟩
  obtain ⟨hsound, inner, op, hops, hgives'⟩ :=
    tameRunWhile?_trace_induction (P := fun _ m' => m'.GivingUp m.operations) (t := [])
      (fun _ _ _ _ h hmove htest => h.move hmove (by simpa using htest)) hstart hxs
  obtain ⟨w, held, operations⟩ := m'
  dsimp only at hops hlength
  obtain rfl : inner = [] := by
    rw [hops, List.length_append, List.length_cons] at hlength
    exact List.eq_nil_of_length_eq_zero (by omega)
  obtain rfl : operations = op :: m.operations := hops
  obtain ⟨hyields, -, hrest⟩ := hsound.quietly hgives' .accepting
  have hfinish := move_finish (w := (runQuietly .accepting w op).1) held m.operations
    (todo_runQuietly .accepting w op)
  refine ⟨quietMoves .accepting w op, _, carry?_eq_some.mpr ⟨_, ?_, tameMove?_eq_some.mpr
    ⟨rfl, hfinish, hyields.toWanes.countsFit hsound.countsFit⟩, rfl⟩⟩
  rw [← List.cons_append, tameRunWhile?_append hrun]
  exact hrest

end Machine

end BufferObjects
