import BufferObjects.Proofs.Accounting
import BufferObjects.Proofs.Machine.Marks
import BufferObjects.Proofs.Machine.Quiet
import BufferObjects.Proofs.Machine.Tables

/-!
Requests that fail. Most are refused before they have done anything, some while they hold an object
or an id that was given out and cannot be used because memory has no room for the entry, and one
kind, the opening of a handle, after all of it has been done, because the driver is asked last.
Whatever has been done by then is taken back, so that after an error everything is as it was: what
handles, names and addresses lead to, what is counted, and which numbers are free.
-/

namespace BufferObjects

/-- An operation whose outcome is no error and cannot become one. -/
structure Operation.Settled (op : Operation) : Prop where
  todo : ∀ t ∈ op.todo, t.isRefusable = false
  outcome : ∀ e, op.outcome ≠ .error e

namespace Operation.Settled

variable {op : Operation} {w : World} {task : Task} {rest : List Task} {driver : QuietDriver}

theorem fail (h : op.Settled) (b : Break) : (op.fail b).Settled where
  todo t ht := (Machine.mem_fail ht).elim (h.todo t) id
  outcome _ := nofun

/-- An operation that goes on stays settled, as nothing that its tasks lead to can be refused. -/
theorem of_later (h : op.Settled) {op' : Operation} (htodo : op.todo = task :: rest)
    (hlater : ∀ t ∈ op'.todo, t ∈ rest ∨ t.isRefusable = false)
    (houtcome : op'.outcome = op.outcome ∨ ∃ f, op'.outcome = .fault f) : op'.Settled where
  todo t ht := (hlater t ht).elim (fun hin => h.todo t (htodo ▸ List.mem_cons_of_mem _ hin)) id
  outcome e he := by
    rcases houtcome with hsame | ⟨f, hfault⟩
    · exact h.outcome e (hsame ▸ he)
    · rw [hfault] at he
      cases he

theorem carryOut (h : op.Settled) (htodo : op.todo = task :: rest) (hhook : task.hook? = none) :
    (Machine.carryOut w op task rest).2.Settled :=
  h.of_later htodo (Machine.sameHandles_carryOut w op rest hhook).2
    (Machine.outcome_carryOut w op task rest).2

theorem conclude (h : op.Settled) (htodo : op.todo = task :: rest) (v : Verdict) :
    (Machine.conclude w op task rest v).2.Settled := by
  have htask := h.todo task (htodo ▸ List.mem_cons_self)
  have hopening := Task.opening?_eq_none htask
  exact h.of_later htodo (Machine.sameHandles_conclude w op rest hopening v).2
    (Or.inl (Machine.outcome_conclude w op rest htask v))

/-- The outcome is no error at the end, either. -/
theorem runQuietly (h : op.Settled) : (Machine.runQuietly driver w op).2.Settled := by
  fun_induction Machine.runQuietly driver w op with
  | case1 w op htodo => exact h
  | case2 w op task rest htodo call hhook next ih => exact ih (h.conclude htodo _)
  | case3 w op task rest htodo hhook next ih => exact ih (h.carryOut htodo hhook)

end Operation.Settled

namespace Request

variable {w w₀ w₁ : World} {r : Request} {outside uses : List ObjectRef} {c : ClientRef}
  {o : ObjectRef} {d : DeviceRef}

/-- The world that the work of a request is done in, and what is left to do after it: nothing, or to
give up the object that was held meanwhile. -/
inductive Holding (w : World) (o : ObjectRef) : World → List Task → Prop
  | bare : Holding w o w []
  | held : Holding w o (w.retain o) [.drop o]

theorem Holding.isRefusable {after : List Task} (h : Holding w o w₀ after) :
    ∀ t ∈ after, t.isRefusable = false := by
  cases h with
  | bare => exact List.forall_mem_nil _
  | held => exact List.forall_mem_singleton.mpr rfl

/-- How a request begins that makes neither a client nor an object: its outcome can be no error, or
it has been refused already, perhaps while it was holding an object, or it is opening a handle. -/
inductive Outset (w : World) (r : Request) : World × Operation → Prop
  | settled {w' : World} {op : Operation} (h : op.Settled) : Outset w r (w', op)
  | refused {w' : World} (h : w.Restores w') (e : RequestError) :
      Outset w r (w', .finished r (.error e))
  | holding {w' : World} (h : w.Restores w') (e : RequestError) {o : ObjectRef}
      (hlive : 0 < (w.object o).refs) : Outset w r (w'.retain o, ⟨r, [.drop o], .error e⟩)
  | opening {w₀ w₁ : World} {c : ClientRef} {o : ObjectRef} {h : Handle} {after : List Task}
      {reply : Reply} (hlive : 0 < (w.object o).refs) (hheld : Holding w o w₀ after)
      (hopen : w₀.openHandle c o = (w₁, .ok h)) :
      Outset w r (w₁, ⟨r, .tellOpened c h o :: after, .ok reply⟩)

namespace Outset

variable {after : List Task} {outcome : Outcome RequestError Reply}

theorem of_finished {w' : World} (h : ∀ e, outcome ≠ .error e) :
    Outset w r (w', .finished r outcome) :=
  .settled ⟨List.forall_mem_nil _, h⟩

theorem of_holding {w' : World} (hheld : Holding w o w₀ after) (h : ∀ e, outcome ≠ .error e) :
    Outset w r (w', ⟨r, after, outcome⟩) :=
  .settled ⟨hheld.isRefusable, h⟩

theorem failed (hheld : Holding w o w₀ after) (hlive : 0 < (w.object o).refs)
    (h : w₀.Restores w₁) (e : RequestError) : Outset w r (w₁, ⟨r, after, .error e⟩) := by
  cases hheld with
  | bare => exact .refused h e
  | held =>
    obtain ⟨w', rfl, hrestores⟩ := h.exists_of_retain
    exact .holding hrestores e hlive

theorem guarded {c? : Option ClientRef} {body : World → World × Operation}
    (hbody : Outset w r (body w)) :
    Outset w r
      (match access w d c? with
        | (w, .error e) => (w, Operation.finished r (.error e))
        | (w, .ok ()) => body w) :=
  guarded_cases (fun _ _ => hbody) fun ns e _ => .refused (.noteAll w ns) e

theorem answering (ns : List Notice) (reply : ObjectRef → Reply)
    (found : Except RequestError ObjectRef) :
    Outset w r (answerObject (w.noteAll ns) r reply found) := by
  cases found with
  | ok o => exact of_finished nofun
  | error e => exact .refused (.noteAll w ns) e

theorem deleting (w : World) (r : Request) (c : ClientRef) (h : Handle) :
    Outset w r (startDelete w r c h) := by
  unfold startDelete
  split
  · next htake =>
    obtain ⟨rfl, -⟩ := World.of_takeHandle_none htake
    exact .refused (.refl _) _
  · exact .settled ⟨by simp [Task.closing, Task.isRefusable], by rintro _ ⟨⟩⟩
  · have hdone : (Operation.finished r (.ok .done)).Settled := ⟨List.forall_mem_nil _, by rintro _ ⟨⟩⟩
    exact .settled (hdone.fail _)

section

variable (hheld : Holding w o w₀ after) (hlive : 0 < (w.object o).refs)

include hheld hlive

theorem opened (hwf : w.TablesSound) (reply : Handle → Reply) :
    Outset w r (startOpen w₀ r c o reply after) := by
  have hwf₀ : w₀.TablesSound := by cases hheld <;> exact hwf
  unfold startOpen
  rcases hopen : w₀.openHandle c o with ⟨w', hd | e | f⟩
  · exact .opening hlive hheld hopen
  · obtain ⟨hrestores, -⟩ := hwf₀.of_openHandle_failed hopen nofun
    exact .failed hheld hlive hrestores e
  · exact .of_holding hheld nofun

theorem publishing (hwf : (w.device d).names.WellFormed firstName) :
    Outset w r ((w₀.publishName d o).1,
      ⟨r, after, (w₀.publishName d o).2.map .name⟩) := by
  have hwf₀ : (w₀.device d).names.WellFormed firstName := by cases hheld <;> exact hwf
  rcases hpublish : w₀.publishName d o with ⟨w', n | e | f⟩
  · exact .of_holding hheld nofun
  · obtain ⟨hrestores, -⟩ := World.of_publishName_failed hwf₀ hpublish nofun
    exact .failed hheld hlive hrestores e
  · exact .of_holding hheld nofun

theorem mapping (hwf : (w.device d).tokens.WellFormed) (reply : Token → Reply) :
    Outset w r ((w₀.createToken d o).1, ⟨r, after, (w₀.createToken d o).2.map reply⟩) := by
  have hwf₀ : (w₀.device d).tokens.WellFormed := by cases hheld <;> exact hwf
  rcases hcreate : w₀.createToken d o with ⟨w', t | e | f⟩
  · exact .of_holding hheld nofun
  · obtain ⟨hrestores, -⟩ := World.of_createToken_failed hwf₀ hcreate nofun
    exact .failed hheld hlive hrestores e
  · exact .of_holding hheld nofun

end

end Outset

theorem outset (h : w.Sound outside uses)
    (hdevice : ∀ d, r.device? = some d → (w.device d).alive = true)
    (hobject : ∀ o, r.object? = some o → 0 < (w.object o).refs)
    (hclient : ∀ d, r ≠ .openClient d) (hnew : ∀ d size, r ≠ .createObject d size) :
    Outset w r (r.start w) := by
  have hwf : w.TablesSound := h.clients.wellFormed
  cases r with
  | newDevice config features =>
    simp only [start]
    rcases hmade : w.newDevice config features with ⟨w', e | d⟩
    · obtain ⟨ns, rfl⟩ := World.of_newDevice_error hmade
      exact .refused (.noteAll w ns) e
    · exact .of_finished (by rintro _ ⟨⟩)
  | dropDevice d => exact .settled ⟨by simp [Task.isRefusable], by simp⟩
  | openClient d => exact absurd rfl (hclient d)
  | closeClient c => exact .settled ⟨Task.isRefusable_closings _ c _, by simp⟩
  | dropClient c =>
    refine .settled ⟨fun t ht => ?_, by simp⟩
    rcases List.mem_append.mp ht with ht | ht
    · exact Task.isRefusable_closings _ c _ t ht
    · rw [List.mem_singleton.mp ht]
      rfl
  | createObject d size => exact absurd rfl (hnew d size)
  | cloneObject o => exact .of_finished (by simp)
  | dropObject o => exact .of_holding (.held (o := o)) (by simp)
  | createHandle c o => exact .opened .bare (hobject o rfl) hwf _
  | lookupHandle c hd => exact .answering [] _ _
  | deleteHandle c hd => exact .deleting w _ c hd
  | nameHandle d c hd =>
    refine .guarded ?_
    split
    · exact .refused (.refl w) _
    · next o hlook =>
      have hlive := h.live_of_item (h.clients.mem_items hlook)
      exact .publishing .held hlive (h.names.wellFormed d (hdevice d rfl))
  | openName d c n =>
    refine .guarded ?_
    split
    · exact .refused (.refl w) _
    · next o hres => exact .opened .held (live_of_resolveName h (hdevice d rfl) hres) hwf _
  | closeHandle d c hd => exact .guarded (.deleting w _ c hd)
  | mapHandle d c hd =>
    refine .guarded ?_
    split
    · exact .refused (.refl w) _
    · next o hlook =>
      have hlive := h.live_of_item (h.clients.mem_items hlook)
      exact .mapping .held hlive (h.tokens.wellFormed d (hdevice d rfl)) _
  | objectAtAddress d a =>
    simp only [start]
    rcases objectAtAddress_spec w d a with ⟨o, hfound, -⟩ | ⟨ns, e, hfound⟩
    · rw [hfound]
      exact .answering [] _ _
    · rw [hfound]
      exact .answering ns _ _
  | mapRange d a length =>
    refine .guarded ?_
    rcases mappingAt_spec w d a length with ⟨o, offset, hfound, -⟩ | ⟨ns, e, hfound⟩
    · rw [hfound]
      exact .of_finished (by simp)
    · rw [hfound]
      exact .refused (.noteAll w ns) e
  | publishName d o =>
    exact .publishing .bare (hobject o rfl) (h.names.wellFormed d (hdevice d rfl))
  | resolveName d n => exact .answering [] _ _
  | retireName d o =>
    have hdone : (Operation.finished (.retireName d o) (.ok .done)).Settled :=
      ⟨List.forall_mem_nil _, by rintro _ ⟨⟩⟩
    simp only [start]
    split
    · exact .settled hdone
    · exact .settled (hdone.fail _)
  | createToken d o =>
    exact .mapping .bare (hobject o rfl) (h.tokens.wellFormed d (hdevice d rfl)) _
  | resolveToken d t => exact .answering [] _ _
  | destroyToken d o =>
    simp only [start]
    rcases hdestroy : w.destroyToken d o with ⟨w', f | u⟩ <;> exact .of_finished (by rintro _ ⟨⟩)

end Request

namespace Machine

open Request

variable {m m' : Machine} {w w₁ : World} {r : Request} {driver : QuietDriver} {o : ObjectRef}
  {d : DeviceRef} {op : Operation} {rest : List Task} {outcome : Outcome RequestError Reply}

/-- A use that was counted is uncounted; if that leaves none there is no name to go with it. -/
theorem runQuietly_uncount (driver : QuietDriver) (h : w.Usable o) :
    runQuietly driver (w.countHandle o) ⟨r, .uncount d o :: rest, outcome⟩ =
      runQuietly driver w ⟨r, rest, outcome⟩ := by
  have hlt : o < w.objects.size := World.lt_size_of_refs h.live
  rw [runQuietly_work driver _ rfl rfl, carryOut, World.uncountHandle_countHandle hlt h.fits]
  dsimp only
  cases hlast : (w.object o).handles.value == 0 with
  | false => rfl
  | true =>
    have hretire : w.retireName d o = (w, .ok ()) := by
      rw [World.retireName, h.unnamed (beq_iff_eq.mp hlast)]
    dsimp only
    rw [hretire]

/-- A handle that is refused is undone: its entry, its use and its reference are taken back. -/
theorem runQuietly_undoHandle (driver : QuietDriver) (op : Operation) {c : ClientRef} {hd : Handle}
    (hwf : w.TablesSound) (h : w.Usable o) (hopen : w.openHandle c o = (w₁, .ok hd)) (n : Notice) :
    ∃ table table', (w.client c).handles = some table ∧ table.Alike table' ∧
      runQuietly driver (undoHandle (w₁.note n) op c hd).1 (undoHandle (w₁.note n) op c hd).2 =
        runQuietly driver ((w.setHandles c (some table')).note n) op := by
  obtain ⟨-, table, table₁, htable, hissue, rfl⟩ := World.of_openHandle_ok hopen
  obtain ⟨table', halike, htake⟩ := World.takeHandle_of_issue hwf htable hissue n
  refine ⟨table, table', htable, halike, ?_⟩
  have husable : ((w.setHandles c (some table')).note n).Usable o := h.of_objects rfl
  rw [undoHandle, htake]
  dsimp only [List.cons_append, List.nil_append]
  rw [runQuietly_uncount driver husable.retain, runQuietly_drop driver husable.live]

/-- When the driver refuses the handle that a request has opened, the request fails with what it
was refused for, and everything is as it was. -/
theorem restores_of_refuse (r : Request) (reply : Reply) {w₀ : World} {c : ClientRef} {hd : Handle}
    {after : List Task} {e : RequestError} (hwf : w.TablesSound) (h : w.Usable o)
    (hheld : Holding w o w₀ after) (hopen : w₀.openHandle c o = (w₁, .ok hd))
    (hrefuse : driver w₁ ⟨.opened c, o⟩ = .refuse e) :
    ∃ w', w.Restores w' ∧ runQuietly driver w₁ ⟨r, .tellOpened c hd o :: after, .ok reply⟩ =
      (w', ⟨r, [], .error e⟩) := by
  rw [runQuietly_hook driver _ rfl rfl, hrefuse, conclude]
  cases hheld with
  | bare =>
    obtain ⟨table, table', htable, halike, hundo⟩ :=
      runQuietly_undoHandle driver ⟨r, [], .error e⟩ hwf h hopen (.handleRefused hd)
    rw [hundo, runQuietly_nil driver _ rfl]
    exact ⟨_, (World.Restores.setHandles htable halike).trans (.note _ _), rfl⟩
  | held =>
    have hwf₁ : (w.retain o).TablesSound := hwf
    obtain ⟨table, table', htable, halike, hundo⟩ :=
      runQuietly_undoHandle driver ⟨r, [.drop o], .error e⟩ hwf₁ h.retain hopen (.handleRefused hd)
    -- the reference that was held meanwhile is given up last
    let w' := (w.setHandles c (some table')).note (.handleRefused hd)
    have hlive : 0 < (w'.object o).refs := h.live
    have hswap : ((w.retain o).setHandles c (some table')).note (.handleRefused hd) =
        w'.retain o := rfl
    rw [hundo, hswap, runQuietly_drop driver hlive, runQuietly_nil driver _ rfl]
    exact ⟨w', (World.Restores.setHandles (w := w) htable halike).trans (.note _ _), rfl⟩

/-- An operation that ends with an error has changed nothing that can be told. -/
theorem restores_of_outset (hout : Outset w r (w₁, op)) (hwf : w.TablesSound)
    (husable : ∀ o, 0 < (w.object o).refs → w.Usable o) {e : RequestError}
    (herror : (runQuietly driver w₁ op).2.outcome = .error e) :
    w.Restores (runQuietly driver w₁ op).1 := by
  cases hout with
  | settled h => exact absurd herror (h.runQuietly.outcome e)
  | refused hrestores =>
    rw [runQuietly_nil driver _ rfl]
    exact hrestores
  | @holding w' hrestores e' o hlive =>
    have hlive' : 0 < (w'.object o).refs := by rwa [hrestores.object_eq]
    rw [runQuietly_drop driver hlive', runQuietly_nil driver _ rfl]
    exact hrestores
  | @opening w₀ _ c o hd after reply hlive hheld hopen =>
    cases hverdict : driver w₁ ⟨.opened c, o⟩ with
    | accept =>
      have hsettled : (⟨r, after, .ok reply⟩ : Operation).Settled := ⟨hheld.isRefusable, nofun⟩
      rw [runQuietly_hook driver _ rfl rfl, hverdict] at herror
      exact absurd herror (hsettled.runQuietly.outcome e)
    | refuse e' =>
      obtain ⟨w', hrestores, hrun⟩ :=
        restores_of_refuse r reply hwf (husable o hlive) hheld hopen hverdict
      rw [hrun]
      exact hrestores

theorem Sound.usable (h : m.Sound) (hlive : 0 < (m.world.object o).refs) : m.world.Usable o where
  live := hlive
  fits hzero := by
    have hle := h.handles_le o
    have hnat := congrArg UInt64.toNat hzero
    rw [UInt64.toNat_add, UInt64.toNat_one, UInt64.toNat_zero] at hnat
    omega
  unnamed hzero := Option.not_isSome_iff_eq_none.mp fun hname => h.used_of_name hname hzero

/-- A failed request leaves the world as it was, and the caller with what it held. -/
theorem Sound.restores_of_perform? (h : m.Sound) (hclient : ∀ d, r ≠ .openClient d)
    (hnew : ∀ d size, r ≠ .createObject d size) {e : RequestError}
    (hperform : m.perform? driver r = some (.error e, m')) :
    m.world.Restores m'.world ∧ m'.held = m.held ∧ m'.operations = m.operations := by
  have hperm : m.permits r = true := by
    obtain ⟨m₁, hcall, -⟩ := Option.bind_eq_some_iff.mp hperform
    exact (call?_eq_some.mp hcall).1
  have hout := Request.outset h.world (fun _ => h.alive_of_permits hperm)
    (fun _ => h.live_of_permits hperm) hclient hnew
  rw [perform?_of_permits hperm] at hperform
  obtain ⟨herror, rfl⟩ : (runQuietly driver (r.start m.world).1 (r.start m.world).2).2.outcome =
      .error e ∧ _ = m' := by simpa using hperform
  have hkept : m.heldDuring r = m.held := heldDuring_of_ne fun o hr => by
    subst hr
    have hsettled : ((Request.dropObject o).start m.world).2.Settled :=
      ⟨by simp [Request.start, Task.isRefusable], nofun⟩
    exact hsettled.runQuietly.outcome e herror
  refine ⟨restores_of_outset hout h.world.clients.wellFormed (fun _ => h.usable) herror, ?_, rfl⟩
  rw [herror, hkept]
  rfl

/-- A driver that refuses a handle fails the request with what it refused it for. -/
theorem Sound.perform?_of_refusal (h : m.Sound) (driver : QuietDriver) {c : ClientRef} {hd : Handle}
    {e : RequestError} (hperm : m.permits (.createHandle c o) = true)
    (hopen : m.world.openHandle c o = (w₁, .ok hd))
    (hrefuse : driver w₁ ⟨.opened c, o⟩ = .refuse e) :
    ∃ m', m.perform? driver (.createHandle c o) = some (.error e, m') := by
  have hstart : (Request.createHandle c o).start m.world =
      (w₁, ⟨.createHandle c o, [.tellOpened c hd o], .ok (.handle hd)⟩) := by
    simp [Request.start, Request.startOpen, hopen]
  have husable := h.usable (h.live_of_permits hperm rfl)
  obtain ⟨w', -, hrun⟩ := restores_of_refuse (.createHandle c o) (.handle hd)
    h.world.clients.wellFormed husable .bare hopen hrefuse
  have hrun' : runQuietly driver ((Request.createHandle c o).start m.world).1
      ((Request.createHandle c o).start m.world).2 = (w', ⟨.createHandle c o, [], .error e⟩) := by
    rw [hstart]
    exact hrun
  exact ⟨_, perform?_of_run hperm hrun'⟩

/-- A request that fails in any state of an orderly run, inside a hook or outside, for whatever
reason, leaves everything as it was: what callers hold, every object, what every table leads to, the
ids in use, and so which handle, name or token is given next, whatever memory has room for then. -/
theorem failure_of_orderlyRun {moves : List Move} (hrun : empty.orderlyRun? moves = some m)
    (hclient : ∀ d, r ≠ .openClient d) (hnew : ∀ d size, r ≠ .createObject d size)
    {e : RequestError} (hperform : m.perform? driver r = some (.error e, m')) :
    (m'.held = m.held ∧ m'.operations = m.operations ∧ m.world.Restores m'.world) ∧
    (∀ c hd, m'.world.lookupHandle c hd = m.world.lookupHandle c hd) ∧
    ∀ memory,
      (∀ c o, World.SameAnswer memory ((m.world.under memory).openHandle c o).2
        ((m'.world.under memory).openHandle c o).2) ∧
      ∀ d o, (m.world.device d).alive = true →
        World.SameAnswer memory ((m.world.under memory).publishName d o).2
          ((m'.world.under memory).publishName d o).2 ∧
        World.SameAnswer memory ((m.world.under memory).createToken d o).2
          ((m'.world.under memory).createToken d o).2 := by
  have h := Sound.of_run hrun
  obtain ⟨hrestores, hheld, hoperations⟩ := h.restores_of_perform? hclient hnew hperform
  refine ⟨⟨hheld, hoperations, hrestores⟩, hrestores.sameHandles.lookup_eq, fun memory => ?_⟩
  have hboth := hrestores.both_under memory
  exact ⟨hboth.sameAnswer_openHandle rfl h.world.clients.wellFormed, fun d o halive =>
    ⟨hboth.sameAnswer_publishName rfl (h.world.names.wellFormed d halive) o,
      hboth.sameAnswer_createToken rfl (h.world.tokens.wellFormed d halive) o⟩⟩

/-- Another handle to an object that has one already is refused by the driver. The first handle
still leads to the object, and the number that was taken back is the next again. When there is no
room for the entry of a name, the name that was found for the object is given back, and the object
gets that name once there is room. -/
theorem failure_of_orderlyRun_taken_back :
    let refusing : QuietDriver := fun _ _ => .refuse (.driver 5)
    let cramped : Memory := { Memory.ample with entry := false }
    let moves := opening ++ [.call (.createHandle 0 0), .answer .accept, .finish]
    (∃ m m', empty.orderlyRun? moves = some m ∧
      m.perform? refusing (.createHandle 0 0) = some (.error (.driver 5), m') ∧
      m'.world.objects = m.world.objects ∧ m'.world.lookupHandle 0 1 = .ok 0 ∧
      ((m'.world.under .ample).openHandle 0 0).2 = .ok 2) ∧
    ∃ m m', empty.orderlyRun? (moves ++ [.memory cramped]) = some m ∧
      m.perform? refusing (.publishName 0 0) = some (.error .outOfMemory, m') ∧
      m'.world.objects = m.world.objects ∧ m'.world.lookupHandle 0 1 = .ok 0 ∧
      ((m'.world.under .ample).publishName 0 0).2 = .ok 1 := by
  intro refusing cramped moves
  constructor
  · have hread : (empty.orderlyRun? moves).map (fun m =>
        (m.permits (.createHandle 0 0), (m.world.lookupHandle 0 1).toOption,
          (m.world.openHandle 0 0).2, ((m.world.under .ample).openHandle 0 0).2)) =
        some (true, some 0, .ok 2, .ok 2) := by decide +kernel
    obtain ⟨m, hrun, hfacts⟩ := Option.map_eq_some_iff.mp hread
    obtain ⟨hperm, hlook, hopen, hnext⟩ : m.permits (.createHandle 0 0) = true ∧
        (m.world.lookupHandle 0 1).toOption = some 0 ∧ (m.world.openHandle 0 0).2 = .ok 2 ∧
        ((m.world.under .ample).openHandle 0 0).2 = .ok 2 := by simpa using hfacts
    rw [Request.toOption_eq_some_iff] at hlook
    obtain ⟨m', hperform⟩ := (Sound.of_run hrun).perform?_of_refusal refusing hperm
      (Prod.ext rfl hopen) rfl
    obtain ⟨⟨-, -, hrestores⟩, hlookup, hanswers⟩ :=
      failure_of_orderlyRun hrun (by simp) (by simp) hperform
    have hsame := ((hanswers .ample).1 0 0).resolve_right (by simp [Memory.ample])
    exact ⟨m, m', hrun, hperform, hrestores.objects_eq, (hlookup 0 1).trans hlook,
      hsame.trans hnext⟩
  · have hread : (empty.orderlyRun? (moves ++ [.memory cramped])).map (fun m =>
        (m.permits (.publishName 0 0), (m.world.lookupHandle 0 1).toOption,
          (m.world.publishName 0 0).2, ((m.world.under .ample).publishName 0 0).2,
          (m.world.device 0).alive)) =
        some (true, some 0, .error .outOfMemory, .ok 1, true) := by decide +kernel
    obtain ⟨m, hrun, hfacts⟩ := Option.map_eq_some_iff.mp hread
    obtain ⟨hperm, hlook, hpublish, hnext, halive⟩ : m.permits (.publishName 0 0) = true ∧
        (m.world.lookupHandle 0 1).toOption = some 0 ∧
        (m.world.publishName 0 0).2 = .error .outOfMemory ∧
        ((m.world.under .ample).publishName 0 0).2 = .ok 1 ∧
        (m.world.device 0).alive = true := by simpa using hfacts
    rw [Request.toOption_eq_some_iff] at hlook
    have hstart : (Request.publishName 0 0).start m.world =
        ((m.world.publishName 0 0).1, .finished (.publishName 0 0) (.error .outOfMemory)) := by
      simp [Request.start, hpublish, Outcome.map]
    have hperform := perform?_of_finished hperm refusing hstart
    obtain ⟨⟨-, -, hrestores⟩, hlookup, hanswers⟩ :=
      failure_of_orderlyRun hrun (by simp) (by simp) hperform
    have hsame := ((hanswers .ample).2 0 0 halive).1.resolve_right (by simp [Memory.ample])
    exact ⟨m, _, hrun, hperform, hrestores.objects_eq, (hlookup 0 1).trans hlook,
      hsame.trans hnext⟩

end Machine

end BufferObjects
