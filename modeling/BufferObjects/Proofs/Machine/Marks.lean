import BufferObjects.Proofs.Machine.Run
import BufferObjects.Proofs.World.Marks

/-!
What a move does to the marks of objects. A request rewrites the mark of the object it is about, a
task the name of the object it uncounts or the token of the object it gives up, and nothing else
does. An object comes by a name when it is published, and loses it when its name is retired or its
last use uncounted; it comes by a token when it is mapped, and loses it when the token is destroyed
or its last reference goes.
-/

namespace BufferObjects

namespace Request

/-- The object that a request is to publish, and the device that is to name it. -/
def published? (w : World) : Request → Option (DeviceRef × ObjectRef)
  | publishName d o => some (d, o)
  | nameHandle d c h => (w.lookupHandle c h).toOption.map (d, ·)
  | _ => none

/-- The object that a request is to give a token, and the device that is to give it. -/
def mapped? (w : World) : Request → Option (DeviceRef × ObjectRef)
  | createToken d o => some (d, o)
  | mapHandle d c h => (w.lookupHandle c h).toOption.map (d, ·)
  | _ => none

/-- The object whose name a request may change. -/
def renamed? (w : World) : Request → Option ObjectRef
  | retireName _ o => some o
  | r => (r.published? w).map Prod.snd

/-- The object whose token a request may change. -/
def retokened? (w : World) : Request → Option ObjectRef
  | destroyToken _ o => some o
  | r => (r.mapped? w).map Prod.snd

end Request

/-- The object whose name a task may change. -/
def Task.renamed? : Task → Option ObjectRef
  | uncount _ o => some o
  | _ => none

/-- The object whose token a task may change. -/
def Task.retokened? : Task → Option ObjectRef
  | drop o => some o
  | _ => none

/-- An object that is offered under a name. -/
structure Publication where
  device : DeviceRef
  object : ObjectRef
  name : Name
  deriving DecidableEq, Repr

namespace Machine

/-- The task that the innermost operation carries out next. -/
def task? (m : Machine) : Option Task := m.operations.head?.bind fun op => op.todo.head?

/-- The object whose name a move may change. -/
def renamed? (m : Machine) : Move → Option ObjectRef
  | .call r => r.renamed? m.world
  | .work => m.task?.bind Task.renamed?
  | _ => none

/-- The object whose token a move may change. -/
def retokened? (m : Machine) : Move → Option ObjectRef
  | .call r => r.retokened? m.world
  | .work => m.task?.bind Task.retokened?
  | _ => none

/-- What a move publishes: a call that will answer with a name. -/
def publication? (m : Machine) : Move → Option Publication
  | .call r =>
    match r.published? m.world, (r.start m.world).2.outcome with
    | some (d, o), .ok (.name n) => some ⟨d, o, n⟩
    | _, _ => none
  | _ => none

end Machine

namespace Request

variable {w : World} {r : Request} {d : DeviceRef} {o p : ObjectRef}
  {named tokened : Option ObjectRef}

open World

/-! ### How requests begin -/

theorem spares_guarded {c? : Option ClientRef} {body : World → World × Operation}
    (hbody : w.Spares (body w).1 named tokened) :
    w.Spares
      (match access w d c? with
        | (w, .error e) => (w, Operation.finished r (.error e))
        | (w, .ok ()) => body w).1 named tokened :=
  guarded_cases (P := fun x => w.Spares x.1 named tokened) (fun _ _ => hbody)
    fun ns _ _ => (Spares.refl w).noteAll ns

theorem spares_answerObject {reply : ObjectRef → Reply} {w' : World}
    (h : w.Spares w' named tokened) (found : Except RequestError ObjectRef) :
    w.Spares (answerObject w' r reply found).1 named tokened := by
  cases found with
  | ok o => exact h.trans (.retain w' o)
  | error e => exact h

theorem spares_startDelete (w : World) (r : Request) (c : ClientRef) (hd : Handle) :
    w.Spares (startDelete w r c hd).1 named tokened := by
  have htaken : w.Spares (w.takeHandle c hd).1 named tokened := .takeHandle w c hd
  unfold startDelete
  split
  · next heq => rwa [heq] at htaken
  · next heq =>
    rw [heq] at htaken
    exact htaken.note _
  · next heq => rwa [heq] at htaken

theorem spares_startOpen {w' : World} (h : w.Spares w' named tokened) (r : Request) (c : ClientRef)
    (o : ObjectRef) (reply : Handle → Reply) (after : List Task) :
    w.Spares (startOpen w' r c o reply after).1 named tokened := by
  have hopened : w.Spares (w'.openHandle c o).1 named tokened := h.trans (.openHandle w' c o)
  unfold startOpen
  split
  · next heq => rwa [heq] at hopened
  · next heq => rwa [heq] at hopened
  · next heq => rwa [heq] at hopened

theorem toOption_eq_some_iff {α ε : Type} {result : Except ε α} {a : α} :
    result.toOption = some a ↔ result = .ok a := by
  cases result <;> simp [Except.toOption]

/-- Publishing is one operation on names, done at once; by way of a handle it is done while a
reference is held. -/
theorem start_of_published? (h : r.published? w = some (d, o)) :
    (∃ ns e, (r.start w).1 = w.noteAll ns ∧ (r.start w).2.outcome = .error e) ∨
      ∃ w₁, (w₁ = w ∨ w₁ = w.retain o) ∧ (r.start w).1 = (w₁.publishName d o).1 ∧
        (r.start w).2.outcome = (w₁.publishName d o).2.map .name := by
  cases r with
  | publishName =>
    cases h
    exact Or.inr ⟨w, Or.inl rfl, rfl, rfl⟩
  | nameHandle e c hd =>
    obtain ⟨p, hlook, heq⟩ := Option.map_eq_some_iff.mp h
    obtain ⟨rfl, rfl⟩ : e = d ∧ p = o := by simpa using heq
    rw [toOption_eq_some_iff] at hlook
    rcases access_spec w e (some c) with ⟨haccess, -⟩ | ⟨ns, cause, haccess⟩
    · refine Or.inr ⟨w.retain p, Or.inr rfl, ?_, ?_⟩ <;> simp only [start, haccess, hlook]
    · refine Or.inl ⟨ns, cause, ?_, ?_⟩ <;> simp only [start, haccess, Operation.finished]
  | _ => cases h

theorem start_of_mapped? (h : r.mapped? w = some (d, o)) :
    (∃ ns e, (r.start w).1 = w.noteAll ns ∧ (r.start w).2.outcome = .error e) ∨
      ∃ w₁ reply, (w₁ = w ∨ w₁ = w.retain o) ∧ (r.start w).1 = (w₁.createToken d o).1 ∧
        (reply = .token ∨ reply = fun t => .address (MapAddress.encode t)) ∧
        (r.start w).2.outcome = (w₁.createToken d o).2.map reply := by
  cases r with
  | createToken =>
    cases h
    exact Or.inr ⟨w, _, Or.inl rfl, rfl, Or.inl rfl, rfl⟩
  | mapHandle e c hd =>
    obtain ⟨p, hlook, heq⟩ := Option.map_eq_some_iff.mp h
    obtain ⟨rfl, rfl⟩ : e = d ∧ p = o := by simpa using heq
    rw [toOption_eq_some_iff] at hlook
    rcases access_spec w e (some c) with ⟨haccess, -⟩ | ⟨ns, cause, haccess⟩
    · refine Or.inr ⟨w.retain p, _, Or.inr rfl, ?_, Or.inr rfl, ?_⟩ <;>
        simp only [start, haccess, hlook]
    · refine Or.inl ⟨ns, cause, ?_, ?_⟩ <;> simp only [start, haccess, Operation.finished]
  | _ => cases h

theorem spares_publishing (h : r.published? w = some (d, o)) :
    w.Spares (r.start w).1 (some o) tokened := by
  rcases start_of_published? h with ⟨ns, e, heq, -⟩ | ⟨w₁, rfl | rfl, heq, -⟩
  · rw [heq]
    exact (Spares.refl w).noteAll ns
  · rw [heq]
    exact .publishName _ d o
  · rw [heq]
    exact (Spares.retain w o).trans (.publishName _ d o)

theorem spares_mapping (h : r.mapped? w = some (d, o)) :
    w.Spares (r.start w).1 named (some o) := by
  rcases start_of_mapped? h with ⟨ns, e, heq, -⟩ | ⟨w₁, reply, rfl | rfl, heq, -⟩
  · rw [heq]
    exact (Spares.refl w).noteAll ns
  · rw [heq]
    exact .createToken _ d o
  · rw [heq]
    exact (Spares.retain w o).trans (.createToken _ d o)

/-- A request leaves all marks alone but those of the object it is about. -/
theorem spares_start (hd : ∀ d, r.device? = some d → d < w.devices.size) :
    w.Spares (r.start w).1 (r.renamed? w) (r.retokened? w) := by
  cases r with
  | newDevice config features => exact .newDevice w config features
  | dropDevice d => exact .updateDevice w d fun _ => rfl
  | openClient d => exact .newClient (hd d rfl)
  | closeClient c => exact .closeClient w c
  | dropClient c => exact .closeClient w c
  | createObject d size =>
    have hnew : w.Spares (w.newObject d size).1 none none := .newObject w d size
    simp only [start]
    split
    · next heq => rw [heq] at hnew; exact hnew
    · next heq => rw [heq] at hnew; exact hnew
  | cloneObject o => exact .retain w o
  | dropObject o => exact .refl w
  | createHandle c o => exact spares_startOpen (.refl w) _ c o _ _
  | lookupHandle c h => exact spares_answerObject (.refl w) _
  | deleteHandle c h => exact spares_startDelete w _ c h
  | nameHandle d c h =>
    cases hlook : w.lookupHandle c h with
    | ok p =>
      have hp : published? w (.nameHandle d c h) = some (d, p) := by
        simp [published?, hlook, Except.toOption]
      rw [renamed?.eq_2 w _ (by intro _ _ heq; cases heq), hp]
      exact spares_publishing hp
    | error e =>
      refine spares_guarded ?_
      rw [hlook]
      exact .refl w
  | openName d c n =>
    refine spares_guarded ?_
    split
    · exact .refl w
    · exact spares_startOpen (.retain w _) _ c _ _ _
  | closeHandle d c h => exact spares_guarded (spares_startDelete w _ c h)
  | mapHandle d c h =>
    cases hlook : w.lookupHandle c h with
    | ok p =>
      have hp : mapped? w (.mapHandle d c h) = some (d, p) := by
        simp [mapped?, hlook, Except.toOption]
      rw [retokened?.eq_2 w _ (by intro _ _ heq; cases heq), hp]
      exact spares_mapping hp
    | error e =>
      refine spares_guarded ?_
      rw [hlook]
      exact .refl w
  | objectAtAddress d a =>
    simp only [start]
    rcases objectAtAddress_spec w d a with ⟨o, hfound, -⟩ | ⟨ns, e, hfound⟩
    · rw [hfound]
      exact spares_answerObject (.refl w) _
    · rw [hfound]
      exact spares_answerObject ((Spares.refl w).noteAll ns) _
  | mapRange d a length =>
    refine spares_guarded ?_
    rcases mappingAt_spec w d a length with ⟨o, offset, hfound, -⟩ | ⟨ns, e, hfound⟩
    · rw [hfound]
      exact .retain w o
    · rw [hfound]
      exact (Spares.refl w).noteAll ns
  | publishName d o => exact .publishName w d o
  | resolveName d n => exact spares_answerObject (.refl w) _
  | retireName d o =>
    have hretire : w.Spares (w.retireName d o).1 (some o) none := .retireName w d o
    simp only [start]
    split
    · next heq => rw [heq] at hretire; exact hretire
    · next heq => rw [heq] at hretire; exact hretire
  | createToken d o => exact .createToken w d o
  | resolveToken d t => exact spares_answerObject (.refl w) _
  | destroyToken d o => exact .destroyToken w d o

/-- An object comes by a name when a request answers with it, and loses it when it is retired. -/
theorem name_start (hd : ∀ d, r.device? = some d → d < w.devices.size) (p : ObjectRef) :
    ((r.start w).1.object p).name = (w.object p).name ∨
      ((w.object p).name = none ∧ ∃ d n, r.published? w = some (d, p) ∧
        (r.start w).2.outcome = .ok (.name n) ∧ ((r.start w).1.object p).name = some n) ∨
      (((r.start w).1.object p).name = none ∧ ∃ d, r = .retireName d p) := by
  by_cases hp : r.renamed? w = some p
  · by_cases hretire : ∃ d, r = .retireName d p
    · obtain ⟨d, rfl⟩ := hretire
      refine Or.inr (Or.inr ⟨?_, d, rfl⟩)
      rw [← name_retireName w d p, start]
      split <;> simp_all
    · obtain ⟨d, hpub⟩ : ∃ d, r.published? w = some (d, p) := by
        unfold renamed? at hp
        split at hp
        · cases hp
          exact absurd ⟨_, rfl⟩ hretire
        · obtain ⟨⟨d, q⟩, hq, rfl⟩ := Option.map_eq_some_iff.mp hp
          exact ⟨d, hq⟩
      rcases start_of_published? hpub with ⟨ns, e, heq, -⟩ | ⟨w₁, hw₁, heq, houtcome⟩
      · exact Or.inl (by rw [heq, object_noteAll])
      · have hsame : (w₁.object p).name = (w.object p).name := by
          rcases hw₁ with rfl | rfl
          · rfl
          · exact (Spares.retain w p : Spares _ _ none none).name_eq p (by simp)
        rcases name_publishName w₁ d p with hkept | ⟨hnone, n, hok, hname⟩
        · exact Or.inl (by rw [heq, hkept, hsame])
        · refine Or.inr (Or.inl ⟨hsame.symm.trans hnone, d, n, hpub, ?_, by rw [heq, hname]⟩)
          rw [houtcome, hok]
          rfl
  · exact Or.inl ((spares_start hd).name_eq p hp)

/-- A request takes a token away only if that is what it is for. -/
theorem token_start (hd : ∀ d, r.device? = some d → d < w.devices.size) {p : ObjectRef} {t : Token}
    (ht : (w.object p).token = some t) :
    ((r.start w).1.object p).token = some t ∨
      (((r.start w).1.object p).token = none ∧ ∃ d, r = .destroyToken d p) := by
  by_cases hp : r.retokened? w = some p
  · by_cases hdestroy : ∃ d, r = .destroyToken d p
    · obtain ⟨d, rfl⟩ := hdestroy
      exact Or.inr ⟨token_destroyToken w d p, d, rfl⟩
    · obtain ⟨d, hmap⟩ : ∃ d, r.mapped? w = some (d, p) := by
        unfold retokened? at hp
        split at hp
        · cases hp
          exact absurd ⟨_, rfl⟩ hdestroy
        · obtain ⟨⟨d, q⟩, hq, rfl⟩ := Option.map_eq_some_iff.mp hp
          exact ⟨d, hq⟩
      left
      rcases start_of_mapped? hmap with ⟨ns, e, heq, -⟩ | ⟨w₁, reply, hw₁, heq, -⟩
      · rw [heq, object_noteAll, ht]
      · have hsame : (w₁.object p).token = some t := by
          rcases hw₁ with rfl | rfl
          · exact ht
          · exact ((Spares.retain w p : Spares _ _ none none).token_eq p nofun).trans ht
        rw [heq, createToken_of_token hsame, hsame]
  · exact Or.inl (((spares_start hd).token_eq p hp).trans ht)

end Request

/-! ### Access to handles -/

/-- Whoever has a handle has access to the device of the object under it. -/
theorem Request.access_of_lookupHandle {w : World} {c : ClientRef} {h : Handle} {o : ObjectRef}
    {d : DeviceRef} (hclients : w.ClientsSound) (hequipped : w.Equipped)
    (hlook : w.lookupHandle c h = .ok o) (hhome : (w.object o).home = d) :
    Request.access w d (some c) = (w, .ok ()) := by
  have hitem := hclients.mem_items hlook
  obtain ⟨-, hdevice⟩ := hclients.item_home c o hitem
  obtain ⟨-, hmanages⟩ := hequipped c (hclients.present_of_item hitem)
  have hclient : (w.client c).device = d := hdevice.symm.trans hhome
  rw [hclient] at hmanages
  simp [Request.access, hmanages, hclient]

/-! ### Tasks and answers -/

namespace Machine

variable {w : World} {op : Operation} {task : Task} {rest : List Task} {p : ObjectRef}
  {t : Token}

open World

theorem spares_carryOut (w : World) (op : Operation) (task : Task) (rest : List Task) :
    w.Spares (carryOut w op task rest).1 task.renamed? task.retokened? := by
  cases task with
  | uncount d o =>
    have huncount : w.Spares (w.uncountHandle o).1 (some o) none := .uncountHandle w o
    simp only [carryOut]
    rcases hcount : w.uncountHandle o with ⟨w₁, f | last⟩
    · rw [hcount] at huncount
      exact huncount
    · rw [hcount] at huncount
      cases last with
      | false => exact huncount
      | true =>
        have hretire := huncount.trans (.retireName w₁ d o)
        dsimp only
        rcases heq : w₁.retireName d o with ⟨w₂, b | ok⟩
        · rw [heq] at hretire
          exact hretire
        · rw [heq] at hretire
          exact hretire
  | drop o =>
    have hdrop : w.Spares (w.dropRef o).1 none (some o) := .dropRef w o
    simp only [carryOut]
    rcases heq : w.dropRef o with ⟨w', f | dropped⟩
    · rw [heq] at hdrop
      exact hdrop
    · rw [heq] at hdrop
      cases dropped <;> exact hdrop
  | forgetClient c => exact .updateClient w c fun _ => ⟨by simp, rfl⟩
  | leaveDevice d => exact .leaveDevice w d
  | prepare | tellOpened | tellClosed | tellFreed => exact .refl w

theorem spares_undoHandle (w : World) (op : Operation) (c : ClientRef) (h : Handle) :
    w.Spares (undoHandle w op c h).1 none none := by
  have htake : w.Spares (w.takeHandle c h).1 none none := .takeHandle w c h
  unfold undoHandle
  split
  all_goals
    next heq =>
    rw [heq] at htake
    exact htake

theorem spares_conclude (w : World) (op : Operation) (task : Task) (rest : List Task)
    (v : Verdict) : w.Spares (conclude w op task rest v).1 none none := by
  unfold conclude
  dsimp only
  split
  · refine Spares.note _ (.updateCounts w _ ?_ ?_) <;> exact fun _ => rfl
  · exact (Spares.refl w).note _
  · exact (Spares.refl w).note _
  · exact ((Spares.refl w).note _).trans (spares_undoHandle _ _ _ _)
  · exact .refl w

/-- The name of an object goes with its last use. -/
theorem name_carryOut (w : World) (op : Operation) (task : Task) (rest : List Task)
    (p : ObjectRef) :
    ((carryOut w op task rest).1.object p).name = (w.object p).name ∨
      ((carryOut w op task rest).1.object p).name = none ∧
        ((carryOut w op task rest).1.object p).handles.value = 0 := by
  by_cases hp : task.renamed? = some p
  · cases task with
    | uncount d o =>
      obtain rfl : o = p := Option.some.inj hp
      have hsame : ((w.uncountHandle o).1.object o).name = (w.object o).name :=
        (Spares.uncountHandle w o : Spares _ _ none none).name_eq o nofun
      simp only [carryOut]
      rcases hcount : w.uncountHandle o with ⟨w₁, f | last⟩
      · rw [hcount] at hsame
        exact Or.inl hsame
      · rw [hcount] at hsame
        cases last with
        | false => exact Or.inl hsame
        | true =>
          have hname := name_retireName w₁ d o
          have hhandles := handles_retireName w₁ d o o
          have hzero := value_of_uncountHandle hcount
          right
          dsimp only
          rcases hretire : w₁.retireName d o with ⟨w₂, b | ok⟩
          all_goals
            rw [hretire] at hname hhandles
            exact ⟨hname, by rw [hhandles, hzero]⟩
    | _ => cases hp
  · exact Or.inl ((spares_carryOut w op task rest).name_eq p hp)

/-- The token of an object goes with its last reference. -/
theorem token_carryOut (w : World) (op : Operation) (task : Task) (rest : List Task)
    (p : ObjectRef) :
    ((carryOut w op task rest).1.object p).token = (w.object p).token ∨
      ((carryOut w op task rest).1.object p).token = none ∧
        ((carryOut w op task rest).1.object p).refs = 0 := by
  by_cases hp : task.retokened? = some p
  · cases task with
    | drop o =>
      obtain rfl : o = p := Option.some.inj hp
      have hdrop := token_dropRef w o
      simp only [carryOut]
      rcases heq : w.dropRef o with ⟨w', f | dropped⟩
      · rw [heq] at hdrop
        exact hdrop
      · rw [heq] at hdrop
        cases dropped <;> exact hdrop
    | _ => cases hp
  · exact Or.inl ((spares_carryOut w op task rest).token_eq p hp)

/-! ### Moves -/

variable {m m' : Machine} {x : Move}

theorem lt_size_of_permits {r : Request} (h : m.permits r = true) (d : DeviceRef)
    (hd : r.device? = some d) : d < m.world.devices.size := by
  have hheld := held_of_permits h hd
  refine Nat.lt_of_not_le fun hge => ?_
  rw [device_of_size_le hge] at hheld
  cases hheld

/-- A move leaves all marks alone but the name of one object and the token of one. -/
theorem spares_of_move (h : m.move? x = some m') :
    m.world.Spares m'.world (m.renamed? x) (m.retokened? x) := by
  cases x with
  | call r =>
    obtain ⟨hperm, rfl⟩ := call?_eq_some.mp h
    exact Request.spares_start (lt_size_of_permits hperm)
  | work =>
    obtain ⟨op, outer, task, rest, hops, htodo, -, rfl⟩ := of_work? h
    have htask : m.task? = some task := by simp [task?, hops, htodo]
    rw [renamed?, retokened?, htask]
    exact spares_carryOut ..
  | answer v =>
    obtain ⟨op, outer, task, rest, call, -, -, -, rfl⟩ := of_answer? h
    exact spares_conclude ..
  | finish =>
    obtain ⟨op, outer, -, -, rfl⟩ := of_finish h
    exact .refl _
  | memory memory =>
    cases h
    exact .under m.world memory

/-- A move names an object only by publishing it, and takes a name away only by retiring it or with
the last use. -/
theorem name_of_move (h : m.move? x = some m') (p : ObjectRef) :
    (m'.world.object p).name = (m.world.object p).name ∨
      ((m.world.object p).name = none ∧ ∃ d n, m.publication? x = some ⟨d, p, n⟩ ∧
        (m'.world.object p).name = some n) ∨
      ((m'.world.object p).name = none ∧
        ((∃ d, x = .call (.retireName d p)) ∨ (m'.world.object p).handles.value = 0)) := by
  cases x with
  | call r =>
    obtain ⟨hperm, rfl⟩ := call?_eq_some.mp h
    rcases Request.name_start (lt_size_of_permits hperm) p with
      hsame | ⟨hnone, d, n, hpub, houtcome, hname⟩ | ⟨hnone, d, rfl⟩
    · exact Or.inl hsame
    · exact Or.inr (Or.inl ⟨hnone, d, n, by simp [publication?, hpub, houtcome], hname⟩)
    · exact Or.inr (Or.inr ⟨hnone, Or.inl ⟨d, rfl⟩⟩)
  | work =>
    obtain ⟨op, outer, task, rest, -, -, -, rfl⟩ := of_work? h
    rcases name_carryOut m.world op task rest p with hsame | ⟨hnone, hzero⟩
    · exact Or.inl hsame
    · exact Or.inr (Or.inr ⟨hnone, Or.inr hzero⟩)
  | answer v =>
    obtain ⟨op, outer, task, rest, call, -, -, -, rfl⟩ := of_answer? h
    exact Or.inl ((spares_conclude ..).name_eq p nofun)
  | finish =>
    obtain ⟨op, outer, -, -, rfl⟩ := of_finish h
    exact Or.inl rfl
  | memory memory =>
    cases h
    exact Or.inl rfl

/-- A move takes a token away only by destroying it or with the last reference. -/
theorem token_of_move (h : m.move? x = some m') {p : ObjectRef} {t : Token}
    (ht : (m.world.object p).token = some t) :
    (m'.world.object p).token = some t ∨
      ((m'.world.object p).token = none ∧
        ((∃ d, x = .call (.destroyToken d p)) ∨ (m'.world.object p).refs = 0)) := by
  cases x with
  | call r =>
    obtain ⟨hperm, rfl⟩ := call?_eq_some.mp h
    rcases Request.token_start (lt_size_of_permits hperm) ht with hsame | ⟨hnone, d, rfl⟩
    · exact Or.inl hsame
    · exact Or.inr ⟨hnone, Or.inl ⟨d, rfl⟩⟩
  | work =>
    obtain ⟨op, outer, task, rest, -, -, -, rfl⟩ := of_work? h
    rcases token_carryOut m.world op task rest p with hsame | ⟨hnone, hzero⟩
    · exact Or.inl (hsame.trans ht)
    · exact Or.inr ⟨hnone, Or.inr hzero⟩
  | answer v =>
    obtain ⟨op, outer, task, rest, call, -, -, -, rfl⟩ := of_answer? h
    exact Or.inl (((spares_conclude ..).token_eq p nofun).trans ht)
  | finish =>
    obtain ⟨op, outer, -, -, rfl⟩ := of_finish h
    exact Or.inl ht
  | memory memory =>
    cases h
    exact Or.inl ht

/-- In every state of a run clients belong to devices that manage buffers. -/
theorem equipped_of_tameRun {moves : List Move} (hrun : empty.tameRun? moves = some m) :
    m.world.Equipped := by
  refine tameRun?_induction (P := fun m => m.world.Equipped) (fun m x m' h hmove => ?_) ?_ hrun
  · exact (spares_of_move (tameMove?_eq_some.mp hmove).2.1).equipped h
  · intro c hc
    exact absurd (lt_size_of_present hc) (Nat.not_lt_zero c)

theorem equipped_of_orderlyRun {moves : List Move} (hrun : empty.orderlyRun? moves = some m) :
    m.world.Equipped :=
  equipped_of_tameRun (tameRun?_of_orderlyRun? hrun)

end Machine

end BufferObjects
