import BufferObjects.Proofs.Machine.Start

/-!
One task of an operation in progress. Tasks that do not wait are carried out without a fault, and
after every answer of the driver there is something sensible left to do. Along with that goes what a
turn means for the objects: none comes back to life, one is prepared when its driver says so, and
the driver is told of an end exactly when a prepared object loses its last reference.
-/

open scoped List

namespace BufferObjects

/-- The hook at which an operation waits. -/
def Operation.hook? (op : Operation) : Option HookCall := op.todo.head?.bind Task.hook?

/-- The object that is prepared with an answer. -/
def HookCall.preparedBy : HookCall → Verdict → Option ObjectRef
  | ⟨.prepare, o⟩, .accept => some o
  | _, _ => none

/-- What a turn does to the objects, the one that it prepares and the hook that it leads to. -/
structure Turn (w w' : World) (prepared : Option ObjectRef) (told : Option HookCall) : Prop
    extends World.Follows w w' where
  prepared_eq : ∀ o < w.objects.size,
    (w'.object o).prepared = ((w.object o).prepared || decide (prepared = some o))
  freed_iff : ∀ o, told = some ⟨.freed, o⟩ ↔ o < w.objects.size ∧ 0 < (w.object o).refs ∧
    (w'.object o).refs = 0 ∧ (w.object o).prepared = true
  born : ∀ o < w'.objects.size, w.objects.size ≤ o →
    0 < (w'.object o).refs ∧ (w'.object o).prepared = false
  prepared_live : ∀ o, prepared = some o → o < w.objects.size ∧ 0 < (w'.object o).refs

/-- What is true when an operation has gone on by one task. -/
structure Continues (w : World) (outside uses : List ObjectRef) (r : Request)
    (prepared : Option ObjectRef) (w' : World) (op : Operation) : Prop where
  sound : w'.Sound (op.references ++ outside) (op.uncounted ++ uses)
  operation : op.Sound w'
  request_eq : op.request = r
  turn : Turn w w' prepared op.hook?
  present : ∀ c, r ≠ .dropClient c → (w.client c).present = true → (w'.client c).present = true
  prepares : ∀ o, .prepare o ∉ op.todo

variable {w w' : World} {outside uses : List ObjectRef} {r : Request} {rest : List Task}
  {outcome : Outcome RequestError Reply} {o : ObjectRef}

theorem Agenda.head_ne_freed {todo : List Task} (h : Agenda r todo) (o : ObjectRef) :
    todo.head?.bind Task.hook? ≠ some ⟨.freed, o⟩ := by
  cases h <;> simp [Task.hook?]

theorem Turn.of_keeps {told : Option HookCall} (h : w.Keeps w')
    (hquiet : ∀ o, told ≠ some ⟨.freed, o⟩) : Turn w w' none told where
  toFollows := h.toFollows
  prepared_eq o ho := by simp [h.prepared o ho]
  freed_iff o := by
    refine iff_of_false (hquiet o) ?_
    rintro ⟨ho, hlive, hdead, -⟩
    have := (h.live o ho).mpr hlive
    omega
  born := h.born
  prepared_live := nofun

theorem Continues.of_note {n : Notice} {prepared : Option ObjectRef} {op : Operation}
    (h : Continues (w.note n) outside uses r prepared w' op) :
    Continues w outside uses r prepared w' op where
  sound := h.sound
  operation := h.operation
  request_eq := h.request_eq
  turn :=
    have hkeeps : w.Keeps (w.note n) := .of_eq rfl rfl
    ⟨hkeeps.toFollows.trans h.turn.toFollows, h.turn.prepared_eq, h.turn.freed_iff, h.turn.born,
      h.turn.prepared_live⟩
  present := h.present
  prepares := h.prepares

theorem Continues.of_keeps {todo : List Task} (hagenda : Agenda r todo)
    (hsound : w'.Sound (Operation.references ⟨r, todo, outcome⟩ ++ outside)
      (Operation.uncounted ⟨r, todo, outcome⟩ ++ uses))
    (hop : Operation.Sound w' ⟨r, todo, outcome⟩) (hkeeps : w.Keeps w') :
    Continues w outside uses r none w' ⟨r, todo, outcome⟩ where
  sound := hsound
  operation := hop
  request_eq := rfl
  turn := .of_keeps hkeeps hagenda.head_ne_freed
  present c _ hc := (hkeeps.present c (World.lt_size_of_present hc)).trans hc
  prepares := hagenda.not_mem_prepare

/-! ### Giving a reference up -/

/-- Only the object whose last reference is given up dies. -/
theorem World.Drops.dies_iff (h : w.Drops w' o) (p : ObjectRef) :
    0 < (w.object p).refs ∧ (w'.object p).refs = 0 ↔ o = p ∧ (w.object o).refs = 1 := by
  rw [h.refs_eq]
  split
  · next hp =>
    subst hp
    simp only [true_and]
    omega
  · next hp =>
    simp only [hp, false_and, iff_false]
    omega

theorem continues_drop (hop : Operation.Sound w ⟨r, .drop o :: rest, outcome⟩)
    (hagenda : Agenda r rest)
    (h : w.Sound (Operation.references ⟨r, .drop o :: rest, outcome⟩ ++ outside)
      (Operation.uncounted ⟨r, .drop o :: rest, outcome⟩ ++ uses)) :
    Continues w outside uses r none
      (Machine.carryOut w ⟨r, .drop o :: rest, outcome⟩ (.drop o) rest).1
      (Machine.carryOut w ⟨r, .drop o :: rest, outcome⟩ (.drop o) rest).2 := by
  have hlt := World.lt_size_of_refs (h.live_of_outside (o := o) (by
    simp [Operation.references, Task.references]))
  obtain ⟨w', dropped, hdrop, hsound, hdrops, hended⟩ := World.Sound.dropRef h
  have hop' : Operation.Sound w' ⟨r, rest, outcome⟩ :=
    (hop.of_subset (.agenda hagenda) hop.faultless fun t ht => List.mem_cons_of_mem _ ht).mono
      hdrops.follows
      fun c _ hc => by rwa [World.client_congr hdrops.clients_eq]
  have hpresent (c : ClientRef) (_ : r ≠ .dropClient c) (hc : (w.client c).present = true) :
      (w'.client c).present = true := by rwa [World.client_congr hdrops.clients_eq]
  -- what dies in this step is this object or none, whether the driver is told or not
  have hturn {told : Option HookCall} (htold : ∀ p, told = some ⟨.freed, p⟩ ↔
      o = p ∧ (w.object o).refs = 1 ∧ (w.object o).prepared = true) : Turn w w' none told := by
    refine ⟨hdrops.follows, fun p _ => by simp [hdrops.prepared_eq], fun p => ?_,
      fun p hp hge => absurd hp (Nat.not_lt.mpr (hdrops.size_eq ▸ hge)), fun p hp => ?_⟩
    · rw [htold, ← and_assoc, ← hdrops.dies_iff]
      constructor
      · rintro ⟨⟨hpos, hzero⟩, hprep⟩
        obtain ⟨rfl, -⟩ := (hdrops.dies_iff p).mp ⟨hpos, hzero⟩
        exact ⟨hlt, hpos, hzero, hprep⟩
      · rintro ⟨-, hpos, hzero, hprep⟩
        obtain ⟨rfl, -⟩ := (hdrops.dies_iff p).mp ⟨hpos, hzero⟩
        exact ⟨⟨hpos, hzero⟩, hprep⟩
    · cases hp
  simp only [Machine.carryOut, hdrop]
  cases dropped with
  | settled =>
    refine ⟨hsound, hop', rfl, hturn fun p => ?_, hpresent, hagenda.not_mem_prepare⟩
    refine iff_of_false (hagenda.head_ne_freed p) fun hp => ?_
    cases hended.mpr hp.2
  | ended =>
    obtain ⟨hone, hprep⟩ := hended.mp rfl
    refine ⟨hsound, ⟨.freed o hagenda, fun c hc => ?_, fun d p hp => ?_, fun c hc => ?_,
      fun p hp => ?_, hop.faultless⟩, rfl, hturn fun p => ?_, hpresent, ?_⟩
    · rcases hop.present c hc with hall | hc'
      · obtain ⟨d, hd⟩ := hall _ List.mem_cons_self
        cases hd
      · exact Or.inr (by rwa [World.client_congr hdrops.clients_eq])
    · exact hop'.uncounts d p (by simpa using hp)
    · exact hop'.closed c (by simpa using hc)
    · have hp : p = o := by simpa [hagenda.not_mem_tellFreed] using hp
      subst hp
      exact ⟨Nat.lt_of_lt_of_le hlt hdrops.follows.size_objects,
        ((hdrops.dies_iff p).mpr ⟨rfl, hone⟩).2⟩
    · simp [Operation.hook?, Task.hook?, hone, hprep]
    · intro p
      simpa using hagenda.not_mem_prepare p

/-! ### Uncounting a use -/

theorem continues_uncount {d : DeviceRef}
    (hop : Operation.Sound w ⟨r, .uncount d o :: .drop o :: rest, outcome⟩)
    (hagenda : Agenda r rest)
    (h : w.Sound (Operation.references ⟨r, .uncount d o :: .drop o :: rest, outcome⟩ ++ outside)
      (Operation.uncounted ⟨r, .uncount d o :: .drop o :: rest, outcome⟩ ++ uses))
    (huses : ∀ p, uses.count p ≤ outside.count p) (hbound : (w.object o).refs ≤ 2 ^ 63) :
    Continues w outside uses r none
      (Machine.carryOut w ⟨r, .uncount d o :: .drop o :: rest, outcome⟩ (.uncount d o)
        (.drop o :: rest)).1
      (Machine.carryOut w ⟨r, .uncount d o :: .drop o :: rest, outcome⟩ (.uncount d o)
        (.drop o :: rest)).2 := by
  obtain ⟨-, hhome, -⟩ := hop.uncounts d o List.mem_cons_self
  have hdue : Agenda r (.drop o :: rest) := .drop o hagenda
  -- a use that is still to be uncounted has a reference behind it, and references fit their word
  have hsmall : w.handlesTo o + (rest.flatMap Task.uncounted ++ uses).count o + 1 < 2 ^ 64 := by
    have href := h.counted.refs_eq o
    have := hagenda.count_uncounted_le o
    have := huses o
    simp only [Operation.references, List.flatMap_cons, Task.references, List.count_append,
      List.nil_append, List.cons_append, List.count_cons_self] at href ⊢
    omega
  have hmem :
      o ∈ Operation.references ⟨r, .uncount d o :: .drop o :: rest, outcome⟩ ++ outside := by
    simp [Operation.references, Task.references]
  have huse : w.Sound _ (o :: (rest.flatMap Task.uncounted ++ uses)) := h
  obtain ⟨w₁, ⟨huncount, hsound, hkeeps⟩ | ⟨huncount, w', hretire, hsound, hkeeps⟩⟩ :=
    huse.uncount hhome hmem hsmall
  · simp only [Machine.carryOut, huncount]
    refine .of_keeps hdue hsound ((hop.of_subset (.agenda hdue) hop.faultless fun t ht => ?_).keeps
      hkeeps) hkeeps
    exact List.mem_cons_of_mem _ ht
  · simp only [Machine.carryOut, huncount, hretire]
    refine .of_keeps hdue hsound ((hop.of_subset (.agenda hdue) hop.faultless fun t ht => ?_).keeps
      hkeeps) hkeeps
    exact List.mem_cons_of_mem _ ht

/-! ### Leaving -/

theorem continues_forget {c : ClientRef} (hr : r = .dropClient c)
    (hop : Operation.Sound w ⟨r, [.forgetClient c], outcome⟩)
    (h : w.Sound (Operation.references ⟨r, [.forgetClient c], outcome⟩ ++ outside) uses) :
    Continues w outside uses r none
      (Machine.carryOut w ⟨r, [.forgetClient c], outcome⟩ (.forgetClient c) []).1
      (Machine.carryOut w ⟨r, [.forgetClient c], outcome⟩ (.forgetClient c) []).2 := by
  obtain ⟨hsound, hfollows⟩ := h.forgetClient (hop.closed c List.mem_cons_self).2
  refine ⟨hsound, ⟨.agenda (.leave _), fun e he => Or.inl (by simp [Machine.carryOut]), ?_, ?_, ?_,
      hop.faultless⟩,
    rfl, ⟨hfollows, fun p _ => (Bool.or_false _).symm, fun p => ?_, fun p hp hge => ?_, nofun⟩,
    fun e hne he => ?_, ?_⟩
  any_goals simp [Machine.carryOut]; done
  · refine iff_of_false (by simp [Machine.carryOut, Operation.hook?, Task.hook?]) ?_
    rintro ⟨-, hlive, hdead, -⟩
    exact absurd hdead (Nat.ne_of_gt hlive)
  · exact absurd hp (Nat.not_lt.mpr hge)
  · simp only [Machine.carryOut]
    rw [World.client_updateClient]
    split
    · next heq =>
      obtain ⟨rfl, -⟩ := heq
      exact absurd hr hne
    · exact he

theorem continues_leave {d : DeviceRef} (hop : Operation.Sound w ⟨r, [.leaveDevice d], outcome⟩)
    (h : w.Sound (Operation.references ⟨r, [.leaveDevice d], outcome⟩ ++ outside) uses)
    (hkept : ∀ p ∈ uses, w.isKept (w.object p).home = true) :
    Continues w outside uses r none
      (Machine.carryOut w ⟨r, [.leaveDevice d], outcome⟩ (.leaveDevice d) []).1
      (Machine.carryOut w ⟨r, [.leaveDevice d], outcome⟩ (.leaveDevice d) []).2 := by
  obtain ⟨hnone, hsound, hkeeps⟩ := h.leaveDevice (d := d) hkept
  simp only [Machine.carryOut, hnone, List.map_nil, List.nil_append]
  exact .of_keeps .done hsound
    ((hop.of_subset (.agenda .done) hop.faultless (by simp)).keeps hkeeps) hkeeps

/-! ### Any task that does not wait -/

theorem Operation.Sound.continues {op : Operation} {task : Task} (hop : op.Sound w)
    (htodo : op.todo = task :: rest) (hhook : task.hook? = none)
    (h : w.Sound (op.references ++ outside) (op.uncounted ++ uses))
    (huses : ∀ p, uses.count p ≤ outside.count p) (hbound : ∀ p, (w.object p).refs ≤ 2 ^ 63)
    (hkept : ∀ p ∈ uses, w.isKept (w.object p).home = true) :
    Continues w outside uses op.request none (Machine.carryOut w op task rest).1
      (Machine.carryOut w op task rest).2 := by
  obtain ⟨r, todo, outcome⟩ := op
  dsimp only at htodo
  subst htodo
  cases hop.due with
  | agenda hagenda =>
    cases hagenda with
    | drop o hrest => exact continues_drop hop hrest h
    | uncount d o hc hrest => exact continues_uncount hop hrest h huses (hbound o)
    | close d o hc hrest => cases hhook
    | forget hr => exact continues_forget hr hop h
    | leave d => exact continues_leave hop h hkept
  | freed | prepare | opened => cases hhook

/-! ### Answers of the driver -/

/-- After a verdict on the preparation of an object its maker has the object, or gives it up. -/
theorem continues_prepare (hop : Operation.Sound w ⟨r, [.prepare o], .ok (.object o)⟩)
    (h : w.Sound (o :: outside) uses) (v : Verdict) :
    Continues w outside uses r (HookCall.preparedBy ⟨.prepare, o⟩ v)
      (Machine.conclude w ⟨r, [.prepare o], .ok (.object o)⟩ (.prepare o) [] v).1
      (Machine.conclude w ⟨r, [.prepare o], .ok (.object o)⟩ (.prepare o) [] v).2 := by
  have hlt := World.lt_size_of_refs (h.live_of_outside List.mem_cons_self)
  cases v with
  | accept =>
    have hobject (p : ObjectRef) :=
      World.object_updateObject w o p fun x => { x with prepared := true }
    have hfollows : w.Follows (w.updateObject o fun x => { x with prepared := true }) :=
      .updateObject w o (fun _ => rfl) fun _ hx => hx
    refine ⟨World.Sound.note _ (h.updateObject fun _ => ⟨true, rfl⟩),
      .of_nil _ _ nofun, rfl, ⟨hfollows.note _, fun p _ => ?_,
        fun p => ?_, fun p hp hge => ?_, fun p hp => ?_⟩, fun c _ hc => hc,
      by simp [Machine.conclude]⟩
    · simp only [Machine.conclude, World.object_note, hobject, hlt, and_true,
        HookCall.preparedBy, Option.some.injEq]
      by_cases hp : o = p <;> simp [hp]
    · refine iff_of_false (by simp [Machine.conclude, Operation.hook?]) ?_
      rintro ⟨-, hlive, hdead, -⟩
      simp only [Machine.conclude, World.object_note, hobject] at hdead
      split at hdead <;> exact absurd hdead (Nat.ne_of_gt hlive)
    · simp only [Machine.conclude, World.objects_note, World.size_objects_updateObject] at hp
      exact absurd hp (Nat.not_lt.mpr hge)
    · obtain rfl : o = p := Option.some.inj hp
      refine ⟨hlt, ?_⟩
      simp only [Machine.conclude, World.object_note, hobject]
      split <;> exact h.live_of_outside List.mem_cons_self
  | refuse e =>
    have hkeeps : w.Keeps (w.note (.objectNotPrepared (w.object o).id)) :=
      (World.Keeps.refl w).note _
    refine .of_keeps (.drop o .done) (h.note _) ⟨.agenda (.drop o .done), fun c hc => ?_, by simp,
      by simp, by simp, nofun⟩ hkeeps
    rcases hop.present c hc with hall | hpresent
    · obtain ⟨d, hd⟩ := hall _ List.mem_cons_self
      cases hd
    · exact Or.inr hpresent

/-- A handle that the driver refuses is taken out again, if it has not gone in the meantime, and
what comes out is closed without the driver. -/
theorem continues_refused {c : ClientRef} {hd : Handle} (hc : r.client? = some c)
    (hpresent : (w.client c).present = true) (hagenda : Agenda r rest)
    (hop : Operation.Sound w ⟨r, rest, outcome⟩) (hnone : Machine.handedOver outcome = none)
    (h : w.Sound (rest.flatMap Task.references ++ outside) (rest.flatMap Task.uncounted ++ uses)) :
    Continues w outside uses r none (Machine.undoHandle w ⟨r, rest, outcome⟩ c hd).1
      (Machine.undoHandle w ⟨r, rest, outcome⟩ c hd).2 := by
  unfold Machine.undoHandle
  rcases htake : w.takeHandle c hd with ⟨w', _ | ⟨o, freed⟩⟩
  · obtain ⟨rfl, -⟩ := World.of_takeHandle_none htake
    refine .of_keeps hagenda ?_ hop (.refl _)
    simpa [Operation.references, Operation.uncounted, hnone] using h
  · obtain ⟨rfl, hlook, hsound, hkeeps⟩ := h.takeHandle htake
    have hltc := World.lt_size_of_present hpresent
    obtain ⟨hlt, hhome⟩ := h.clients.item_home c o (h.clients.mem_items hlook)
    have hop' := hop.keeps hkeeps
    have hdue : Agenda r (.uncount (w'.client c).device o :: .drop o :: rest) :=
      .uncount _ o hc hagenda
    refine .of_keeps hdue ?_ ⟨.agenda hdue, fun e he => ?_, fun d p hp => ?_, fun e he => ?_,
      fun p hp => ?_, hop.faultless⟩ hkeeps
    · simpa [Operation.references, Operation.uncounted, Task.references, Task.uncounted, hnone]
        using hsound
    · obtain rfl : c = e := Option.some.inj (hc.symm.trans he)
      exact Or.inr ((hkeeps.present c hltc).trans hpresent)
    · rcases List.mem_cons.mp hp with heq | hin
      · obtain ⟨rfl, rfl⟩ : d = (w'.client c).device ∧ p = o := by simpa using heq
        exact ⟨Nat.lt_of_lt_of_le hlt hkeeps.size_objects,
          (hkeeps.home p hlt).trans (hhome.trans (hkeeps.device c hltc).symm), c, hc,
          Nat.lt_of_lt_of_le hltc hkeeps.size_clients, rfl⟩
      · exact hop'.uncounts d p (by simpa using hin)
    · exact hop'.closed e (by simpa using he)
    · exact hop'.freed p (by simpa using hp)

theorem Operation.Sound.concludes {op : Operation} {task : Task} {call : HookCall}
    (hop : op.Sound w) (htodo : op.todo = task :: rest) (hhook : task.hook? = some call)
    (h : w.Sound (op.references ++ outside) (op.uncounted ++ uses)) (v : Verdict) :
    Continues w outside uses op.request (call.preparedBy v) (Machine.conclude w op task rest v).1
      (Machine.conclude w op task rest v).2 := by
  obtain ⟨r, todo, outcome⟩ := op
  dsimp only at htodo
  subst htodo
  have hgoes {outcome' : Outcome RequestError Reply} (houtcome : ∀ f, outcome' ≠ .fault f)
      (hagenda : Agenda r rest) : Operation.Sound w ⟨r, rest, outcome'⟩ :=
    hop.of_subset (.agenda hagenda) houtcome fun t ht => List.mem_cons_of_mem _ ht
  -- what is due says which hook this is and what is left behind it
  cases hop.due with
  | agenda hagenda =>
    cases hagenda with
    | close d o hc hagenda =>
      cases hhook
      have hagenda := Agenda.uncount d o hc hagenda
      exact .of_keeps hagenda h (hgoes hop.faultless hagenda) (.refl w)
    | drop | uncount | forget | leave => cases hhook
  | freed o hagenda =>
    cases hhook
    exact .of_keeps hagenda h (hgoes hop.faultless hagenda) (.refl w)
  | prepare o =>
    cases hhook
    exact continues_prepare hop h v
  | @opened _ _ c hd o hc hafter hnone =>
    cases hhook
    have hagenda := hop.due.tail (by simp) (by simp)
    have hsound : w.Sound (rest.flatMap Task.references ++ outside)
        (rest.flatMap Task.uncounted ++ uses) := by
      simpa [Operation.references, Operation.uncounted, Task.references, Task.uncounted, hnone]
        using h
    have hpresent : (w.client c).present = true := by
      rcases hop.present c hc with hall | hpresent
      · obtain ⟨d, hd⟩ := hall _ List.mem_cons_self
        cases hd
      · exact hpresent
    cases v with
    | accept =>
      have hkeeps : w.Keeps (w.note (.handleCreated hd)) := (World.Keeps.refl w).note _
      refine .of_keeps hagenda (World.Sound.note _ ?_) ((hgoes hop.faultless hagenda).keeps hkeeps)
        hkeeps
      simpa [Operation.references, Operation.uncounted, hnone] using hsound
    | refuse e =>
      have hkeeps : w.Keeps (w.note (.handleRefused hd)) := (World.Keeps.refl w).note _
      have hrefused : Operation.Sound w ⟨r, rest, .error e⟩ := hgoes (by simp) hagenda
      exact .of_note (continues_refused (w := w.note (.handleRefused hd)) hc hpresent hagenda
        (hrefused.keeps hkeeps) rfl (hsound.note _))

end BufferObjects
