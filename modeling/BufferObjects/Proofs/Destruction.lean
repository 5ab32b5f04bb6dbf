import BufferObjects.Proofs.Machine.Trace

/-!
The end of an object. Its driver is told of it once, at the moment when the last reference goes, and
only if the driver had prepared the object; from then on nobody holds the object and nothing leads
to it. Names cannot keep an object for ever, because they go with the last handle: once callers and
clients have given up everything, every prepared object has ended.
-/

namespace BufferObjects.Machine

variable {m m' : Machine} {moves : List Move} {o : ObjectRef}

/-- Nobody holds an object and nothing leads to it. -/
structure Gone (m : Machine) (o : ObjectRef) : Prop where
  unheld : o ∉ m.held
  unpending : o ∉ m.operations.flatMap Operation.references
  unhandled : ∀ c h, m.world.lookupHandle c h ≠ .ok o
  unnamed : ∀ d n, (m.world.device d).alive = true → m.world.resolveName d n ≠ .ok o
  untokened : ∀ d t, (m.world.device d).alive = true →
    (m.world.device d).tokens.entries.find? t ≠ some o
  unmapped : ∀ d a, (m.world.objectAtAddress d a).2 ≠ .ok o

/-- Whether callers and clients have given up everything. -/
def isDeserted (m : Machine) : Bool :=
  m.operations.isEmpty && m.held.isEmpty && m.world.clients.all fun c => !c.present

theorem Sound.gone (h : m.Sound) (hdead : (m.world.object o).refs = 0) : m.Gone o := by
  have hlive : ¬ 0 < (m.world.object o).refs := Nat.not_lt.mpr (Nat.le_of_eq hdead)
  refine ⟨fun ho => ?_, fun ho => ?_, fun c hd hlook => ?_, fun d n halive hres => ?_,
    fun d t halive hfind => ?_, fun d a hfound => ?_⟩
  · exact hlive (h.world.live_of_outside (List.mem_append_right _ ho))
  · exact hlive (h.world.live_of_outside (List.mem_append_left _ ho))
  · exact hlive (h.world.live_of_item (h.world.clients.mem_items hlook))
  · exact hlive (Request.live_of_resolveName h.world halive hres)
  · obtain ⟨hhome, htoken⟩ := (h.world.tokens.find?_iff d t o halive).mp hfind
    exact hlive (h.world.tokens.live o (by rw [htoken]; rfl) (by rwa [hhome]))
  · rcases Request.objectAtAddress_spec m.world d a with ⟨p, hspec, hpos⟩ | ⟨ns, e, hspec⟩
    · rw [hspec] at hfound
      obtain rfl : p = o := Except.ok.inj hfound
      exact hlive hpos
    · rw [hspec] at hfound
      cases hfound

/-- Where everything has been given up, nothing lives: without clients there are no handles, and
without handles no names. -/
theorem Sound.dead_of_isDeserted (h : m.Sound) (hover : m.isDeserted = true) (o : ObjectRef) :
    (m.world.object o).refs = 0 := by
  simp only [isDeserted, Bool.and_eq_true, List.isEmpty_iff] at hover
  obtain ⟨⟨hops, hheld⟩, hclients⟩ := hover
  have hhandles : m.world.handlesTo o = 0 := by
    refine Nat.eq_zero_of_not_pos fun hpos => ?_
    obtain ⟨c, hc⟩ := World.handlesTo_pos_iff.mp hpos
    have hpresent := h.world.clients.present_of_item hc
    have hlt := World.lt_size_of_present hpresent
    rw [Array.all_eq_true] at hclients
    have habsent := hclients c hlt
    simp only [World.client, Array.getD_eq_getD_getElem?, Array.getElem?_eq_getElem hlt,
      Option.getD_some] at hpresent
    simp [hpresent] at habsent
  -- a name would need a handle, in a table or in the hands of an operation
  have hname : (m.world.object o).name.isSome = false := by
    rw [Bool.eq_false_iff]
    intro hsome
    have hused := h.world.named_used o hsome
    simp [hhandles, uses, hops] at hused
  have href := h.world.counted.refs_eq o
  rw [hhandles, BufferObject.nameRefs, hname, outside, hops, hheld] at href
  exact href

/-- An answer about an object is followed by no other answer. -/
theorem eq_of_asked {t : List Event} (h : (t.flatMap Event.asked).Nodup) {e e' : Event}
    (he : e ∈ t) (he' : e' ∈ t) (ho : o ∈ e.asked) (ho' : o ∈ e'.asked) : e = e' := by
  induction t with
  | nil => cases he
  | cons x t ih =>
    rw [List.flatMap_cons, List.nodup_append] at h
    obtain ⟨-, htail, hdisjoint⟩ := h
    have hapart {e : Event} (he : e ∈ t) (hx : o ∈ x.asked) : o ∉ e.asked := fun ho =>
      hdisjoint o hx o (List.mem_flatMap.mpr ⟨e, he, ho⟩) rfl
    -- two different answers about one object would occur in its list twice
    rcases List.mem_cons.mp he with rfl | hin <;> rcases List.mem_cons.mp he' with rfl | hin'
    · rfl
    · exact absurd ho' (hapart hin' ho)
    · exact absurd ho (hapart hin ho')
    · exact ih htail hin hin'

/-- Throughout an orderly run: the driver is told of an object's end at most once, only after it had
prepared the object, and then nobody holds the object and nothing leads to it any more; whatever
move takes the last reference to a prepared object leads straight to that hook; an object whose
preparation was refused is never told of; and once everything is given up, each prepared object has
been told of exactly once. -/
theorem ends_of_orderlyRun (hrun : empty.orderlyRun? moves = some m) (o : ObjectRef) :
    (empty.trace moves).count (.told ⟨.freed, o⟩) ≤ 1 ∧
    (.told ⟨.freed, o⟩ ∈ empty.trace moves →
      .answered ⟨.prepare, o⟩ .accept ∈ empty.trace moves ∧ m.Gone o) ∧
    (∀ x m', m.orderlyMove? x = some m' → .answered ⟨.prepare, o⟩ .accept ∈ empty.trace moves →
      0 < (m.world.object o).refs → (m'.world.object o).refs = 0 →
      m'.hook? = some ⟨.freed, o⟩ ∧ .told ⟨.freed, o⟩ ∈ m.events x m') ∧
    (∀ e, .answered ⟨.prepare, o⟩ (.refuse e) ∈ empty.trace moves →
      .told ⟨.freed, o⟩ ∉ empty.trace moves) ∧
    (m.isDeserted = true → .answered ⟨.prepare, o⟩ .accept ∈ empty.trace moves →
      (empty.trace moves).count (.told ⟨.freed, o⟩) = 1) := by
  have h := Chronicle.of_run hrun
  have hcount := h.count_freed o
  have htold : .told ⟨.freed, o⟩ ∈ empty.trace moves →
      (m.world.object o).prepared = true ∧ (m.world.object o).refs = 0 := by
    intro hin
    have hpos := List.count_pos_iff.mpr hin
    rw [hcount] at hpos
    split at hpos
    · assumption
    · cases hpos
  refine ⟨?_, fun hin => ?_, fun x m' hmove hprep hlive hdead => ?_, fun e hrefused hin => ?_,
    fun hover hprep => ?_⟩
  · rw [hcount]
    split <;> simp
  · obtain ⟨hprep, hdead⟩ := htold hin
    exact ⟨(h.prepared_iff o).mpr hprep, h.sound.gone hdead⟩
  · have hfreed := ((h.sound.turn hmove).freed_iff o).mpr
      ⟨World.lt_size_of_refs hlive, hlive, hdead, (h.prepared_iff o).mp hprep⟩
    refine ⟨?_, ?_⟩
    · cases x with
      | finish | memory => cases hfreed
      | _ => exact hfreed
    · rw [events, List.mem_append]
      exact Or.inr (by simp [hfreed])
  · -- an acceptance beside the refusal would be a second answer about the object
    have haccepted := (h.prepared_iff o).mpr (htold hin).1
    have hnodup := (List.nodup_append.mp h.asked_nodup).1
    have heq := eq_of_asked (o := o) hnodup haccepted hrefused (by simp [Event.asked])
      (by simp [Event.asked])
    cases heq
  · rw [hcount, if_pos ⟨(h.prepared_iff o).mp hprep, h.sound.dead_of_isDeserted hover o⟩]

/-- An object is opened and let go of by its caller; it ends when its handle is deleted, inside that
call, and its driver is told before the client goes. -/
theorem ends_of_orderlyRun_deleted :
    let moves := opening ++
      [.call (.createHandle 0 0), .answer .accept, .finish, .call (.dropObject 0), .work, .finish,
        .call (.deleteHandle 0 1), .answer .accept, .work, .work, .answer .accept, .finish,
        .call (.dropClient 0), .work, .work, .finish]
    (empty.trace moves).count (.told ⟨.freed, 0⟩) = 1 := by
  intro moves
  have hread : (empty.orderlyRun? moves).map isDeserted = some true := by decide +kernel
  obtain ⟨m, hrun, hover⟩ := Option.map_eq_some_iff.mp hread
  obtain ⟨-, -, -, -, hend⟩ := ends_of_orderlyRun hrun 0
  exact hend hover (by decide +kernel)

end BufferObjects.Machine
