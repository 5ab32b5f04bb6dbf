import BufferObjects.Proofs.World.Restoring

/-!
Publishing and retiring names. Both move the object's field and the table of its device together:
publishing adds the entry and its reference at once, and retiring takes both away. Retiring never
finds the table without the entry, nor the entry without another reference beside it, as long as
someone outside holds the object.
-/

namespace BufferObjects.World

variable {w w' : World} {outside uses : List ObjectRef}

/-! ### Names that change -/

/-- An object has another name, or none, and another number of references; the names of its device
have changed with it. -/
structure Renames (w w' : World) (o : ObjectRef) (names : NumberedTable ObjectRef)
    (name : Option Name) (refs : Nat) : Prop where
  object_eq : ∀ p, w'.object p = if o = p then { w.object p with refs, name } else w.object p
  device_eq : ∀ e, w'.device e =
    if (w.object o).home = e then { w.device e with names } else w.device e
  clients_eq : w'.clients = w.clients
  size_objects : w'.objects.size = w.objects.size
  size_devices : w'.devices.size = w.devices.size

namespace Renames

variable {o : ObjectRef} {names : NumberedTable ObjectRef} {name : Option Name} {refs : Nat}

theorem name_eq (h : w.Renames w' o names name refs) (p : ObjectRef) :
    (w'.object p).name = if o = p then name else (w.object p).name := by
  rw [h.object_eq]
  split <;> rfl

theorem home_eq (h : w.Renames w' o names name refs) (p : ObjectRef) :
    (w'.object p).home = (w.object p).home := by
  rw [h.object_eq]
  split <;> rfl

theorem alive_eq (h : w.Renames w' o names name refs) (e : DeviceRef) :
    (w'.device e).alive = (w.device e).alive := by
  rw [h.device_eq]
  split <;> rfl

theorem keeps (h : w.Renames w' o names name refs) (hold : 0 < (w.object o).refs)
    (hnew : 0 < refs) : w.Keeps w' := by
  refine .of_objects h.clients_eq h.size_objects fun p => ?_
  rw [h.object_eq]
  split
  · next hp =>
    subst hp
    exact ⟨rfl, rfl, iff_of_true hnew hold⟩
  · exact ⟨rfl, rfl, Iff.rfl⟩

/-- The names are in order again if the new table leads to what carries a name now. -/
theorem namesSound (h : w.Renames w' o names name refs) (hsound : w.NamesSound)
    (halive : (w.device (w.object o).home).alive = true) (hnames : names.WellFormed firstName)
    (hleads : Leads names.find? (fun p => (w.object p).home)
      (fun p => if o = p then name else (w.object p).name) (w.object o).home) :
    w'.NamesSound where
  wellFormed e he := by
    rw [h.alive_eq] at he
    rw [h.device_eq]
    split
    · exact hnames
    · exact hsound.wellFormed e he
  find?_iff e m p he := by
    rw [h.alive_eq] at he
    rw [h.device_eq, h.home_eq, h.name_eq]
    split
    · next heq =>
      subst heq
      exact hleads m p
    · next haway =>
      exact (hsound.leads he).elsewhere haway (fun q hq => if_neg hq) m p
  alive p hp := by
    rw [h.name_eq] at hp
    rw [h.home_eq, h.alive_eq]
    split at hp
    · next heq =>
      subst heq
      exact halive
    · exact hsound.alive p hp

/-- Everything is in order again if the name's reference has come or gone with the name. -/
theorem consistent (h : w.Renames w' o names name refs) (hcons : w.Consistent outside uses)
    (hnames : w'.NamesSound) (hlive : 0 < refs)
    (hrefs : refs + (w.object o).nameRefs = (w.object o).refs + if name.isSome then 1 else 0) :
    w'.Consistent outside uses where
  counted :=
    { refs_eq := fun p => by
        have href := hcons.counted.refs_eq p
        rw [handlesTo_congr h.clients_eq, h.object_eq]
        split
        · next hp =>
          subst hp
          change refs = w.handlesTo o + (if name.isSome then 1 else 0) + outside.count o
          omega
        · exact href
      uses_eq := fun p => by
        rw [handlesTo_congr h.clients_eq, h.object_eq, ← hcons.counted.uses_eq p]
        split <;> rfl }
  clients := hcons.clients.frame h.clients_eq (Nat.le_of_eq h.size_objects.symm) fun p _ =>
    h.home_eq p
  kept := hcons.kept.frame h.clients_eq fun e => by
    rw [h.device_eq]
    split <;> exact ⟨id, id⟩
  names := hnames
  tokens := hcons.tokens.frame (Nat.le_of_eq h.size_devices.symm)
    (fun e => by rw [h.device_eq]; split <;> exact ⟨rfl, rfl⟩)
    (fun p => by rw [h.object_eq]; split <;> rfl) (fun p _ => h.home_eq p)
    fun p hp => by
      rw [h.object_eq]
      split
      · exact hlive
      · exact hp

end Renames

/-! ### Publishing -/

/-- A use count that is not zero counts something. -/
theorem Counted.pos_of_value_ne (h : w.Counted outside uses) {o : ObjectRef}
    (hne : (w.object o).handles.value ≠ 0) : 0 < w.handlesTo o + uses.count o := by
  rw [h.uses_eq] at hne
  rcases Nat.eq_zero_or_pos (w.handlesTo o + uses.count o) with hzero | hpos
  · rw [hzero] at hne
    exact absurd rfl hne
  · exact hpos

/-- An object with a handle gets a name unless it has one. -/
theorem of_publishName_ok {d : DeviceRef} {o : ObjectRef} {n : Name}
    (hpublish : w.publishName d o = (w', .ok n)) : (w.object o).handles.value ≠ 0 ∧
      ((w.object o).name = some n ∧ w' = w ∨
        (w.object o).name = none ∧ ∃ names', (w.device d).names.issue o w.memory = (names', .ok n) ∧
          w' = (((w.setNames d names').retain o).setName o (some n)).note (.namePublished n)) := by
  unfold publishName at hpublish
  dsimp only at hpublish
  split at hpublish
  · simp at hpublish
  · next hused =>
    refine ⟨hused, ?_⟩
    split at hpublish
    · next hname =>
      cases hpublish
      exact Or.inl ⟨hname, rfl⟩
    · next hname =>
      split at hpublish
      · next names' n' hissue =>
        cases hpublish
        exact Or.inr ⟨hname, names', hissue, rfl⟩
      · next names' e _ =>
        cases e.outcome_ne_ok n (congrArg Prod.snd hpublish)

/-- A refusal to publish leaves a world that nobody can tell from the one before, and nothing
breaks. -/
theorem of_publishName_failed {d : DeviceRef} {o : ObjectRef} {failed : Outcome RequestError Name}
    (hwf : (w.device d).names.WellFormed firstName) (hpublish : w.publishName d o = (w', failed))
    (hfailed : ∀ n, failed ≠ .ok n) : w.Restores w' ∧ ∀ f, failed ≠ .fault f := by
  unfold publishName at hpublish
  dsimp only at hpublish
  split at hpublish
  · cases hpublish
    exact ⟨.note w _, nofun⟩
  · split at hpublish
    · cases hpublish
      exact absurd rfl (hfailed _)
    · split at hpublish
      · cases hpublish
        exact absurd rfl (hfailed _)
      · next names' e hissue =>
        obtain ⟨cause, hcause, -⟩ := hwf.outcome_of_issue_error (β := Name) hissue
        cases hpublish
        exact ⟨(Restores.setNames (hwf.of_issue_error hissue)).trans (.noteAll _ _),
          by rw [hcause]; nofun⟩

/-- A name and its own reference come together. -/
theorem renames_of_publish {o : ObjectRef} (hlive : 0 < (w.object o).refs)
    (halive : (w.device (w.object o).home).alive = true) (names' : NumberedTable ObjectRef)
    (n : Name) : w.Renames
      (((w.setNames (w.object o).home names').retain o).setName o (some n)) o names' (some n)
      ((w.object o).refs + 1) := by
  refine ⟨fun p => ?_, fun e => ?_, rfl, by simp [setName, World.retain, setNames],
    by simp [setName, World.retain, setNames]⟩
  · simp only [setName, World.retain, setNames, object_updateObject, objects_updateDevice,
      size_objects_updateObject, object_updateDevice]
    by_cases hp : o = p
    · subst hp
      simp [lt_size_of_refs hlive]
    · simp [hp]
  · simp only [setName, World.retain, setNames, device_updateObject, device_updateDevice,
      lt_size_of_alive halive, and_true]

theorem Sound.publishName (h : w.Sound outside uses) {d : DeviceRef} {o : ObjectRef}
    (hlive : 0 < (w.object o).refs) (hhome : (w.object o).home = d)
    (halive : (w.device d).alive = true) :
    (w.publishName d o).1.Sound outside uses ∧ w.Keeps (w.publishName d o).1 ∧
      ∀ f, (w.publishName d o).2 ≠ .fault f := by
  subst hhome
  rcases hpublish : w.publishName (w.object o).home o with ⟨w', outcome⟩
  by_cases hok : ∃ n, outcome = .ok n
  case neg =>
    obtain ⟨hrestores, hunbroken⟩ := of_publishName_failed (h.names.wellFormed _ halive) hpublish
      fun n hn => hok ⟨n, hn⟩
    exact ⟨hrestores.sound h, hrestores.keeps, hunbroken⟩
  obtain ⟨n, rfl⟩ := hok
  refine and_assoc.mp ⟨?_, nofun⟩
  obtain ⟨hused, ⟨-, rfl⟩ | ⟨hnone, names', hissue, rfl⟩⟩ := of_publishName_ok hpublish
  · exact ⟨h, .refl w'⟩
  obtain ⟨hwf, hissues⟩ := (h.names.wellFormed _ halive).of_issue hissue
  have hrenames := renames_of_publish hlive halive names' n
  have hnames := hrenames.namesSound h.names halive hwf <|
    (h.names.leads halive).enter rfl hnone hissues.wasFree hissues.find?_eq fun _ => rfl
  have hrefs : (w.object o).refs + 1 + (w.object o).nameRefs = (w.object o).refs + 1 := by
    rw [BufferObject.nameRefs, hnone]
    rfl
  refine ⟨Sound.note _ ⟨hrenames.consistent h.toConsistent hnames (Nat.succ_pos _) hrefs,
    fun p hp => ?_⟩, Keeps.note _ (hrenames.keeps hlive (Nat.succ_pos _))⟩
  rw [handlesTo_congr hrenames.clients_eq]
  rw [hrenames.name_eq] at hp
  split at hp
  · next heq =>
    subst heq
    exact h.counted.pos_of_value_ne hused
  · exact h.named_used p hp

/-! ### Retiring -/

/-- Only the name of an object has gone, and one reference to it. -/
structure Retires (w w' : World) (o : ObjectRef) : Prop where
  keeps : w.Keeps w'
  clients_eq : w'.clients = w.clients
  name_eq : ∀ p, (w'.object p).name = if o = p then none else (w.object p).name

/-- The name of an object that someone outside holds can be retired, and nothing else happens. -/
theorem Consistent.retireName (h : w.Consistent outside uses) {d : DeviceRef} {o : ObjectRef}
    (hhome : (w.object o).home = d) (ho : (w.object o).name.isSome = true → o ∈ outside) :
    ∃ w', w.retireName d o = (w', .ok ()) ∧ w'.Consistent outside uses ∧ w.Retires w' o := by
  subst hhome
  cases hname : (w.object o).name with
  | none =>
    refine ⟨w, by simp [World.retireName, hname], h, .refl w, rfl, fun p => ?_⟩
    split
    · next hp => rw [← hp, hname]
    · rfl
  | some n =>
    have hsome : (w.object o).name.isSome = true := by simp [hname]
    have halive := h.names.alive o hsome
    have hlt := lt_size_of_refs (h.live_of_name hsome)
    have hfind := (h.names.find?_iff _ n o halive).mpr ⟨rfl, hname⟩
    obtain ⟨entries', ids', hrem, hfree, hwf, hwith⟩ :=
      (h.names.wellFormed _ halive).exists_parts hfind
    -- the reference outside is not the name's, so that of the name is not the last
    have hrefs : 1 < (w.object o).refs := by
      have hpos := List.count_pos_iff.mpr (ho hsome)
      have href := h.counted.refs_eq o
      rw [BufferObject.nameRefs, if_pos hsome] at href
      omega
    let w' : World :=
      (((w.setName o none).setNames (w.object o).home ⟨entries', ids'⟩).note
        (.nameRetired (w.object o).id)).updateObject o fun x => { x with refs := x.refs - 1 }
    have hrenames : w.Renames w' o ⟨entries', ids'⟩ none ((w.object o).refs - 1) := by
      refine ⟨fun p => ?_, fun e => ?_, rfl, by simp [w', setName, setNames],
        by simp [w', setName, setNames]⟩
      · simp only [w', setName, setNames, object_updateObject, objects_note, objects_updateDevice,
          object_note, object_updateDevice, size_objects_updateObject, hlt, and_true]
        split
        · next hp =>
          subst hp
          rfl
        · rfl
      · simp only [w', setName, setNames, device_updateObject, device_note, device_updateDevice,
          devices_updateObject, lt_size_of_alive halive, and_true]
    have hnames := hrenames.namesSound h.names halive hwf <|
      (h.names.leads halive).leave rfl hname hwith.find?_eq fun _ => rfl
    have hback : (w.object o).refs - 1 + (w.object o).nameRefs = (w.object o).refs + 0 := by
      rw [BufferObject.nameRefs, if_pos hsome]
      omega
    have hpos : 0 < (w.object o).refs - 1 := Nat.sub_pos_of_lt hrefs
    refine ⟨w', ?_, hrenames.consistent h hnames hpos hback,
      hrenames.keeps (Nat.lt_of_succ_lt hrefs) hpos, rfl, hrenames.name_eq⟩
    have hread : ((w.setName o none).setNames (w.object o).home ⟨entries', ids'⟩).object o =
        { w.object o with name := none } := by
      simp [setName, setNames, object_updateObject, hlt]
    simp only [World.retireName, hname]
    rw [show (w.setName o none).device (w.object o).home = w.device (w.object o).home from rfl,
      hfree]
    dsimp only
    rw [hrem]
    dsimp only
    rw [hread, if_pos hrefs]

end BufferObjects.World
