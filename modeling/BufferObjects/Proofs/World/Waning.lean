import BufferObjects.Proofs.CanonicalForm
import BufferObjects.Proofs.World.Fixtures
import BufferObjects.Proofs.World.Marks

/-!
Worlds that wane. To give up what has been taken out of a table only ever takes away: objects lose
references and uses, an object loses its name when no use is left and its token when no reference
is, and tables lose entries. What an object still has it has had before. So of two sound worlds that
one world has waned to, with the same handles left and the same references outside, nobody can tell
which way was taken.
-/

namespace BufferObjects

/-- An object has lost some of what it had; `homed` tells whether its device is there. -/
structure BufferObject.Wanes (x x' : BufferObject) (homed : Bool) : Prop where
  eq : x' = { x with refs := x'.refs, handles := x'.handles, name := x'.name, token := x'.token }
  refs_le : x'.refs ≤ x.refs
  unused : x.handles.value = 0 → x'.handles.value = 0
  name_eq : x'.name = x.name ∨ x'.name = none ∧ x'.handles.value = 0
  token_eq : x'.token = x.token ∨ x'.token = none ∧ x'.refs = 0 ∧ homed = true

theorem BufferObject.Wanes.refl (x : BufferObject) (homed : Bool) : x.Wanes x homed :=
  ⟨rfl, Nat.le_refl _, fun h => h, Or.inl rfl, Or.inl rfl⟩

theorem BufferObject.Wanes.trans {x x' x'' : BufferObject} {homed : Bool} (h : x.Wanes x' homed)
    (h' : x'.Wanes x'' homed) : x.Wanes x'' homed where
  eq := by
    have hmiddle := h.eq
    have hlast := h'.eq
    rw [hmiddle] at hlast
    exact hlast
  refs_le := Nat.le_trans h'.refs_le h.refs_le
  unused hzero := h'.unused (h.unused hzero)
  name_eq := by
    rcases h'.name_eq with hsame | hgone
    · rcases h.name_eq with hsame' | ⟨hnone, hzero⟩
      · exact Or.inl (hsame.trans hsame')
      · exact Or.inr ⟨hsame.trans hnone, h'.unused hzero⟩
    · exact Or.inr hgone
  token_eq := by
    rcases h'.token_eq with hsame | hgone
    · rcases h.token_eq with hsame' | ⟨hnone, hzero, hhomed⟩
      · exact Or.inl (hsame.trans hsame')
      · exact Or.inr ⟨hsame.trans hnone, Nat.le_zero.mp (hzero ▸ h'.refs_le), hhomed⟩
    · exact Or.inr hgone

/-- A device has lost entries of its tables, if anything. -/
structure Device.Wanes (x x' : Device) : Prop where
  eq : x' = { x with names := x'.names, tokens := x'.tokens }
  order_names : x'.names.entries.order = x.names.entries.order
  order_tokens : x'.tokens.entries.order = x.tokens.entries.order
  range_eq : x'.tokens.source.range = x.tokens.source.range

theorem Device.Wanes.refl (x : Device) : x.Wanes x := ⟨rfl, rfl, rfl, rfl⟩

theorem Device.Wanes.trans {x x' x'' : Device} (h : x.Wanes x') (h' : x'.Wanes x'') :
    x.Wanes x'' where
  eq := by
    have hmiddle := h.eq
    have hlast := h'.eq
    rw [hmiddle] at hlast
    exact hlast
  order_names := h'.order_names.trans h.order_names
  order_tokens := h'.order_tokens.trans h.order_tokens
  range_eq := h'.range_eq.trans h.range_eq

/-- The same entries, and the same ids in use. -/
structure NumberedTable.Agrees {α : Type} (t t' : NumberedTable α) : Prop where
  entries_eq : t'.entries = t.entries
  ids : t.ids.Agrees t'.ids

/-- The same tokens are in use. -/
structure TokenTable.Agrees (t t' : TokenTable) : Prop where
  entries_eq : t'.entries = t.entries
  range_eq : t'.source.range = t.source.range
  ids : ∀ ids ids', t.source = .dense ids → t'.source = .dense ids' → ids.Agrees ids'

theorem KeyTable.order_of_remove {α : Type} {t t' : KeyTable α} {key : UInt64} {item : α}
    (h : t.remove key = .ok (item, t')) : t'.order = t.order := by
  unfold remove at h
  split at h <;> cases h
  rfl

theorem TokenTable.entries_of_freeId {t t' : TokenTable} {token : Token}
    (h : t.freeId token = .ok t') : t'.entries = t.entries := by
  unfold freeId at h
  split at h
  · obtain ⟨ids', -, rfl⟩ := of_map_eq_ok h
    rfl
  · cases h
    rfl

/-- Two tables of one order that lead to the same items agree. -/
theorem NumberedTable.WellFormed.agrees {α : Type} {t t' : NumberedTable α} {first : UInt32}
    (h : t.WellFormed first) (h' : t'.WellFormed first)
    (horder : t'.entries.order = t.entries.order) (hfind : ∀ id, t'.find? id = t.find? id) :
    t.Agrees t' := by
  -- every key is an id
  have hkey (key : UInt64) : t'.entries.find? key = t.entries.find? key := by
    refine Option.ext fun item => ⟨fun hitem => ?_, fun hitem => ?_⟩
    · obtain ⟨id, rfl, -⟩ := (h'.numbered.isSome_find?_iff key).mp (by rw [hitem]; rfl)
      exact (hfind id).symm.trans hitem
    · obtain ⟨id, rfl, -⟩ := (h.numbered.isSome_find?_iff key).mp (by rw [hitem]; rfl)
      exact (hfind id).trans hitem
  have hentries := h'.numbered.table.ext h.numbered.table horder hkey
  refine ⟨hentries, h'.first_eq.trans h.first_eq.symm, h'.last_eq.trans h.last_eq.symm,
    fun id => ?_⟩
  rw [← h'.numbered.isSome_find?_toUInt64, ← h.numbered.isSome_find?_toUInt64, hentries]

theorem TokenTable.WellFormed.agrees {t t' : TokenTable} (h : t.WellFormed) (h' : t'.WellFormed)
    (horder : t'.entries.order = t.entries.order) (hrange : t'.source.range = t.source.range)
    (hfind : ∀ token, t'.entries.find? token = t.entries.find? token) : t.Agrees t' := by
  have hentries := h'.table.ext h.table horder hfind
  refine ⟨hentries, hrange, fun ids ids' hids hids' => ?_⟩
  have hnumbered := h.numbered ids hids
  have hnumbered' := h'.numbered ids' hids'
  rw [hids, hids'] at hrange
  obtain ⟨hfirst, hlast⟩ := TokenRange.dense.inj hrange
  refine ⟨hfirst, hlast, fun id => ?_⟩
  rw [← hnumbered'.isSome_find?_toUInt64, ← hnumbered.isSome_find?_toUInt64, hentries]

namespace World

/-- Objects and devices have lost some of what they had. -/
structure Wanes (w w' : World) : Prop where
  size_objects : w'.objects.size = w.objects.size
  size_devices : w'.devices.size = w.devices.size
  object : ∀ o, (w.object o).Wanes (w'.object o) (w.device (w.object o).home).alive
  device : ∀ d, (w.device d).Wanes (w'.device d)

/-- Nobody can tell the worlds apart. The same clients have the same handles, objects are the same,
and devices have the same entries and ids in use, as long as they are there. -/
structure Alike (w w' : World) : Prop where
  clients_eq : w'.clients = w.clients
  objects_eq : w'.objects = w.objects
  size_devices : w'.devices.size = w.devices.size
  device_eq : ∀ d, w'.device d =
    { w.device d with names := (w'.device d).names, tokens := (w'.device d).tokens }
  names : ∀ d, (w.device d).alive = true → (w.device d).names.Agrees (w'.device d).names
  tokens : ∀ d, (w.device d).alive = true → (w.device d).tokens.Agrees (w'.device d).tokens

variable {w w' w'' : World} {d : DeviceRef} {o : ObjectRef}

/-! ### Single updates -/

namespace Wanes

theorem home_eq (h : w.Wanes w') (o : ObjectRef) : (w'.object o).home = (w.object o).home := by
  rw [(h.object o).eq]

theorem prepared_eq (h : w.Wanes w') (o : ObjectRef) :
    (w'.object o).prepared = (w.object o).prepared := by rw [(h.object o).eq]

theorem alive_eq (h : w.Wanes w') (d : DeviceRef) : (w'.device d).alive = (w.device d).alive := by
  rw [(h.device d).eq]

theorem of_eq (hobjects : w'.objects = w.objects) (hdevices : w'.devices = w.devices) :
    w.Wanes w' where
  size_objects := by rw [hobjects]
  size_devices := by rw [hdevices]
  object o := by
    rw [object_congr hobjects]
    exact .refl _ _
  device d := by
    rw [device_congr hdevices]
    exact .refl _

theorem refl (w : World) : w.Wanes w := .of_eq rfl rfl

theorem trans (h : w.Wanes w') (h' : w'.Wanes w'') : w.Wanes w'' where
  size_objects := h'.size_objects.trans h.size_objects
  size_devices := h'.size_devices.trans h.size_devices
  object o := by
    have hlast := h'.object o
    rw [h.home_eq, h.alive_eq] at hlast
    exact (h.object o).trans hlast
  device d := (h.device d).trans (h'.device d)

theorem note (n : Notice) (h : w.Wanes w') : w.Wanes (w'.note n) := h.trans (.of_eq rfl rfl)

theorem updateObject (w : World) (o : ObjectRef) {f : BufferObject → BufferObject}
    (hf : (w.object o).Wanes (f (w.object o)) (w.device (w.object o).home).alive) :
    w.Wanes (w.updateObject o f) where
  size_objects := by simp
  size_devices := rfl
  object p := by
    rw [object_updateObject]
    split
    · next hp =>
      obtain ⟨rfl, -⟩ := hp
      exact hf
    · exact .refl _ _
  device d := .refl _

theorem updateDevice (w : World) (d : DeviceRef) {f : Device → Device}
    (hf : (w.device d).Wanes (f (w.device d))) : w.Wanes (w.updateDevice d f) where
  size_objects := rfl
  size_devices := by simp [World.updateDevice]
  object o := .refl _ _
  device e := by
    rw [device_updateDevice]
    split
    · next he =>
      obtain ⟨rfl, -⟩ := he
      exact hf
    · exact .refl _

theorem setNames (w : World) (d : DeviceRef) (names : NumberedTable ObjectRef)
    (h : names.entries.order = (w.device d).names.entries.order) : w.Wanes (w.setNames d names) :=
  .updateDevice w d ⟨rfl, h, rfl, rfl⟩

theorem setTokens (w : World) (d : DeviceRef) (tokens : TokenTable)
    (h : tokens.entries.order = (w.device d).tokens.entries.order)
    (hrange : tokens.source.range = (w.device d).tokens.source.range) :
    w.Wanes (w.setTokens d tokens) :=
  .updateDevice w d ⟨rfl, rfl, h, hrange⟩

/-- A reference that is given up. -/
theorem release (w : World) (o : ObjectRef) :
    w.Wanes (w.updateObject o fun x => { x with refs := x.refs - 1 }) :=
  .updateObject w o ⟨rfl, Nat.sub_le _ _, fun h => h, Or.inl rfl, Or.inl rfl⟩

/-! ### Operations -/

theorem uncountHandle (hused : (w.object o).handles.value ≠ 0) : w.Wanes (w.uncountHandle o).1 :=
  .updateObject w o (f := fun x => { x with handles := _ })
    ⟨rfl, Nat.le_refl _, fun hzero => absurd hzero hused, Or.inl rfl, Or.inl rfl⟩

/-- The name of an object that is not in use is retired. -/
theorem retireName (hunused : (w.object o).handles.value = 0) :
    w.Wanes (w.retireName d o).1 := by
  have hname : w.Wanes (w.setName o none) :=
    .updateObject w o ⟨rfl, Nat.le_refl _, fun h => h, Or.inr ⟨rfl, hunused⟩, Or.inl rfl⟩
  unfold World.retireName
  split
  · exact .refl w
  · dsimp only
    split
    · exact hname.note _
    · next ids _ =>
      split
      · exact (hname.trans (.setNames _ d ⟨_, ids⟩ rfl)).note _
      · next entries hremove =>
        have hentry := hname.trans
          (.setNames _ d ⟨entries, ids⟩ (KeyTable.order_of_remove hremove))
        split
        · exact (hentry.note _).trans (.release _ _)
        · exact hentry

/-- The token of an object that has ended is given back. -/
theorem destroyToken (hdead : (w.object o).refs = 0)
    (halive : (w.device (w.object o).home).alive = true) : w.Wanes (w.destroyToken d o).1 := by
  have htoken : w.Wanes (w.setToken o none) :=
    .updateObject w o ⟨rfl, Nat.le_refl _, fun h => h, Or.inl rfl, Or.inr ⟨rfl, hdead, halive⟩⟩
  unfold World.destroyToken
  dsimp only
  split
  · exact .refl w
  · split
    · exact htoken.note _
    · next tokens hfree =>
      have horder := congrArg KeyTable.order (TokenTable.entries_of_freeId hfree)
      have hrange := TokenTable.range_of_freeId hfree
      split
      · next entries hremove =>
        exact (htoken.trans (.setTokens _ d { tokens with entries }
          ((KeyTable.order_of_remove hremove).trans horder) hrange)).note _
      · exact (htoken.trans (.setTokens _ d tokens horder hrange)).note _

theorem endObject (hdead : (w.object o).refs = 0) : w.Wanes (w.endObject o).1 := by
  have hdying : w.Wanes (w.note (.objectDying (w.object o).id)) := .of_eq rfl rfl
  unfold World.endObject
  dsimp only
  generalize hreleased : (if ((w.note (.objectDying (w.object o).id)).device
    (w.object o).home).alive = true then _ else (_ : World × Except Fault Unit)) = released
  have h : w.Wanes released.1 := by
    rw [← hreleased]
    split
    · next halive => exact hdying.trans (.destroyToken hdead halive)
    · exact hdying
  split
  · exact h
  · split
    · exact h
    · exact h.note _

theorem dropRef (w : World) (o : ObjectRef) : w.Wanes (w.dropRef o).1 := by
  have hrelease := Wanes.release w o
  unfold World.dropRef
  dsimp only
  split
  · next hone =>
    refine hrelease.trans (.endObject ?_)
    have hlt := lt_size_of_refs (w := w) (o := o) (by omega)
    rw [object_updateObject, if_pos ⟨rfl, hlt⟩, hone]
  · exact hrelease

end Wanes

/-! ### One way is as good as another -/

section

variable {outside uses : List ObjectRef} (h : w.Sound outside uses) (h' : w'.Sound outside uses)
  (hclients : w'.clients = w.clients) (hold : w''.Wanes w) (hold' : w''.Wanes w')

include h h'

include hclients in
theorem Sound.handles_eq_of_clients (o : ObjectRef) :
    (w'.object o).handles = (w.object o).handles := by
  have hvalue : (w'.object o).handles.value = (w.object o).handles.value := by
    rw [h.counted.uses_eq, h'.counted.uses_eq, handlesTo_congr hclients]
  exact congrArg UseCount.mk hvalue

include hold hold'

include hclients in
/-- A name is left exactly where something is in use. -/
theorem Sound.name_eq_of_wanes
    (hused : ∀ o, (w.object o).name.isSome = true → (w.object o).handles.value ≠ 0)
    (hused' : ∀ o, (w'.object o).name.isSome = true → (w'.object o).handles.value ≠ 0)
    (o : ObjectRef) : (w'.object o).name = (w.object o).name := by
  have hhandles := h.handles_eq_of_clients h' hclients o
  have hnone (hzero : (w.object o).handles.value = 0) :
      (w.object o).name = none ∧ (w'.object o).name = none := by
    refine ⟨Option.not_isSome_iff_eq_none.mp fun hsome => hused o hsome hzero,
      Option.not_isSome_iff_eq_none.mp fun hsome => hused' o hsome ?_⟩
    rw [hhandles, hzero]
  rcases (hold.object o).name_eq with hsame | ⟨-, hzero⟩
  · rcases (hold'.object o).name_eq with hsame' | ⟨-, hzero⟩
    · exact hsame'.trans hsame.symm
    · rw [hhandles] at hzero
      exact (hnone hzero).2.trans (hnone hzero).1.symm
  · exact (hnone hzero).2.trans (hnone hzero).1.symm

/-- A token is left where a reference is, or where the device that could take it back has gone. -/
theorem Sound.token_eq_of_wanes (hrefs : (w'.object o).refs = (w.object o).refs) :
    (w'.object o).token = (w.object o).token := by
  have hnone (hzero : (w.object o).refs = 0)
      (halive : (w''.device (w''.object o).home).alive = true) :
      (w.object o).token = none ∧ (w'.object o).token = none := by
    refine ⟨Option.not_isSome_iff_eq_none.mp fun hsome => ?_,
      Option.not_isSome_iff_eq_none.mp fun hsome => ?_⟩
    · refine absurd (h.tokens.live o hsome ?_) (Nat.not_lt.mpr (Nat.le_of_eq hzero))
      rwa [hold.home_eq, hold.alive_eq]
    · refine absurd (h'.tokens.live o hsome ?_)
        (Nat.not_lt.mpr (Nat.le_of_eq (hrefs.trans hzero)))
      rwa [hold'.home_eq, hold'.alive_eq]
  rcases (hold.object o).token_eq with hsame | ⟨-, hzero, halive⟩
  · rcases (hold'.object o).token_eq with hsame' | ⟨-, hzero, halive⟩
    · exact hsame'.trans hsame.symm
    · have hgone := hnone (hrefs ▸ hzero) halive
      exact hgone.2.trans hgone.1.symm
  · have hgone := hnone hzero halive
    exact hgone.2.trans hgone.1.symm

include hclients in
/-- Sound worlds that have come from one world by giving up, with the same clients and the same
references and uses outside, cannot be told apart. -/
theorem Sound.alike
    (hused : ∀ o, (w.object o).name.isSome = true → (w.object o).handles.value ≠ 0)
    (hused' : ∀ o, (w'.object o).name.isSome = true → (w'.object o).handles.value ≠ 0) :
    w.Alike w' := by
  have hhandles := h.handles_eq_of_clients h' hclients
  have hname := h.name_eq_of_wanes h' hclients hold hold' hused hused'
  have hrefs (o : ObjectRef) : (w'.object o).refs = (w.object o).refs := by
    rw [h.counted.refs_eq, h'.counted.refs_eq, handlesTo_congr hclients, BufferObject.nameRefs,
      BufferObject.nameRefs, hname]
  have htoken (o : ObjectRef) := h.token_eq_of_wanes h' hold hold' (hrefs o)
  have hobject (o : ObjectRef) : w'.object o = w.object o := by
    rw [(hold.object o).eq, (hold'.object o).eq, hrefs, hhandles, hname, htoken]
  have hdevice (d : DeviceRef) : w'.device d =
      { w.device d with names := (w'.device d).names, tokens := (w'.device d).tokens } := by
    have heq := (hold.device d).eq
    have heq' := (hold'.device d).eq
    rw [heq]
    exact heq'
  have halive (d : DeviceRef) : (w'.device d).alive = (w.device d).alive := by rw [hdevice d]
  refine ⟨hclients, ?_, hold'.size_devices.trans hold.size_devices.symm, hdevice, fun d hd => ?_,
    fun d hd => ?_⟩
  · refine Array.ext (hold'.size_objects.trans hold.size_objects.symm) fun o ho ho' => ?_
    have heq := hobject o
    rwa [object, object, Array.getD_eq_getD_getElem?, Array.getD_eq_getD_getElem?,
      Array.getElem?_eq_getElem ho, Array.getElem?_eq_getElem ho'] at heq
  · have hwf := h.names.wellFormed d hd
    have hwf' := h'.names.wellFormed d ((halive d).trans hd)
    have hfind (n : Name) : (w'.device d).names.find? n = (w.device d).names.find? n := by
      refine Option.ext fun p => ?_
      rw [h'.names.find?_iff d n p ((halive d).trans hd), h.names.find?_iff d n p hd, hobject]
    exact hwf.agrees hwf'
      ((hold'.device d).order_names.trans (hold.device d).order_names.symm) hfind
  · have hwf := h.tokens.wellFormed d hd
    have hwf' := h'.tokens.wellFormed d ((halive d).trans hd)
    have hfind (t : Token) :
        (w'.device d).tokens.entries.find? t = (w.device d).tokens.entries.find? t := by
      refine Option.ext fun p => ?_
      rw [h'.tokens.find?_iff d t p ((halive d).trans hd), h.tokens.find?_iff d t p hd, hobject]
    exact hwf.agrees hwf'
      ((hold'.device d).order_tokens.trans (hold.device d).order_tokens.symm)
      ((hold'.device d).range_eq.trans (hold.device d).range_eq.symm) hfind

end

end World

end BufferObjects
