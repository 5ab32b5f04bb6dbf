import BufferObjects.World.Handles
import BufferObjects.World.Lifetime
import BufferObjects.World.Names
import BufferObjects.World.Tokens

/-!
Reading a world that has been rewritten. Every operation on a world is a chain of updates of one
entity each; these lemmas read an entity through such a chain, so that what an operation leaves
alone is found by `simp`. Positions where nothing was put read as dead entities.
-/

namespace BufferObjects.World

/-! ### Reports change nothing but the log -/

@[simp] theorem devices_note (w : World) (n : Notice) : (w.note n).devices = w.devices := rfl

@[simp] theorem clients_note (w : World) (n : Notice) : (w.note n).clients = w.clients := rfl

@[simp] theorem objects_note (w : World) (n : Notice) : (w.note n).objects = w.objects := rfl

theorem noteAll_eq (w : World) (ns : List Notice) :
    w.noteAll ns = { w with log := ns.reverse ++ w.log } := by
  induction ns generalizing w with
  | nil => rfl
  | cons n ns ih =>
    change (w.note n).noteAll ns = _
    rw [ih]
    simp [note]

@[simp] theorem devices_noteAll (w : World) (ns : List Notice) :
    (w.noteAll ns).devices = w.devices := by rw [noteAll_eq]

@[simp] theorem clients_noteAll (w : World) (ns : List Notice) :
    (w.noteAll ns).clients = w.clients := by rw [noteAll_eq]

@[simp] theorem objects_noteAll (w : World) (ns : List Notice) :
    (w.noteAll ns).objects = w.objects := by rw [noteAll_eq]

/-! ### Updates of one entity -/

@[simp] theorem clients_updateDevice (w : World) (d : DeviceRef) (f : Device → Device) :
    (w.updateDevice d f).clients = w.clients := rfl

@[simp] theorem objects_updateDevice (w : World) (d : DeviceRef) (f : Device → Device) :
    (w.updateDevice d f).objects = w.objects := rfl

@[simp] theorem devices_updateClient (w : World) (c : ClientRef) (f : Client → Client) :
    (w.updateClient c f).devices = w.devices := rfl

@[simp] theorem objects_updateClient (w : World) (c : ClientRef) (f : Client → Client) :
    (w.updateClient c f).objects = w.objects := rfl

@[simp] theorem devices_updateObject (w : World) (o : ObjectRef) (f : BufferObject → BufferObject) :
    (w.updateObject o f).devices = w.devices := rfl

@[simp] theorem clients_updateObject (w : World) (o : ObjectRef) (f : BufferObject → BufferObject) :
    (w.updateObject o f).clients = w.clients := rfl

@[simp] theorem size_devices_updateDevice (w : World) (d : DeviceRef) (f : Device → Device) :
    (w.updateDevice d f).devices.size = w.devices.size := Array.size_modify

@[simp] theorem size_clients_updateClient (w : World) (c : ClientRef) (f : Client → Client) :
    (w.updateClient c f).clients.size = w.clients.size := Array.size_modify

@[simp] theorem size_objects_updateObject (w : World) (o : ObjectRef)
    (f : BufferObject → BufferObject) : (w.updateObject o f).objects.size = w.objects.size :=
  Array.size_modify

theorem getD_modify {α : Type} (xs : Array α) (i j : Nat) (f : α → α) (x : α) :
    (xs.modify i f).getD j x = if i = j ∧ i < xs.size then f (xs.getD j x) else xs.getD j x := by
  simp only [Array.getD_eq_getD_getElem?, Array.getElem?_modify]
  by_cases hij : i = j
  · subst hij
    by_cases hlt : i < xs.size
    · simp [hlt]
    · simp [hlt]
  · simp [hij]

theorem getD_push {α : Type} (xs : Array α) (y x : α) (j : Nat) :
    (xs.push y).getD j x = if j = xs.size then y else xs.getD j x := by
  simp only [Array.getD_eq_getD_getElem?, Array.getElem?_push]
  split <;> rfl

theorem device_updateDevice (w : World) (d e : DeviceRef) (f : Device → Device) :
    (w.updateDevice d f).device e =
      if d = e ∧ d < w.devices.size then f (w.device e) else w.device e :=
  getD_modify ..

theorem client_updateClient (w : World) (c e : ClientRef) (f : Client → Client) :
    (w.updateClient c f).client e =
      if c = e ∧ c < w.clients.size then f (w.client e) else w.client e :=
  getD_modify ..

theorem object_updateObject (w : World) (o p : ObjectRef) (f : BufferObject → BufferObject) :
    (w.updateObject o f).object p =
      if o = p ∧ o < w.objects.size then f (w.object p) else w.object p :=
  getD_modify ..

theorem device_pushDevice (w : World) (x : Device) (d : DeviceRef) :
    ({ w with devices := w.devices.push x } : World).device d =
      if d = w.devices.size then x else w.device d :=
  getD_push ..

theorem client_pushClient (w : World) (x : Client) (c : ClientRef) :
    ({ w with clients := w.clients.push x } : World).client c =
      if c = w.clients.size then x else w.client c :=
  getD_push ..

theorem object_pushObject (w : World) (x : BufferObject) (o : ObjectRef) :
    ({ w with objects := w.objects.push x } : World).object o =
      if o = w.objects.size then x else w.object o :=
  getD_push ..

/-! ### Rewriting to the same -/

theorem modify_eq_self {α : Type} {xs : Array α} {i : Nat} {f : α → α} (x : α)
    (h : f (xs.getD i x) = xs.getD i x) : xs.modify i f = xs := by
  apply Array.ext (by simp)
  intro j hj hj'
  rw [Array.getElem_modify]
  split
  · next hij =>
    subst hij
    simpa [hj'] using h
  · rfl

/-- A rewriting that takes back the one before it. -/
theorem modify_modify_eq_self {α : Type} {xs : Array α} {i : Nat} {f g : α → α} (x : α)
    (h : g (f (xs.getD i x)) = xs.getD i x) : (xs.modify i f).modify i g = xs := by
  apply Array.ext (by simp)
  intro j hj hj'
  simp only [Array.getElem_modify]
  split
  · next hij =>
    subst hij
    simpa [hj'] using h
  · rfl

theorem setTokens_self (w : World) (d : DeviceRef) : w.setTokens d (w.device d).tokens = w := by
  have : w.devices.modify d (fun x => { x with tokens := (w.device d).tokens }) = w.devices :=
    modify_eq_self default rfl
  rw [setTokens, updateDevice, this]

theorem setHandles_self (w : World) (c : ClientRef) : w.setHandles c (w.client c).handles = w := by
  have : w.clients.modify c (fun x => { x with handles := (w.client c).handles }) = w.clients :=
    modify_eq_self default rfl
  rw [setHandles, updateClient, this]

/-- The second of two tables that a client is given is the one that it has. -/
theorem setHandles_setHandles (w : World) (c : ClientRef) (handles handles' : Option HandleTable) :
    (w.setHandles c handles).setHandles c handles' = w.setHandles c handles' := by
  have htwice : (w.clients.modify c fun x => { x with handles }).modify c
      (fun x => { x with handles := handles' }) =
        w.clients.modify c fun x => { x with handles := handles' } := by
    apply Array.ext
    · simp
    · intro i _ _
      simp only [Array.getElem_modify]
      split <;> rfl
  simp only [setHandles, updateClient, htwice]

/-! ### Entities depend on their arrays only -/

theorem device_congr {w w' : World} (h : w'.devices = w.devices) (d : DeviceRef) :
    w'.device d = w.device d := by rw [device, device, h]

theorem client_congr {w w' : World} (h : w'.clients = w.clients) (c : ClientRef) :
    w'.client c = w.client c := by rw [client, client, h]

theorem object_congr {w w' : World} (h : w'.objects = w.objects) (o : ObjectRef) :
    w'.object o = w.object o := by rw [object, object, h]

@[simp] theorem device_note (w : World) (n : Notice) (d : DeviceRef) :
    (w.note n).device d = w.device d := rfl

@[simp] theorem client_note (w : World) (n : Notice) (c : ClientRef) :
    (w.note n).client c = w.client c := rfl

@[simp] theorem object_note (w : World) (n : Notice) (o : ObjectRef) :
    (w.note n).object o = w.object o := rfl

@[simp] theorem device_noteAll (w : World) (ns : List Notice) (d : DeviceRef) :
    (w.noteAll ns).device d = w.device d := device_congr (by simp) d

@[simp] theorem client_noteAll (w : World) (ns : List Notice) (c : ClientRef) :
    (w.noteAll ns).client c = w.client c := client_congr (by simp) c

@[simp] theorem object_noteAll (w : World) (ns : List Notice) (o : ObjectRef) :
    (w.noteAll ns).object o = w.object o := object_congr (by simp) o

@[simp] theorem client_updateDevice (w : World) (d : DeviceRef) (f : Device → Device)
    (c : ClientRef) : (w.updateDevice d f).client c = w.client c := rfl

@[simp] theorem object_updateDevice (w : World) (d : DeviceRef) (f : Device → Device)
    (o : ObjectRef) : (w.updateDevice d f).object o = w.object o := rfl

@[simp] theorem device_updateClient (w : World) (c : ClientRef) (f : Client → Client)
    (d : DeviceRef) : (w.updateClient c f).device d = w.device d := rfl

@[simp] theorem object_updateClient (w : World) (c : ClientRef) (f : Client → Client)
    (o : ObjectRef) : (w.updateClient c f).object o = w.object o := rfl

@[simp] theorem device_updateObject (w : World) (o : ObjectRef) (f : BufferObject → BufferObject)
    (d : DeviceRef) : (w.updateObject o f).device d = w.device d := rfl

@[simp] theorem client_updateObject (w : World) (o : ObjectRef) (f : BufferObject → BufferObject)
    (c : ClientRef) : (w.updateObject o f).client c = w.client c := rfl

/-! ### Positions where nothing was put -/

theorem device_of_size_le {w : World} {d : DeviceRef} (h : w.devices.size ≤ d) :
    w.device d = default := by
  simp [device, Array.getElem?_eq_none h]

theorem client_of_size_le {w : World} {c : ClientRef} (h : w.clients.size ≤ c) :
    w.client c = default := by
  simp [client, Array.getElem?_eq_none h]

theorem object_of_size_le {w : World} {o : ObjectRef} (h : w.objects.size ≤ o) :
    w.object o = default := by
  simp [object, Array.getElem?_eq_none h]

theorem lt_size_of_alive {w : World} {d : DeviceRef} (h : (w.device d).alive = true) :
    d < w.devices.size := by
  rcases Nat.lt_or_ge d w.devices.size with hlt | hge
  · exact hlt
  · rw [device_of_size_le hge] at h
    cases h

theorem lt_size_of_handles {w : World} {c : ClientRef} {t : HandleTable}
    (h : (w.client c).handles = some t) : c < w.clients.size := by
  rcases Nat.lt_or_ge c w.clients.size with hlt | hge
  · exact hlt
  · rw [client_of_size_le hge] at h
    cases h

theorem lt_size_of_present {w : World} {c : ClientRef} (h : (w.client c).present = true) :
    c < w.clients.size := by
  rcases Nat.lt_or_ge c w.clients.size with hlt | hge
  · exact hlt
  · rw [client_of_size_le hge] at h
    cases h

theorem lt_size_of_refs {w : World} {o : ObjectRef} (h : 0 < (w.object o).refs) :
    o < w.objects.size := by
  rcases Nat.lt_or_ge o w.objects.size with hlt | hge
  · exact hlt
  · rw [object_of_size_le hge] at h
    exact absurd h (by decide)

/-! ### What leaves the clients alone -/

@[simp] theorem clients_retain (w : World) (o : ObjectRef) : (w.retain o).clients = w.clients := rfl

@[simp] theorem clients_uncountHandle (w : World) (o : ObjectRef) :
    (w.uncountHandle o).1.clients = w.clients := rfl

@[simp] theorem clients_publishName (w : World) (d : DeviceRef) (o : ObjectRef) :
    (w.publishName d o).1.clients = w.clients := by
  unfold publishName
  dsimp only
  split
  · rfl
  · split
    · rfl
    · split
      · rfl
      · rw [clients_noteAll]
        rfl

@[simp] theorem clients_retireName (w : World) (d : DeviceRef) (o : ObjectRef) :
    (w.retireName d o).1.clients = w.clients := by
  unfold retireName
  split
  · rfl
  · dsimp only
    split
    · rfl
    · split
      · rfl
      · split <;> rfl

@[simp] theorem clients_createToken (w : World) (d : DeviceRef) (o : ObjectRef) :
    (w.createToken d o).1.clients = w.clients := by
  unfold createToken
  dsimp only
  split
  · rfl
  · split
    · rfl
    · rw [clients_noteAll]
      rfl

@[simp] theorem clients_destroyToken (w : World) (d : DeviceRef) (o : ObjectRef) :
    (w.destroyToken d o).1.clients = w.clients := by
  unfold destroyToken
  dsimp only
  split
  · rfl
  · split
    · rfl
    · split <;> rfl

@[simp] theorem clients_newDevice (w : World) (config : Config) (features : Features) :
    (w.newDevice config features).1.clients = w.clients := by
  unfold newDevice
  split
  · rfl
  · split
    · rfl
    · exact clients_noteAll ..
    · exact clients_noteAll ..

@[simp] theorem clients_newObject (w : World) (d : DeviceRef) (size : UInt64) :
    (w.newObject d size).1.clients = w.clients := by
  unfold newObject
  split
  · rfl
  · split <;> rfl

@[simp] theorem clients_endObject (w : World) (o : ObjectRef) :
    (w.endObject o).1.clients = w.clients := by
  unfold endObject
  dsimp only
  by_cases halive : ((w.note (.objectDying (w.object o).id)).device (w.object o).home).alive = true
  · have hdestroy :=
      clients_destroyToken (w.note (.objectDying (w.object o).id)) (w.object o).home o
    rw [if_pos halive]
    split
    · exact hdestroy
    · split <;> exact hdestroy
  · rw [if_neg halive]
    dsimp only
    split <;> rfl

@[simp] theorem clients_dropRef (w : World) (o : ObjectRef) :
    (w.dropRef o).1.clients = w.clients := by
  unfold dropRef
  dsimp only
  split
  · rw [clients_endObject]
    rfl
  · rfl

@[simp] theorem clients_leaveDevice (w : World) (d : DeviceRef) :
    (w.leaveDevice d).1.clients = w.clients := by
  unfold leaveDevice
  split <;> rfl

/-! ### Why look-ups fail -/

section

variable {w : World} {d : DeviceRef} {c : ClientRef} {e : RequestError}

theorem error_of_lookupHandle {h : Handle} (hfailed : w.lookupHandle c h = .error e) :
    e = .invalidHandle := by
  unfold lookupHandle at hfailed
  split at hfailed
  · exact (Except.error.inj hfailed).symm
  · split at hfailed
    · cases hfailed
    · exact (Except.error.inj hfailed).symm

theorem error_of_resolveName {n : Name} (hfailed : w.resolveName d n = .error e) :
    e = .noSuchName := by
  unfold resolveName at hfailed
  split at hfailed
  · cases hfailed
  · exact (Except.error.inj hfailed).symm

theorem error_of_resolveToken {t : Token} (hfailed : w.resolveToken d t = .error e) :
    e = .notFound := by
  unfold resolveToken at hfailed
  split at hfailed
  · split at hfailed
    · cases hfailed
    · exact (Except.error.inj hfailed).symm
  · exact (Except.error.inj hfailed).symm

theorem error_of_objectAtAddress {a : UInt64} (hfailed : (w.objectAtAddress d a).2 = .error e) :
    e = .notFound := by
  unfold objectAtAddress at hfailed
  split at hfailed
  · split at hfailed
    · cases hfailed
    · next hresolve =>
      cases hfailed
      exact error_of_resolveToken hresolve
  · exact (Except.error.inj hfailed).symm

theorem error_of_mappingAt {a length : UInt64} (hfailed : (w.mappingAt d a length).2 = .error e) :
    e = .notFound ∨ e = .invalidArgument := by
  unfold mappingAt at hfailed
  split at hfailed
  · next hobject =>
    cases hfailed
    exact Or.inl (error_of_objectAtAddress (congrArg Prod.snd hobject))
  · dsimp only at hfailed
    split at hfailed
    · cases hfailed
    · exact Or.inr (Except.error.inj hfailed).symm

end

end BufferObjects.World
