import BufferObjects.Proofs.KeyTable
import BufferObjects.Proofs.World.Readings

/-!
What things are made with and keep. A device keeps its configuration, what its driver can do and the
range that its tokens come from; an object keeps its device. No operation changes any of it: one that
makes a new device or object adds to it, every other leaves it as it is. So whatever is true of all
this when things are made is true for good, whatever the state of the tables.
-/

namespace BufferObjects

/-- Where the tokens of a source lie, whichever of them are in use. -/
inductive TokenRange
  | dense (first last : UInt32)
  | hashed (bits shift : UInt32) (add : UInt64)
  deriving DecidableEq

def TokenSource.range : TokenSource → TokenRange
  | dense ids => .dense ids.first ids.last
  | hashed bits shift add => .hashed bits shift add

/-- The range that a configuration asks for. -/
def Config.tokenRange (c : Config) : TokenRange :=
  if c.hashesTokens then .hashed c.tokenBits c.tokenShift c.tokenAdd
  else .dense firstTokenIndex c.maxTokenIndex

/-! ### Sources keep their range -/

namespace IdAllocator

variable {a a' : IdAllocator} {id : UInt32} {room : Bool}

theorem ends_of_alloc (h : a.alloc room = .ok (id, a')) :
    a'.first = a.first ∧ a'.last = a.last := by
  unfold alloc at h
  split at h
  · cases h
    exact ⟨rfl, rfl⟩
  · split at h
    · cases h
    · split at h
      · cases h
      · cases h
        exact ⟨rfl, rfl⟩

theorem ends_of_free (h : a.free id = .ok a') : a'.first = a.first ∧ a'.last = a.last := by
  unfold free at h
  split at h
  · cases h
  · split at h
    · cases h
      exact ⟨rfl, rfl⟩
    · cases h

end IdAllocator

namespace TokenTable

variable {t t' : TokenTable} {token : Token}

theorem range_of_create {c : Config} {memory : Memory} (h : create c memory = .ok t) :
    t.source.range = c.tokenRange := by
  obtain ⟨entries, -, rfl⟩ := of_map_eq_ok h
  dsimp only [Config.tokenRange]
  split <;> rfl

theorem range_issue (t : TokenTable) (object : ObjectRef) (seed : UInt64) (memory : Memory) :
    (t.issue object seed memory).1.source.range = t.source.range := by
  unfold issue
  split
  · next ids hsource =>
    split
    · rfl
    · next id ids' halloc =>
      have hends := IdAllocator.ends_of_alloc halloc
      split
      · simp [TokenSource.range, hsource, hends]
      · cases hfree : ids'.free id with
        | error f => simp [TokenSource.range, hsource, hends]
        | ok ids'' =>
          have hends' := IdAllocator.ends_of_free hfree
          simp [TokenSource.range, hsource, hends, hends']
  · split <;> rfl

theorem range_of_freeId (h : t.freeId token = .ok t') : t'.source.range = t.source.range := by
  unfold freeId at h
  split at h
  · next ids hsource =>
    cases hfree : ids.free token.toUInt32 with
    | error f =>
      rw [hfree] at h
      cases h
    | ok ids' =>
      have hends := IdAllocator.ends_of_free hfree
      rw [hfree] at h
      cases h
      simp [TokenSource.range, hsource, hends]
  · cases h
    rfl

end TokenTable

/-! ### Fixtures -/

/-- What a device keeps. -/
def Device.fixture (x : Device) : Config × Features × TokenRange :=
  (x.config, x.features, x.tokens.source.range)

namespace World

/-- What all devices and objects keep. -/
def fixtures (w : World) : Array (Config × Features × TokenRange) × Array DeviceRef :=
  (w.devices.map Device.fixture, w.objects.map BufferObject.home)

variable {w w' : World}

theorem map_modify {α β : Type} {xs : Array α} {i : Nat} {f : α → α} {g : α → β} (x : α)
    (h : g (f (xs.getD i x)) = g (xs.getD i x)) : (xs.modify i f).map g = xs.map g := by
  refine Array.ext (by simp) fun j hj hj' => ?_
  simp only [Array.size_map, Array.size_modify] at hj
  simp only [Array.getElem_map, Array.getElem_modify]
  split
  · next heq =>
    subst heq
    simpa [hj] using h
  · rfl

theorem getD_map {α β : Type} (xs : Array α) (i : Nat) (g : α → β) (x : α) :
    (xs.map g).getD i (g x) = g (xs.getD i x) := by
  simp only [Array.getD_eq_getD_getElem?, Array.getElem?_map, Option.getD_map]

theorem fixtures_congr (hdevices : w'.devices = w.devices) (hobjects : w'.objects = w.objects) :
    w'.fixtures = w.fixtures := by
  rw [fixtures, fixtures, hdevices, hobjects]

theorem fixtures_updateDevice {d : DeviceRef} {f : Device → Device}
    (h : (f (w.device d)).fixture = (w.device d).fixture) :
    (w.updateDevice d f).fixtures = w.fixtures :=
  Prod.ext (map_modify default h) rfl

theorem fixtures_updateObject {o : ObjectRef} {f : BufferObject → BufferObject}
    (h : (f (w.object o)).home = (w.object o).home) : (w.updateObject o f).fixtures = w.fixtures :=
  Prod.ext rfl (map_modify default h)

@[simp] theorem fixtures_note (w : World) (n : Notice) : (w.note n).fixtures = w.fixtures := rfl

@[simp] theorem fixtures_noteAll (w : World) (ns : List Notice) :
    (w.noteAll ns).fixtures = w.fixtures :=
  fixtures_congr (devices_noteAll w ns) (objects_noteAll w ns)

@[simp] theorem fixtures_under (w : World) (memory : Memory) :
    (w.under memory).fixtures = w.fixtures := rfl

@[simp] theorem fixtures_updateClient (w : World) (c : ClientRef) (f : Client → Client) :
    (w.updateClient c f).fixtures = w.fixtures := rfl

@[simp] theorem fixtures_setHandles (w : World) (c : ClientRef) (handles : Option HandleTable) :
    (w.setHandles c handles).fixtures = w.fixtures := rfl

@[simp] theorem fixtures_retain (w : World) (o : ObjectRef) : (w.retain o).fixtures = w.fixtures :=
  fixtures_updateObject rfl

@[simp] theorem fixtures_countHandle (w : World) (o : ObjectRef) :
    (w.countHandle o).fixtures = w.fixtures := fixtures_updateObject rfl

@[simp] theorem fixtures_uncountHandle (w : World) (o : ObjectRef) :
    (w.uncountHandle o).1.fixtures = w.fixtures :=
  fixtures_updateObject (f := fun x => { x with handles := _ }) rfl

@[simp] theorem fixtures_setName (w : World) (o : ObjectRef) (name : Option Name) :
    (w.setName o name).fixtures = w.fixtures := fixtures_updateObject rfl

@[simp] theorem fixtures_setToken (w : World) (o : ObjectRef) (token : Option Token) :
    (w.setToken o token).fixtures = w.fixtures := fixtures_updateObject rfl

@[simp] theorem fixtures_setNames (w : World) (d : DeviceRef) (names : NumberedTable ObjectRef) :
    (w.setNames d names).fixtures = w.fixtures := fixtures_updateDevice rfl

theorem fixtures_setTokens {d : DeviceRef} {tokens : TokenTable}
    (h : tokens.source.range = (w.device d).tokens.source.range) :
    (w.setTokens d tokens).fixtures = w.fixtures :=
  fixtures_updateDevice (by rw [Device.fixture, Device.fixture, h])

/-! ### Operations -/

@[simp] theorem fixtures_openHandle (w : World) (c : ClientRef) (o : ObjectRef) :
    (w.openHandle c o).1.fixtures = w.fixtures := by
  unfold openHandle
  dsimp only
  split
  · rfl
  · split
    · rfl
    · split <;> simp

@[simp] theorem fixtures_takeHandle (w : World) (c : ClientRef) (h : Handle) :
    (w.takeHandle c h).1.fixtures = w.fixtures := by
  unfold takeHandle
  split
  · rfl
  · split
    · rfl
    · dsimp only
      split <;> rfl

@[simp] theorem fixtures_closeClient (w : World) (c : ClientRef) :
    (w.closeClient c).1.fixtures = w.fixtures := by
  unfold closeClient
  split
  · rfl
  · simp

@[simp] theorem fixtures_newClient (w : World) (d : DeviceRef) :
    (w.newClient d).1.fixtures = w.fixtures := by
  unfold newClient
  split
  · rfl
  · dsimp only
    generalize hw₁ : (w.updateDevice d _).note _ = w₁
    have h₁ : w₁.fixtures = w.fixtures := by
      rw [← hw₁, fixtures_note]
      exact fixtures_updateDevice rfl
    split
    · rw [fixtures_noteAll]
      exact h₁
    · exact h₁

@[simp] theorem fixtures_publishName (w : World) (d : DeviceRef) (o : ObjectRef) :
    (w.publishName d o).1.fixtures = w.fixtures := by
  unfold publishName
  dsimp only
  split
  · rfl
  · split
    · rfl
    · split <;> simp

@[simp] theorem fixtures_retireName (w : World) (d : DeviceRef) (o : ObjectRef) :
    (w.retireName d o).1.fixtures = w.fixtures := by
  unfold retireName
  split
  · rfl
  · dsimp only
    split
    · simp
    · split
      · simp
      · split
        · dsimp only
          rw [fixtures_updateObject rfl]
          simp
        · simp

@[simp] theorem fixtures_createToken (w : World) (d : DeviceRef) (o : ObjectRef) :
    (w.createToken d o).1.fixtures = w.fixtures := by
  have hrange := (w.device d).tokens.range_issue o (w.object o).id w.memory
  unfold createToken
  dsimp only
  split
  · rfl
  · split
    all_goals
      next heq =>
      rw [heq] at hrange
      simp [fixtures_setTokens hrange]

@[simp] theorem fixtures_destroyToken (w : World) (d : DeviceRef) (o : ObjectRef) :
    (w.destroyToken d o).1.fixtures = w.fixtures := by
  unfold destroyToken
  dsimp only
  split
  · rfl
  · next t _ =>
    split
    · simp
    · next tokens hfree =>
      have hrange := TokenTable.range_of_freeId hfree
      have hset (entries : KeyTable ObjectRef) :
          ((w.setToken o none).setTokens d { tokens with entries }).fixtures = w.fixtures := by
        rw [fixtures_setTokens, fixtures_setToken]
        exact hrange
      split
      · exact hset _
      · exact hset _

@[simp] theorem fixtures_endObject (w : World) (o : ObjectRef) :
    (w.endObject o).1.fixtures = w.fixtures := by
  unfold endObject
  dsimp only
  generalize hreleased : (if ((w.note (.objectDying (w.object o).id)).device
    (w.object o).home).alive = true then _ else (_ : World × Except Fault Unit)) = released
  have h : released.1.fixtures = w.fixtures := by
    rw [← hreleased]
    split <;> simp
  split
  · exact h
  · split <;> exact h

@[simp] theorem fixtures_dropRef (w : World) (o : ObjectRef) :
    (w.dropRef o).1.fixtures = w.fixtures := by
  have hless : (w.updateObject o fun x => { x with refs := x.refs - 1 }).fixtures = w.fixtures :=
    fixtures_updateObject rfl
  unfold dropRef
  dsimp only
  split
  · rw [fixtures_endObject, hless]
  · exact hless

@[simp] theorem fixtures_leaveDevice (w : World) (d : DeviceRef) :
    (w.leaveDevice d).1.fixtures = w.fixtures := by
  unfold leaveDevice
  split
  · exact fixtures_updateDevice rfl
  · rfl

/-! ### What holds of them -/

/-- Every device has been set up as its configuration says, which has no defect, and every object
belongs to a device that manages buffers. -/
structure Fitted (w : World) : Prop where
  sane : ∀ d < w.devices.size, (w.device d).config.defect? = none
  range : ∀ d < w.devices.size,
    (w.device d).tokens.source.range = (w.device d).config.tokenRange
  home : ∀ o < w.objects.size,
    (w.object o).home < w.devices.size ∧ w.managesBuffers (w.object o).home = true

namespace Fitted

theorem empty : World.empty.Fitted where
  sane _ hd := absurd hd (Nat.not_lt_zero _)
  range _ hd := absurd hd (Nat.not_lt_zero _)
  home _ ho := absurd ho (Nat.not_lt_zero _)

theorem of_fixtures (h : w.Fitted) (heq : w'.fixtures = w.fixtures) : w'.Fitted := by
  have hdevices : w'.devices.map Device.fixture = w.devices.map Device.fixture :=
    congrArg Prod.fst heq
  have hobjects : w'.objects.map BufferObject.home = w.objects.map BufferObject.home :=
    congrArg Prod.snd heq
  have hsize : w'.devices.size = w.devices.size := by simpa using congrArg Array.size hdevices
  have hcount : w'.objects.size = w.objects.size := by simpa using congrArg Array.size hobjects
  have hdevice (d : DeviceRef) : (w'.device d).fixture = (w.device d).fixture := by
    rw [device, device, ← getD_map _ _ Device.fixture, hdevices, getD_map]
  have hhome (o : ObjectRef) : (w'.object o).home = (w.object o).home := by
    rw [object, object, ← getD_map _ _ BufferObject.home, hobjects, getD_map]
  have hparts (d : DeviceRef) : (w'.device d).config = (w.device d).config ∧
      (w'.device d).features = (w.device d).features ∧
        (w'.device d).tokens.source.range = (w.device d).tokens.source.range := by
    simpa [Device.fixture] using hdevice d
  refine ⟨fun d hd => ?_, fun d hd => ?_, fun o ho => ?_⟩
  · rw [(hparts d).1]
    exact h.sane d (hsize ▸ hd)
  · rw [(hparts d).1, (hparts d).2.2]
    exact h.range d (hsize ▸ hd)
  · rw [managesBuffers, hhome, (hparts _).2.1, hsize]
    exact h.home o (hcount ▸ ho)

theorem newDevice (h : w.Fitted) (config : Config) (features : Features) :
    (w.newDevice config features).1.Fitted := by
  unfold World.newDevice
  split
  · exact h.of_fixtures rfl
  · next hsane =>
    split
    · next names tokens _ htokens =>
      refine of_fixtures (w := { w with devices := w.devices.push _ }) ?_ rfl
      refine ⟨fun d hd => ?_, fun d hd => ?_, fun o ho => ?_⟩
      · rw [device_pushDevice]
        split
        · exact hsane
        · next hne =>
          rw [Array.size_push] at hd
          exact h.sane d (Nat.lt_of_le_of_ne (Nat.le_of_lt_succ hd) hne)
      · rw [device_pushDevice]
        split
        · exact TokenTable.range_of_create htokens
        · next hne =>
          rw [Array.size_push] at hd
          exact h.range d (Nat.lt_of_le_of_ne (Nat.le_of_lt_succ hd) hne)
      · obtain ⟨hlt, hmanages⟩ := h.home o ho
        refine ⟨?_, ?_⟩
        · rw [Array.size_push]
          exact Nat.lt_succ_of_lt hlt
        · rw [managesBuffers, device_pushDevice]
          change (if (w.object o).home = w.devices.size then _ else _ : Device).features.supports _ =
            true
          rw [if_neg (Nat.ne_of_lt hlt)]
          exact hmanages
    · exact h.of_fixtures (fixtures_noteAll ..)
    · exact h.of_fixtures (fixtures_noteAll ..)

theorem newObject (h : w.Fitted) {d : DeviceRef} (hd : d < w.devices.size) (size : UInt64) :
    (w.newObject d size).1.Fitted := by
  unfold World.newObject
  split
  · exact h
  · next hmanages =>
    split
    · exact h.of_fixtures rfl
    · dsimp only
      generalize hw₁ : w.updateDevice d _ = w₁
      have hfixed : w₁.fixtures = w.fixtures := by
        rw [← hw₁]
        exact fixtures_updateDevice rfl
      have h₁ := h.of_fixtures hfixed
      have hsize : w₁.devices.size = w.devices.size := by simp [← hw₁]
      have hmanages₁ : w₁.managesBuffers d = true := by
        rw [managesBuffers, ← hw₁, device_updateDevice]
        split <;> simpa [managesBuffers] using hmanages
      refine ⟨h₁.sane, h₁.range, fun o ho => ?_⟩
      rw [object_pushObject]
      split
      · exact ⟨hsize ▸ hd, hmanages₁⟩
      · next hne =>
        rw [Array.size_push] at ho
        exact h₁.home o (Nat.lt_of_le_of_ne (Nat.le_of_lt_succ ho) hne)

end Fitted

end World

end BufferObjects
