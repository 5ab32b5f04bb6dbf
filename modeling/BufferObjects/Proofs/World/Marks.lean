import BufferObjects.Proofs.World.Handles
import BufferObjects.Proofs.World.Tokens

/-!
The marks of objects: the names and tokens they carry. Most operations leave them all alone, and the
few that do not touch one object each. These facts need no invariant: whatever the state of the
tables, an operation rewrites the field of the object it is about and of no other.

Along with the marks goes what a device can do. It is settled when the device is made, so that a
client, once it has been let in, belongs to a device that manages buffers for good.
-/

namespace BufferObjects.World

variable {w w' w'' : World} {named tokened : Option ObjectRef}

/-- Whoever is a client belongs to a device that manages buffers. -/
def Equipped (w : World) : Prop :=
  ∀ c, (w.client c).present = true →
    (w.client c).device < w.devices.size ∧ w.managesBuffers (w.client c).device = true

/-- Objects carry the marks that they carried, but for the name of one and the token of one; devices
can do what they could. -/
structure Spares (w w' : World) (named tokened : Option ObjectRef) : Prop where
  name_eq : ∀ p, named ≠ some p → (w'.object p).name = (w.object p).name
  token_eq : ∀ p, tokened ≠ some p → (w'.object p).token = (w.object p).token
  size_devices : w.devices.size ≤ w'.devices.size
  features_eq : ∀ d < w.devices.size, (w'.device d).features = (w.device d).features
  equipped : w.Equipped → w'.Equipped

namespace Spares

theorem managesBuffers_eq (hfeatures : ∀ d < w.devices.size,
    (w'.device d).features = (w.device d).features) {d : DeviceRef} (hd : d < w.devices.size) :
    w'.managesBuffers d = w.managesBuffers d := by
  rw [managesBuffers, managesBuffers, hfeatures d hd]

theorem trans (h : w.Spares w' named tokened) (h' : w'.Spares w'' named tokened) :
    w.Spares w'' named tokened where
  name_eq p hp := (h'.name_eq p hp).trans (h.name_eq p hp)
  token_eq p hp := (h'.token_eq p hp).trans (h.token_eq p hp)
  size_devices := Nat.le_trans h.size_devices h'.size_devices
  features_eq d hd :=
    (h'.features_eq d (Nat.lt_of_lt_of_le hd h.size_devices)).trans (h.features_eq d hd)
  equipped hw := h'.equipped (h.equipped hw)

/-- Where clients neither come nor move. -/
theorem of_clients (hname : ∀ p, named ≠ some p → (w'.object p).name = (w.object p).name)
    (htoken : ∀ p, tokened ≠ some p → (w'.object p).token = (w.object p).token)
    (hsize : w.devices.size ≤ w'.devices.size)
    (hfeatures : ∀ d < w.devices.size, (w'.device d).features = (w.device d).features)
    (hclients : ∀ c, (w'.client c).present = true →
      (w.client c).present = true ∧ (w'.client c).device = (w.client c).device) :
    w.Spares w' named tokened where
  name_eq := hname
  token_eq := htoken
  size_devices := hsize
  features_eq := hfeatures
  equipped hw c hc := by
    obtain ⟨hpresent, hdevice⟩ := hclients c hc
    obtain ⟨hlt, hmanages⟩ := hw c hpresent
    rw [hdevice, managesBuffers_eq hfeatures hlt]
    exact ⟨Nat.lt_of_lt_of_le hlt hsize, hmanages⟩

/-! ### Single updates -/

theorem of_eq (hdevices : w'.devices = w.devices) (hclients : w'.clients = w.clients)
    (hobjects : w'.objects = w.objects) : w.Spares w' named tokened :=
  .of_clients (fun p _ => by rw [object_congr hobjects]) (fun p _ => by rw [object_congr hobjects])
    (Nat.le_of_eq (by rw [hdevices])) (fun d _ => by rw [device_congr hdevices])
    fun c hc => by rw [client_congr hclients] at hc ⊢; exact ⟨hc, rfl⟩

theorem refl (w : World) : w.Spares w named tokened := .of_eq rfl rfl rfl

theorem note (n : Notice) (h : w.Spares w' named tokened) : w.Spares (w'.note n) named tokened :=
  h.trans (.of_eq rfl rfl rfl)

theorem noteAll (ns : List Notice) (h : w.Spares w' named tokened) :
    w.Spares (w'.noteAll ns) named tokened :=
  h.trans (.of_eq (by simp) (by simp) (by simp))

theorem under (w : World) (memory : Memory) : w.Spares (w.under memory) named tokened :=
  .of_eq rfl rfl rfl

theorem updateDevice (w : World) (d : DeviceRef) {f : Device → Device}
    (hf : ∀ x, (f x).features = x.features) : w.Spares (w.updateDevice d f) named tokened := by
  refine .of_clients (fun _ _ => rfl) (fun _ _ => rfl) (by simp) (fun e _ => ?_)
    fun c hc => ⟨hc, rfl⟩
  rw [device_updateDevice]
  split
  · exact hf _
  · rfl

theorem updateClient (w : World) (c : ClientRef) {f : Client → Client}
    (hf : ∀ x, ((f x).present = true → x.present = true) ∧ (f x).device = x.device) :
    w.Spares (w.updateClient c f) named tokened := by
  refine .of_clients (fun _ _ => rfl) (fun _ _ => rfl) (Nat.le_refl _) (fun _ _ => rfl)
    fun e he => ?_
  rw [client_updateClient] at he ⊢
  split at he
  · next heq =>
    rw [if_pos heq]
    exact ⟨(hf _).1 he, (hf _).2⟩
  · next hne =>
    rw [if_neg hne]
    exact ⟨he, rfl⟩

theorem updateObject (w : World) (o : ObjectRef) {f : BufferObject → BufferObject}
    (hname : ∀ x, named = some o ∨ (f x).name = x.name)
    (htoken : ∀ x, tokened = some o ∨ (f x).token = x.token) :
    w.Spares (w.updateObject o f) named tokened := by
  refine .of_clients (fun p hp => ?_) (fun p hp => ?_) (Nat.le_refl _) (fun _ _ => rfl)
    fun c hc => ⟨hc, rfl⟩
  all_goals
    rw [object_updateObject]
    split
    · next heq =>
      obtain ⟨rfl, -⟩ := heq
      first
      | exact (hname _).resolve_left hp
      | exact (htoken _).resolve_left hp
    · rfl

/-- What is counted of an object is no mark. -/
theorem updateCounts (w : World) (o : ObjectRef) {f : BufferObject → BufferObject}
    (hname : ∀ x, (f x).name = x.name) (htoken : ∀ x, (f x).token = x.token) :
    w.Spares (w.updateObject o f) named tokened :=
  .updateObject w o (fun x => Or.inr (hname x)) fun x => Or.inr (htoken x)

theorem setName (w : World) (o : ObjectRef) (name : Option Name) :
    w.Spares (w.setName o name) (some o) tokened :=
  .updateObject w o (fun _ => Or.inl rfl) fun _ => Or.inr rfl

theorem setToken (w : World) (o : ObjectRef) (token : Option Token) :
    w.Spares (w.setToken o token) named (some o) :=
  .updateObject w o (fun _ => Or.inr rfl) fun _ => Or.inl rfl

theorem setNames (w : World) (d : DeviceRef) (names : NumberedTable ObjectRef) :
    w.Spares (w.setNames d names) named tokened := .updateDevice w d fun _ => rfl

theorem setTokens (w : World) (d : DeviceRef) (tokens : TokenTable) :
    w.Spares (w.setTokens d tokens) named tokened := .updateDevice w d fun _ => rfl

theorem setHandles (w : World) (c : ClientRef) (handles : Option HandleTable) :
    w.Spares (w.setHandles c handles) named tokened := .updateClient w c fun _ => ⟨id, rfl⟩

theorem retain (w : World) (o : ObjectRef) : w.Spares (w.retain o) named tokened :=
  .updateCounts w o (fun _ => rfl) fun _ => rfl

theorem countHandle (w : World) (o : ObjectRef) : w.Spares (w.countHandle o) named tokened :=
  .updateCounts w o (fun _ => rfl) fun _ => rfl

theorem uncountHandle (w : World) (o : ObjectRef) :
    w.Spares (w.uncountHandle o).1 named tokened :=
  .updateCounts w o (fun _ => rfl) fun _ => rfl

/-! ### Coming and going -/

theorem pushDevice (w : World) (x : Device) :
    w.Spares { w with devices := w.devices.push x } named tokened := by
  refine .of_clients (fun _ _ => rfl) (fun _ _ => rfl) (by simp) (fun d hd => ?_)
    fun c hc => ⟨hc, rfl⟩
  rw [device_pushDevice, if_neg (Nat.ne_of_lt hd)]

/-- A client that is let in is one more at a device that manages buffers. -/
theorem pushClient (w : World) {x : Client} (hlt : x.device < w.devices.size)
    (hmanages : w.managesBuffers x.device = true) :
    w.Spares { w with clients := w.clients.push x } named tokened where
  name_eq _ _ := rfl
  token_eq _ _ := rfl
  size_devices := Nat.le_refl _
  features_eq _ _ := rfl
  equipped hw c hc := by
    rw [client_pushClient] at hc ⊢
    split
    · exact ⟨hlt, hmanages⟩
    · next hne =>
      rw [if_neg hne] at hc
      exact hw c hc

theorem pushObject (w : World) {x : BufferObject} (hname : x.name = none)
    (htoken : x.token = none) :
    w.Spares { w with objects := w.objects.push x } named tokened := by
  refine .of_clients (fun p _ => ?_) (fun p _ => ?_) (Nat.le_refl _) (fun _ _ => rfl)
    fun c hc => ⟨hc, rfl⟩
  -- a position where nothing was put reads as an object without marks
  all_goals
    rw [object_pushObject]
    split
    · next hp => rw [hp, object_of_size_le (Nat.le_refl _)]; assumption
    · rfl

theorem newDevice (w : World) (config : Config) (features : Features) :
    w.Spares (w.newDevice config features).1 named tokened := by
  unfold World.newDevice
  split
  · exact (Spares.refl w).note _
  · split
    · exact (pushDevice w _).note _
    · exact (Spares.refl w).noteAll _
    · exact (Spares.refl w).noteAll _

theorem newClient {d : DeviceRef} (hd : d < w.devices.size) :
    w.Spares (w.newClient d).1 named tokened := by
  unfold World.newClient
  split
  · exact .refl w
  · next hmanages =>
    dsimp only
    generalize hw₁ : (w.updateDevice d _).note _ = w₁
    have h₁ : w.Spares w₁ named tokened := by
      rw [← hw₁]
      refine note _ (.updateDevice w d ?_)
      exact fun _ => rfl
    split
    · exact h₁.noteAll _
    · refine h₁.trans (pushClient w₁ (Nat.lt_of_lt_of_le hd h₁.size_devices) ?_)
      rw [managesBuffers_eq h₁.features_eq hd]
      simpa using hmanages

theorem newObject (w : World) (d : DeviceRef) (size : UInt64) :
    w.Spares (w.newObject d size).1 named tokened := by
  unfold World.newObject
  split
  · exact .refl w
  · split
    · exact (Spares.refl w).note _
    · refine Spares.trans (.updateDevice w d ?_) (.pushObject _ ?_ ?_)
      · exact fun _ => rfl
      · rfl
      · rfl

theorem leaveDevice (w : World) (d : DeviceRef) :
    w.Spares (w.leaveDevice d).1 named tokened := by
  unfold World.leaveDevice
  split
  · exact .updateDevice w d fun _ => rfl
  · exact .refl w

/-! ### Handles -/

theorem openHandle (w : World) (c : ClientRef) (o : ObjectRef) :
    w.Spares (w.openHandle c o).1 named tokened := by
  unfold World.openHandle
  dsimp only
  split
  · exact (Spares.refl w).note _
  · split
    · exact .refl w
    · split
      · exact ((setHandles w c _).trans (.retain _ o)).trans (.countHandle _ o)
      · exact (setHandles w c _).noteAll _

theorem takeHandle (w : World) (c : ClientRef) (h : Handle) :
    w.Spares (w.takeHandle c h).1 named tokened := by
  unfold World.takeHandle
  split
  · exact .refl w
  · split
    · exact .refl w
    · dsimp only
      split
      · exact setHandles w c _
      · exact (setHandles w c _).note _

theorem closeClient (w : World) (c : ClientRef) :
    w.Spares (w.closeClient c).1 named tokened := by
  unfold World.closeClient
  split
  · exact .refl w
  · exact ((setHandles w c none).noteAll _).note _

/-! ### The operations on marks -/

theorem publishName (w : World) (d : DeviceRef) (o : ObjectRef) :
    w.Spares (w.publishName d o).1 (some o) tokened := by
  unfold World.publishName
  dsimp only
  split
  · exact (Spares.refl w).note _
  · split
    · exact .refl w
    · split
      · exact (((setNames w d _).trans (.retain _ o)).trans (.setName _ o _)).note _
      · exact (setNames w d _).noteAll _

theorem retireName (w : World) (d : DeviceRef) (o : ObjectRef) :
    w.Spares (w.retireName d o).1 (some o) tokened := by
  unfold World.retireName
  split
  · exact .refl w
  · dsimp only
    split
    · exact (setName w o none).note _
    · split
      · exact ((setName w o none).trans (.setNames _ d _)).note _
      · split
        · exact (((setName w o none).trans (.setNames _ d _)).note _).trans
            (.updateCounts _ _ (fun _ => rfl) fun _ => rfl)
        · exact (setName w o none).trans (.setNames _ d _)

theorem createToken (w : World) (d : DeviceRef) (o : ObjectRef) :
    w.Spares (w.createToken d o).1 named (some o) := by
  unfold World.createToken
  dsimp only
  split
  · exact .refl w
  · split
    · exact ((setTokens w d _).trans (.setToken _ o _)).note _
    · exact (setTokens w d _).noteAll _

theorem destroyToken (w : World) (d : DeviceRef) (o : ObjectRef) :
    w.Spares (w.destroyToken d o).1 named (some o) := by
  unfold World.destroyToken
  dsimp only
  split
  · exact .refl w
  · split
    · exact (setToken w o none).note _
    · split <;> exact ((setToken w o none).trans (.setTokens _ d _)).note _

theorem endObject (w : World) (o : ObjectRef) :
    w.Spares (w.endObject o).1 named (some o) := by
  have hdying : w.Spares (w.note (.objectDying (w.object o).id)) named (some o) :=
    (Spares.refl w).note _
  unfold World.endObject
  dsimp only
  generalize hreleased : (if ((w.note (.objectDying (w.object o).id)).device
    (w.object o).home).alive = true then _ else (_ : World × Except Fault Unit)) = released
  have h : w.Spares released.1 named (some o) := by
    rw [← hreleased]
    split
    · exact hdying.trans (.destroyToken _ _ o)
    · exact hdying
  split
  · exact h
  · split
    · exact h
    · exact h.note _

theorem dropRef (w : World) (o : ObjectRef) : w.Spares (w.dropRef o).1 named (some o) := by
  have hless : w.Spares (w.updateObject o fun x => { x with refs := x.refs - 1 }) named (some o) :=
    .updateCounts w o (fun _ => rfl) fun _ => rfl
  unfold World.dropRef
  dsimp only
  split
  · exact hless.trans (.endObject _ o)
  · exact hless

end Spares

/-! ### What becomes of the mark that an operation is about -/

theorem name_setName_none (w : World) (o : ObjectRef) :
    ((w.setName o none).object o).name = none := by
  rw [setName, object_updateObject]
  split
  · rfl
  · next hne =>
    rw [object_of_size_le (Nat.le_of_not_lt fun hlt => hne ⟨rfl, hlt⟩)]
    rfl

theorem token_setToken_none (w : World) (o : ObjectRef) :
    ((w.setToken o none).object o).token = none := by
  rw [setToken, object_updateObject]
  split
  · rfl
  · next hne =>
    rw [object_of_size_le (Nat.le_of_not_lt fun hlt => hne ⟨rfl, hlt⟩)]
    rfl

/-- A name that is published is one that the object had, or had none before. -/
theorem name_publishName (w : World) (d : DeviceRef) (o : ObjectRef) :
    ((w.publishName d o).1.object o).name = (w.object o).name ∨
      (w.object o).name = none ∧ ∃ n, (w.publishName d o).2 = .ok n ∧
        ((w.publishName d o).1.object o).name = some n := by
  unfold publishName
  dsimp only
  split
  · exact Or.inl rfl
  · split
    · exact Or.inl rfl
    · next hnone =>
      split
      · next names' n _ =>
        rcases Nat.lt_or_ge o w.objects.size with hlt | hge
        · refine Or.inr ⟨hnone, n, rfl, ?_⟩
          simp [setName, object_updateObject, World.retain, setNames, hlt]
        · left
          simp [setName, object_updateObject, World.retain, setNames, Nat.not_lt.mpr hge]
      · exact Or.inl (by simp [setNames])

theorem name_retireName (w : World) (d : DeviceRef) (o : ObjectRef) :
    ((w.retireName d o).1.object o).name = none := by
  unfold retireName
  split
  · assumption
  · dsimp only
    split
    · exact name_setName_none w o
    · split
      · exact name_setName_none w o
      · split
        · dsimp only
          rw [object_updateObject]
          split <;> exact name_setName_none w o
        · exact name_setName_none w o

/-- Retiring a name uncounts no use. -/
theorem handles_retireName (w : World) (d : DeviceRef) (o p : ObjectRef) :
    ((w.retireName d o).1.object p).handles = (w.object p).handles := by
  have hset : ((w.setName o none).object p).handles = (w.object p).handles := by
    rw [setName, object_updateObject]
    split <;> rfl
  unfold retireName
  split
  · rfl
  · dsimp only
    split
    · exact hset
    · split
      · exact hset
      · split
        · dsimp only
          rw [object_updateObject]
          split <;> exact hset
        · exact hset

/-- After the last use nothing is counted. -/
theorem value_of_uncountHandle {w w' : World} {o : ObjectRef}
    (h : w.uncountHandle o = (w', .ok true)) : (w'.object o).handles.value = 0 := by
  have hlast : (w.object o).handles.decrement.2 = .ok true := congrArg Prod.snd h
  obtain rfl : (w.uncountHandle o).1 = w' := congrArg Prod.fst h
  unfold UseCount.decrement at hlast
  dsimp only at hlast
  split at hlast
  · cases hlast
  · next hne =>
    have hone : (w.object o).handles.value = 1 := by simpa using hlast
    -- an object that is not there counts nothing
    have hlt : o < w.objects.size := by
      refine Nat.lt_of_not_le fun hge => hne ?_
      rw [object_of_size_le hge]
      rfl
    rw [object_uncountHandle hlt, if_pos rfl, hone]
    rfl

theorem token_destroyToken (w : World) (d : DeviceRef) (o : ObjectRef) :
    ((w.destroyToken d o).1.object o).token = none := by
  unfold destroyToken
  dsimp only
  split
  · assumption
  · split
    · exact token_setToken_none w o
    · split <;> exact token_setToken_none w o

/-- Giving a token back takes no reference. -/
theorem refs_destroyToken (w : World) (d : DeviceRef) (o p : ObjectRef) :
    ((w.destroyToken d o).1.object p).refs = (w.object p).refs := by
  have hset : ((w.setToken o none).object p).refs = (w.object p).refs := by
    rw [setToken, object_updateObject]
    split <;> rfl
  unfold destroyToken
  dsimp only
  split
  · rfl
  · split
    · exact hset
    · split <;> exact hset

/-- The token of an object goes only with its last reference, when one is given up. -/
theorem token_dropRef (w : World) (o : ObjectRef) :
    ((w.dropRef o).1.object o).token = (w.object o).token ∨
      ((w.dropRef o).1.object o).token = none ∧ ((w.dropRef o).1.object o).refs = 0 := by
  have htoken (w : World) :
      ((w.updateObject o fun x => { x with refs := x.refs - 1 }).object o).token =
        (w.object o).token := by
    rw [object_updateObject]
    split <;> rfl
  unfold dropRef
  dsimp only
  split
  · next hone =>
    have hlt := lt_size_of_refs (w := w) (o := o) (by omega)
    unfold endObject
    dsimp only
    generalize hw₁ : (w.updateObject o fun x => { x with refs := x.refs - 1 }) = w₁
    have hzero : (w₁.object o).refs = 0 := by
      rw [← hw₁, object_updateObject, if_pos ⟨rfl, hlt⟩, hone]
    have hkept : (w₁.object o).token = (w.object o).token := by rw [← hw₁, htoken]
    generalize hreleased : (if ((w₁.note (.objectDying (w₁.object o).id)).device
      (w₁.object o).home).alive = true then _ else (_ : World × Except Fault Unit)) = released
    have h : (released.1.object o).token = (w.object o).token ∨
        (released.1.object o).token = none ∧ (released.1.object o).refs = 0 := by
      rw [← hreleased]
      split
      · exact Or.inr ⟨token_destroyToken .., (refs_destroyToken ..).trans hzero⟩
      · exact Or.inl hkept
    split
    · exact h
    · split <;> exact h
  · exact Or.inl (htoken w)

end BufferObjects.World
