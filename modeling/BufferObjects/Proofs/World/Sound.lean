import BufferObjects.Proofs.TokenTable
import BufferObjects.Proofs.World.Readings

/-!
What is true of a world whenever nobody is in the middle of changing it. The references that an
object counts are those of the handles that lead to it, the one of its name, and those that are held
outside the world, by callers and by operations in progress; the uses it counts are its handles and
those that operations have taken over but not yet uncounted. What is outside is a list beside the
world, so that an operation on the world can say how it shifts references between the two.

The tables agree with the fields of the objects: a name or a token leads to an object exactly when
the object carries it. Each part of the invariant depends on few fields, and its frame lemma says
which.
-/

open scoped List

namespace BufferObjects

/-- The objects under a client's handles, one entry for each handle. -/
def Client.items (c : Client) : List ObjectRef :=
  match c.handles with
  | some table => table.items
  | none => []

/-- The references that the name of an object holds. -/
def BufferObject.nameRefs (x : BufferObject) : Nat := if x.name.isSome then 1 else 0

namespace World

/-- How many handles lead to an object. -/
def handlesTo (w : World) (o : ObjectRef) : Nat :=
  (w.clients.toList.flatMap Client.items).count o

/-- Counts agree with what is counted. -/
structure Counted (w : World) (outside uses : List ObjectRef) : Prop where
  refs_eq : ∀ o, (w.object o).refs = w.handlesTo o + (w.object o).nameRefs + outside.count o
  uses_eq : ∀ o, (w.object o).handles.value = UInt64.ofNat (w.handlesTo o + uses.count o)

/-- Handles lead to objects of the client's device, and only clients that still exist have any. -/
structure ClientsSound (w : World) : Prop where
  wellFormed : ∀ c table, (w.client c).handles = some table → table.WellFormed firstHandle
  item_home : ∀ c, ∀ o ∈ (w.client c).items,
    o < w.objects.size ∧ (w.object o).home = (w.client c).device
  open_present : ∀ c, (w.client c).handles.isSome = true → (w.client c).present = true

/-- A device that someone keeps is there. -/
def KeptAlive (w : World) : Prop := ∀ d, w.isKept d = true → (w.device d).alive = true

/-- A name leads to an object exactly when the object carries it. -/
structure NamesSound (w : World) : Prop where
  wellFormed : ∀ d, (w.device d).alive = true → (w.device d).names.WellFormed firstName
  find?_iff : ∀ d n o, (w.device d).alive = true →
    ((w.device d).names.find? n = some o ↔ (w.object o).home = d ∧ (w.object o).name = some n)
  alive : ∀ o, (w.object o).name.isSome = true → (w.device (w.object o).home).alive = true

/-- A token leads to an object exactly when the object carries it, and no object is ahead of its
device. The objects of a device that has gone keep their tokens; these still have room in an address
and are still different. -/
structure TokensAgree (w : World) : Prop where
  wellFormed : ∀ d, (w.device d).alive = true → (w.device d).tokens.WellFormed
  home_lt : ∀ o, (w.object o).token.isSome = true → (w.object o).home < w.devices.size
  find?_iff : ∀ d t o, (w.device d).alive = true →
    ((w.device d).tokens.entries.find? t = some o ↔
      (w.object o).home = d ∧ (w.object o).token = some t)
  token_le : ∀ o t, (w.object o).token = some t → t ≤ MapAddress.maxToken
  unique : ∀ o p t, (w.object o).token = some t → (w.object p).token = some t →
    (w.object o).home = (w.object p).home → o = p

/-- And a dead object carries none that could be looked up. -/
structure TokensSound (w : World) : Prop extends TokensAgree w where
  live : ∀ o, (w.object o).token.isSome = true → (w.device (w.object o).home).alive = true →
    0 < (w.object o).refs

/-- All of it but for the link between names and handles, which breaks for a moment when the last
handle goes. -/
structure Consistent (w : World) (outside uses : List ObjectRef) : Prop where
  counted : w.Counted outside uses
  clients : w.ClientsSound
  kept : w.KeptAlive
  names : w.NamesSound
  tokens : w.TokensSound

/-- All of it: only objects in use have names. -/
structure Sound (w : World) (outside uses : List ObjectRef) : Prop
    extends Consistent w outside uses where
  named_used : ∀ o, (w.object o).name.isSome = true → 0 < w.handlesTo o + uses.count o

variable {w w' : World} {outside uses : List ObjectRef}

/-! ### Counting handles -/

theorem handlesTo_congr (h : w'.clients = w.clients) (o : ObjectRef) :
    w'.handlesTo o = w.handlesTo o := by rw [handlesTo, handlesTo, h]

/-- Rewriting a client exchanges what its handles contribute. -/
theorem handlesTo_updateClient {c : ClientRef} (hc : c < w.clients.size) (f : Client → Client)
    (o : ObjectRef) :
    (w.updateClient c f).handlesTo o + (w.client c).items.count o =
      w.handlesTo o + (f (w.client c)).items.count o := by
  have hget : w.clients.toList[c] = w.client c := by simp [client, hc]
  have hset : (w.updateClient c f).clients.toList = w.clients.toList.set c (f (w.client c)) := by
    change (w.clients.modify c f).toList = _
    rw [Array.toList_modify, List.modify_eq_set]
    simp [client]
  have hlt : c < w.clients.toList.length := hc
  have hperm := flatMap_set_perm Client.items (f (w.client c)) hlt
  have hcount := hperm.count_eq o
  rw [List.count_append, List.count_append, hget] at hcount
  rw [handlesTo, handlesTo, hset]
  omega

theorem handlesTo_pushClient (clients : Array Client) (c : Client) (o : ObjectRef) :
    ((clients.push c).toList.flatMap Client.items).count o =
      (clients.toList.flatMap Client.items).count o + c.items.count o := by
  simp

theorem isSome_handles_of_item {c : ClientRef} {o : ObjectRef} (ho : o ∈ (w.client c).items) :
    (w.client c).handles.isSome = true := by
  cases htable : (w.client c).handles with
  | none => simp [Client.items, htable] at ho
  | some table => rfl

theorem handlesTo_pos_iff {o : ObjectRef} : 0 < w.handlesTo o ↔ ∃ c, o ∈ (w.client c).items := by
  rw [handlesTo, List.count_pos_iff, List.mem_flatMap]
  constructor
  · rintro ⟨x, hx, ho⟩
    obtain ⟨c, hc, rfl⟩ := Array.mem_iff_getElem.mp (Array.mem_toList_iff.mp hx)
    exact ⟨c, by simpa [client, hc] using ho⟩
  · rintro ⟨c, ho⟩
    obtain ⟨table, htable⟩ := Option.isSome_iff_exists.mp (isSome_handles_of_item ho)
    have hc := lt_size_of_handles htable
    exact ⟨w.client c, by simp [client, hc], ho⟩

/-! ### Tables and what objects carry -/

/-- A table leads to the objects of a device, by the keys that they carry. -/
def Leads {κ : Type} (find : κ → Option ObjectRef) (home : ObjectRef → DeviceRef)
    (carried : ObjectRef → Option κ) (d : DeviceRef) : Prop :=
  ∀ k p, find k = some p ↔ home p = d ∧ carried p = some k

section Leads

variable {κ : Type} {find find' : κ → Option ObjectRef} {home : ObjectRef → DeviceRef}
  {carried carried' : ObjectRef → Option κ} {d : DeviceRef} {o : ObjectRef} {n : κ}

/-- What an object of another device carries does not matter. -/
theorem Leads.elsewhere (h : Leads find home carried d) (haway : home o ≠ d)
    (hcarried : ∀ p, o ≠ p → carried' p = carried p) : Leads find home carried' d := by
  intro k p
  by_cases hp : o = p
  · subst hp
    have hold := h k o
    simpa [haway] using hold
  · rw [hcarried p hp]
    exact h k p

variable [DecidableEq κ]

/-- An object of the device gets a key that was free. -/
theorem Leads.enter (h : Leads find home carried d) (hhome : home o = d) (hnone : carried o = none)
    (hfree : find n = none) (hfind : ∀ k, find' k = if k = n then some o else find k)
    (hcarried : ∀ p, carried' p = if o = p then some n else carried p) :
    Leads find' home carried' d := by
  intro k p
  have hold := h k p
  rw [hfind, hcarried]
  by_cases hp : o = p
  · subst hp
    rw [hnone] at hold
    by_cases hk : k = n
    · simp [hk, hhome]
    · simp [hk, hold, Ne.symm hk]
  · by_cases hk : k = n
    · subst hk
      rw [hfree] at hold
      simpa [hp] using hold
    · simpa [hp, hk] using hold

/-- An object of the device loses its key. -/
theorem Leads.leave (h : Leads find home carried d) (hhome : home o = d)
    (hsome : carried o = some n) (hfind : ∀ k, find' k = if k = n then none else find k)
    (hcarried : ∀ p, carried' p = if o = p then none else carried p) :
    Leads find' home carried' d := by
  intro k p
  have hold := h k p
  rw [hfind, hcarried]
  by_cases hp : o = p
  · subst hp
    rw [hsome] at hold
    by_cases hk : k = n
    · simp [hk]
    · simp [hk, hold, Ne.symm hk]
  · by_cases hk : k = n
    · subst hk
      rw [(h k o).mpr ⟨hhome, hsome⟩] at hold
      simpa [hp] using hold
    · simpa [hp, hk] using hold

end Leads

theorem NamesSound.leads (h : w.NamesSound) {d : DeviceRef} (halive : (w.device d).alive = true) :
    Leads (w.device d).names.find? (fun p => (w.object p).home) (fun p => (w.object p).name) d :=
  fun n o => h.find?_iff d n o halive

theorem TokensAgree.leads (h : w.TokensAgree) {d : DeviceRef}
    (halive : (w.device d).alive = true) :
    Leads (w.device d).tokens.entries.find? (fun p => (w.object p).home)
      (fun p => (w.object p).token) d :=
  fun t o => h.find?_iff d t o halive

/-! ### Consequences -/

/-- The table of a living device leads to no dead object. -/
theorem TokensSound.find?_iff_live (h : w.TokensSound) {d : DeviceRef}
    (halive : (w.device d).alive = true) (t : Token) (o : ObjectRef) :
    (w.device d).tokens.entries.find? t = some o ↔
      0 < (w.object o).refs ∧ (w.object o).home = d ∧ (w.object o).token = some t := by
  rw [h.find?_iff d t o halive]
  constructor
  · rintro ⟨hhome, htoken⟩
    exact ⟨h.live o (by rw [htoken]; rfl) (by rwa [hhome]), hhome, htoken⟩
  · rintro ⟨-, hhome, htoken⟩
    exact ⟨hhome, htoken⟩

theorem ClientsSound.present_of_item (h : w.ClientsSound) {c : ClientRef} {o : ObjectRef}
    (ho : o ∈ (w.client c).items) : (w.client c).present = true :=
  h.open_present c (isSome_handles_of_item ho)

theorem hasClient_iff {d : DeviceRef} :
    w.hasClient d = true ↔ ∃ c, (w.client c).present = true ∧ (w.client c).device = d := by
  rw [hasClient, Array.any_eq_true]
  constructor
  · rintro ⟨c, hc, h⟩
    rw [Bool.and_eq_true, beq_iff_eq] at h
    exact ⟨c, by simpa [client, hc] using h⟩
  · rintro ⟨c, hpresent, hdevice⟩
    have hc := lt_size_of_present hpresent
    refine ⟨c, hc, ?_⟩
    simpa [client, hc] using And.intro hpresent hdevice

theorem KeptAlive.of_present (h : w.KeptAlive) {c : ClientRef}
    (hpresent : (w.client c).present = true) :
    (w.device (w.client c).device).alive = true := by
  apply h
  rw [isKept, Bool.or_eq_true]
  exact Or.inr (hasClient_iff.mpr ⟨c, hpresent, rfl⟩)

theorem KeptAlive.of_held (h : w.KeptAlive) {d : DeviceRef} (hheld : (w.device d).held = true) :
    (w.device d).alive = true := by
  apply h
  rw [isKept, hheld, Bool.true_or]

namespace Consistent

theorem live_of_item (h : w.Consistent outside uses) {c : ClientRef} {o : ObjectRef}
    (ho : o ∈ (w.client c).items) : 0 < (w.object o).refs := by
  have hpos := handlesTo_pos_iff.mpr ⟨c, ho⟩
  have href := h.counted.refs_eq o
  omega

theorem live_of_outside (h : w.Consistent outside uses) {o : ObjectRef} (ho : o ∈ outside) :
    0 < (w.object o).refs := by
  have hpos := List.count_pos_iff.mpr ho
  have href := h.counted.refs_eq o
  omega

theorem live_of_name (h : w.Consistent outside uses) {o : ObjectRef}
    (ho : (w.object o).name.isSome = true) : 0 < (w.object o).refs := by
  have href := h.counted.refs_eq o
  rw [BufferObject.nameRefs, if_pos ho] at href
  omega

end Consistent

/-! ### Frames -/

theorem Counted.frame (h : w.Counted outside uses) (hclients : w'.clients = w.clients)
    (hobjects : ∀ o, (w'.object o).refs = (w.object o).refs ∧
      (w'.object o).name.isSome = (w.object o).name.isSome ∧
      (w'.object o).handles = (w.object o).handles) : w'.Counted outside uses where
  refs_eq o := by
    obtain ⟨hrefs, hname, -⟩ := hobjects o
    rw [hrefs, handlesTo_congr hclients, BufferObject.nameRefs, hname]
    exact h.refs_eq o
  uses_eq o := by
    obtain ⟨-, -, hhandles⟩ := hobjects o
    rw [hhandles, handlesTo_congr hclients]
    exact h.uses_eq o

theorem ClientsSound.frame (h : w.ClientsSound) (hclients : w'.clients = w.clients)
    (hsize : w.objects.size ≤ w'.objects.size)
    (hhome : ∀ o < w.objects.size, (w'.object o).home = (w.object o).home) : w'.ClientsSound where
  wellFormed c table hc := h.wellFormed c table (by rwa [client_congr hclients] at hc)
  item_home c o ho := by
    rw [client_congr hclients] at ho ⊢
    obtain ⟨hlt, heq⟩ := h.item_home c o ho
    exact ⟨Nat.lt_of_lt_of_le hlt hsize, (hhome o hlt).trans heq⟩
  open_present c hc := by
    rw [client_congr hclients] at hc ⊢
    exact h.open_present c hc

theorem KeptAlive.frame (h : w.KeptAlive) (hclients : w'.clients = w.clients)
    (hdevices : ∀ d, ((w'.device d).held = true → (w.device d).held = true) ∧
      ((w.device d).alive = true → (w'.device d).alive = true)) : w'.KeptAlive := by
  intro d hd
  apply (hdevices d).2
  apply h
  rw [isKept, Bool.or_eq_true] at hd ⊢
  rcases hd with hheld | hclient
  · exact Or.inl ((hdevices d).1 hheld)
  · rw [hasClient, hclients] at hclient
    exact Or.inr hclient

theorem NamesSound.frame (h : w.NamesSound)
    (hdevices : ∀ d, (w'.device d).names = (w.device d).names ∧
      (w'.device d).alive = (w.device d).alive)
    (hname : ∀ o, (w'.object o).name = (w.object o).name)
    (hhome : ∀ o, (w.object o).name.isSome = true → (w'.object o).home = (w.object o).home) :
    w'.NamesSound where
  wellFormed d hd := by
    rw [(hdevices d).2] at hd
    rw [(hdevices d).1]
    exact h.wellFormed d hd
  find?_iff d n o hd := by
    rw [(hdevices d).2] at hd
    rw [(hdevices d).1, h.find?_iff d n o hd, hname]
    constructor
    · rintro ⟨hh, hn⟩
      exact ⟨(hhome o (by simp [hn])).trans hh, hn⟩
    · rintro ⟨hh, hn⟩
      exact ⟨(hhome o (by simp [hn])).symm.trans hh, hn⟩
  alive o ho := by
    rw [hname] at ho
    rw [(hdevices _).2, hhome o ho]
    exact h.alive o ho

theorem TokensAgree.frame (h : w.TokensAgree) (hsize : w.devices.size ≤ w'.devices.size)
    (hdevices : ∀ d, (w'.device d).tokens = (w.device d).tokens ∧
      (w'.device d).alive = (w.device d).alive)
    (htoken : ∀ o, (w'.object o).token = (w.object o).token)
    (hhome : ∀ o, (w.object o).token.isSome = true → (w'.object o).home = (w.object o).home) :
    w'.TokensAgree where
  wellFormed d hd := by
    rw [(hdevices d).2] at hd
    rw [(hdevices d).1]
    exact h.wellFormed d hd
  home_lt o ho := by
    rw [htoken] at ho
    rw [hhome o ho]
    exact Nat.lt_of_lt_of_le (h.home_lt o ho) hsize
  find?_iff d t o hd := by
    rw [(hdevices d).2] at hd
    rw [(hdevices d).1, h.find?_iff d t o hd, htoken]
    constructor
    · rintro ⟨hh, ht⟩
      exact ⟨(hhome o (by simp [ht])).trans hh, ht⟩
    · rintro ⟨hh, ht⟩
      exact ⟨(hhome o (by simp [ht])).symm.trans hh, ht⟩
  token_le o t ho := h.token_le o t (by rwa [htoken] at ho)
  unique o p t ho hp heq := by
    rw [htoken] at ho hp
    rw [hhome o (by simp [ho]), hhome p (by simp [hp])] at heq
    exact h.unique o p t ho hp heq

theorem TokensSound.frame (h : w.TokensSound) (hsize : w.devices.size ≤ w'.devices.size)
    (hdevices : ∀ d, (w'.device d).tokens = (w.device d).tokens ∧
      (w'.device d).alive = (w.device d).alive)
    (htoken : ∀ o, (w'.object o).token = (w.object o).token)
    (hhome : ∀ o, (w.object o).token.isSome = true → (w'.object o).home = (w.object o).home)
    (hlive : ∀ o, 0 < (w.object o).refs → 0 < (w'.object o).refs) : w'.TokensSound where
  toTokensAgree := h.toTokensAgree.frame hsize hdevices htoken hhome
  live o ho hd := by
    rw [htoken] at ho
    rw [(hdevices _).2, hhome o ho] at hd
    exact hlive o (h.live o ho hd)

/-! ### What does not matter -/

/-- Neither the log nor the order of what is held outside matters. -/
theorem Consistent.congr {outside' uses' : List ObjectRef} (h : w.Consistent outside uses)
    (hdevices : w'.devices = w.devices) (hclients : w'.clients = w.clients)
    (hobjects : w'.objects = w.objects) (houtside : ∀ o, outside'.count o = outside.count o)
    (huses : ∀ o, uses'.count o = uses.count o) : w'.Consistent outside' uses' := by
  have hobject := object_congr hobjects
  have hdevice := device_congr hdevices
  have hcounted : w.Counted outside' uses' :=
    ⟨fun o => by rw [houtside]; exact h.counted.refs_eq o,
      fun o => by rw [huses]; exact h.counted.uses_eq o⟩
  refine ⟨hcounted.frame hclients fun o => by simp [hobject],
    h.clients.frame hclients (Nat.le_of_eq (by rw [hobjects])) fun o _ => by rw [hobject],
    h.kept.frame hclients fun d => by simp [hdevice],
    h.names.frame (fun d => by simp [hdevice]) (fun o => by rw [hobject])
      fun o _ => by rw [hobject],
    h.tokens.frame (Nat.le_of_eq (by rw [hdevices])) (fun d => by simp [hdevice])
      (fun o => by rw [hobject])
      (fun o _ => by rw [hobject]) fun o ho => by rwa [hobject]⟩

theorem Sound.congr {outside' uses' : List ObjectRef} (h : w.Sound outside uses)
    (hdevices : w'.devices = w.devices) (hclients : w'.clients = w.clients)
    (hobjects : w'.objects = w.objects) (houtside : ∀ o, outside'.count o = outside.count o)
    (huses : ∀ o, uses'.count o = uses.count o) : w'.Sound outside' uses' where
  toConsistent := h.toConsistent.congr hdevices hclients hobjects houtside huses
  named_used o ho := by
    rw [object_congr hobjects] at ho
    rw [handlesTo_congr hclients, huses]
    exact h.named_used o ho

theorem Consistent.note (n : Notice) (h : w.Consistent outside uses) :
    (w.note n).Consistent outside uses := h.congr rfl rfl rfl (fun _ => rfl) fun _ => rfl

theorem Sound.note (n : Notice) (h : w.Sound outside uses) : (w.note n).Sound outside uses :=
  h.congr rfl rfl rfl (fun _ => rfl) fun _ => rfl

theorem Sound.noteAll (ns : List Notice) (h : w.Sound outside uses) :
    (w.noteAll ns).Sound outside uses := by
  rw [noteAll_eq]
  exact h.congr rfl rfl rfl (fun _ => rfl) fun _ => rfl

theorem Sound.perm {outside' uses' : List ObjectRef} (h : w.Sound outside uses)
    (houtside : outside' ~ outside) (huses : uses' ~ uses) : w.Sound outside' uses' :=
  h.congr rfl rfl rfl houtside.count_eq huses.count_eq

/-! ### Worlds with other counts -/

/-- Only what is counted of objects differs, and whether they are prepared. -/
structure SameButCounts (w w' : World) : Prop where
  clients_eq : w'.clients = w.clients
  devices_eq : w'.devices = w.devices
  size_eq : w'.objects.size = w.objects.size
  object_eq : ∀ p, ∃ refs handles prepared,
    w'.object p = { w.object p with refs, handles, prepared }

namespace SameButCounts

theorem updateObject (w : World) (o : ObjectRef) {f : BufferObject → BufferObject}
    (hf : ∀ x, ∃ refs handles prepared, f x = { x with refs, handles, prepared }) :
    w.SameButCounts (w.updateObject o f) := by
  refine ⟨rfl, rfl, by simp, fun p => ?_⟩
  rw [object_updateObject]
  split
  · exact hf _
  · exact ⟨_, _, _, rfl⟩

theorem trans {w'' : World} (h : w.SameButCounts w') (h' : w'.SameButCounts w'') :
    w.SameButCounts w'' := by
  refine ⟨h'.clients_eq.trans h.clients_eq, h'.devices_eq.trans h.devices_eq,
    h'.size_eq.trans h.size_eq, fun p => ?_⟩
  obtain ⟨refs, handles, prepared, hp⟩ := h.object_eq p
  obtain ⟨refs', handles', prepared', hp'⟩ := h'.object_eq p
  exact ⟨refs', handles', prepared', by rw [hp', hp]⟩

theorem object_read {α : Type} (h : w.SameButCounts w') (f : BufferObject → α)
    (hf : ∀ x refs handles prepared, f { x with refs, handles, prepared } = f x) (p : ObjectRef) :
    f (w'.object p) = f (w.object p) := by
  obtain ⟨refs, handles, prepared, hp⟩ := h.object_eq p
  rw [hp, hf]

theorem home_eq (h : w.SameButCounts w') (p : ObjectRef) :
    (w'.object p).home = (w.object p).home :=
  h.object_read BufferObject.home (fun _ _ _ _ => rfl) p

theorem name_eq (h : w.SameButCounts w') (p : ObjectRef) :
    (w'.object p).name = (w.object p).name :=
  h.object_read BufferObject.name (fun _ _ _ _ => rfl) p

theorem token_eq (h : w.SameButCounts w') (p : ObjectRef) :
    (w'.object p).token = (w.object p).token :=
  h.object_read BufferObject.token (fun _ _ _ _ => rfl) p

theorem clientsSound (h : w.SameButCounts w') (hclients : w.ClientsSound) : w'.ClientsSound :=
  hclients.frame h.clients_eq (Nat.le_of_eq h.size_eq.symm) fun p _ => h.home_eq p

theorem keptAlive (h : w.SameButCounts w') (hkept : w.KeptAlive) : w'.KeptAlive :=
  hkept.frame h.clients_eq fun d => by simp [device_congr h.devices_eq d]

theorem namesSound (h : w.SameButCounts w') (hnames : w.NamesSound) : w'.NamesSound :=
  hnames.frame (fun d => by simp [device_congr h.devices_eq d]) h.name_eq fun p _ => h.home_eq p

theorem tokensAgree (h : w.SameButCounts w') (htokens : w.TokensAgree) : w'.TokensAgree :=
  htokens.frame (Nat.le_of_eq (by rw [h.devices_eq]))
    (fun d => by simp [device_congr h.devices_eq d]) h.token_eq fun p _ => h.home_eq p

/-- If the new counts are right and nothing with a token has died, everything is in order. -/
theorem consistent (h : w.SameButCounts w') (hclients : w.ClientsSound) (hkept : w.KeptAlive)
    (hnames : w.NamesSound) (htokens : w.TokensSound) (hcounted : w'.Counted outside uses)
    (hlive : ∀ p, 0 < (w.object p).refs → 0 < (w'.object p).refs) :
    w'.Consistent outside uses where
  counted := hcounted
  clients := h.clientsSound hclients
  kept := h.keptAlive hkept
  names := h.namesSound hnames
  tokens :=
    { toTokensAgree := h.tokensAgree htokens.toTokensAgree
      live := fun p hp hd => by
        rw [h.token_eq] at hp
        rw [h.home_eq, device_congr h.devices_eq] at hd
        exact hlive p (htokens.live p hp hd) }

end SameButCounts

/-! ### One reference more -/

theorem object_retain (w : World) (o p : ObjectRef) :
    (w.retain o).object p =
      if o = p ∧ o < w.objects.size then { w.object p with refs := (w.object p).refs + 1 }
      else w.object p :=
  object_updateObject ..

theorem Consistent.retain (h : w.Consistent outside uses) {o : ObjectRef}
    (ho : o < w.objects.size) : (w.retain o).Consistent (o :: outside) uses := by
  have hsame : w.SameButCounts (w.retain o) := .updateObject w o fun _ => ⟨_, _, _, rfl⟩
  refine hsame.consistent h.clients h.kept h.names h.tokens ⟨fun p => ?_, fun p => ?_⟩
    fun p hp => ?_
  · have href := h.counted.refs_eq p
    change _ = w.handlesTo p + _ + _
    rw [object_retain, List.count_cons]
    by_cases hp : o = p
    · subst hp
      simp only [ho, and_self, if_true, BufferObject.nameRefs, beq_self_eq_true] at href ⊢
      omega
    · simp only [hp, false_and, if_false, beq_iff_eq]
      omega
  · change _ = UInt64.ofNat (w.handlesTo p + _)
    rw [object_retain, ← h.counted.uses_eq p]
    split <;> rfl
  · rw [object_retain]
    split
    · exact Nat.succ_pos _
    · exact hp

theorem Sound.retain (h : w.Sound outside uses) {o : ObjectRef} (ho : o < w.objects.size) :
    (w.retain o).Sound (o :: outside) uses where
  toConsistent := h.toConsistent.retain ho
  named_used p hp := by
    apply h.named_used p
    rw [object_retain] at hp
    split at hp <;> exact hp

end World

end BufferObjects
