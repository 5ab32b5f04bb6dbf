import BufferObjects.Proofs.World.Continuity
import BufferObjects.Proofs.World.Sound

/-!
Worlds that nobody can tell apart. A request that is given up half way gives back what it took, and
only the allocators may remember in their own way that an id has come and gone. The same is true
when nothing happens but a report, or memory changes its mind. Everything that is said of a world
here is said of objects, of what tables lead to and of ids in use, so it holds of the one world as
of the other.
-/

open scoped List

namespace BufferObjects

/-- The same device, with names and tokens alike. -/
structure Device.Alike (x y : Device) : Prop where
  names : x.names.Alike y.names
  tokens : x.tokens.Alike y.tokens
  rest : y = { x with names := y.names, tokens := y.tokens }

/-- Two clients are both closed, or have handles alike. -/
def Client.HandlesAlike (x y : Client) : Prop :=
  x.handles = none ∧ y.handles = none ∨
    ∃ table table', x.handles = some table ∧ y.handles = some table' ∧ table.Alike table'

/-- The same client, with handles alike. -/
structure Client.Alike (x y : Client) : Prop where
  handles : x.HandlesAlike y
  rest : y = { x with handles := y.handles }

namespace Device.Alike

variable {x y z : Device}

theorem refl (x : Device) : x.Alike x := ⟨.refl _, .refl _, rfl⟩

theorem trans (h : x.Alike y) (h' : y.Alike z) : x.Alike z where
  names := h.names.trans h'.names
  tokens := h.tokens.trans h'.tokens
  rest := by
    rw [h'.rest, h.rest]

theorem held_eq (h : x.Alike y) : y.held = x.held := by rw [h.rest]

theorem alive_eq (h : x.Alike y) : y.alive = x.alive := by rw [h.rest]

end Device.Alike

namespace Client.HandlesAlike

variable {x y z : Client}

theorem of_eq (heq : y.handles = x.handles) : x.HandlesAlike y := by
  cases hx : x.handles with
  | none => exact Or.inl ⟨hx, heq.trans hx⟩
  | some table => exact Or.inr ⟨table, table, hx, heq.trans hx, .refl table⟩

theorem trans (h : x.HandlesAlike y) (h' : y.HandlesAlike z) : x.HandlesAlike z := by
  rcases h with ⟨hx, hy⟩ | ⟨table, table', hx, hy, halike⟩
  · rcases h' with ⟨-, hz⟩ | ⟨_, _, hy', -, -⟩
    · exact Or.inl ⟨hx, hz⟩
    · rw [hy] at hy'
      cases hy'
  · rcases h' with ⟨hy', -⟩ | ⟨_, table'', hy', hz, halike'⟩
    · rw [hy] at hy'
      cases hy'
    · obtain rfl := Option.some.inj (hy.symm.trans hy')
      exact Or.inr ⟨table, table'', hx, hz, halike.trans halike'⟩

theorem items_eq (h : x.HandlesAlike y) : y.items = x.items := by
  rcases h with ⟨hx, hy⟩ | ⟨table, table', hx, hy, halike⟩
  · rw [Client.items, Client.items, hx, hy]
  · rw [Client.items, Client.items, hx, hy]
    exact halike.items_eq

theorem isSome_eq (h : x.HandlesAlike y) : y.handles.isSome = x.handles.isSome := by
  rcases h with ⟨hx, hy⟩ | ⟨table, table', hx, hy, -⟩
  · rw [hx, hy]
  · rw [hx, hy, Option.isSome_some, Option.isSome_some]

/-- What is in order with the one is in order with the other. -/
theorem wellFormed (h : x.HandlesAlike y)
    (hwf : ∀ table, x.handles = some table → table.WellFormed firstHandle) (table : HandleTable)
    (htable : y.handles = some table) : table.WellFormed firstHandle := by
  rcases h with ⟨-, hy⟩ | ⟨table₀, table', hx, hy, halike⟩
  · rw [htable] at hy
    cases hy
  · obtain rfl := Option.some.inj (htable.symm.trans hy)
    exact halike.wellFormed (hwf table₀ hx)

end Client.HandlesAlike

namespace Client.Alike

variable {x y z : Client}

theorem refl (x : Client) : x.Alike x := ⟨.of_eq rfl, rfl⟩

theorem trans (h : x.Alike y) (h' : y.Alike z) : x.Alike z where
  handles := h.handles.trans h'.handles
  rest := by
    rw [h'.rest, h.rest]

theorem device_eq (h : x.Alike y) : y.device = x.device := by rw [h.rest]

theorem present_eq (h : x.Alike y) : y.present = x.present := by rw [h.rest]

end Client.Alike

namespace World

/-- Objects are the same; devices and clients are, too, but for the way in which their allocators
remember what is free. -/
structure Restores (w w' : World) : Prop where
  objects_eq : w'.objects = w.objects
  devices_size : w'.devices.size = w.devices.size
  clients_size : w'.clients.size = w.clients.size
  device : ∀ d, (w.device d).Alike (w'.device d)
  client : ∀ c, (w.client c).Alike (w'.client c)

variable {w w' w'' : World} {outside uses : List ObjectRef} {d : DeviceRef} {c : ClientRef}

namespace Restores

/-! ### How worlds come to be alike -/

theorem of_eq (hobjects : w'.objects = w.objects) (hdevices : w'.devices = w.devices)
    (hclients : w'.clients = w.clients) : w.Restores w' where
  objects_eq := hobjects
  devices_size := by rw [hdevices]
  clients_size := by rw [hclients]
  device d := device_congr hdevices d ▸ .refl _
  client c := client_congr hclients c ▸ .refl _

theorem refl (w : World) : w.Restores w := .of_eq rfl rfl rfl

theorem trans (h : w.Restores w') (h' : w'.Restores w'') : w.Restores w'' where
  objects_eq := h'.objects_eq.trans h.objects_eq
  devices_size := h'.devices_size.trans h.devices_size
  clients_size := h'.clients_size.trans h.clients_size
  device d := (h.device d).trans (h'.device d)
  client c := (h.client c).trans (h'.client c)

theorem note (w : World) (n : Notice) : w.Restores (w.note n) := .of_eq rfl rfl rfl

theorem noteAll (w : World) (ns : List Notice) : w.Restores (w.noteAll ns) :=
  .of_eq (objects_noteAll w ns) (devices_noteAll w ns) (clients_noteAll w ns)

/-- What there is room for is nowhere to be seen. -/
theorem under (w : World) (memory : Memory) : w.Restores (w.under memory) := .of_eq rfl rfl rfl

theorem updateDevice {f : Device → Device} (h : (w.device d).Alike (f (w.device d))) :
    w.Restores (w.updateDevice d f) where
  objects_eq := rfl
  devices_size := size_devices_updateDevice ..
  clients_size := rfl
  device e := by
    rw [device_updateDevice]
    split
    · next heq =>
      obtain ⟨rfl, -⟩ := heq
      exact h
    · exact .refl _
  client c := .refl _

theorem setNames {names : NumberedTable ObjectRef} (h : (w.device d).names.Alike names) :
    w.Restores (w.setNames d names) := .updateDevice ⟨h, .refl _, rfl⟩

theorem setTokens {tokens : TokenTable} (h : (w.device d).tokens.Alike tokens) :
    w.Restores (w.setTokens d tokens) := .updateDevice ⟨.refl _, h, rfl⟩

theorem setHandles {table table' : HandleTable} (htable : (w.client c).handles = some table)
    (h : table.Alike table') : w.Restores (w.setHandles c (some table')) where
  objects_eq := rfl
  devices_size := rfl
  clients_size := size_clients_updateClient ..
  device d := .refl _
  client e := by
    rw [World.setHandles, client_updateClient]
    split
    · next heq =>
      obtain ⟨rfl, -⟩ := heq
      exact ⟨Or.inr ⟨table, table', htable, rfl, h⟩, rfl⟩
    · exact .refl _

/-! ### What is the same in them -/

theorem object_eq (h : w.Restores w') (o : ObjectRef) : w'.object o = w.object o :=
  object_congr h.objects_eq o

theorem handlesTo_eq (h : w.Restores w') (o : ObjectRef) : w'.handlesTo o = w.handlesTo o := by
  have hitems : w'.clients.toList.map Client.items = w.clients.toList.map Client.items := by
    refine List.ext_getElem (by simp [h.clients_size]) fun c hc' hc => ?_
    simp only [List.length_map, Array.length_toList] at hc hc'
    have hsame := (h.client c).handles.items_eq
    simpa [World.client, hc, hc'] using hsame
  rw [handlesTo, handlesTo, List.flatMap_def, List.flatMap_def, hitems]

theorem hasClient_eq (h : w.Restores w') (d : DeviceRef) : w'.hasClient d = w.hasClient d := by
  rw [Bool.eq_iff_iff, hasClient_iff, hasClient_iff]
  refine exists_congr fun c => ?_
  rw [(h.client c).present_eq, (h.client c).device_eq]

theorem isKept_eq (h : w.Restores w') (d : DeviceRef) : w'.isKept d = w.isKept d := by
  rw [isKept, isKept, h.hasClient_eq, (h.device d).held_eq]

/-! ### What holds of one holds of the other -/

theorem keeps (h : w.Restores w') : w.Keeps w' where
  size_objects := Nat.le_of_eq (by rw [h.objects_eq])
  size_clients := Nat.le_of_eq h.clients_size.symm
  home o _ := by rw [h.object_eq]
  device c _ := (h.client c).device_eq
  closed c _ hnone := by
    have hsome := (h.client c).handles.isSome_eq
    rw [hnone] at hsome
    simpa using hsome
  dead o _ hdead := by rwa [h.object_eq]
  live o _ := by rw [h.object_eq]
  prepared o _ := by rw [h.object_eq]
  present c _ := (h.client c).present_eq
  born o ho hold := by
    rw [h.objects_eq] at ho
    exact absurd ho (Nat.not_lt.mpr hold)

theorem counted (h : w.Restores w') (hcounted : w.Counted outside uses) :
    w'.Counted outside uses where
  refs_eq o := by
    rw [h.object_eq, h.handlesTo_eq]
    exact hcounted.refs_eq o
  uses_eq o := by
    rw [h.object_eq, h.handlesTo_eq]
    exact hcounted.uses_eq o

theorem clientsSound (h : w.Restores w') (hclients : w.ClientsSound) : w'.ClientsSound where
  wellFormed c := (h.client c).handles.wellFormed (hclients.wellFormed c)
  item_home c o ho := by
    rw [(h.client c).handles.items_eq] at ho
    rw [h.objects_eq, h.object_eq, (h.client c).device_eq]
    exact hclients.item_home c o ho
  open_present c hc := by
    rw [(h.client c).handles.isSome_eq] at hc
    rw [(h.client c).present_eq]
    exact hclients.open_present c hc

theorem keptAlive (h : w.Restores w') (hkept : w.KeptAlive) : w'.KeptAlive := by
  intro d hd
  rw [h.isKept_eq] at hd
  rw [(h.device d).alive_eq]
  exact hkept d hd

theorem namesSound (h : w.Restores w') (hnames : w.NamesSound) : w'.NamesSound where
  wellFormed d hd := by
    rw [(h.device d).alive_eq] at hd
    exact (h.device d).names.wellFormed (hnames.wellFormed d hd)
  find?_iff d n o hd := by
    rw [(h.device d).alive_eq] at hd
    rw [(h.device d).names.find?_eq, h.object_eq]
    exact hnames.find?_iff d n o hd
  alive o ho := by
    rw [h.object_eq] at ho ⊢
    rw [(h.device _).alive_eq]
    exact hnames.alive o ho

theorem tokensAgree (h : w.Restores w') (htokens : w.TokensAgree) : w'.TokensAgree where
  wellFormed d hd := by
    rw [(h.device d).alive_eq] at hd
    exact (h.device d).tokens.wellFormed (htokens.wellFormed d hd)
  home_lt o ho := by
    rw [h.object_eq] at ho ⊢
    rw [h.devices_size]
    exact htokens.home_lt o ho
  find?_iff d t o hd := by
    rw [(h.device d).alive_eq] at hd
    rw [(h.device d).tokens.entries_eq, h.object_eq]
    exact htokens.find?_iff d t o hd
  token_le o t ho := htokens.token_le o t (by rwa [h.object_eq] at ho)
  unique o p t ho hp hhome := by
    simp only [h.object_eq] at ho hp hhome
    exact htokens.unique o p t ho hp hhome

theorem tokensSound (h : w.Restores w') (htokens : w.TokensSound) : w'.TokensSound where
  toTokensAgree := h.tokensAgree htokens.toTokensAgree
  live o ho hd := by
    rw [h.object_eq] at ho hd ⊢
    rw [(h.device _).alive_eq] at hd
    exact htokens.live o ho hd

theorem sound (h : w.Restores w') (hsound : w.Sound outside uses) : w'.Sound outside uses where
  counted := h.counted hsound.counted
  clients := h.clientsSound hsound.clients
  kept := h.keptAlive hsound.kept
  names := h.namesSound hsound.names
  tokens := h.tokensSound hsound.tokens
  named_used o ho := by
    rw [h.object_eq] at ho
    rw [h.handlesTo_eq]
    exact hsound.named_used o ho

end Restores

end World

end BufferObjects
