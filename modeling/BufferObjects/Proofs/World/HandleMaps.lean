import BufferObjects.Proofs.HandleMap
import BufferObjects.Proofs.World.Handles

/-!
Clients' tables as maps. Opening a handle, taking one out and closing a client each do to the map of
that client what they should, and do not touch the map of any other client.
-/

namespace BufferObjects

namespace World

variable {w w' : World} {c e : ClientRef} {o : ObjectRef} {h : Handle}

/-- What the handles of a client lead to. -/
def handleMap (w : World) (c : ClientRef) : HandleMap :=
  (w.client c).handles.map NumberedTable.find?

theorem lookupHandle_eq (w : World) (c : ClientRef) (h : Handle) :
    w.lookupHandle c h = (w.handleMap c).lookup h := by
  unfold lookupHandle handleMap
  cases (w.client c).handles with
  | none => rfl
  | some table => rfl

theorem handleMap_congr (h : (w.client c).HandlesAlike (w'.client c)) :
    w'.handleMap c = w.handleMap c := by
  rcases h with ⟨hnone, hnone'⟩ | ⟨table, table', htable, htable', halike⟩
  · rw [handleMap, handleMap, hnone, hnone']
  · rw [handleMap, handleMap, htable, htable', Option.map_some, Option.map_some,
      funext halike.find?_eq]

theorem handleMap_of_size_le (hc : w.clients.size ≤ c) : w.handleMap c = none := by
  rw [handleMap, client_of_size_le hc]
  rfl

/-- The map of one client has changed, and no other. -/
structure Remaps (w : World) (c : ClientRef) (b : HandleMap) (w' : World) : Prop where
  tables : w'.TablesSound
  size_eq : w'.clients.size = w.clients.size
  handleMap_eq : ∀ e, w'.handleMap e = if e = c then b else w.handleMap e

theorem TablesSound.remaps_setHandles (hwf : w.TablesSound) (handles : Option HandleTable)
    (hc : c < w.clients.size ∨ handles = none)
    (hnew : ∀ table, handles = some table → table.WellFormed firstHandle) :
    w.Remaps c (handles.map NumberedTable.find?) (w.setHandles c handles) where
  tables e table he := by
    rw [client_setHandles] at he
    split at he
    · exact hnew table he
    · exact hwf e table he
  size_eq := size_clients_updateClient ..
  handleMap_eq e := by
    rw [handleMap, client_setHandles]
    by_cases he : e = c
    · subst he
      by_cases hlt : e < w.clients.size
      · simp only [hlt, and_self, if_true]
      · obtain rfl := hc.resolve_left hlt
        rw [if_neg fun hboth => hlt hboth.2, if_pos rfl]
        exact handleMap_of_size_le (Nat.le_of_not_lt hlt)
    · rw [if_neg fun hboth => he hboth.1.symm, if_neg he]
      rfl

theorem Remaps.of_clients {w₁ : World} {b : HandleMap} (hremaps : w.Remaps c b w₁)
    (hclients : w'.clients = w₁.clients) : w.Remaps c b w' where
  tables e table he := hremaps.tables e table (by rwa [client_congr hclients] at he)
  size_eq := hclients ▸ hremaps.size_eq
  handleMap_eq e := by
    rw [← hremaps.handleMap_eq]
    exact handleMap_congr (.of_eq (by rw [client_congr hclients]))

/-- What opening a handle does: it takes the least that is not in use, or is refused and leaves a
world that nobody can tell from the one before. -/
inductive Opens (w : World) (c : ClientRef) (o : ObjectRef) :
    World × Outcome RequestError Handle → Prop
  | given {w' : World} {h : Handle} : (w.object o).home = (w.client c).device →
      (w.handleMap c).vacancy? = some h → w.Remaps c ((w.handleMap c).enter h o) w' →
      Opens w c o (w', .ok h)
  | exhausted {w' : World} : (w.object o).home = (w.client c).device →
      (w.handleMap c).vacancy? = none → w.Restores w' →
      Opens w c o (w', .error (if w.handleMap c = none then .invalidArgument else .outOfSpace))
  | noRoom {w' : World} : (w.object o).home = (w.client c).device →
      w.memory.ids = false ∨ w.memory.entry = false → w.Restores w' →
      Opens w c o (w', .error .outOfMemory)
  | foreign {w' : World} : (w.object o).home ≠ (w.client c).device → w.Restores w' →
      Opens w c o (w', .error .invalidArgument)

theorem TablesSound.opens (hwf : w.TablesSound) (c : ClientRef) (o : ObjectRef) :
    w.Opens c o (w.openHandle c o) := by
  unfold openHandle
  dsimp only
  split
  · next hforeign => exact .foreign hforeign (.note w _)
  · next hhome =>
    rw [ne_eq, Decidable.not_not] at hhome
    cases htable : (w.client c).handles with
    | none =>
      have hmap : w.handleMap c = none := by rw [handleMap, htable]; rfl
      have hexhausted := Opens.exhausted hhome (by rw [hmap]; rfl) (.refl w)
      rwa [if_pos hmap] at hexhausted
    | some table =>
      have hmap : w.handleMap c = some table.find? := by rw [handleMap, htable]; rfl
      dsimp only
      have hissuing := (hwf c table htable).issuing o w.memory
      have hback {table' : HandleTable} (halike : table.Alike table') (ns : List Notice) :
          w.Restores ((w.setHandles c (some table')).noteAll ns) :=
        (Restores.setHandles htable halike).trans (.noteAll _ ns)
      rcases hissue : table.issue o w.memory with ⟨table', issued⟩
      rw [hissue] at hissuing
      cases hissuing with
      | full hall =>
        have hnone : (w.handleMap c).vacancy? = none := by
          rw [hmap, Option.eq_none_iff_forall_ne_some]
          intro g hg
          have hleast := HandleMap.vacancy?_eq_some_iff.mp hg
          exact hall g hleast.first_le hleast.le_last hleast.unused
        have hexhausted := Opens.exhausted hhome hnone (hback (.refl table) [])
        rwa [if_neg (by rw [hmap]; exact Option.some_ne_none _)] at hexhausted
      | noIds hrefused => exact .noRoom hhome (Or.inl hrefused) (hback (.refl table) _)
      | noEntry hrefused halike => exact .noRoom hhome (Or.inr hrefused) (hback halike _)
      | @filed _ h hwf' hissues hfirst hlast hbelow =>
        have hleast : HandleMap.LeastUnused table.find? h :=
          ⟨hfirst, hlast, hissues.wasFree, hbelow⟩
        have hupdate : Function.update table.find? h (some o) = table'.find? := by
          funext j
          rw [Function.update_apply, hissues.find?_eq]
        have hremaps : w.Remaps c ((w.handleMap c).enter h o) (w.setHandles c (some table')) := by
          rw [hmap, HandleMap.enter, Option.map_some, hupdate]
          exact hwf.remaps_setHandles _ (Or.inl (lt_size_of_handles htable)) fun t ht =>
            Option.some.inj ht ▸ hwf'
        refine .given hhome ?_ (hremaps.of_clients rfl)
        rw [hmap]
        exact HandleMap.vacancy?_eq_some_iff.mpr hleast

/-- Taking a handle out takes it out of the map, and answers what it led to. -/
theorem TablesSound.remaps_takeHandle (hwf : w.TablesSound) (c : ClientRef) (h : Handle) :
    w.Remaps c ((w.handleMap c).strike h) (w.takeHandle c h).1 ∧
      (w.takeHandle c h).2 = ((w.handleMap c).find? h).map fun o => (o, .ok ()) := by
  rcases htake : w.takeHandle c h with ⟨w', _ | ⟨o, freed⟩⟩
  · obtain ⟨rfl, hnone⟩ := of_takeHandle_none htake
    have hfind : (w'.handleMap c).find? h = none := by
      rw [Option.eq_none_iff_forall_ne_some]
      intro o ho
      exact hnone o (by rw [lookupHandle_eq, HandleMap.lookup_eq_ok, ho])
    refine ⟨⟨hwf, rfl, fun e => ?_⟩, by rw [hfind]; rfl⟩
    rw [HandleMap.strike_eq_self hfind]
    split
    · next he => rw [he]
    · rfl
  · obtain ⟨rfl, table, table', htable, hfind, hwf', hwith, rfl⟩ := hwf.of_takeHandle_some htake
    have hmap : w.handleMap c = some table.find? := by rw [handleMap, htable]; rfl
    have hupdate : Function.update table.find? h none = table'.find? := by
      funext j
      rw [Function.update_apply, hwith.find?_eq]
    rw [hmap, HandleMap.strike, Option.map_some, hupdate]
    refine ⟨hwf.remaps_setHandles _ (Or.inl (lt_size_of_handles htable)) fun t ht =>
      Option.some.inj ht ▸ hwf', ?_⟩
    exact (congrArg (Option.map fun o => (o, Except.ok ())) hfind).symm

theorem TablesSound.remaps_closeClient (hwf : w.TablesSound) (c : ClientRef) :
    w.Remaps c none (w.closeClient c).1 := by
  obtain ⟨ns, heq⟩ := w.exists_closeClient c
  rw [heq]
  exact (hwf.remaps_setHandles none (Or.inr rfl) nofun).of_clients (by simp)

end World

end BufferObjects
