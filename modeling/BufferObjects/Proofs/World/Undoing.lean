import BufferObjects.Proofs.World.Handles
import BufferObjects.Proofs.World.Restoring
import BufferObjects.World.Lifetime

/-!
Steps that are taken back. A reference that is taken and given up, a use that is counted and
uncounted, a handle that is opened and taken out: each pair leaves the world as it was. Only an
allocator may remember in its own way that an id has come and gone; what it will hand out next is
not touched by that, unless it was short of memory and is so no more.
-/

namespace BufferObjects.World

variable {w w' : World} {c : ClientRef} {o : ObjectRef}

/-! ### References and uses -/

/-- A reference that is taken and given up again has changed nothing. -/
theorem dropRef_retain (hlive : 0 < (w.object o).refs) :
    (w.retain o).dropRef o = (w, .ok .settled) := by
  have hrefs : ((w.retain o).object o).refs = (w.object o).refs + 1 := by
    rw [object_retain, if_pos ⟨rfl, lt_size_of_refs hlive⟩]
  have hback : (w.retain o).updateObject o (fun x => { x with refs := x.refs - 1 }) = w := by
    have hself : (w.objects.modify o fun x => { x with refs := x.refs + 1 }).modify o
        (fun x => { x with refs := x.refs - 1 }) = w.objects :=
      modify_modify_eq_self default rfl
    rw [World.retain, updateObject, updateObject]
    dsimp only
    rw [hself]
  rw [World.dropRef, hrefs, if_neg (by omega), hback]

/-- Nor has a use that is counted and uncounted again, and it was the last if there was none. -/
theorem uncountHandle_countHandle (hlt : o < w.objects.size)
    (hfit : (w.object o).handles.value + 1 ≠ 0) : (w.countHandle o).uncountHandle o =
      (w, .ok ((w.object o).handles.value == 0)) := by
  have hhandles : ((w.countHandle o).object o).handles = (w.object o).handles.increment := by
    rw [countHandle, object_updateObject, if_pos ⟨rfl, hlt⟩]
  have hdecrement : (w.object o).handles.increment.decrement =
      ((w.object o).handles, .ok ((w.object o).handles.value == 0)) := by
    have hvalue : (w.object o).handles.value + 1 - 1 = (w.object o).handles.value :=
      UInt64.add_sub_cancel ..
    have hlast : ((w.object o).handles.value + 1 == 1) = ((w.object o).handles.value == 0) := by
      rw [Bool.eq_iff_iff, beq_iff_eq, beq_iff_eq]
      exact ⟨fun h => by rw [← hvalue, h]; rfl, fun h => by rw [h]; rfl⟩
    rw [UseCount.decrement, UseCount.increment, if_neg hfit, hvalue, hlast]
  have hback : (w.countHandle o).updateObject o
      (fun x => { x with handles := (w.object o).handles }) = w := by
    have hself : (w.objects.modify o fun x => { x with handles := x.handles.increment }).modify o
        (fun x => { x with handles := (w.object o).handles }) = w.objects :=
      modify_modify_eq_self default rfl
    rw [countHandle, updateObject, updateObject]
    dsimp only
    rw [hself]
  rw [World.uncountHandle, hhandles, hdecrement]
  dsimp only
  rw [hback]

/-- An object that lives, has room for one more use, and has no name as long as it has none. -/
structure Usable (w : World) (o : ObjectRef) : Prop where
  live : 0 < (w.object o).refs
  fits : (w.object o).handles.value + 1 ≠ 0
  unnamed : (w.object o).handles.value = 0 → (w.object o).name = none

theorem Usable.of_objects (h : w.Usable o) (heq : w'.objects = w.objects) : w'.Usable o := by
  have hobject := object_congr heq o
  exact ⟨by rw [hobject]; exact h.live, by rw [hobject]; exact h.fits,
    by rw [hobject]; exact h.unnamed⟩

theorem Usable.retain (h : w.Usable o) : (w.retain o).Usable o := by
  have hobject : (w.retain o).object o = { w.object o with refs := (w.object o).refs + 1 } := by
    rw [object_retain, if_pos ⟨rfl, lt_size_of_refs h.live⟩]
  exact ⟨by rw [hobject]; exact Nat.succ_pos _, by rw [hobject]; exact h.fits,
    by rw [hobject]; exact h.unnamed⟩

/-- A world that differs in nothing that can be told from one in which a reference is held is what
comes of holding it in a world that differs in nothing from the one before. -/
theorem Restores.exists_of_retain {w₁ : World} (h : (w.retain o).Restores w₁) :
    ∃ w', w₁ = w'.retain o ∧ w.Restores w' := by
  refine ⟨{ w₁ with objects := w.objects }, ?_, rfl, h.devices_size, h.clients_size, h.device,
    h.client⟩
  obtain ⟨devices, clients, objects, log, memory⟩ := w₁
  obtain rfl : objects = (w.retain o).objects := h.objects_eq
  rfl

/-! ### Handles -/

/-- Taking out the handle that was just opened finds its object, and leaves the client with the
entries and the free handles that it had. -/
theorem takeHandle_of_issue (hwf : w.TablesSound) {table table' : HandleTable} {h : Handle}
    {memory : Memory} (htable : (w.client c).handles = some table)
    (hissue : table.issue o memory = (table', .ok h)) (n : Notice) :
    ∃ table'', table.Alike table'' ∧
      ((((w.setHandles c (some table')).retain o).countHandle o).note n).takeHandle c h =
        ((((w.setHandles c (some table'')).note n).retain o).countHandle o, some (o, .ok ())) := by
  obtain ⟨table'', hwith, halike⟩ := (hwf c table htable).withdraw_of_issue hissue
  refine ⟨table'', halike, ?_⟩
  have hread : ((((w.setHandles c (some table')).retain o).countHandle o).note n).client c =
      (w.setHandles c (some table')).client c := rfl
  have hput : ((((w.setHandles c (some table')).retain o).countHandle o).note n).setHandles c
      (some table'') =
        ((((w.setHandles c (some table')).setHandles c (some table'')).note n).retain
          o).countHandle o := rfl
  rw [takeHandle, hread, client_setHandles, if_pos ⟨rfl, lt_size_of_handles htable⟩]
  dsimp only
  rw [hwith]
  dsimp only
  rw [hput, setHandles_setHandles]

/-! ### What is answered next -/

/-- The same answer as before. Only an allocator that refused because its bitmap could not grow may
have grown in the meantime, and then it need not refuse any more. -/
def SameAnswer {α : Type} (memory : Memory) (before after : Outcome RequestError α) : Prop :=
  after = before ∨ memory.ids = false ∧ before = .error .outOfMemory

namespace Restores

variable (h : w.Restores w') (hmemory : w'.memory = w.memory)

/-- Memory may give other answers to both. -/
theorem both_under (h : w.Restores w') (memory : Memory) :
    (w.under memory).Restores (w'.under memory) :=
  ⟨h.objects_eq, h.devices_size, h.clients_size, h.device, h.client⟩

include h hmemory

/-- Whoever opens a handle next gets the same one. -/
theorem sameAnswer_openHandle (hwf : w.TablesSound) (c : ClientRef) (o : ObjectRef) :
    SameAnswer w.memory (w.openHandle c o).2 (w'.openHandle c o).2 := by
  unfold openHandle
  dsimp only
  rw [h.object_eq, (h.client c).device_eq, hmemory]
  split
  · exact Or.inl rfl
  · rcases (h.client c).handles with ⟨hnone, hnone'⟩ | ⟨table, table', htable, htable', halike⟩
    · rw [hnone, hnone']
      exact Or.inl rfl
    · rw [htable, htable']
      have hissue := NumberedTable.issue_of_alike (hwf c table htable).numbered halike o w.memory
      dsimp only
      generalize table.issue o w.memory = issued at hissue ⊢
      generalize table'.issue o w.memory = issued' at hissue ⊢
      obtain ⟨t, e | id⟩ := issued <;> obtain ⟨t', e' | id'⟩ := issued' <;>
        rcases hissue with ⟨⟨⟩⟩ | ⟨hroom, ⟨⟩⟩
      all_goals first
        | exact Or.inl rfl
        | exact Or.inr ⟨hroom, rfl⟩

/-- Names and tokens that are given next are the same, too. -/
theorem sameAnswer_publishName {d : DeviceRef} (hwf : (w.device d).names.WellFormed firstName)
    (o : ObjectRef) :
    SameAnswer w.memory (w.publishName d o).2 (w'.publishName d o).2 := by
  unfold publishName
  dsimp only
  rw [h.object_eq, hmemory]
  split
  · exact Or.inl rfl
  · split
    · exact Or.inl rfl
    · have hissue := NumberedTable.issue_of_alike hwf.numbered (h.device d).names o w.memory
      generalize (w.device d).names.issue o w.memory = issued at hissue ⊢
      generalize (w'.device d).names.issue o w.memory = issued' at hissue ⊢
      obtain ⟨t, e | id⟩ := issued <;> obtain ⟨t', e' | id'⟩ := issued' <;>
        rcases hissue with ⟨⟨⟩⟩ | ⟨hroom, ⟨⟩⟩
      all_goals first
        | exact Or.inl rfl
        | exact Or.inr ⟨hroom, rfl⟩

theorem sameAnswer_createToken {d : DeviceRef} (hwf : (w.device d).tokens.WellFormed)
    (o : ObjectRef) :
    SameAnswer w.memory (w.createToken d o).2 (w'.createToken d o).2 := by
  unfold createToken
  dsimp only
  rw [h.object_eq, hmemory]
  split
  · exact Or.inl rfl
  · have hissue := hwf.issue_of_alike (h.device d).tokens o (w.object o).id w.memory
    generalize (w.device d).tokens.issue o (w.object o).id w.memory = issued at hissue ⊢
    generalize (w'.device d).tokens.issue o (w.object o).id w.memory = issued' at hissue ⊢
    obtain ⟨t, id | e | f⟩ := issued <;> obtain ⟨t', id' | e' | f'⟩ := issued' <;> exact hissue

end Restores

end BufferObjects.World
