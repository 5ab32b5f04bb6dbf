import BufferObjects.Proofs.World.Readings

/-!
What stays the same from one world to a later one. Positions are never reused: an object keeps its
device, a client keeps its device, and a dead object stays dead as a closed client stays closed.
Most operations besides leave alone which objects live, which are prepared and which clients exist;
the few that do not are the ones whose business that is.
-/

namespace BufferObjects.World

/-- The second world is a later one. -/
structure Follows (w w' : World) : Prop where
  size_objects : w.objects.size ≤ w'.objects.size
  size_clients : w.clients.size ≤ w'.clients.size
  home : ∀ o < w.objects.size, (w'.object o).home = (w.object o).home
  device : ∀ c < w.clients.size, (w'.client c).device = (w.client c).device
  closed : ∀ c < w.clients.size, (w.client c).handles = none → (w'.client c).handles = none
  dead : ∀ o < w.objects.size, (w.object o).refs = 0 → (w'.object o).refs = 0

/-- A later world in which the same objects live and are prepared, and the same clients exist, as
far as they were there before. Objects that are new live and are not prepared. -/
structure Keeps (w w' : World) : Prop extends Follows w w' where
  live : ∀ o < w.objects.size, 0 < (w'.object o).refs ↔ 0 < (w.object o).refs
  prepared : ∀ o < w.objects.size, (w'.object o).prepared = (w.object o).prepared
  present : ∀ c < w.clients.size, (w'.client c).present = (w.client c).present
  born : ∀ o < w'.objects.size, w.objects.size ≤ o →
    0 < (w'.object o).refs ∧ (w'.object o).prepared = false

variable {w w' w'' : World}

theorem Follows.trans (h : w.Follows w') (h' : w'.Follows w'') : w.Follows w'' where
  size_objects := Nat.le_trans h.size_objects h'.size_objects
  size_clients := Nat.le_trans h.size_clients h'.size_clients
  home o ho := (h'.home o (Nat.lt_of_lt_of_le ho h.size_objects)).trans (h.home o ho)
  device c hc := (h'.device c (Nat.lt_of_lt_of_le hc h.size_clients)).trans (h.device c hc)
  closed c hc hnone := h'.closed c (Nat.lt_of_lt_of_le hc h.size_clients) (h.closed c hc hnone)
  dead o ho hzero := h'.dead o (Nat.lt_of_lt_of_le ho h.size_objects) (h.dead o ho hzero)

theorem Keeps.trans (h : w.Keeps w') (h' : w'.Keeps w'') : w.Keeps w'' where
  toFollows := h.toFollows.trans h'.toFollows
  live o ho := (h'.live o (Nat.lt_of_lt_of_le ho h.size_objects)).trans (h.live o ho)
  prepared o ho := (h'.prepared o (Nat.lt_of_lt_of_le ho h.size_objects)).trans (h.prepared o ho)
  present c hc := (h'.present c (Nat.lt_of_lt_of_le hc h.size_clients)).trans (h.present c hc)
  born o ho hold := by
    rcases Nat.lt_or_ge o w'.objects.size with hlt | hge
    · rw [h'.live o hlt, h'.prepared o hlt]
      exact h.born o hlt hold
    · exact h'.born o ho hge

theorem Keeps.of_eq (hobjects : w'.objects = w.objects) (hclients : w'.clients = w.clients) :
    w.Keeps w' where
  size_objects := Nat.le_of_eq (by rw [hobjects])
  size_clients := Nat.le_of_eq (by rw [hclients])
  home o _ := by rw [object_congr hobjects]
  device c _ := by rw [client_congr hclients]
  closed c _ h := by rwa [client_congr hclients]
  dead o _ h := by rwa [object_congr hobjects]
  live o _ := by rw [object_congr hobjects]
  prepared o _ := by rw [object_congr hobjects]
  present c _ := by rw [client_congr hclients]
  born o ho hold := by
    rw [hobjects] at ho
    exact absurd ho (Nat.not_lt.mpr hold)

theorem Keeps.refl (w : World) : w.Keeps w := .of_eq rfl rfl

theorem Follows.note (n : Notice) (h : w.Follows w') : w.Follows (w'.note n) :=
  have hkeeps : w'.Keeps (w'.note n) := .of_eq rfl rfl
  h.trans hkeeps.toFollows

theorem Keeps.note (n : Notice) (h : w.Keeps w') : w.Keeps (w'.note n) :=
  h.trans (.of_eq rfl rfl)

theorem Keeps.updateDevice (w : World) (d : DeviceRef) (f : Device → Device) :
    w.Keeps (w.updateDevice d f) := .of_eq rfl rfl

/-- Whatever happens to objects without moving, killing, reviving or preparing one. -/
theorem Keeps.of_objects (hclients : w'.clients = w.clients)
    (hsize : w'.objects.size = w.objects.size)
    (hobjects : ∀ o, (w'.object o).home = (w.object o).home ∧
      (w'.object o).prepared = (w.object o).prepared ∧
      (0 < (w'.object o).refs ↔ 0 < (w.object o).refs)) : w.Keeps w' where
  size_objects := Nat.le_of_eq hsize.symm
  size_clients := Nat.le_of_eq (by rw [hclients])
  home o _ := (hobjects o).1
  device c _ := by rw [client_congr hclients]
  closed c _ h := by rwa [client_congr hclients]
  dead o _ h := Nat.eq_zero_of_not_pos fun hpos => Nat.ne_of_gt ((hobjects o).2.2.mp hpos) h
  live o _ := (hobjects o).2.2
  prepared o _ := (hobjects o).2.1
  present c _ := by rw [client_congr hclients]
  born o ho hold := by
    rw [hsize] at ho
    exact absurd ho (Nat.not_lt.mpr hold)

theorem Keeps.retain {w : World} {o : ObjectRef} (hlive : 0 < (w.object o).refs) :
    w.Keeps (w.retain o) := by
  refine .of_objects rfl (by simp [World.retain]) fun p => ?_
  rw [World.retain, object_updateObject]
  split
  · next heq =>
    obtain ⟨rfl, -⟩ := heq
    exact ⟨rfl, rfl, iff_of_true (Nat.succ_pos _) hlive⟩
  · exact ⟨rfl, rfl, Iff.rfl⟩

theorem Follows.updateObject (w : World) (o : ObjectRef) {f : BufferObject → BufferObject}
    (hhome : ∀ x, (f x).home = x.home) (hdead : ∀ x, x.refs = 0 → (f x).refs = 0) :
    w.Follows (w.updateObject o f) where
  size_objects := by simp
  size_clients := Nat.le_refl _
  home p _ := by
    rw [object_updateObject]
    split
    · exact hhome _
    · rfl
  device _ _ := rfl
  closed _ _ h := h
  dead p _ h := by
    rw [object_updateObject]
    split
    · exact hdead _ h
    · exact h

theorem Follows.updateClient (w : World) (c : ClientRef) {f : Client → Client}
    (hdevice : ∀ x, (f x).device = x.device)
    (hclosed : (w.client c).handles = none → (f (w.client c)).handles = none) :
    w.Follows (w.updateClient c f) where
  size_objects := Nat.le_refl _
  size_clients := by simp
  home _ _ := rfl
  device e _ := by
    rw [client_updateClient]
    split
    · exact hdevice _
    · rfl
  closed e _ h := by
    rw [client_updateClient]
    split
    · next heq =>
      obtain ⟨rfl, -⟩ := heq
      exact hclosed h
    · exact h
  dead _ _ h := h

theorem Keeps.updateClient (w : World) (c : ClientRef) {f : Client → Client}
    (hdevice : ∀ x, (f x).device = x.device) (hpresent : ∀ x, (f x).present = x.present)
    (hclosed : (w.client c).handles = none → (f (w.client c)).handles = none) :
    w.Keeps (w.updateClient c f) where
  toFollows := .updateClient w c hdevice hclosed
  live _ _ := Iff.rfl
  prepared _ _ := rfl
  present e _ := by
    rw [client_updateClient]
    split
    · exact hpresent _
    · rfl
  born _ ho hold := absurd ho (Nat.not_lt.mpr hold)

theorem Keeps.pushClient (w : World) (x : Client) :
    w.Keeps { w with clients := w.clients.push x } := by
  have hold (c : ClientRef) (hc : c < w.clients.size) :
      ({ w with clients := w.clients.push x } : World).client c = w.client c := by
    rw [client_pushClient, if_neg (Nat.ne_of_lt hc)]
  refine ⟨⟨Nat.le_refl _, by simp, fun _ _ => rfl, fun c hc => by rw [hold c hc],
    fun c hc h => by rwa [hold c hc], fun _ _ h => h⟩, fun _ _ => Iff.rfl, fun _ _ => rfl,
    fun c hc => by rw [hold c hc], fun _ ho hge => absurd ho (Nat.not_lt.mpr hge)⟩

theorem Keeps.pushObject (w : World) {x : BufferObject} (hlive : 0 < x.refs)
    (hprepared : x.prepared = false) : w.Keeps { w with objects := w.objects.push x } := by
  have hold (o : ObjectRef) (ho : o < w.objects.size) :
      ({ w with objects := w.objects.push x } : World).object o = w.object o := by
    rw [object_pushObject, if_neg (Nat.ne_of_lt ho)]
  refine ⟨⟨by simp, Nat.le_refl _, fun o ho => by rw [hold o ho], fun _ _ => rfl,
    fun _ _ h => h, fun o ho h => by rwa [hold o ho]⟩, fun o ho => by rw [hold o ho],
    fun o ho => by rw [hold o ho], fun _ _ => rfl, fun o ho hge => ?_⟩
  rw [Array.size_push] at ho
  rw [object_pushObject, if_pos (Nat.le_antisymm (Nat.le_of_lt_succ ho) hge)]
  exact ⟨hlive, hprepared⟩

end BufferObjects.World
