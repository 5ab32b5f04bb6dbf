import BufferObjects.Proofs.World.Names

/-!
Opening handles, taking them out and closing whole clients. Opening brings an entry, a reference and
a use into being at once. Taking out moves an entry's reference and use from the table to whoever
took it, without touching the object; closing a client does the same for all its entries. So neither
can go wrong, and what a handle leads to depends on the client's table alone.
-/

open scoped List

namespace BufferObjects.World

variable {w w' : World} {outside uses : List ObjectRef} {c : ClientRef} {o : ObjectRef}

/-! ### Looking handles up -/

/-- The handle tables are in order. -/
def TablesSound (w : World) : Prop :=
  ∀ c table, (w.client c).handles = some table → table.WellFormed firstHandle

theorem lookupHandle_eq_ok {h : Handle} :
    w.lookupHandle c h = .ok o ↔
      ∃ table, (w.client c).handles = some table ∧ table.find? h = some o := by
  unfold lookupHandle
  cases (w.client c).handles with
  | none => simp
  | some table => cases hfind : table.find? h <;> simp [hfind]

theorem ClientsSound.mem_items (h : w.ClientsSound) {hd : Handle}
    (hlook : w.lookupHandle c hd = .ok o) : o ∈ (w.client c).items := by
  obtain ⟨table, htable, hfind⟩ := lookupHandle_eq_ok.mp hlook
  rw [Client.items, htable]
  exact (h.wellFormed c table htable).mem_items_iff.mpr ⟨hd, hfind⟩

/-! ### What the operations do to the world -/

theorem client_setHandles (w : World) (c e : ClientRef) (handles : Option HandleTable) :
    (w.setHandles c handles).client e =
      if c = e ∧ c < w.clients.size then { w.client e with handles } else w.client e :=
  client_updateClient ..

/-- Opening a handle files the object, and counts a reference and a use. -/
theorem of_openHandle_ok {h : Handle} (hopen : w.openHandle c o = (w', .ok h)) :
    (w.object o).home = (w.client c).device ∧ ∃ table table',
      (w.client c).handles = some table ∧ table.issue o w.memory = (table', .ok h) ∧
        w' = ((w.setHandles c (some table')).retain o).countHandle o := by
  unfold openHandle at hopen
  dsimp only at hopen
  split at hopen
  · simp at hopen
  · next hhome =>
    refine ⟨Decidable.not_not.mp hhome, ?_⟩
    split at hopen
    · simp at hopen
    · next table htable =>
      split at hopen
      · next table' h' hissue =>
        cases hopen
        exact ⟨table, table', htable, hissue, rfl⟩
      · next table' e _ =>
        cases e.outcome_ne_ok h (congrArg Prod.snd hopen)

/-- A handle that is refused leaves a world that nobody can tell from the one before, and nothing
breaks. -/
theorem TablesSound.of_openHandle_failed (hwf : w.TablesSound)
    {failed : Outcome RequestError Handle} (hopen : w.openHandle c o = (w', failed))
    (hfailed : ∀ h, failed ≠ .ok h) : w.Restores w' ∧ ∀ f, failed ≠ .fault f := by
  unfold openHandle at hopen
  dsimp only at hopen
  split at hopen
  · cases hopen
    exact ⟨.note w _, nofun⟩
  · split at hopen
    · cases hopen
      exact ⟨.refl w, nofun⟩
    · next table htable =>
      split at hopen
      · cases hopen
        exact absurd rfl (hfailed _)
      · next table' e hissue =>
        have htables := hwf c table htable
        obtain ⟨cause, hcause, -⟩ := htables.outcome_of_issue_error (β := Handle) hissue
        cases hopen
        exact ⟨(Restores.setHandles htable (htables.of_issue_error hissue)).trans (.noteAll _ _),
          by rw [hcause]; nofun⟩

/-- Taking a handle out finds what the handle leads to, and rewrites the table alone. -/
theorem TablesSound.of_takeHandle_some (hwf : w.TablesSound) {h : Handle}
    {freed : Except Fault Unit} (htake : w.takeHandle c h = (w', some (o, freed))) :
    freed = .ok () ∧ ∃ table table', (w.client c).handles = some table ∧
      table.find? h = some o ∧ table'.WellFormed firstHandle ∧ table.Withdraws o h table' ∧
        w' = w.setHandles c (some table') := by
  unfold takeHandle at htake
  split at htake
  · simp at htake
  · next table htable =>
    split at htake
    · simp at htake
    · next o' table' freed' hwith =>
      obtain ⟨rfl, hfind, hwf', hw⟩ := (hwf c table htable).of_withdraw hwith
      cases htake
      exact ⟨rfl, table, table', htable, hfind, hwf', hw, rfl⟩

theorem of_takeHandle_none {h : Handle} (htake : w.takeHandle c h = (w', none)) :
    w' = w ∧ ∀ o, w.lookupHandle c h ≠ .ok o := by
  unfold takeHandle at htake
  split at htake
  · next hclosed =>
    cases htake
    exact ⟨rfl, fun o => by simp [lookupHandle, hclosed]⟩
  · next table htable =>
    split at htake
    · next e hwith =>
      cases htake
      refine ⟨rfl, fun o ho => ?_⟩
      obtain ⟨table', htable', hfind⟩ := lookupHandle_eq_ok.mp ho
      rw [htable] at htable'
      cases htable'
      rw [NumberedTable.find?_of_withdraw_error hwith] at hfind
      cases hfind
    · split at htake <;> simp at htake

theorem exists_closeClient (w : World) (c : ClientRef) :
    ∃ ns, w.closeClient c = ((w.setHandles c none).noteAll ns, (w.client c).items) := by
  unfold closeClient
  split
  · next hclosed =>
    refine ⟨[], ?_⟩
    rw [← hclosed, setHandles_self, Client.items, hclosed]
    rfl
  · next table htable =>
    have hnote (w : World) (ns : List Notice) (n : Notice) :
        (w.noteAll ns).note n = w.noteAll (ns ++ [n]) := by
      simp [noteAll, List.foldl_append]
    dsimp only
    rw [hnote, Client.items, htable]
    exact ⟨_, rfl⟩

/-! ### Rewriting a table -/

theorem isKept_setHandles (w : World) (handles : Option HandleTable) (d : DeviceRef) :
    (w.setHandles c handles).isKept d = w.isKept d := by
  have hclient : (w.setHandles c handles).hasClient d = w.hasClient d := by
    rw [Bool.eq_iff_iff, hasClient_iff, hasClient_iff]
    refine exists_congr fun e => ?_
    rw [client_setHandles]
    split <;> rfl
  rw [isKept, isKept, hclient]
  rfl

theorem ClientsSound.setHandles (h : w.ClientsSound) {handles : Option HandleTable}
    (hwf : ∀ table, handles = some table → table.WellFormed firstHandle)
    (hitems : ∀ p ∈ Client.items { w.client c with handles },
      p < w.objects.size ∧ (w.object p).home = (w.client c).device)
    (hpresent : handles.isSome = true → (w.client c).present = true) :
    (w.setHandles c handles).ClientsSound where
  wellFormed e table he := by
    rw [client_setHandles] at he
    split at he
    · exact hwf table he
    · exact h.wellFormed e table he
  item_home e p hp := by
    rw [client_setHandles] at hp ⊢
    split at hp
    · next heq =>
      obtain ⟨rfl, hc⟩ := heq
      rw [if_pos ⟨rfl, hc⟩]
      exact hitems p hp
    · next hne =>
      rw [if_neg hne]
      exact h.item_home e p hp
  open_present e he := by
    rw [client_setHandles] at he ⊢
    split at he
    · next heq =>
      obtain ⟨rfl, hc⟩ := heq
      rw [if_pos ⟨rfl, hc⟩]
      exact hpresent he
    · next hne =>
      rw [if_neg hne]
      exact h.open_present e he

theorem Keeps.setHandles (w : World) (c : ClientRef) (handles : Option HandleTable)
    (h : (w.client c).handles = none → handles = none) : w.Keeps (w.setHandles c handles) :=
  .updateClient w c (fun _ => rfl) (fun _ => rfl) h

/-- Entries come and go with the table of their client. -/
theorem handlesTo_setHandles (hc : c < w.clients.size) (handles : Option HandleTable)
    (p : ObjectRef) :
    (w.setHandles c handles).handlesTo p + (w.client c).items.count p =
      w.handlesTo p + (Client.items { w.client c with handles }).count p :=
  handlesTo_updateClient hc (fun x => { x with handles }) p

/-! ### Handing over -/

/-- Entries leave a client's table, and their references and uses are taken over. -/
theorem Sound.handOver (h : w.Sound outside uses) (hc : c < w.clients.size)
    {handles : Option HandleTable} {gone : List ObjectRef}
    (hwf : ∀ table, handles = some table → table.WellFormed firstHandle)
    (hitems : (w.client c).items ~ gone ++ Client.items { w.client c with handles })
    (hpresent : handles.isSome = true → (w.client c).present = true) :
    (w.setHandles c handles).Sound (gone ++ outside) (gone ++ uses) := by
  have hcount (p : ObjectRef) :
      (w.setHandles c handles).handlesTo p + gone.count p = w.handlesTo p := by
    have hexchange := handlesTo_setHandles hc handles p
    have hperm := hitems.count_eq p
    rw [List.count_append] at hperm
    omega
  have hkept : (w.setHandles c handles).KeptAlive := fun d hd =>
    h.kept d (by rwa [isKept_setHandles] at hd)
  refine ⟨⟨⟨fun p => ?_, fun p => ?_⟩, h.clients.setHandles hwf (fun p hp => ?_) hpresent, hkept,
    h.names.frame (fun _ => ⟨rfl, rfl⟩) (fun _ => rfl) fun _ _ => rfl,
    h.tokens.frame (Nat.le_refl _) (fun _ => ⟨rfl, rfl⟩) (fun _ => rfl) (fun _ _ => rfl)
      fun _ => id⟩,
    fun p hp => ?_⟩
  · have := h.counted.refs_eq p
    have := hcount p
    change (w.object p).refs = _ + (w.object p).nameRefs + _
    rw [List.count_append]
    omega
  · change (w.object p).handles.value = _
    rw [h.counted.uses_eq p, List.count_append, ← hcount p, Nat.add_assoc]
  · exact h.clients.item_home c p (hitems.mem_iff.mpr (List.mem_append_right _ hp))
  · have := h.named_used p hp
    have := hcount p
    rw [List.count_append]
    omega

/-- A handle taken out leaves its reference and its use with whoever took it. -/
theorem Sound.takeHandle (h : w.Sound outside uses) {hd : Handle} {freed : Except Fault Unit}
    (htake : w.takeHandle c hd = (w', some (o, freed))) :
    freed = .ok () ∧ w.lookupHandle c hd = .ok o ∧ w'.Sound (o :: outside) (o :: uses) ∧
      w.Keeps w' := by
  obtain ⟨rfl, table, table', htable, hfind, hwf, hwith, rfl⟩ :=
    TablesSound.of_takeHandle_some h.clients.wellFormed htake
  refine ⟨rfl, lookupHandle_eq_ok.mpr ⟨table, htable, hfind⟩, ?_, .setHandles w c _ fun hnone => ?_⟩
  · change (w.setHandles c _).Sound ([o] ++ outside) ([o] ++ uses)
    apply h.handOver (lt_size_of_handles htable)
    · rintro _ ⟨⟩
      exact hwf
    · rw [Client.items, htable]
      exact hwith.items_perm
    · intro _
      exact h.clients.open_present c (by rw [htable]; rfl)
  · rw [htable] at hnone
    cases hnone

/-- A client that is closed leaves the references and uses of all its handles. -/
theorem Sound.closeClient (h : w.Sound outside uses) (c : ClientRef) :
    (w.closeClient c).2 = (w.client c).items ∧
      (w.closeClient c).1.Sound ((w.client c).items ++ outside) ((w.client c).items ++ uses) ∧
      w.Keeps (w.closeClient c).1 ∧ ((w.closeClient c).1.client c).handles = none := by
  obtain ⟨ns, heq⟩ := w.exists_closeClient c
  rw [heq]
  refine ⟨rfl, ?_, (Keeps.setHandles w c none fun _ => rfl).trans (.of_eq (by simp) (by simp)), ?_⟩
  · cases htable : (w.client c).handles with
    | none =>
      rw [← htable, setHandles_self, Client.items, htable]
      exact h.noteAll _
    | some table =>
      refine Sound.noteAll _ (h.handOver (lt_size_of_handles htable) ?_ ?_ ?_)
      · rintro _ ⟨⟩
      · rw [Client.items, Client.items, List.append_nil]
      · simp
  · rw [client_noteAll, client_setHandles]
    split
    · rfl
    · next hne =>
      rw [client_of_size_le (Nat.le_of_not_lt fun hc => hne ⟨rfl, hc⟩)]
      rfl

/-! ### Opening -/

section Opening

variable {table table' : HandleTable} {hd : Handle}

/-- One entry more with the client that opens, and none with the others. -/
theorem handlesTo_of_issues (htable : (w.client c).handles = some table)
    (hissues : table.Issues o hd table') (p : ObjectRef) :
    (w.setHandles c (some table')).handlesTo p = w.handlesTo p + if o = p then 1 else 0 := by
  have hexchange := handlesTo_setHandles (lt_size_of_handles htable) (some table') p
  have hperm := hissues.items_perm.count_eq p
  simp only [Client.items, htable, List.count_cons, beq_iff_eq] at hexchange hperm
  omega

theorem object_opened (hlt : o < w.objects.size) (handles : Option HandleTable) (p : ObjectRef) :
    (((w.setHandles c handles).retain o).countHandle o).object p =
      if o = p then
        { w.object p with
          refs := (w.object p).refs + 1, handles := (w.object p).handles.increment }
      else w.object p := by
  simp only [World.retain, countHandle, World.setHandles, object_updateObject,
    objects_updateClient, object_updateClient, size_objects_updateObject, hlt, and_true]
  split <;> rfl

theorem ClientsSound.of_issues (h : w.ClientsSound) (htable : (w.client c).handles = some table)
    (hwf : table'.WellFormed firstHandle) (hissues : table.Issues o hd table')
    (hlt : o < w.objects.size) (hhome : (w.object o).home = (w.client c).device) :
    (w.setHandles c (some table')).ClientsSound := by
  apply h.setHandles
  · rintro _ ⟨⟩
    exact hwf
  · intro p hp
    rcases List.mem_cons.mp (hissues.items_perm.mem_iff.mp hp) with rfl | hold
    · exact ⟨hlt, hhome⟩
    · exact h.item_home c p (by rwa [Client.items, htable])
  · intro _
    exact h.open_present c (by rw [htable]; rfl)

/-- The entry, the reference and the use that come with a handle balance each other. -/
theorem Counted.of_issues (h : w.Counted outside uses) (htable : (w.client c).handles = some table)
    (hissues : table.Issues o hd table') (hlt : o < w.objects.size) :
    (((w.setHandles c (some table')).retain o).countHandle o).Counted outside uses where
  refs_eq p := by
    have href := h.refs_eq p
    change _ = (w.setHandles c (some table')).handlesTo p + _ + _
    rw [handlesTo_of_issues htable hissues, object_opened hlt]
    split
    · simp only [BufferObject.nameRefs] at href ⊢
      omega
    · omega
  uses_eq p := by
    have huse := h.uses_eq p
    change _ = UInt64.ofNat ((w.setHandles c (some table')).handlesTo p + _)
    rw [handlesTo_of_issues htable hissues, object_opened hlt]
    split
    · dsimp only
      rw [UseCount.increment, huse, Nat.add_right_comm, UInt64.ofNat_add _ 1]
      rfl
    · exact huse

theorem Keeps.of_issues (htable : (w.client c).handles = some table)
    (hlive : 0 < (w.object o).refs) :
    w.Keeps (((w.setHandles c (some table')).retain o).countHandle o) := by
  refine (Keeps.setHandles w c (some table') fun hnone => ?_).trans
    (.of_objects rfl (by simp [World.retain, countHandle]) fun p => ?_)
  · rw [htable] at hnone
    cases hnone
  · rw [object_opened (lt_size_of_refs hlive)]
    split
    · next heq =>
      subst heq
      exact ⟨rfl, rfl, iff_of_true (Nat.succ_pos _) hlive⟩
    · exact ⟨rfl, rfl, Iff.rfl⟩

theorem Sound.of_issues (h : w.Sound outside uses) (htable : (w.client c).handles = some table)
    (hwf : table'.WellFormed firstHandle) (hissues : table.Issues o hd table')
    (hlt : o < w.objects.size) (hhome : (w.object o).home = (w.client c).device) :
    (((w.setHandles c (some table')).retain o).countHandle o).Sound outside uses := by
  have hkept : (w.setHandles c (some table')).KeptAlive := fun d hd =>
    h.kept d (by rwa [isKept_setHandles] at hd)
  have hsame : (w.setHandles c (some table')).SameButCounts
      (((w.setHandles c (some table')).retain o).countHandle o) :=
    (SameButCounts.updateObject _ o fun _ => ⟨_, _, _, rfl⟩).trans
      (.updateObject _ o fun _ => ⟨_, _, _, rfl⟩)
  refine ⟨hsame.consistent (h.clients.of_issues htable hwf hissues hlt hhome) hkept
    (h.names.frame (fun _ => ⟨rfl, rfl⟩) (fun _ => rfl) fun _ _ => rfl)
    (h.tokens.frame (Nat.le_refl _) (fun _ => ⟨rfl, rfl⟩) (fun _ => rfl) (fun _ _ => rfl)
      fun _ => id) (h.counted.of_issues htable hissues hlt) fun p hp => ?_, fun p hp => ?_⟩
  · rw [object_opened hlt]
    split
    · exact Nat.succ_pos _
    · exact hp
  · have hused := h.named_used p (by rwa [hsame.name_eq] at hp)
    change 0 < (w.setHandles c (some table')).handlesTo p + _
    rw [handlesTo_of_issues htable hissues]
    omega

end Opening

/-- An entry comes into a client's table, with a reference and a use of its own, or the world is one
that nobody can tell from the one before. -/
theorem Sound.openHandle (h : w.Sound outside uses) (hlive : 0 < (w.object o).refs) :
    (w.openHandle c o).1.Sound outside uses ∧ w.Keeps (w.openHandle c o).1 ∧
      ∀ f, (w.openHandle c o).2 ≠ .fault f := by
  rcases hopen : w.openHandle c o with ⟨w', outcome⟩
  by_cases hok : ∃ hd, outcome = .ok hd
  case neg =>
    obtain ⟨hrestores, hunbroken⟩ := TablesSound.of_openHandle_failed h.clients.wellFormed hopen
      fun hd hhd => hok ⟨hd, hhd⟩
    exact ⟨hrestores.sound h, hrestores.keeps, hunbroken⟩
  case pos =>
    obtain ⟨hd, rfl⟩ := hok
    obtain ⟨hhome, table, table', htable, hissue, rfl⟩ := of_openHandle_ok hopen
    obtain ⟨hwf, hissues⟩ := (h.clients.wellFormed c table htable).of_issue hissue
    exact ⟨h.of_issues htable hwf hissues (lt_size_of_refs hlive) hhome,
      .of_issues htable hlive, nofun⟩

/-! ### Uncounting -/

theorem object_uncountHandle (hlt : o < w.objects.size) (p : ObjectRef) :
    (w.uncountHandle o).1.object p =
      if o = p then { w.object p with handles := ⟨(w.object p).handles.value - 1⟩ }
      else w.object p := by
  change (w.updateObject o _).object p = _
  rw [object_updateObject]
  by_cases hp : o = p
  · subst hp
    simp only [hlt, and_self, if_true]
  · simp [hp]

/-- A use that was taken over is uncounted, and is the last one if nothing else counts. -/
theorem Sound.uncountHandle (h : w.Sound outside (o :: uses)) (hlt : o < w.objects.size)
    (hbound : w.handlesTo o + uses.count o + 1 < 2 ^ 64) :
    (w.uncountHandle o).2 = .ok (decide (w.handlesTo o + uses.count o = 0)) ∧
      (w.uncountHandle o).1.Consistent outside uses ∧ w.Keeps (w.uncountHandle o).1 := by
  have hobject := object_uncountHandle hlt
  have huse : (w.object o).handles.value = UInt64.ofNat (w.handlesTo o + uses.count o) + 1 := by
    rw [h.counted.uses_eq, List.count_cons_self, ← Nat.add_assoc, UInt64.ofNat_add _ 1]
    rfl
  -- the count has not wrapped round, so uncounting leaves one less
  have hnat : (UInt64.ofNat (w.handlesTo o + uses.count o) + 1).toNat =
      w.handlesTo o + uses.count o + 1 := by
    rw [UInt64.toNat_add, UInt64.toNat_ofNat', UInt64.toNat_one]
    omega
  have hsame : w.SameButCounts (w.uncountHandle o).1 := .updateObject w o fun _ => ⟨_, _, _, rfl⟩
  refine ⟨?_, hsame.consistent h.clients h.kept h.names h.tokens ⟨fun p => ?_, fun p => ?_⟩
    fun p hp => ?_, .of_objects rfl hsame.size_eq fun p => ?_⟩
  · change (if _ = 0 then _ else _) = _
    rw [huse]
    have hne : UInt64.ofNat (w.handlesTo o + uses.count o) + 1 ≠ 0 := by
      intro heq
      rw [heq] at hnat
      simp at hnat
    rw [if_neg hne]
    congr 1
    rw [Bool.eq_iff_iff, beq_iff_eq, decide_eq_true_iff, ← UInt64.toNat_inj, hnat,
      UInt64.toNat_one]
    omega
  · have href := h.counted.refs_eq p
    rw [hobject]
    split <;> exact href
  · change _ = UInt64.ofNat (w.handlesTo p + _)
    rw [hobject]
    split
    · next hp =>
      subst hp
      dsimp only
      rw [huse]
      simp
    · next hp =>
      rw [h.counted.uses_eq p, List.count_cons_of_ne hp]
  · rw [hobject]
    split <;> exact hp
  · rw [hobject]
    split <;> exact ⟨rfl, rfl, Iff.rfl⟩

/-- The name goes with the last use: a use is uncounted, and the name of an object without any is
retired, without a fault and with nothing in between. -/
theorem Sound.uncount (h : w.Sound outside (o :: uses)) {d : DeviceRef}
    (hhome : (w.object o).home = d) (ho : o ∈ outside)
    (hbound : w.handlesTo o + uses.count o + 1 < 2 ^ 64) :
    ∃ w₁, (w.uncountHandle o = (w₁, .ok false) ∧ w₁.Sound outside uses ∧ w.Keeps w₁) ∨
      (w.uncountHandle o = (w₁, .ok true) ∧ ∃ w', w₁.retireName d o = (w', .ok ()) ∧
        w'.Sound outside uses ∧ w.Keeps w') := by
  have hlt := lt_size_of_refs (h.live_of_outside ho)
  obtain ⟨hlast, hcons, hkeeps⟩ := h.uncountHandle hlt hbound
  have hname (p : ObjectRef) : ((w.uncountHandle o).1.object p).name = (w.object p).name := by
    rw [object_uncountHandle hlt]
    split <;> rfl
  have hold (p : ObjectRef) (hp : (w.object p).name.isSome = true) (hne : o ≠ p) :
      0 < w.handlesTo p + uses.count p := by
    have := h.named_used p hp
    rwa [List.count_cons_of_ne hne] at this
  refine ⟨(w.uncountHandle o).1, ?_⟩
  -- the last use takes the name with it at once; before that the name has another use to stand on
  by_cases hzero : w.handlesTo o + uses.count o = 0
  · right
    obtain ⟨w', hretire, hcons', hretires⟩ :=
      hcons.retireName ((hkeeps.home o hlt).trans hhome) fun _ => ho
    refine ⟨Prod.ext rfl (by rw [hlast, decide_eq_true hzero]), w', hretire, ⟨hcons', ?_⟩,
      hkeeps.trans hretires.keeps⟩
    intro p hp
    rw [hretires.name_eq, hname] at hp
    rw [handlesTo_congr hretires.clients_eq]
    split at hp
    · cases hp
    · next hne => exact hold p hp hne
  · left
    refine ⟨Prod.ext rfl (by rw [hlast, decide_eq_false hzero]), ⟨hcons, ?_⟩, hkeeps⟩
    intro p hp
    rw [hname] at hp
    by_cases hne : o = p
    · subst hne
      exact Nat.pos_of_ne_zero hzero
    · exact hold p hp hne

end BufferObjects.World
