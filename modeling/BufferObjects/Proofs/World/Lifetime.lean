import BufferObjects.Proofs.World.Tokens

/-!
Coming and going. What is new starts out empty, so nothing leads to it and it leads nowhere. An
object goes with its last reference, and its token with it; a device goes when no caller and no
client keeps it, and then no object has a name there any more, because only open handles keep names.
-/

open scoped List

namespace BufferObjects.World

variable {w w' : World} {outside uses : List ObjectRef} {d : DeviceRef} {c : ClientRef}
  {o : ObjectRef}

theorem Sound.empty : World.empty.Sound [] [] := by
  refine ⟨⟨⟨fun _ => rfl, fun _ => rfl⟩, ⟨?_, ?_, ?_⟩, ?_, ⟨?_, ?_, ?_⟩,
    ⟨⟨?_, ?_, ?_, ?_, ?_⟩, ?_⟩⟩, ?_⟩
  · intro c table h
    cases h
  · intro c o h
    cases h
  · intro c h
    cases h
  · intro d h
    rw [isKept, Bool.or_eq_true] at h
    rcases h with hheld | hclient
    · cases hheld
    · obtain ⟨c, hc, -⟩ := hasClient_iff.mp hclient
      cases hc
  all_goals
    intros
    contradiction

/-! ### Devices -/

theorem Sound.updateDevice (h : w.Sound outside uses) {f : Device → Device}
    (hf : ∀ x, (f x).names = x.names ∧ (f x).tokens = x.tokens ∧ (f x).alive = x.alive ∧
      ((f x).held = true → x.held = true)) : (w.updateDevice d f).Sound outside uses := by
  have hdevice (e : DeviceRef) : ((w.updateDevice d f).device e).names = (w.device e).names ∧
      ((w.updateDevice d f).device e).tokens = (w.device e).tokens ∧
      ((w.updateDevice d f).device e).alive = (w.device e).alive ∧
      (((w.updateDevice d f).device e).held = true → (w.device e).held = true) := by
    rw [device_updateDevice]
    split
    · exact hf _
    · exact ⟨rfl, rfl, rfl, id⟩
  refine ⟨⟨h.counted.frame rfl fun _ => ⟨rfl, rfl, rfl⟩,
    h.clients.frame rfl (Nat.le_refl _) fun _ _ => rfl, h.kept.frame rfl fun e => ?_,
    h.names.frame (fun e => ?_) (fun _ => rfl) fun _ _ => rfl,
    h.tokens.frame (Nat.le_of_eq (by simp)) (fun e => ?_) (fun _ => rfl) (fun _ _ => rfl)
      fun _ => id⟩, h.named_used⟩
  · obtain ⟨-, -, halive, hheld⟩ := hdevice e
    exact ⟨hheld, fun he => halive.trans he⟩
  · obtain ⟨hnames, -, halive, -⟩ := hdevice e
    exact ⟨hnames, halive⟩
  · obtain ⟨-, htokens, halive, -⟩ := hdevice e
    exact ⟨htokens, halive⟩

/-- No object is named at a new device. -/
theorem NamesSound.pushDevice (h : w.NamesSound) {x : Device}
    (hnames : x.names.WellFormed firstName) (hnone : ∀ n, x.names.find? n = none) :
    ({ w with devices := w.devices.push x } : World).NamesSound where
  wellFormed e he := by
    rw [device_pushDevice] at he ⊢
    split
    · exact hnames
    · next hne =>
      rw [if_neg hne] at he
      exact h.wellFormed e he
  find?_iff e n p he := by
    rw [device_pushDevice] at he ⊢
    split
    · next heq =>
      simp only [hnone, reduceCtorEq, false_iff, not_and]
      intro hhome hname
      have hlt := lt_size_of_alive (h.alive p (Option.isSome_iff_exists.mpr ⟨n, hname⟩))
      rw [show (w.object p).home = e from hhome, heq] at hlt
      exact absurd hlt (Nat.lt_irrefl _)
    · next hne =>
      rw [if_neg hne] at he
      exact h.find?_iff e n p he
  alive p hp := by
    have hthere : (w.device (w.object p).home).alive = true := h.alive p hp
    change (World.device { w with devices := w.devices.push x } (w.object p).home).alive = true
    rw [device_pushDevice, if_neg (Nat.ne_of_lt (lt_size_of_alive hthere))]
    exact hthere

/-- And none has a token there. -/
theorem TokensSound.pushDevice (h : w.TokensSound) {x : Device} (htokens : x.tokens.WellFormed)
    (hfree : ∀ t, x.tokens.entries.find? t = none) :
    ({ w with devices := w.devices.push x } : World).TokensSound where
  wellFormed e he := by
    rw [device_pushDevice] at he ⊢
    split
    · exact htokens
    · next hne =>
      rw [if_neg hne] at he
      exact h.wellFormed e he
  home_lt p hp := by
    have hlt := h.home_lt p hp
    change (w.object p).home < (w.devices.push x).size
    rw [Array.size_push]
    exact Nat.lt_succ_of_lt hlt
  find?_iff e t p he := by
    rw [device_pushDevice] at he ⊢
    split
    · next heq =>
      simp only [hfree, reduceCtorEq, false_iff, not_and]
      intro hhome htoken
      have hlt := h.home_lt p (Option.isSome_iff_exists.mpr ⟨t, htoken⟩)
      rw [show (w.object p).home = e from hhome, heq] at hlt
      exact absurd hlt (Nat.lt_irrefl _)
    · next hne =>
      rw [if_neg hne] at he
      exact h.find?_iff e t p he
  token_le := h.token_le
  unique := h.unique
  live p hp he := by
    change (World.device { w with devices := w.devices.push x } (w.object p).home).alive = true
      at he
    rw [device_pushDevice, if_neg (Nat.ne_of_lt (h.home_lt p hp))] at he
    exact h.live p hp he

/-- A new device has empty tables, and no object is there yet. -/
theorem Sound.pushDevice (h : w.Sound outside uses) {x : Device} (halive : x.alive = true)
    (hnames : x.names.WellFormed firstName) (hnone : ∀ n, x.names.find? n = none)
    (htokens : x.tokens.WellFormed) (hfree : ∀ t, x.tokens.entries.find? t = none) :
    ({ w with devices := w.devices.push x } : World).Sound outside uses := by
  refine ⟨⟨h.counted.frame rfl fun _ => ⟨rfl, rfl, rfl⟩,
    h.clients.frame rfl (Nat.le_refl _) fun _ _ => rfl, fun e he => ?_,
    h.names.pushDevice hnames hnone, h.tokens.pushDevice htokens hfree⟩, h.named_used⟩
  rw [device_pushDevice]
  split
  · exact halive
  · next hne =>
    apply h.kept
    rwa [isKept, device_pushDevice, if_neg hne] at he

theorem of_newDevice_error {config : Config} {features : Features} {e : RequestError}
    (hmade : w.newDevice config features = (w', .error e)) : ∃ ns, w' = w.noteAll ns := by
  unfold newDevice at hmade
  split at hmade
  · cases hmade
    exact ⟨[_], rfl⟩
  · split at hmade
    · cases hmade
    all_goals
      cases hmade
      exact ⟨_, rfl⟩

theorem Sound.newDevice (h : w.Sound outside uses) (config : Config) (features : Features) :
    (w.newDevice config features).1.Sound outside uses ∧
      w.Keeps (w.newDevice config features).1 := by
  unfold World.newDevice
  split
  · exact ⟨h.note _, (Keeps.refl w).note _⟩
  · next hsane =>
    split
    · next names tokens hnames htokens =>
      obtain ⟨hwf, hnil⟩ := NumberedTable.WellFormed.of_create hnames
      obtain ⟨hwf', hfree⟩ := TokenTable.WellFormed.of_create (.of_defect? hsane) htokens
      refine ⟨Sound.note _ (h.pushDevice rfl hwf (fun n => ?_) hwf' hfree), .of_eq rfl rfl⟩
      rw [Option.eq_none_iff_forall_ne_some]
      intro p hp
      have hmem := hwf.mem_items_iff.mpr ⟨n, hp⟩
      simp [hnil] at hmem
    all_goals exact ⟨h.noteAll _, (Restores.noteAll w _).keeps⟩

/-- Objects of a device that nobody keeps have no names: a name needs a handle, and a handle keeps
the device through its client. -/
theorem Sound.home_ne_of_unkept (h : w.Sound outside uses)
    (huses : ∀ p ∈ uses, w.isKept (w.object p).home = true) (hkept : w.isKept d = false)
    {p : ObjectRef} (hname : (w.object p).name.isSome = true) : (w.object p).home ≠ d := by
  intro hhome
  have hpos := h.named_used p hname
  -- the use under a name is a handle in some table, or one that an operation has taken over
  rcases Nat.eq_zero_or_pos (uses.count p) with hzero | hused
  · rw [hzero, Nat.add_zero] at hpos
    obtain ⟨c, hc⟩ := handlesTo_pos_iff.mp hpos
    have hclient := hasClient_iff.mpr ⟨c, h.clients.present_of_item hc, rfl⟩
    rw [← (h.clients.item_home c p hc).2, hhome] at hclient
    simp [isKept, hclient] at hkept
  · have hthere := huses p (List.count_pos_iff.mp hused)
    rw [hhome, hkept] at hthere
    cases hthere

/-- Where some devices have gone and the others are as they were, the names of the others are in
order. -/
theorem NamesSound.of_fewer (h : w.NamesSound) (hobjects : w'.objects = w.objects)
    (hdevices : ∀ e, (w'.device e).alive = true → w'.device e = w.device e)
    (hnamed : ∀ p, (w.object p).name.isSome = true →
      (w'.device (w.object p).home).alive = true) : w'.NamesSound where
  wellFormed e he := by
    have hsame := hdevices e he
    rw [hsame] at he ⊢
    exact h.wellFormed e he
  find?_iff e n p he := by
    have hsame := hdevices e he
    rw [hsame] at he ⊢
    rw [object_congr hobjects]
    exact h.find?_iff e n p he
  alive p hp := by
    rw [object_congr hobjects] at hp ⊢
    exact hnamed p hp

/-- And so are their tokens. -/
theorem TokensSound.of_fewer (h : w.TokensSound) (hobjects : w'.objects = w.objects)
    (hsize : w'.devices.size = w.devices.size)
    (hdevices : ∀ e, (w'.device e).alive = true → w'.device e = w.device e) : w'.TokensSound where
  wellFormed e he := by
    have hsame := hdevices e he
    rw [hsame] at he ⊢
    exact h.wellFormed e he
  home_lt p hp := by
    rw [object_congr hobjects] at hp ⊢
    rw [hsize]
    exact h.home_lt p hp
  find?_iff e t p he := by
    have hsame := hdevices e he
    rw [hsame] at he ⊢
    rw [object_congr hobjects]
    exact h.find?_iff e t p he
  token_le p t hp := h.token_le p t (by rwa [object_congr hobjects] at hp)
  unique p q t hp hq heq := by
    rw [object_congr hobjects] at hp hq heq
    exact h.unique p q t hp hq (by rwa [object_congr hobjects] at heq)
  live p hp he := by
    have hsame := hdevices _ he
    rw [hsame] at he
    rw [object_congr hobjects] at hp he ⊢
    exact h.live p hp he

/-- A device that nobody keeps has no names left, and goes. -/
theorem Sound.leaveDevice (h : w.Sound outside uses)
    (huses : ∀ p ∈ uses, w.isKept (w.object p).home = true) :
    (w.leaveDevice d).2 = [] ∧ (w.leaveDevice d).1.Sound outside uses ∧
      w.Keeps (w.leaveDevice d).1 := by
  unfold World.leaveDevice
  split
  · next hgo =>
    rw [Bool.and_eq_true, Bool.not_eq_true'] at hgo
    obtain ⟨halive, hkept⟩ := hgo
    have hdevice (e : DeviceRef) :
        (w.updateDevice d fun x => { x with alive := false }).device e =
          if d = e then { w.device e with alive := false } else w.device e := by
      simp only [device_updateDevice, lt_size_of_alive halive, and_true]
    have hothers (e : DeviceRef)
        (he : ((w.updateDevice d fun x => { x with alive := false }).device e).alive = true) :
        (w.updateDevice d fun x => { x with alive := false }).device e = w.device e := by
      rw [hdevice] at he ⊢
      split at he
      · cases he
      · next hne => rw [if_neg hne]
    refine ⟨?_, ⟨⟨h.counted.frame rfl fun _ => ⟨rfl, rfl, rfl⟩,
      h.clients.frame rfl (Nat.le_refl _) fun _ _ => rfl, fun e he => ?_,
      h.names.of_fewer rfl hothers fun p hp => ?_, h.tokens.of_fewer rfl (by simp) hothers⟩,
      h.named_used⟩, .updateDevice w d _⟩
    · -- a name in the table would be the name of an object at this device
      change (w.device d).names.items = []
      rw [List.eq_nil_iff_forall_not_mem]
      intro p hp
      obtain ⟨n, hn⟩ := (h.names.wellFormed d halive).mem_items_iff.mp hp
      obtain ⟨hhome, hname⟩ := (h.names.find?_iff d n p halive).mp hn
      exact h.home_ne_of_unkept huses hkept (by rw [hname]; rfl) hhome
    · have hold : w.isKept e = true := by
        rw [isKept, hdevice] at he
        split at he <;> exact he
      rw [hdevice]
      split
      · next heq =>
        subst heq
        rw [hkept] at hold
        cases hold
      · exact h.kept e hold
    · rw [hdevice, if_neg (Ne.symm (h.home_ne_of_unkept huses hkept hp))]
      exact h.names.alive p hp
  · exact ⟨rfl, h, .refl w⟩

/-! ### Clients -/

/-- A new client has no handles yet, and keeps its device. -/
theorem Sound.pushClient (h : w.Sound outside uses) {x : Client} {table : HandleTable}
    (htable : x.handles = some table) (hwf : table.WellFormed firstHandle) (hnil : table.items = [])
    (hpresent : x.present = true) (halive : (w.device x.device).alive = true) :
    ({ w with clients := w.clients.push x } : World).Sound outside uses := by
  have hitems : x.items = [] := by
    rw [Client.items, htable]
    exact hnil
  have hclient (c : ClientRef) := client_pushClient w x c
  have hcount (p : ObjectRef) :
      ({ w with clients := w.clients.push x } : World).handlesTo p = w.handlesTo p := by
    change ((w.clients.push x).toList.flatMap Client.items).count p = _
    rw [handlesTo_pushClient, hitems, List.count_nil, Nat.add_zero, handlesTo]
  refine ⟨⟨⟨fun p => ?_, fun p => ?_⟩, ⟨fun c t hc => ?_, fun c p hp => ?_, fun c hc => ?_⟩,
    fun d hd => ?_, h.names.frame (fun _ => ⟨rfl, rfl⟩) (fun _ => rfl) fun _ _ => rfl,
    h.tokens.frame (Nat.le_refl _) (fun _ => ⟨rfl, rfl⟩) (fun _ => rfl) (fun _ _ => rfl)
      fun _ => id⟩, fun p hp => ?_⟩
  · rw [hcount]
    exact h.counted.refs_eq p
  · rw [hcount]
    exact h.counted.uses_eq p
  · rw [hclient] at hc
    split at hc
    · obtain rfl : table = t := Option.some.inj (htable.symm.trans hc)
      exact hwf
    · exact h.clients.wellFormed c t hc
  · rw [hclient] at hp ⊢
    split at hp
    · simp [hitems] at hp
    · next hne =>
      rw [if_neg hne]
      exact h.clients.item_home c p hp
  · rw [hclient] at hc ⊢
    split
    · exact hpresent
    · next hne =>
      rw [if_neg hne] at hc
      exact h.clients.open_present c hc
  · change (w.device d).alive = true
    rw [isKept, Bool.or_eq_true] at hd
    rcases hd with hheld | hclients
    · exact h.kept.of_held hheld
    · obtain ⟨c, hc, hdevice⟩ := hasClient_iff.mp hclients
      rw [hclient] at hc hdevice
      split at hdevice
      · rw [← hdevice]
        exact halive
      · next hne =>
        rw [if_neg hne] at hc
        rw [← hdevice]
        exact h.kept.of_present hc
  · rw [hcount]
    exact h.named_used p hp

theorem Sound.newClient (h : w.Sound outside uses) (halive : (w.device d).alive = true) :
    (w.newClient d).1.Sound outside uses ∧ w.Keeps (w.newClient d).1 := by
  unfold World.newClient
  split
  · exact ⟨h, .refl w⟩
  · dsimp only
    generalize hw₁ : (w.updateDevice d _).note _ = w₁
    have h₁ : w₁.Sound outside uses := by
      rw [← hw₁]
      exact Sound.note _ (h.updateDevice fun _ => ⟨rfl, rfl, rfl, id⟩)
    have hkeeps : w.Keeps w₁ := by
      rw [← hw₁]
      exact .of_eq rfl rfl
    have halive₁ : (w₁.device d).alive = true := by
      rw [← hw₁, device_note, device_updateDevice]
      split <;> exact halive
    split
    · exact ⟨h₁.noteAll _, hkeeps.trans (Restores.noteAll w₁ _).keeps⟩
    · next table htable =>
      obtain ⟨hwf, hnil⟩ := NumberedTable.WellFormed.of_create htable
      exact ⟨h₁.pushClient rfl hwf hnil rfl halive₁, hkeeps.trans (.pushClient w₁ _)⟩

/-- A closed client is forgotten; its device has one less to keep it. -/
theorem Sound.forgetClient (h : w.Sound outside uses) (hclosed : (w.client c).handles = none) :
    (w.updateClient c fun x => { x with present := false }).Sound outside uses ∧
      w.Follows (w.updateClient c fun x => { x with present := false }) := by
  have hclient (e : ClientRef) :
      (w.updateClient c fun x => { x with present := false }).client e =
        if c = e ∧ c < w.clients.size then { w.client e with present := false }
        else w.client e := client_updateClient ..
  have hcount (p : ObjectRef) :
      (w.updateClient c fun x => { x with present := false }).handlesTo p = w.handlesTo p := by
    rcases Nat.lt_or_ge c w.clients.size with hc | hc
    · have hexchange := handlesTo_updateClient hc (fun x => { x with present := false }) p
      exact Nat.add_right_cancel hexchange
    · have : w.clients.modify c (fun x => { x with present := false }) = w.clients :=
        modify_eq_self default (by simp [Array.getElem?_eq_none hc]; rfl)
      rw [World.updateClient, this]
  refine ⟨⟨⟨⟨fun p => ?_, fun p => ?_⟩, ⟨fun e t he => ?_, fun e p hp => ?_, fun e he => ?_⟩,
    fun d hd => ?_, h.names.frame (fun _ => ⟨rfl, rfl⟩) (fun _ => rfl) fun _ _ => rfl,
    h.tokens.frame (Nat.le_refl _) (fun _ => ⟨rfl, rfl⟩) (fun _ => rfl) (fun _ _ => rfl)
      fun _ => id⟩, fun p hp => ?_⟩, .updateClient w c (fun _ => rfl) id⟩
  · rw [hcount]
    exact h.counted.refs_eq p
  · rw [hcount]
    exact h.counted.uses_eq p
  · rw [hclient] at he
    split at he <;> exact h.clients.wellFormed e t he
  · rw [hclient] at hp ⊢
    have hold : p ∈ (w.client e).items := by split at hp <;> exact hp
    split <;> exact h.clients.item_home e p hold
  · rw [hclient] at he ⊢
    split at he
    · next heq =>
      obtain ⟨rfl, -⟩ := heq
      rw [hclosed] at he
      cases he
    · next hne =>
      rw [if_neg hne]
      exact h.clients.open_present e he
  · change (w.device d).alive = true
    rw [isKept, Bool.or_eq_true] at hd
    rcases hd with hheld | hclients
    · exact h.kept.of_held hheld
    · obtain ⟨e, he, hdevice⟩ := hasClient_iff.mp hclients
      rw [hclient] at he hdevice
      split at he
      · cases he
      · next hne =>
        rw [if_neg hne] at hdevice
        rw [← hdevice]
        exact h.kept.of_present he
  · rw [hcount]
    exact h.named_used p hp

/-! ### Objects -/

theorem Sound.updateObject (h : w.Sound outside uses) {f : BufferObject → BufferObject}
    (hf : ∀ x, ∃ prepared, f x = { x with prepared }) :
    (w.updateObject o f).Sound outside uses := by
  have hsame : w.SameButCounts (w.updateObject o f) := by
    refine .updateObject w o fun x => ?_
    obtain ⟨prepared, hx⟩ := hf x
    exact ⟨_, _, prepared, hx⟩
  have hobject (p : ObjectRef) : ((w.updateObject o f).object p).refs = (w.object p).refs ∧
      ((w.updateObject o f).object p).handles = (w.object p).handles := by
    rw [object_updateObject]
    split
    · obtain ⟨prepared, hp⟩ := hf (w.object p)
      rw [hp]
      exact ⟨rfl, rfl⟩
    · exact ⟨rfl, rfl⟩
  refine ⟨hsame.consistent h.clients h.kept h.names h.tokens (h.counted.frame rfl fun p => ?_)
    fun p hp => by rwa [(hobject p).1], fun p hp => h.named_used p (by rwa [hsame.name_eq] at hp)⟩
  exact ⟨(hobject p).1, by rw [hsame.name_eq], (hobject p).2⟩

/-- A new object is held outside by whoever asked for it, and nothing else leads to it. -/
theorem Sound.pushObject (h : w.Sound outside uses) {x : BufferObject} (hrefs : x.refs = 1)
    (hhandles : x.handles.value = 0) (hname : x.name = none) (htoken : x.token = none) :
    ({ w with objects := w.objects.push x } : World).Sound (w.objects.size :: outside) uses := by
  have hobject (p : ObjectRef) := object_pushObject w x p
  have hdefault : w.object w.objects.size = default := object_of_size_le (Nat.le_refl _)
  have hnames (p : ObjectRef) :
      (({ w with objects := w.objects.push x } : World).object p).name = (w.object p).name := by
    rw [hobject]
    split
    · next hp =>
      rw [hp, hdefault, hname]
      rfl
    · rfl
  refine ⟨⟨⟨fun p => ?_, fun p => ?_⟩,
    h.clients.frame rfl (by simp) fun p hp => ?_, h.kept.frame rfl fun _ => ⟨id, id⟩,
    h.names.frame (fun _ => ⟨rfl, rfl⟩) hnames fun p hp => ?_,
    h.tokens.frame (Nat.le_refl _) (fun _ => ⟨rfl, rfl⟩) (fun p => ?_) (fun p hp => ?_)
      fun p hp => ?_⟩, fun p hp => h.named_used p (by rwa [hnames] at hp)⟩
  · have href := h.counted.refs_eq p
    change _ = w.handlesTo p + _ + _
    rw [hobject, List.count_cons]
    split
    · next hp =>
      rw [hp, hdefault] at href
      rw [hp]
      have hzero : (default : BufferObject).refs = 0 := rfl
      rw [hrefs, BufferObject.nameRefs, hname]
      simp only [beq_self_eq_true, if_true, Option.isSome_none, Bool.false_eq_true, if_false]
      omega
    · next hp =>
      have hne : ¬ w.objects.size = p := fun heq => hp heq.symm
      simp only [beq_iff_eq, hne, if_false, href, Nat.add_zero]
  · have huse := h.counted.uses_eq p
    change _ = UInt64.ofNat (w.handlesTo p + _)
    rw [hobject]
    split
    · next hp =>
      rw [hp, hdefault] at huse
      rw [hp, hhandles]
      exact huse
    · exact huse
  · rw [hobject, if_neg (Nat.ne_of_lt hp)]
  · rw [hobject, if_neg (Nat.ne_of_lt (lt_size_of_refs (h.live_of_name hp)))]
  · rw [hobject]
    split
    · next hp =>
      rw [hp, hdefault, htoken]
      rfl
    · rfl
  · rw [hobject]
    split
    · next heq =>
      rw [heq, hdefault] at hp
      cases hp
    · rfl
  · rw [hobject, if_neg (Nat.ne_of_lt (lt_size_of_refs hp))]
    exact hp

/-- The second world has an object that the first has not. -/
structure Makes (w w' : World) (o : ObjectRef) : Prop where
  keeps : w.Keeps w'
  eq_size : o = w.objects.size
  lt_size : o < w'.objects.size

theorem Sound.newObject (h : w.Sound outside uses) {size : UInt64}
    (hnew : w.newObject d size = (w', .ok o)) : w'.Sound (o :: outside) uses ∧ w.Makes w' o := by
  unfold World.newObject at hnew
  split at hnew
  · simp at hnew
  · split at hnew
    · simp at hnew
    · dsimp only at hnew
      generalize hw₁ : w.updateDevice d _ = w₁ at hnew
      obtain ⟨rfl, ho⟩ := Prod.mk.inj hnew
      obtain rfl : w₁.objects.size = o := Except.ok.inj ho
      have h₁ : w₁.Sound outside uses := by
        rw [← hw₁]
        exact h.updateDevice fun _ => ⟨rfl, rfl, rfl, id⟩
      have hobjects : w₁.objects = w.objects := by rw [← hw₁, objects_updateDevice]
      have hkeeps : w.Keeps w₁ := .of_eq hobjects (by rw [← hw₁, clients_updateDevice])
      refine ⟨h₁.pushObject rfl rfl rfl rfl,
        ⟨hkeeps.trans (.pushObject w₁ Nat.one_pos rfl), by rw [hobjects], ?_⟩⟩
      rw [Array.size_push]
      exact Nat.lt_succ_self _

theorem Sound.newObject_error (h : w.Sound outside uses) {size : UInt64} {e : RequestError}
    (hnew : w.newObject d size = (w', .error e)) :
    w'.Sound outside uses ∧ w.Keeps w' := by
  unfold World.newObject at hnew
  split at hnew
  · cases hnew
    exact ⟨h, .refl w⟩
  · split at hnew
    · cases hnew
      exact ⟨h.note _, (Keeps.refl w).note _⟩
    · simp at hnew

/-! ### References -/

/-- One reference to an object has gone, and nothing else but its token perhaps. -/
structure Drops (w w' : World) (o : ObjectRef) : Prop where
  follows : w.Follows w'
  size_eq : w'.objects.size = w.objects.size
  clients_eq : w'.clients = w.clients
  refs_eq : ∀ p, (w'.object p).refs = if o = p then (w.object p).refs - 1 else (w.object p).refs
  prepared_eq : ∀ p, (w'.object p).prepared = (w.object p).prepared

/-- The end of an object: without references, name or handles it gives its token back. -/
theorem Consistent.endObject (hcounted : w.Counted outside uses) (hclients : w.ClientsSound)
    (hkept : w.KeptAlive) (hnames : w.NamesSound) (htokens : w.TokensAgree)
    (hlive : ∀ p, o ≠ p → (w.object p).token.isSome = true →
      (w.device (w.object p).home).alive = true → 0 < (w.object p).refs) :
    ∃ w', w.endObject o =
        (w', .ok (if (w.object o).prepared then .ended else .settled)) ∧
      w'.Consistent outside uses ∧ w.SameButTokens w' := by
  let w₁ : World := w.note (.objectDying (w.object o).id)
  have hsame₁ : w.SameButTokens w₁ := (SameButTokens.refl w).note _
  have hagree₁ : w₁.TokensAgree :=
    htokens.frame (Nat.le_refl _) (fun _ => ⟨rfl, rfl⟩) (fun _ => rfl) fun _ _ => rfl
  -- tokens of a device that has gone went with it; otherwise the token is given back now
  have hreleased : ∃ w₂, (if (w₁.device (w.object o).home).alive
      then w₁.destroyToken (w.object o).home o else (w₁, .ok ())) = (w₂, .ok ()) ∧
      w₂.TokensSound ∧ w.SameButTokens w₂ := by
    by_cases halive : (w.device (w.object o).home).alive = true
    · obtain ⟨w₂, hdestroy, hagree, hsame, htoken⟩ := hagree₁.destroyToken (o := o) rfl halive
      have hsame₂ : w.SameButTokens w₂ := hsame₁.trans hsame
      refine ⟨w₂, (if_pos halive).trans hdestroy, ⟨hagree, fun p hp he => ?_⟩, hsame₂⟩
      rw [hsame₂.home_eq, hsame₂.alive_eq] at he
      rw [hsame₂.refs_eq]
      rw [htoken] at hp
      split at hp
      · cases hp
      · next hne => exact hlive p hne hp he
    · refine ⟨w₁, if_neg halive, ⟨hagree₁, fun p hp he => hlive p ?_ hp he⟩, hsame₁⟩
      rintro rfl
      exact halive he
  obtain ⟨w₂, hrelease, htokens₂, hsame₂⟩ := hreleased
  have hcons := hsame₂.consistent hcounted hclients hkept hnames htokens₂
  unfold World.endObject
  simp only [w₁] at hrelease
  simp only [hrelease]
  split
  · exact ⟨w₂, rfl, hcons, hsame₂⟩
  · exact ⟨_, rfl, hcons.note _, hsame₂.note _⟩

/-- With a reference given up the counts are right for those that are left. -/
theorem Counted.release (h : w.Counted (o :: outside) uses) (hlt : o < w.objects.size) :
    (w.updateObject o fun x => { x with refs := x.refs - 1 }).Counted outside uses := by
  have hsame : w.SameButCounts (w.updateObject o fun x => { x with refs := x.refs - 1 }) :=
    .updateObject w o fun _ => ⟨_, _, _, rfl⟩
  refine ⟨fun p => ?_, fun p => ?_⟩
  · have href := h.refs_eq p
    change _ = w.handlesTo p + _ + _
    rw [BufferObject.nameRefs, hsame.name_eq, ← BufferObject.nameRefs, object_updateObject]
    by_cases hp : o = p
    · subst hp
      rw [List.count_cons_self] at href
      simp only [hlt, and_self, if_true]
      omega
    · rw [List.count_cons_of_ne hp] at href
      rwa [if_neg fun heq => hp heq.1]
  · rw [object_updateObject, handlesTo_congr hsame.clients_eq, ← h.uses_eq p]
    split <;> rfl

/-- A reference that is held outside can be given up. With the last one the object ends, and its
driver is owed the news if it had prepared the object. -/
theorem Sound.dropRef (h : w.Sound (o :: outside) uses) :
    ∃ w' dropped, w.dropRef o = (w', .ok dropped) ∧ w'.Sound outside uses ∧ w.Drops w' o ∧
      (dropped = .ended ↔ (w.object o).refs = 1 ∧ (w.object o).prepared = true) := by
  have hlt := lt_size_of_refs (h.live_of_outside List.mem_cons_self)
  let w₁ : World := w.updateObject o fun x => { x with refs := x.refs - 1 }
  have hobject (p : ObjectRef) : w₁.object p =
      if o = p then { w.object p with refs := (w.object p).refs - 1 } else w.object p := by
    simp only [w₁, object_updateObject, hlt, and_true]
  have hprepared (p : ObjectRef) : (w₁.object p).prepared = (w.object p).prepared := by
    rw [hobject]
    split <;> rfl
  have hrefs (p : ObjectRef) : (w₁.object p).refs =
      if o = p then (w.object p).refs - 1 else (w.object p).refs := by
    rw [hobject]
    split <;> rfl
  have hcounted : w₁.Counted outside uses := h.counted.release hlt
  have hsame₁ : w.SameButCounts w₁ := .updateObject w o fun _ => ⟨_, _, _, rfl⟩
  have hused (p : ObjectRef) (hp : (w₁.object p).name.isSome = true) :
      0 < w₁.handlesTo p + uses.count p := h.named_used p (by rwa [hsame₁.name_eq] at hp)
  have hfollows : w.Follows w₁ :=
    .updateObject w o (fun _ => rfl) fun x hx => by dsimp only; omega
  unfold World.dropRef
  dsimp only
  by_cases hone : (w.object o).refs = 1
  · obtain ⟨w', hend, hcons, hsame⟩ := Consistent.endObject (w := w₁) (o := o) hcounted
      (hsame₁.clientsSound h.clients) (hsame₁.keptAlive h.kept) (hsame₁.namesSound h.names)
      (hsame₁.tokensAgree h.tokens.toTokensAgree) fun p hne hp he => by
        rw [hsame₁.token_eq] at hp
        rw [hsame₁.home_eq] at he
        rw [hrefs, if_neg hne]
        exact h.tokens.live p hp he
    rw [if_pos hone]
    refine ⟨w', _, hend, ⟨hcons, fun p hp => ?_⟩, ⟨hfollows.trans hsame.keeps.toFollows,
      hsame.size_eq.trans (by simp [w₁]), hsame.clients_eq, fun p => ?_, fun p => ?_⟩, ?_⟩
    · rw [hsame.name_eq] at hp
      rw [handlesTo_congr hsame.clients_eq]
      exact hused p hp
    · rw [hsame.refs_eq, hrefs]
    · rw [hsame.prepared_eq, hprepared]
    · rw [hprepared]
      cases (w.object o).prepared <;> simp [hone]
  · rw [if_neg hone]
    refine ⟨w₁, _, rfl, ⟨hsame₁.consistent h.clients h.kept h.names h.tokens hcounted
      fun p hp => ?_, hused⟩, ⟨hfollows, by simp [w₁], rfl, hrefs, hprepared⟩, by simp [hone]⟩
    rw [hrefs]
    split
    · next heq =>
      subst heq
      omega
    · exact hp

end BufferObjects.World
