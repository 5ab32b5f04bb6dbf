import BufferObjects.Proofs.Machine.Giving
import BufferObjects.Proofs.Machine.Marks
import BufferObjects.Proofs.Notifications

/-!
The closing of a client. All handles are taken out at once, and then each is closed in its turn, in
the order of the listing, whatever the hooks do in between; from the first moment on the client has
no handles, so a second closing finds nothing to do. Where the hooks do nothing, what is left in the
end is what is left when the handles are deleted one by one, in whatever order.
-/

open scoped List

namespace BufferObjects.Machine

variable {m m' m'' : Machine} {r : Request} {c : ClientRef} {o : ObjectRef} {hd : Handle}
  {xs : List Move}

/-- The object that a client is told to have lost a handle for. -/
def lostBy? (c : ClientRef) : HookCall → Option ObjectRef
  | ⟨.closed e, o⟩ => if e = c then some o else none
  | _ => none

/-- The objects whose handles have been told of as gone from a client, in order. -/
def lostBy (c : ClientRef) (t : List Event) : List ObjectRef :=
  t.filterMap fun
    | .told call => lostBy? c call
    | .answered .. => none

/-! ### Handles that are given up -/

/-- What a machine has become when a client has lost some of its handles and all that these held has
been given up. -/
structure Relieves (m m' : Machine) (c : ClientRef) : Prop where
  sound : m'.Sound
  operations_eq : m'.operations = m.operations
  held_eq : m'.held = m.held
  wanes : m.world.Wanes m'.world
  clients_eq : m'.world.clients = (m.world.setHandles c (m'.world.client c).handles).clients

theorem Relieves.refl (h : m.Sound) (c : ClientRef) : m.Relieves m c :=
  ⟨h, rfl, rfl, .refl m.world, by rw [World.setHandles_self]⟩

theorem Relieves.clients_setHandles (h : m.Relieves m' c) (handles : Option HandleTable) :
    (m'.world.setHandles c handles).clients = (m.world.setHandles c handles).clients := by
  rw [← m.world.setHandles_setHandles c (m'.world.client c).handles handles]
  exact congrArg (·.modify c fun x => { x with handles }) h.clients_eq

theorem Relieves.trans (h : m.Relieves m' c) (h' : m'.Relieves m'' c) : m.Relieves m'' c where
  sound := h'.sound
  operations_eq := h'.operations_eq.trans h.operations_eq
  held_eq := h'.held_eq.trans h.held_eq
  wanes := h.wanes.trans h'.wanes
  clients_eq := h'.clients_eq.trans (h.clients_setHandles _)

theorem Sound.of_carry (h : m.Sound) (hcarry : m.carry? r xs = some m') : m'.Sound :=
  tameRun?_induction (fun _ _ _ h hmove => h.tameMove hmove) h (tameRun?_of_carry? hcarry)

/-- A request that rewrites the table of a client and goes on to give up what has come out. -/
theorem Sound.relieves (h : m.Sound) (hperm : m.permits r = true)
    (htame : r.isTame m.world = true) (hheld : m.heldDuring r = m.held)
    (hc : c < m.world.clients.size) {handles : Option HandleTable} {ns : List Notice}
    {todo : List Task}
    (hstart : r.start m.world = ((m.world.setHandles c handles).noteAll ns, ⟨r, todo, .ok .done⟩))
    (hgives : ∀ t ∈ todo, t.givesUp = true) (driver : QuietDriver) :
    ∃ m', m.perform? driver r = some (.ok .done, m') ∧
      m.carry? r (quietMoves driver (r.start m.world).1 (r.start m.world).2) = some m' ∧
      m.Relieves m' c ∧ (m'.world.client c).handles = handles := by
  have hset : m.world.Wanes (r.start m.world).1 := by
    rw [hstart]
    exact .of_eq (by simp [World.setHandles]) (by simp [World.setHandles])
  have hclients : (r.start m.world).1.clients = (m.world.setHandles c handles).clients := by
    rw [hstart, World.clients_noteAll]
  have hfit := hset.countsFit h.countsFit
  obtain ⟨w, hyields, hperform, hcarry⟩ :=
    h.performs hperm htame hfit (by rw [hstart]; exact hgives) driver
  have houtcome : (r.start m.world).2.outcome = .ok .done := by rw [hstart]
  rw [houtcome, hheld] at hperform hcarry
  have heq := hyields.clients_eq.trans hclients
  have hhandles : (w.client c).handles = handles := by
    rw [World.client_congr heq, World.client_setHandles, if_pos ⟨rfl, hc⟩]
  exact ⟨_, hperform, hcarry, ⟨h.of_carry hcarry, rfl, rfl, hset.trans hyields.toWanes,
    by rw [hhandles]; exact heq⟩, hhandles⟩

theorem givesUp_of_closeClient (w : World) (c : ClientRef) :
    ∀ t ∈ ((Request.closeClient c).start w).2.todo, t.givesUp = true := by
  obtain ⟨ns, hclose⟩ := World.exists_closeClient w c
  rw [Request.start, hclose]
  exact Task.givesUp_closings _ c _

/-- A client that is closed. -/
theorem Sound.closes (h : m.Sound) (hperm : m.permits (.closeClient c) = true)
    (driver : QuietDriver) :
    ∃ m', m.perform? driver (.closeClient c) = some (.ok .done, m') ∧
      m.carry? (.closeClient c) (quietMoves driver ((Request.closeClient c).start m.world).1
        ((Request.closeClient c).start m.world).2) = some m' ∧
      m.Relieves m' c ∧ (m'.world.client c).handles = none := by
  obtain ⟨ns, hclose⟩ := World.exists_closeClient m.world c
  have hc := World.lt_size_of_present (present_of_permits hperm rfl)
  exact h.relieves hperm rfl rfl hc (by rw [Request.start, hclose])
    (Task.givesUp_closings _ c _) driver

/-- A handle that is deleted. -/
theorem Sound.deletes (h : m.Sound) (hperm : m.permits (.deleteHandle c hd) = true)
    (hlook : m.world.lookupHandle c hd = .ok o) (driver : QuietDriver) :
    ∃ m', m.perform? driver (.deleteHandle c hd) = some (.ok .done, m') ∧
      m.carry? (.deleteHandle c hd) (quietMoves driver
        ((Request.deleteHandle c hd).start m.world).1
        ((Request.deleteHandle c hd).start m.world).2) = some m' ∧
      m.Relieves m' c ∧ (m'.world.client c).handles.isSome = true ∧
      ∀ g p, m'.world.lookupHandle c g = .ok p ↔ g ≠ hd ∧ m.world.lookupHandle c g = .ok p := by
  have hwf : m.world.TablesSound := h.world.clients.wellFormed
  have hc := World.lt_size_of_present (present_of_permits hperm rfl)
  rcases htake : m.world.takeHandle c hd with ⟨w, _ | ⟨p, freed⟩⟩
  · exact absurd hlook ((World.of_takeHandle_none htake).2 o)
  obtain ⟨rfl, table, table', htable, hfind, hwf', hwithdraws, rfl⟩ :=
    hwf.of_takeHandle_some htake
  have hstart : (Request.deleteHandle c hd).start m.world =
      ((m.world.setHandles c (some table')).noteAll [.handleRemoved hd],
        ⟨.deleteHandle c hd, Task.closing (m.world.setHandles c (some table')) c p,
          .ok .done⟩) := by
    rw [Request.start, Request.startDelete, htake]
    rfl
  obtain ⟨m', hperform, hcarry, hrelieves, hhandles⟩ :=
    h.relieves hperm rfl rfl hc hstart (Task.givesUp_closing _ c p) driver
  refine ⟨m', hperform, hcarry, hrelieves, by rw [hhandles]; rfl, fun g p => ?_⟩
  rw [World.lookupHandle_eq_ok, World.lookupHandle_eq_ok, hhandles, htable]
  simp only [Option.some.injEq, exists_eq_left', hwithdraws.find?_eq]
  by_cases hg : g = hd <;> simp [hg]

theorem permits_deleteHandle : m.permits (.deleteHandle c hd) = true ↔
    m.isReady = true ∧ (m.world.client c).present = true := by
  simp [permits, canReach, pullsAway, Request.device?, Request.client?, Request.object?,
    Request.viewed?]

theorem permits_closeClient : m.permits (.closeClient c) = true ↔
    m.isReady = true ∧ (m.world.client c).present = true := by
  simp [permits, canReach, pullsAway, Request.device?, Request.client?, Request.object?,
    Request.viewed?]

theorem isReady_congr (h : m'.operations = m.operations) : m'.isReady = m.isReady := by
  simp only [isReady, hook?, h]

theorem Relieves.present_eq (h : m.Relieves m' c) (e : ClientRef) :
    (m'.world.client e).present = (m.world.client e).present := by
  rw [World.client_congr h.clients_eq, World.client_setHandles]
  split <;> rfl

/-- Handles that are deleted one after the other. -/
theorem Sound.deletesAll (h : m.Sound) (hready : m.isReady = true)
    (hpresent : (m.world.client c).present = true)
    (hopen : (m.world.client c).handles.isSome = true) {hs : List Handle} (hnodup : hs.Nodup)
    (hlook : ∀ g ∈ hs, ∃ o, m.world.lookupHandle c g = .ok o) (driver : QuietDriver) :
    ∃ m', m.performAll? driver (hs.map (.deleteHandle c)) =
        some (hs.map fun _ => .ok .done, m') ∧
      m.tameRun? (m.performances driver (hs.map (.deleteHandle c))) = some m' ∧
      m.Relieves m' c ∧ (m'.world.client c).handles.isSome = true ∧
      ∀ g p, m'.world.lookupHandle c g = .ok p ↔ g ∉ hs ∧ m.world.lookupHandle c g = .ok p := by
  induction hs generalizing m with
  | nil => exact ⟨m, rfl, rfl, .refl h c, hopen, by simp⟩
  | cons hd hs ih =>
    obtain ⟨hfirst, hlook⟩ := List.forall_mem_cons.mp hlook
    obtain ⟨hnotin, hnodup⟩ := List.nodup_cons.mp hnodup
    obtain ⟨o, hled⟩ := hfirst
    obtain ⟨m₁, hperform, hcarry, hrelieves, hopen₁, hlook₁⟩ :=
      h.deletes (permits_deleteHandle.mpr ⟨hready, hpresent⟩) hled driver
    obtain ⟨m₂, hall, hrun, hrelieves₂, hopen₂, hlook₂⟩ :=
      ih hrelieves.sound ((isReady_congr hrelieves.operations_eq).trans hready)
        ((hrelieves.present_eq c).trans hpresent) hopen₁ hnodup fun g hg => by
          obtain ⟨p, hp⟩ := hlook g hg
          exact ⟨p, (hlook₁ g p).mpr ⟨fun heq => hnotin (heq ▸ hg), hp⟩⟩
    refine ⟨m₂, ?_, ?_, hrelieves.trans hrelieves₂, hopen₂, fun g p => ?_⟩
    · rw [List.map_cons, performAll?, hperform, Option.bind_some, hall]
      rfl
    · rw [List.map_cons, performances, hperform, performance,
        tameRun?_append (tameRun?_of_carry? hcarry)]
      exact hrun
    · rw [hlook₂, hlook₁, List.mem_cons, not_or, and_left_comm, and_assoc]

/-- A client that has no handle left has an empty table. -/
theorem Sound.items_eq_nil (h : m.Sound)
    (hnone : ∀ g p, m.world.lookupHandle c g ≠ .ok p) : (m.world.client c).items = [] := by
  cases htable : (m.world.client c).handles with
  | none => rw [Client.items, htable]
  | some table =>
    rw [Client.items, htable, List.eq_nil_iff_forall_not_mem]
    intro p hp
    obtain ⟨g, hg⟩ := (h.world.clients.wellFormed c table htable).mem_items_iff.mp hp
    exact hnone g p (World.lookupHandle_eq_ok.mpr ⟨table, htable, hg⟩)

/-- What is left is the same, whether a client has been closed or has lost its handles. -/
theorem Relieves.alike {m₁ m₂ : Machine} (h₁ : m.Relieves m₁ c) (h₂ : m.Relieves m₂ c)
    (hc : c < m.world.clients.size) (hclosed : (m₁.world.client c).handles = none)
    (hnone : ∀ g p, m₂.world.lookupHandle c g ≠ .ok p) :
    (m₂.world.setHandles c none).Alike m₁.world := by
  have houtside : m₁.outside = m₂.outside := by
    rw [outside, outside, h₁.operations_eq, h₁.held_eq, h₂.operations_eq, h₂.held_eq]
  have huses : m₁.uses = m₂.uses := by
    rw [Machine.uses, Machine.uses, h₁.operations_eq, h₂.operations_eq]
  have hsound₁ := h₁.sound.world
  rw [houtside, huses] at hsound₁
  have hsound₂ : (m₂.world.setHandles c none).Sound ([] ++ m₂.outside) ([] ++ m₂.uses) := by
    refine h₂.sound.world.handOver ?_ ?_ ?_ ?_
    · rw [h₂.clients_eq]
      simpa [World.setHandles] using hc
    · rintro _ ⟨⟩
    · rw [h₂.sound.items_eq_nil hnone]
      exact .refl _
    · simp
  have hclients : m₁.world.clients = (m₂.world.setHandles c none).clients := by
    rw [h₂.clients_setHandles, h₁.clients_eq, hclosed]
  exact hsound₂.alike hsound₁ hclients (h₂.wanes.trans (.of_eq rfl rfl)) h₁.wanes
    (fun _ => h₂.sound.used_of_name) fun _ => h₁.sound.used_of_name

/-! ### Ends that are told of -/

/-- What has been told of ends since a state: the objects that have ended since, if prepared. -/
structure Reaps (m : Machine) (t : List Event) (m' : Machine) : Prop where
  sound : m'.Sound
  follows : m.world.Follows m'.world
  lt_size : ∀ o, .told ⟨.freed, o⟩ ∈ t → o < m'.world.objects.size
  freed_iff : ∀ o < m.world.objects.size, .told ⟨.freed, o⟩ ∈ t ↔
    0 < (m.world.object o).refs ∧ (m'.world.object o).refs = 0 ∧
      (m'.world.object o).prepared = true

theorem Reaps.refl (h : m.Sound) : m.Reaps [] m where
  sound := h
  follows := (World.Keeps.refl m.world).toFollows
  lt_size := nofun
  freed_iff o _ := by
    refine iff_of_false List.not_mem_nil ?_
    rintro ⟨hlive, hdead, -⟩
    exact absurd hdead (Nat.ne_of_gt hlive)

theorem Reaps.move {t : List Event} {x : Move} (h : m.Reaps t m')
    (hmove : m'.tameMove? x = some m'') : m.Reaps (t ++ m'.events x m'') m'' := by
  have hturn := h.sound.turn_of_tameMove hmove
  refine ⟨h.sound.tameMove hmove, h.follows.trans hturn.toFollows, fun o ho => ?_,
    fun o ho => ?_⟩
  · refine Nat.lt_of_lt_of_le ?_ hturn.size_objects
    rcases List.mem_append.mp ho with hin | hin
    · exact h.lt_size o hin
    · exact ((hturn.freed_iff o).mp (mem_events_told.mp hin)).1
  · have hlt := Nat.lt_of_lt_of_le ho h.follows.size_objects
    have hnever := h.follows.dead o ho
    have hdead := hturn.dead o hlt
    -- what is being prepared lives
    have hsame (hzero : (m''.world.object o).refs = 0) :
        (m''.world.object o).prepared = (m'.world.object o).prepared := by
      rw [hturn.prepared_eq o hlt, Bool.or_eq_left_iff_imp, decide_eq_true_iff]
      intro hprep
      exact absurd hzero (Nat.ne_of_gt (hturn.prepared_live o hprep).2)
    rw [List.mem_append, h.freed_iff o ho, mem_events_told, hturn.freed_iff]
    constructor
    · rintro (⟨hlive, hzero, hprep⟩ | ⟨-, hlive, hzero, hprep⟩)
      · exact ⟨hlive, hdead hzero, (hsame (hdead hzero)).trans hprep⟩
      · exact ⟨Nat.pos_of_ne_zero fun hgone => Nat.ne_of_gt hlive (hnever hgone), hzero,
          (hsame hzero).trans hprep⟩
    · rintro ⟨hlive, hzero, hprep⟩
      rw [hsame hzero] at hprep
      rcases Nat.eq_zero_or_pos (m'.world.object o).refs with hgone | hpos
      · exact Or.inl ⟨hlive, hgone, hprep⟩
      · exact Or.inr ⟨hlt, hpos, hzero, hprep⟩

theorem Sound.reaps (h : m.Sound) (hrun : m.tameRun? xs = some m') :
    m.Reaps (m.trace xs) m' := by
  rw [tameRun?_eq_tameRunWhile?] at hrun
  exact tameRunWhile?_trace_induction (P := m.Reaps) (fun _ _ _ _ h hmove _ => h.move hmove)
    (.refl h) hrun

/-- Two runs that leave the same objects have told of the same ends. -/
theorem Reaps.freed_iff_freed {m₁ m₂ : Machine} {t₁ t₂ : List Event} (h₁ : m.Reaps t₁ m₁)
    (h₂ : m.Reaps t₂ m₂) (hobjects : m₁.world.objects = m₂.world.objects)
    (hsize : m₁.world.objects.size = m.world.objects.size) (o : ObjectRef) :
    .told ⟨.freed, o⟩ ∈ t₁ ↔ .told ⟨.freed, o⟩ ∈ t₂ := by
  rcases Nat.lt_or_ge o m.world.objects.size with hlt | hge
  · rw [h₁.freed_iff o hlt, h₂.freed_iff o hlt, World.object_congr hobjects]
  · refine iff_of_false (fun hin => ?_) fun hin => ?_
    · exact Nat.not_lt.mpr hge (hsize ▸ h₁.lt_size o hin)
    · exact Nat.not_lt.mpr hge (hsize ▸ hobjects ▸ h₂.lt_size o hin)

/-! ### Closings in their turn -/

theorem lostBy_append (c : ClientRef) (t t' : List Event) :
    lostBy c (t ++ t') = lostBy c t ++ lostBy c t' := List.filterMap_append

theorem lostBy_events (c : ClientRef) (m : Machine) (x : Move) (m' : Machine) :
    lostBy c (m.events x m') = (told? x m').toList.filterMap (lostBy? c) := by
  have hanswered : lostBy c (m.answered? x).toList = [] := by
    cases x with
    | answer v => cases hhook : m.hook? <;> simp [answered?, hhook, lostBy]
    | _ => rfl
  rw [events, lostBy_append, hanswered, List.nil_append]
  cases told? x m' <;> rfl

theorem lostBy_events_call (c : ClientRef) (h : m.call? r = some m') :
    lostBy c (m.events (.call r) m') =
      (r.start m.world).2.hook?.toList.filterMap (lostBy? c) := by
  obtain ⟨-, rfl⟩ := call?_eq_some.mp h
  rw [lostBy_events]
  exact congrArg (·.toList.filterMap (lostBy? c)) (hook?_cons ..)

/-- The closings on a list, the one that is being told first. -/
theorem lostBy_closings (c : ClientRef) (op : Operation) : op.closings.filterMap (lostBy? c) =
    op.hook?.toList.filterMap (lostBy? c) ++ op.owed.filterMap (lostBy? c) := by
  obtain ⟨r, todo, outcome⟩ := op
  cases todo with
  | nil => rfl
  | cons task rest =>
    have htask : task.closings.filterMap (lostBy? c) =
        task.hook?.toList.filterMap (lostBy? c) := by cases task <;> rfl
    rw [Operation.closings, List.flatMap_cons, List.filterMap_append, htask]
    rfl

theorem lostBy_eq_nil {calls : List HookCall} (h : ∀ o, ⟨.closed c, o⟩ ∉ calls) :
    calls.filterMap (lostBy? c) = [] := by
  refine List.filterMap_eq_nil_iff.mpr fun call hcall => ?_
  obtain ⟨hook, o⟩ := call
  cases hook with
  | closed e =>
    refine if_neg ?_
    rintro rfl
    exact h o hcall
  | _ => rfl

/-- A client that is being closed by an operation: what has been told of as gone and what the
operation has still to tell of are the handles that the client had, in their order. The operations
that have come since have nothing to tell of the client. -/
structure Closing (c : ClientRef) (os : List ObjectRef) (outer : List Operation) (t : List Event)
    (m : Machine) : Prop where
  sound : m.Sound
  lt_size : c < m.world.clients.size
  closed : (m.world.client c).handles = none
  operations : ∃ inner op, m.operations = inner ++ op :: outer ∧
    lostBy c t ++ op.owed.filterMap (lostBy? c) = os ∧
    ∀ p ∈ inner, p.closings.filterMap (lostBy? c) = []

variable {os : List ObjectRef} {outer : List Operation} {t : List Event}

/-- A request has nothing to tell of a client that is closed. -/
theorem Sound.lostBy_of_closed (h : m.Sound) (hclosed : (m.world.client c).handles = none)
    (hclosed' : ((r.start m.world).1.client c).handles = none) :
    (r.start m.world).2.closings.filterMap (lostBy? c) = [] := by
  have hwf : m.world.TablesSound := h.world.clients.wellFormed
  refine lostBy_eq_nil fun o => ?_
  have henters := Request.enters hwf r c o
  have hopened : (r.start m.world).2.hook?.toList.count ⟨.opened c, o⟩ = 0 := by
    rw [List.count_eq_zero, Option.mem_toList, Operation.hook?_eq_opened]
    rintro ⟨g, hg⟩
    have hled := ((Request.starts m.world hwf r).lookup_iff c g o).mpr (Or.inl hg)
    simp [World.lookupHandle, hclosed'] at hled
  rw [Client.items, hclosed', Client.items, hclosed, hopened] at henters
  exact List.count_eq_zero.mp ((Nat.zero_add _).symm.trans henters)

theorem Closing.advance {x : Move} {op op' : Operation} {outer' : List Operation}
    (h : Closing c os outer t m) (hadv : Advances m m' op op' outer')
    (htold : told? x m' = m'.hook?) (hsound : m'.Sound) (hlt : c < m'.world.clients.size)
    (hclosed : (m'.world.client c).handles = none) :
    Closing c os outer (t ++ m.events x m') m' := by
  obtain ⟨inner, op₀, hops, hlost, hinner⟩ := h.operations
  have hsplit := lostBy_closings c op'
  rw [hadv.closings_eq] at hsplit
  refine ⟨hsound, hlt, hclosed, ?_⟩
  rw [lostBy_append, lostBy_events, htold, hadv.hook?_eq]
  have hbefore := hadv.before
  rw [hops] at hbefore
  cases inner with
  | nil =>
    obtain ⟨rfl, rfl⟩ := List.cons.inj hbefore
    refine ⟨[], op', hadv.after, ?_, List.forall_mem_nil _⟩
    rw [List.append_assoc, ← hsplit]
    exact hlost
  | cons p inner =>
    obtain ⟨rfl, rfl⟩ := List.cons.inj hbefore
    obtain ⟨hp, hinner⟩ := List.forall_mem_cons.mp hinner
    rw [lostBy_closings, List.append_eq_nil_iff] at hp
    rw [hp.2] at hsplit
    obtain ⟨hhook, howed⟩ := List.append_eq_nil_iff.mp hsplit.symm
    refine ⟨op' :: inner, op₀, hadv.after, ?_, List.forall_mem_cons.mpr ⟨?_, hinner⟩⟩
    · rwa [hhook, List.append_nil]
    · rw [hadv.closings_eq, hp.2]

theorem Closing.move {x : Move} (h : Closing c os outer t m) (hmove : m.tameMove? x = some m')
    (hstays : outer.length < m'.operations.length) :
    Closing c os outer (t ++ m.events x m') m' := by
  have hsound := h.sound.tameMove hmove
  have hturn := h.sound.turn_of_tameMove hmove
  have hlt := Nat.lt_of_lt_of_le h.lt_size hturn.size_clients
  have hclosed := hturn.closed c h.lt_size h.closed
  cases x with
  | call r =>
    obtain ⟨inner, op, hops, hlost, hinner⟩ := h.operations
    have hevents := lostBy_events_call c (tameMove?_eq_some.mp hmove).2.1
    obtain ⟨-, rfl⟩ := call?_eq_some.mp (tameMove?_eq_some.mp hmove).2.1
    have hnew := h.sound.lostBy_of_closed h.closed hclosed
    refine ⟨hsound, hlt, hclosed, (r.start m.world).2 :: inner, op, by rw [hops]; rfl, ?_,
      List.forall_mem_cons.mpr ⟨hnew, hinner⟩⟩
    rw [lostBy_closings, List.append_eq_nil_iff] at hnew
    rw [lostBy_append, hevents, hnew.1, List.append_nil]
    exact hlost
  | work =>
    obtain ⟨op, op', outer', hadv, -, -⟩ := h.sound.advances_work hmove
    exact h.advance hadv rfl hsound hlt hclosed
  | answer v =>
    obtain ⟨op, op', outer', task, rest, call, hadv, -⟩ := h.sound.advances_answer hmove
    exact h.advance hadv rfl hsound hlt hclosed
  | finish =>
    obtain ⟨inner, op, hops, hlost, hinner⟩ := h.operations
    obtain ⟨op', outer', hops', -, rfl⟩ := of_finish (tameMove?_eq_some.mp hmove).2.1
    rw [hops] at hops'
    cases inner with
    | nil =>
      -- the operation itself would be over
      obtain ⟨-, rfl⟩ := List.cons.inj hops'
      exact absurd hstays (Nat.lt_irrefl _)
    | cons p inner =>
      obtain ⟨-, rfl⟩ := List.cons.inj hops'
      refine ⟨hsound, hlt, hclosed, inner, op, rfl, ?_, (List.forall_mem_cons.mp hinner).2⟩
      rw [lostBy_append, lostBy_events]
      simpa [told?] using hlost
  | memory memory =>
    obtain ⟨inner, op, hops, hlost, hinner⟩ := h.operations
    cases (tameMove?_eq_some.mp hmove).2.1
    refine ⟨hsound, hlt, hclosed, inner, op, hops, ?_, hinner⟩
    rw [lostBy_append, lostBy_events]
    simpa [told?] using hlost

theorem lostBy_closing (c : ClientRef) (w : World) (os : List ObjectRef) :
    ((os.flatMap (Task.closing w c)).flatMap Task.closings).filterMap (lostBy? c) = os := by
  induction os with
  | nil => rfl
  | cons o os ih =>
    rw [List.flatMap_cons, List.flatMap_append, List.filterMap_append, ih]
    simp [Task.closing, Task.closings, lostBy?]

/-- The call takes out all handles of the client, and lists a closing for each. -/
theorem lostBy_start (w : World) (hr : r = .closeClient c ∨ r = .dropClient c) :
    ((r.start w).1.client c).handles = none ∧
      (r.start w).2.closings.filterMap (lostBy? c) = (w.client c).items := by
  obtain ⟨ns, hclose⟩ := World.exists_closeClient w c
  have hclosed : (((w.setHandles c none).noteAll ns).client c).handles = none := by
    rw [World.client_noteAll, World.client_setHandles]
    split
    · rfl
    · next hc =>
      rw [World.client_of_size_le (Nat.le_of_not_lt fun hlt => hc ⟨rfl, hlt⟩)]
      rfl
  rcases hr with rfl | rfl <;> simp only [Request.start, hclose, Operation.closings]
  · exact ⟨hclosed, lostBy_closing c _ _⟩
  · refine ⟨hclosed, ?_⟩
    rw [List.flatMap_append, List.filterMap_append, lostBy_closing]
    exact List.append_nil _

theorem Sound.closing (h : m.Sound) (hr : r = .closeClient c ∨ r = .dropClient c)
    (hmove : m.tameMove? (.call r) = some m') :
    Closing c (m.world.client c).items m.operations (m.events (.call r) m') m' := by
  have hsound := h.tameMove hmove
  have hturn := h.turn_of_tameMove hmove
  have hevents := lostBy_events_call c (tameMove?_eq_some.mp hmove).2.1
  obtain ⟨hperm, rfl⟩ := call?_eq_some.mp (tameMove?_eq_some.mp hmove).2.1
  have hc : c < m.world.clients.size := by
    refine World.lt_size_of_present (present_of_permits hperm ?_)
    rcases hr with rfl | rfl <;> rfl
  obtain ⟨hclosed, hlost⟩ := lostBy_start m.world hr
  refine ⟨hsound, Nat.lt_of_lt_of_le hc hturn.size_clients, hclosed, [], _, rfl, ?_,
    List.forall_mem_nil _⟩
  rw [hevents, ← lostBy_closings]
  exact hlost

/-- When the operation is over, everything has been told. -/
theorem Sound.lostBy_of_carry (h : m.Sound) (hr : r = .closeClient c ∨ r = .dropClient c)
    (hcarry : m.carry? r xs = some m') :
    lostBy c (m.trace (.call r :: xs)) = (m.world.client c).items := by
  obtain ⟨m₂, hrun, hfinish, hlength⟩ := carry?_eq_some.mp hcarry
  obtain ⟨m₁, hx, hxs⟩ := Option.bind_eq_some_iff.mp hrun
  obtain ⟨hmove, -⟩ := Option.filter_eq_some_iff.mp hx
  have hclosing := tameRunWhile?_trace_induction
    (P := Closing c (m.world.client c).items m.operations)
    (fun _ _ _ _ h hmove htest => h.move hmove (by simpa using htest)) (h.closing hr hmove) hxs
  have htrace : m.trace (.call r :: xs) = m.events (.call r) m₁ ++ m₁.trace xs := by
    rw [trace, (tameMove?_eq_some.mp hmove).2.1]
  obtain ⟨inner, op, hops, hlost, -⟩ := hclosing.operations
  obtain ⟨op', outer, hops', htodo, rfl⟩ := of_finish (tameMove?_eq_some.mp hfinish).2.1
  rw [hops] at hops'
  cases inner with
  | nil =>
    obtain ⟨rfl, -⟩ := List.cons.inj hops'
    rw [Operation.owed, htodo] at hlost
    rw [htrace, ← hlost]
    exact (List.append_nil _).symm
  | cons p inner =>
    -- an operation further in would still be there
    obtain ⟨-, rfl⟩ := List.cons.inj hops'
    simp at hlength
    omega

/-- A client that is closed stays closed, and to close it again does nothing. -/
theorem Sound.closes_once (h : m.Sound) (hr : r = .closeClient c ∨ r = .dropClient c)
    (hmove : m.tameMove? (.call r) = some m') (hrun : m'.tameRun? xs = some m'') :
    m''.world.isClosed c = true ∧ ∀ driver, m''.permits (.closeClient c) = true →
      m''.perform? driver (.closeClient c) = some (.ok .done, m'') := by
  have hclosing := h.closing hr hmove
  obtain ⟨-, -, hclosed⟩ := tameRun?_induction (P := fun m => m.Sound ∧
      c < m.world.clients.size ∧ (m.world.client c).handles = none)
    (fun m x m' ⟨h, hc, hclosed⟩ hmove => by
      have hturn := h.turn_of_tameMove hmove
      exact ⟨h.tameMove hmove, Nat.lt_of_lt_of_le hc hturn.size_clients, hturn.closed c hc hclosed⟩)
    ⟨hclosing.sound, hclosing.lt_size, hclosing.closed⟩ hrun
  refine ⟨Option.isNone_iff_eq_none.mpr hclosed, fun driver hperm => ?_⟩
  have hstart : (Request.closeClient c).start m''.world =
      (m''.world, .finished (.closeClient c) (.ok .done)) := by
    rw [Request.start, World.closeClient, hclosed]
    rfl
  exact perform?_of_finished hperm driver hstart

/-- No closing of an object is told of after the object's end while a request is carried out. -/
theorem Sound.closed_before_freed (h : m.Sound) (c : ClientRef) (hcarry : m.carry? r xs = some m') :
    (m.trace (.call r :: xs)).Pairwise fun a b =>
      ∀ o, a = .told ⟨.freed, o⟩ → b ≠ .told ⟨.closed c, o⟩ := by
  obtain ⟨m₁, hrun, -⟩ := carry?_eq_some.mp hcarry
  have hfirst := tameRunWhile?_trace_induction (P := ClosesFirst) (t := [])
    (fun _ _ _ _ h hmove _ => h.move hmove) (.start h) hrun
  exact hfirst.inOrder.imp fun hab o => hab c o

/-! ### Teardown -/

/-- The listing of a client's table holds its handles, by their numbers. -/
theorem Sound.mem_toList_iff_lookupHandle (h : m.Sound) {table : HandleTable}
    (htable : (m.world.client c).handles = some table) (key : UInt64) (p : ObjectRef) :
    (key, p) ∈ table.entries.toList ↔
      ∃ g : Handle, g.toUInt64 = key ∧ m.world.lookupHandle c g = .ok p := by
  have hwf := (h.world.clients.wellFormed c table htable).numbered
  rw [hwf.table.mem_toList_iff]
  constructor
  · intro hfind
    obtain ⟨g, rfl, -⟩ := (hwf.isSome_find?_iff key).mp (by rw [hfind]; rfl)
    exact ⟨g, rfl, World.lookupHandle_eq_ok.mpr ⟨table, htable, hfind⟩⟩
  · rintro ⟨g, rfl, hlook⟩
    obtain ⟨table', htable', hfind⟩ := World.lookupHandle_eq_ok.mp hlook
    obtain rfl : table = table' := Option.some.inj (htable.symm.trans htable')
    exact hfind

/-- The closing of a client, in any state of a tame run. Its handles are listed by bucket and then
by key. Under drivers that only answer, the client can be closed, and its handles can be deleted in
any order, and no one can tell afterwards which was done, but for the client's being closed; the same
ends have been told of. Whatever is done in the hooks, the driver is told once of each handle that
the client had, in the order of the listing, and of none after the end of its object; and once the
hooks are over, the closing can go on to its end. From the call on the client is closed, and to close
it again does nothing. -/
theorem teardown_of_tameRun {moves : List Move} (hrun : empty.tameRun? moves = some m)
    (c : ClientRef) :
    (∀ table, (m.world.client c).handles = some table →
      (m.world.client c).items = table.entries.toList.map Prod.snd ∧
      table.entries.toList.Pairwise (KeyTable.Precedes table.entries.order) ∧
      ∀ key p, (key, p) ∈ table.entries.toList ↔
        ∃ g : Handle, g.toUInt64 = key ∧ m.world.lookupHandle c g = .ok p) ∧
    (∀ (driver driver' : QuietDriver) (hs : List Handle), m.permits (.closeClient c) = true →
      m.world.isClosed c = false → hs.Nodup →
      (∀ g, g ∈ hs ↔ ∃ p, m.world.lookupHandle c g = .ok p) →
      ∃ m₁ m₂ xs, m.perform? driver (.closeClient c) = some (.ok .done, m₁) ∧
        m.performAll? driver' (hs.map (.deleteHandle c)) =
          some (hs.map fun _ => .ok .done, m₂) ∧
        m₁.world.isClosed c = true ∧ (m₂.world.setHandles c none).Alike m₁.world ∧
        m₁.held = m₂.held ∧ m₁.operations = m₂.operations ∧
        m.performance driver (.closeClient c) = .call (.closeClient c) :: (xs ++ [.finish]) ∧
        (∀ r, .call r ∉ xs) ∧ m.carry? (.closeClient c) xs = some m₁ ∧
        m.tameRun? (m.performances driver' (hs.map (.deleteHandle c))) = some m₂ ∧
        ∀ o, .told ⟨.freed, o⟩ ∈ m.trace (m.performance driver (.closeClient c)) ↔
          .told ⟨.freed, o⟩ ∈ m.trace (m.performances driver' (hs.map (.deleteHandle c)))) ∧
    (∀ r xs m', r = .closeClient c ∨ r = .dropClient c → m.carry? r xs = some m' →
      lostBy c (m.trace (.call r :: xs)) = (m.world.client c).items ∧
      (m.trace (.call r :: xs)).Pairwise fun a b =>
        ∀ o, a = .told ⟨.freed, o⟩ → b ≠ .told ⟨.closed c, o⟩) ∧
    (∀ xs m', m.tameRunWhile? (fun _ _ m' => m.operations.length < m'.operations.length)
        (.call (.closeClient c) :: xs) = some m' →
      m'.operations.length = m.operations.length + 1 →
      ∃ ys m'', m.carry? (.closeClient c) (xs ++ ys) = some m'') ∧
    (∀ r m' xs m'', r = .closeClient c ∨ r = .dropClient c → m.tameMove? (.call r) = some m' →
      m'.tameRun? xs = some m'' →
      m''.world.isClosed c = true ∧ ∀ driver, m''.permits (.closeClient c) = true →
        m''.perform? driver (.closeClient c) = some (.ok .done, m'')) := by
  have h := Sound.of_tameRun hrun
  refine ⟨fun table htable => ?_, fun driver driver' hs hperm hopen hnodup hall => ?_,
    fun r xs m' hr hcarry => ⟨h.lostBy_of_carry hr hcarry, h.closed_before_freed c hcarry⟩,
    fun xs m' hbegun hlength => h.exists_carry (givesUp_of_closeClient m.world c) hbegun hlength,
    fun r m' xs m'' hr hmove hrest => h.closes_once hr hmove hrest⟩
  · have hwf := (h.world.clients.wellFormed c table htable).numbered
    exact ⟨by rw [Client.items, htable]; rfl, hwf.table.pairwise_toList,
      h.mem_toList_iff_lookupHandle htable⟩
  · obtain ⟨hready, hpresent⟩ := permits_closeClient.mp hperm
    have hsome : (m.world.client c).handles.isSome = true := by
      simpa [World.isClosed, Option.isSome_iff_ne_none] using hopen
    obtain ⟨m₁, hperform, hcarry, hrelieves₁, hclosed⟩ := h.closes hperm driver
    obtain ⟨m₂, hall₂, hrun₂, hrelieves₂, -, hlook⟩ := h.deletesAll hready hpresent hsome hnodup
      (fun g hg => (hall g).mp hg) driver'
    have halike := hrelieves₁.alike hrelieves₂ (World.lt_size_of_present hpresent) hclosed
      fun g p hp => ((hlook g p).mp hp).1 ((hall g).mpr ⟨p, ((hlook g p).mp hp).2⟩)
    refine ⟨m₁, m₂, _, hperform, hall₂, Option.isNone_iff_eq_none.mpr hclosed, halike,
      hrelieves₁.held_eq.trans hrelieves₂.held_eq.symm,
      hrelieves₁.operations_eq.trans hrelieves₂.operations_eq.symm, rfl,
      fun r => call_notMem_quietMoves driver _ _ r, hcarry, hrun₂, ?_⟩
    exact (h.reaps (tameRun?_of_carry? hcarry)).freed_iff_freed (h.reaps hrun₂)
      halike.objects_eq hrelieves₁.wanes.size_objects

/-- A client has three handles, listed as 2, 1 and 3, and the object of the first lives by it alone.
The handles are deleted in another order, or the client is closed while the driver, told of the first
handle, tries to delete another one, to close the client itself and to open a handle. -/
theorem teardown_of_tameRun_three :
    let moves := opening ++ [.call (.createObject 0 4096), .answer .accept, .finish,
      .call (.createHandle 0 0), .answer .accept, .finish,
      .call (.createHandle 0 1), .answer .accept, .finish,
      .call (.createHandle 0 0), .answer .accept, .finish,
      .call (.nameHandle 0 0 2), .work, .finish, .call (.dropObject 1), .work, .finish]
    let nested := [.call (.deleteHandle 0 1), .finish, .call (.closeClient 0), .finish,
      .call (.createHandle 0 0), .finish, .answer .accept, .work, .work, .answer .accept,
      .answer .accept, .work, .work, .answer .accept, .work, .work]
    ∃ m, empty.tameRun? moves = some m ∧
      (∃ m₁ m₂, m.perform? .accepting (.closeClient 0) = some (.ok .done, m₁) ∧
        m.performAll? .accepting [.deleteHandle 0 3, .deleteHandle 0 1, .deleteHandle 0 2] =
          some ([.ok .done, .ok .done, .ok .done], m₂) ∧
        (m₂.world.setHandles 0 none).Alike m₁.world) ∧
      ∃ m', m.carry? (.closeClient 0) nested = some m' ∧
        lostBy 0 (m.trace (.call (.closeClient 0) :: nested)) = [1, 0, 0] := by
  intro moves nested
  have hread : (empty.tameRun? moves).map (fun m =>
      ((m.world.client 0).handles.map (·.entries.toList), m.permits (.closeClient 0),
        (m.carry? (.closeClient 0) nested).isSome)) =
      some (some [(2, 1), (1, 0), (3, 0)], true, true) := by decide +kernel
  obtain ⟨m, hrun, hfacts⟩ := Option.map_eq_some_iff.mp hread
  obtain ⟨htables, hfacts⟩ := Prod.mk.inj hfacts
  obtain ⟨hperm, hcarries⟩ := Prod.mk.inj hfacts
  obtain ⟨table, htable, hentries⟩ := Option.map_eq_some_iff.mp htables
  obtain ⟨m', hcarry⟩ := Option.isSome_iff_exists.mp hcarries
  obtain ⟨hlisted, hsame, hinTurn, -⟩ := teardown_of_tameRun hrun 0
  obtain ⟨hitems, -, hmem⟩ := hlisted table htable
  rw [hentries] at hitems hmem
  have hopen : m.world.isClosed 0 = false := by rw [World.isClosed, htable]; rfl
  have hhandles (g : Handle) : g ∈ [3, 1, 2] ↔ ∃ p, m.world.lookupHandle 0 g = .ok p := by
    constructor
    · intro hg
      obtain ⟨p, hp⟩ : ∃ p, (g.toUInt64, p) ∈ [((2 : UInt64), 1), (1, 0), (3, 0)] := by
        simp only [List.mem_cons, List.not_mem_nil, or_false] at hg
        rcases hg with rfl | rfl | rfl
        exacts [⟨0, by decide⟩, ⟨0, by decide⟩, ⟨1, by decide⟩]
      obtain ⟨g', hg', hlook⟩ := (hmem _ p).mp hp
      exact ⟨p, UInt32.toUInt64_inj.mp hg' ▸ hlook⟩
    · rintro ⟨p, hlook⟩
      have hp := (hmem _ p).mpr ⟨g, rfl, hlook⟩
      simp only [List.mem_cons, Prod.mk.injEq, List.not_mem_nil, or_false] at hp
      rw [List.mem_cons, List.mem_cons, List.mem_singleton, ← UInt32.toUInt64_inj,
        ← UInt32.toUInt64_inj, ← UInt32.toUInt64_inj]
      rcases hp with hp | hp | hp <;> simp [hp]
  obtain ⟨m₁, m₂, -, hperform, hall, -, halike, -⟩ :=
    hsame .accepting .accepting [3, 1, 2] hperm hopen (by decide) hhandles
  refine ⟨m, hrun, ⟨m₁, m₂, hperform, hall, halike⟩, m', hcarry, ?_⟩
  exact (hinTurn _ nested m' (Or.inl rfl) hcarry).1.trans hitems

/-- When the client is closed, the closing of the object with the name breaks off, and the driver is
not told of the handle of the other object, which goes on counting it; one by one both are closed. -/
theorem teardown_breaks_off_elsewhere :
    let closing := [.call (.closeClient 0), .answer .accept, .work, .work, .work, .finish]
    let deleting := [.call (.deleteHandle 0 1), .answer .accept, .work, .work, .finish,
      .call (.deleteHandle 0 2), .answer .accept, .work, .work, .finish]
    ∃ m m₁ m₂, empty.run? estranged = some m ∧ m.run? closing = some m₁ ∧
      m.run? deleting = some m₂ ∧ m₁.operations = [] ∧ m₂.operations = [] ∧
      m.world.lookupHandle 0 1 = .ok 0 ∧ 0 ∉ lostBy 0 (m.trace closing) ∧
      (m₁.world.object 0).handles.value = 1 ∧ (m₂.world.object 0).handles.value = 0 := by
  intro closing deleting
  have hread : (empty.run? estranged).map (fun m =>
      ((m.world.lookupHandle 0 1).toOption, lostBy 0 (m.trace closing))) =
      some (some 0, [1]) := by decide +kernel
  have hclosing : ((empty.run? estranged).bind fun m => m.run? closing).map (fun m₁ =>
      (m₁.operations, (m₁.world.object 0).handles.value)) = some ([], 1) := by decide +kernel
  have hdeleting : ((empty.run? estranged).bind fun m => m.run? deleting).map (fun m₂ =>
      (m₂.operations, (m₂.world.object 0).handles.value)) = some ([], 0) := by decide +kernel
  obtain ⟨m, hrun, hfacts⟩ := Option.map_eq_some_iff.mp hread
  obtain ⟨hlook, hlost⟩ := Prod.mk.inj hfacts
  rw [hrun, Option.bind_some] at hclosing hdeleting
  obtain ⟨m₁, hrun₁, hfacts₁⟩ := Option.map_eq_some_iff.mp hclosing
  obtain ⟨m₂, hrun₂, hfacts₂⟩ := Option.map_eq_some_iff.mp hdeleting
  obtain ⟨hquiet₁, hvalue₁⟩ := Prod.mk.inj hfacts₁
  obtain ⟨hquiet₂, hvalue₂⟩ := Prod.mk.inj hfacts₂
  refine ⟨m, m₁, m₂, hrun, hrun₁, hrun₂, hquiet₁, hquiet₂, ?_, ?_, hvalue₁, hvalue₂⟩
  · exact Request.toOption_eq_some_iff.mp hlook
  · rw [hlost]
    decide

end BufferObjects.Machine
