import BufferObjects.Proofs.Machine.Start
import BufferObjects.Proofs.World.HandleMaps

/-!
What the machine does to the handle tables, orderly or not. Only opening, deleting and closing touch
them, and the undoing of a refused handle; nothing that happens to names, tokens or references does,
and no task that is carried out in between. A handle that is being opened stands first on its
operation's list, and nowhere else.
-/

namespace BufferObjects

/-- A handle with what it leads to. -/
structure Opening where
  client : ClientRef
  handle : Handle
  object : ObjectRef
  deriving DecidableEq, Repr

/-- The handle that a task tells the driver of. -/
def Task.opening? : Task → Option Opening
  | tellOpened c h o => some ⟨c, h, o⟩
  | _ => none

/-- Whether a task can still turn the outcome into an error. -/
def Task.isRefusable : Task → Bool
  | prepare _ | tellOpened .. => true
  | _ => false

theorem Task.opening?_eq_none {t : Task} (h : t.isRefusable = false) : t.opening? = none := by
  cases t with
  | tellOpened => cases h
  | _ => rfl

theorem Task.isRefusable_closings (w : World) (c : ClientRef) (entries : List ObjectRef) :
    ∀ t ∈ entries.flatMap (Task.closing w c), t.isRefusable = false := by
  intro t ht
  obtain ⟨o, -, hclosing⟩ := List.mem_flatMap.mp ht
  simp only [Task.closing, List.mem_cons, List.not_mem_nil, or_false] at hclosing
  rcases hclosing with rfl | rfl | rfl <;> rfl

/-- The handle that an operation is just opening. -/
def Operation.opening? (op : Operation) : Option Opening := op.todo.head?.bind Task.opening?

theorem Operation.opening?_eq_none {op : Operation} (h : ∀ t ∈ op.todo, t.opening? = none) :
    op.opening? = none := by
  obtain ⟨r, todo, outcome⟩ := op
  cases todo with
  | nil => rfl
  | cons t rest => exact h t List.mem_cons_self

namespace World

variable {w w' : World} {c e : ClientRef} {o p : ObjectRef} {h hd : Handle}

/-- The same clients have the same handles, and no others have come. -/
structure SameHandles (w w' : World) : Prop where
  handles : ∀ c, (w.client c).HandlesAlike (w'.client c)
  size_eq : w'.clients.size = w.clients.size

/-- Whatever leaves the clients alone leaves their handles alone. -/
theorem SameHandles.of_clients (h : w'.clients = w.clients) : w.SameHandles w' :=
  ⟨fun c => .of_eq (by rw [client_congr h]), by rw [h]⟩

theorem Restores.sameHandles (h : w.Restores w') : w.SameHandles w' :=
  ⟨fun c => (h.client c).handles, h.clients_size⟩

theorem SameHandles.trans {w₁ : World} (h : w.SameHandles w₁) (h' : w₁.SameHandles w') :
    w.SameHandles w' :=
  ⟨fun c => (h.handles c).trans (h'.handles c), h'.size_eq.trans h.size_eq⟩

theorem SameHandles.tables (heq : w.SameHandles w') (hwf : w.TablesSound) : w'.TablesSound :=
  fun c => (heq.handles c).wellFormed (hwf c)

theorem SameHandles.handleMap_eq (heq : w.SameHandles w') (c : ClientRef) :
    w'.handleMap c = w.handleMap c := handleMap_congr (heq.handles c)

theorem SameHandles.lookup_eq (heq : w.SameHandles w') (c : ClientRef) (h : Handle) :
    w'.lookupHandle c h = w.lookupHandle c h := by
  rw [lookupHandle_eq, lookupHandle_eq, heq.handleMap_eq]

/-! ### Opening, taking out and closing -/

/-- A new handle leads to its object, and disturbs no other. -/
theorem Remaps.lookup_enter (hremaps : w.Remaps c ((w.handleMap c).enter hd o) w')
    (hvacant : (w.handleMap c).vacancy? = some hd) (e : ClientRef) (h : Handle) (p : ObjectRef) :
    w'.lookupHandle e h = .ok p ↔
      (⟨c, hd, o⟩ : Opening) = ⟨e, h, p⟩ ∨ w.lookupHandle e h = .ok p := by
  simp only [lookupHandle_eq, hremaps.handleMap_eq, HandleMap.lookup_eq_ok, Opening.mk.injEq]
  by_cases he : e = c
  · subst he
    rw [if_pos rfl, HandleMap.find?_enter hvacant]
    by_cases hh : h = hd
    · subst hh
      simp [HandleMap.find?_of_vacancy? hvacant]
    · simp [hh, Ne.symm hh]
  · simp [he, Ne.symm he]

/-- A handle taken out leads nowhere afterwards, and the others lead where they led. -/
theorem Remaps.lookup_strike (hremaps : w.Remaps c ((w.handleMap c).strike hd) w') (e : ClientRef)
    (h : Handle) (p : ObjectRef) :
    w'.lookupHandle e h = .ok p ↔ ¬ (e = c ∧ h = hd) ∧ w.lookupHandle e h = .ok p := by
  simp only [lookupHandle_eq, hremaps.handleMap_eq, HandleMap.lookup_eq_ok]
  by_cases he : e = c
  · subst he
    rw [if_pos rfl, HandleMap.find?_strike]
    by_cases hh : h = hd <;> simp [hh]
  · simp [he]

/-- No handle of a closed client leads anywhere. -/
theorem Remaps.lookup_none (hremaps : w.Remaps c none w') (e : ClientRef) (h : Handle)
    (p : ObjectRef) : w'.lookupHandle e h = .ok p ↔ e ≠ c ∧ w.lookupHandle e h = .ok p := by
  simp only [lookupHandle_eq, hremaps.handleMap_eq, HandleMap.lookup_eq_ok]
  by_cases he : e = c
  · subst he
    rw [if_pos rfl]
    simp [HandleMap.find?]
  · simp [he]

/-- What is taken out is what the handle led to. -/
theorem TablesSound.takeHandle (hwf : w.TablesSound) {freed : Except Fault Unit}
    (htake : w.takeHandle c hd = (w', some (o, freed))) :
    freed = .ok () ∧ w'.objects = w.objects ∧ (w'.client c).device = (w.client c).device ∧
      w.lookupHandle c hd = .ok o := by
  obtain ⟨rfl, table, table', htable, hfind, -, -, rfl⟩ := hwf.of_takeHandle_some htake
  refine ⟨rfl, rfl, ?_, lookupHandle_eq_ok.mpr ⟨table, htable, hfind⟩⟩
  rw [client_setHandles]
  split <;> rfl

/-- The handles of one client at most have changed, and whoever is new has none yet. -/
structure Touches (w : World) (c? : Option ClientRef) (w' : World) : Prop where
  tables : w'.TablesSound
  grows : w.clients.size ≤ w'.clients.size
  others : ∀ c < w.clients.size, c? ≠ some c → w'.handleMap c = w.handleMap c
  born : ∀ c < w'.clients.size, w.clients.size ≤ c → w'.handleMap c = .fresh

theorem SameHandles.touches (heq : w.SameHandles w') (hwf : w.TablesSound)
    (c? : Option ClientRef) : w.Touches c? w' where
  tables := heq.tables hwf
  grows := Nat.le_of_eq heq.size_eq.symm
  others c _ _ := heq.handleMap_eq c
  born _ hc hge := absurd hc (Nat.not_lt.mpr (heq.size_eq ▸ hge))

theorem SameHandles.trans_touches {w₁ : World} {c? : Option ClientRef} (heq : w.SameHandles w₁)
    (htouches : w₁.Touches c? w') : w.Touches c? w' where
  tables := htouches.tables
  grows := heq.size_eq ▸ htouches.grows
  others c hc hne := (htouches.others c (heq.size_eq ▸ hc) hne).trans (heq.handleMap_eq c)
  born c hc hge := htouches.born c hc (heq.size_eq ▸ hge)

theorem SameHandles.remaps (heq : w.SameHandles w') (hwf : w.TablesSound) (c : ClientRef) :
    w.Remaps c (w.handleMap c) w' where
  tables := heq.tables hwf
  size_eq := heq.size_eq
  handleMap_eq e := by
    split
    · next he => rw [he, heq.handleMap_eq]
    · exact heq.handleMap_eq e

theorem SameHandles.trans_remaps {w₁ : World} {b : HandleMap} (heq : w.SameHandles w₁)
    (hremaps : w₁.Remaps c b w') : w.Remaps c b w' where
  tables := hremaps.tables
  size_eq := hremaps.size_eq.trans heq.size_eq
  handleMap_eq e := by rw [hremaps.handleMap_eq, heq.handleMap_eq]

theorem Remaps.touches {b : HandleMap} (hremaps : w.Remaps c b w') : w.Touches (some c) w' where
  tables := hremaps.tables
  grows := Nat.le_of_eq hremaps.size_eq.symm
  others e _ hne := by
    rw [hremaps.handleMap_eq, if_neg fun he => hne (congrArg some he.symm)]
  born e he hge := absurd he (Nat.not_lt.mpr (hremaps.size_eq ▸ hge))

theorem Touches.lookup_eq (htouches : w.Touches none w') (e : ClientRef) (h : Handle) :
    w'.lookupHandle e h = w.lookupHandle e h := by
  rw [lookupHandle_eq, lookupHandle_eq]
  rcases Nat.lt_or_ge e w.clients.size with hold | hge
  · rw [htouches.others e hold nofun]
  · rw [handleMap_of_size_le hge]
    rcases Nat.lt_or_ge e w'.clients.size with hnew | hge'
    · rw [htouches.born e hnew hge]
      rfl
    · rw [handleMap_of_size_le hge']

theorem TablesSound.newClient (hwf : w.TablesSound) (d : DeviceRef) :
    w.Touches none (w.newClient d).1 := by
  unfold World.newClient
  split
  · exact SameHandles.touches (.of_clients rfl) hwf none
  · dsimp only
    generalize hw₁ : (w.updateDevice d _).note _ = w₁
    have hsame : w.SameHandles w₁ := .of_clients (by rw [← hw₁]; rfl)
    split
    · exact (hsame.trans (.of_clients (by simp))).touches hwf none
    · next table htable =>
      obtain ⟨hwf', hnil⟩ := NumberedTable.WellFormed.of_create htable
      have hnone (h : Handle) : table.find? h = none := by
        rw [Option.eq_none_iff_forall_ne_some]
        intro o ho
        have hmem := hwf'.mem_items_iff.mpr ⟨h, ho⟩
        simp [hnil] at hmem
      refine ⟨fun e t he => ?_, ?_, fun c hc _ => ?_, fun c hc hge => ?_⟩
      · rw [client_pushClient] at he
        split at he
        · obtain rfl : table = t := Option.some.inj he
          exact hwf'
        · exact hsame.tables hwf e t he
      · simp [← hsame.size_eq]
      · rw [← hsame.size_eq] at hc
        rw [← hsame.handleMap_eq, handleMap, handleMap, client_pushClient,
          if_neg (Nat.ne_of_lt hc)]
      · obtain rfl : c = w₁.clients.size := by
          simp only [Array.size_push] at hc
          rw [← hsame.size_eq] at hge
          exact Nat.le_antisymm (Nat.le_of_lt_succ hc) hge
        rw [handleMap, client_pushClient, if_pos rfl]
        exact congrArg some (funext hnone)

end World

/-! ### Requests -/

namespace Request

/-- The client whose handles a request is made to change. -/
def handled? : Request → Option ClientRef
  | createHandle c _ | deleteHandle c _ | openName _ c _ | closeHandle _ c _ | closeClient c
  | dropClient c => some c
  | _ => none

/-- Whether a request takes a handle away. -/
def revokes (w : World) (c : ClientRef) (h : Handle) : Request → Bool
  | closeClient e | dropClient e => c == e
  | deleteHandle e g => c == e && h == g
  | closeHandle d e g => ((access w d (some e)).2 matches .ok ()) && c == e && h == g
  | _ => false

/-- What a request does to the tables: it opens the handle that its operation begins with, if any,
and takes away those that it revokes. -/
structure Starts (w : World) (r : Request) (w' : World) (op : Operation) : Prop where
  request_eq : op.request = r
  touches : w.Touches r.handled? w'
  owner : ∀ y, op.opening? = some y → r.handled? = some y.client
  wasFree : ∀ y, op.opening? = some y → ∀ p, w.lookupHandle y.client y.handle ≠ .ok p
  lookup_iff : ∀ c h p, w'.lookupHandle c h = .ok p ↔
    op.opening? = some ⟨c, h, p⟩ ∨ r.revokes w c h = false ∧ w.lookupHandle c h = .ok p
  behind : ∀ t ∈ op.todo.tail, t.opening? = none

variable {w w' : World} {r : Request}

theorem Starts.of_same {op : Operation} (hwf : w.TablesSound) (hrequest : op.request = r)
    (hsame : w.SameHandles w') (hrevokes : ∀ c h, r.revokes w c h = false)
    (hopens : ∀ t ∈ op.todo, t.opening? = none) :
    Starts w r w' op := by
  have hnone := Operation.opening?_eq_none hopens
  refine ⟨hrequest, hsame.touches hwf _, fun y hy => ?_, fun y hy => ?_, fun c h p => ?_,
    fun t ht => ?_⟩
  · rw [hnone] at hy
    cases hy
  · rw [hnone] at hy
    cases hy
  · rw [hnone, hrevokes, hsame.lookup_eq]
    simp
  · exact hopens t (List.mem_of_mem_tail ht)

theorem Starts.finished {outcome : Outcome RequestError Reply} (hwf : w.TablesSound)
    (hrevokes : ∀ c h, r.revokes w c h = false) (hclients : w'.clients = w.clients) :
    Starts w r w' (.finished r outcome) :=
  .of_same hwf rfl (.of_clients hclients) hrevokes nofun

theorem Starts.answering {reply : ObjectRef → Reply} {found : Except RequestError ObjectRef}
    (hwf : w.TablesSound) (hrevokes : ∀ c h, r.revokes w c h = false)
    (hclients : w'.clients = w.clients) :
    Starts w r (answerObject w' r reply found).1 (answerObject w' r reply found).2 := by
  cases found <;> exact .finished hwf hrevokes hclients

theorem Starts.opening {w₁ : World} {c : ClientRef} {o : ObjectRef} {reply : Handle → Reply}
    {after : List Task} (hwf : w.TablesSound) (hclients : w₁.clients = w.clients)
    (hhandled : r.handled? = some c) (hrevokes : ∀ c h, r.revokes w c h = false)
    (hafter : ∀ t ∈ after, t.opening? = none) :
    Starts w r (startOpen w₁ r c o reply after).1 (startOpen w₁ r c o reply after).2 := by
  have hsame : w.SameHandles w₁ := .of_clients hclients
  have hopens := (hsame.tables hwf).opens c o
  unfold startOpen
  generalize w₁.openHandle c o = opened at hopens
  cases hopens with
  | given _ hvacant hremaps =>
    refine ⟨rfl, ?_, fun y hy => ?_, fun y hy p hp => ?_, fun e h p => ?_, hafter⟩
    · rw [hhandled]
      exact hsame.trans_touches hremaps.touches
    · obtain rfl := Option.some.inj hy
      exact hhandled
    · obtain rfl := Option.some.inj hy
      rw [World.lookupHandle_eq, HandleMap.lookup_eq_ok, ← hsame.handleMap_eq,
        HandleMap.find?_of_vacancy? hvacant] at hp
      cases hp
    · rw [hremaps.lookup_enter hvacant, hrevokes, hsame.lookup_eq]
      simp [Operation.opening?, Task.opening?]
  | exhausted _ _ hrestores | noRoom _ _ hrestores | foreign _ hrestores =>
    exact .of_same hwf rfl (hsame.trans hrestores.sameHandles) hrevokes hafter

theorem Starts.closings {c : ClientRef} {b : HandleMap} {entries : List ObjectRef}
    {rest : List Task} {outcome : Outcome RequestError Reply} (hremaps : w.Remaps c b w')
    (hhandled : r.handled? = some c)
    (hlook : ∀ e h p, w'.lookupHandle e h = .ok p ↔
      r.revokes w e h = false ∧ w.lookupHandle e h = .ok p)
    (hrest : ∀ t ∈ rest, t.opening? = none) :
    Starts w r w' ⟨r, entries.flatMap (Task.closing w' c) ++ rest, outcome⟩ := by
  have hopens (t : Task) (ht : t ∈ entries.flatMap (Task.closing w' c) ++ rest) :
      t.opening? = none := by
    rcases List.mem_append.mp ht with hin | hin
    · exact Task.opening?_eq_none (Task.isRefusable_closings w' c entries t hin)
    · exact hrest t hin
  have hnone :
      Operation.opening? ⟨r, entries.flatMap (Task.closing w' c) ++ rest, outcome⟩ = none :=
    Operation.opening?_eq_none hopens
  refine ⟨rfl, hhandled ▸ hremaps.touches, fun y hy => ?_, fun y hy => ?_, fun e h p => ?_,
    fun t ht => hopens t (List.mem_of_mem_tail ht)⟩
  · rw [hnone] at hy
    cases hy
  · rw [hnone] at hy
    cases hy
  · rw [hnone, hlook]
    simp

theorem Starts.deleting {c : ClientRef} {hd : Handle} (hwf : w.TablesSound)
    (hhandled : r.handled? = some c)
    (hrevokes : ∀ e h, r.revokes w e h = false ↔ ¬ (e = c ∧ h = hd)) :
    Starts w r (startDelete w r c hd).1 (startDelete w r c hd).2 := by
  have hremaps := (hwf.remaps_takeHandle c hd).1
  unfold startDelete
  rcases htake : w.takeHandle c hd with ⟨w', _ | ⟨o, freed⟩⟩
  · rw [htake] at hremaps
    refine ⟨rfl, hhandled ▸ hremaps.touches, nofun, nofun, fun e h p => ?_, nofun⟩
    rw [hremaps.lookup_strike, hrevokes]
    simp [Operation.opening?, Operation.finished]
  · obtain ⟨rfl, -⟩ := hwf.takeHandle htake
    rw [htake] at hremaps
    have hremaps' : w.Remaps c ((w.handleMap c).strike hd) (w'.note (.handleRemoved hd)) :=
      hremaps.of_clients rfl
    have hstarts : Starts w r (w'.note (.handleRemoved hd))
        ⟨r, [o].flatMap (Task.closing (w'.note (.handleRemoved hd)) c) ++ [], .ok .done⟩ :=
      .closings hremaps' hhandled
        (fun e h p => by rw [hremaps'.lookup_strike, hrevokes]) (List.forall_mem_nil _)
    simpa [Task.closing] using hstarts

theorem Starts.guarded {d : DeviceRef} {c? : Option ClientRef} {body : World → World × Operation}
    (hwf : w.TablesSound)
    (hrevokes : (access w d c?).2 ≠ .ok () → ∀ c h, r.revokes w c h = false)
    (hbody : (access w d c?).2 = .ok () → Starts w r (body w).1 (body w).2) :
    Starts w r
      (match access w d c? with
        | (w, .error e) => (w, Operation.finished r (.error e))
        | (w, .ok ()) => body w).1
      (match access w d c? with
        | (w, .error e) => (w, Operation.finished r (.error e))
        | (w, .ok ()) => body w).2 := by
  refine guarded_cases (P := fun x => Starts w r x.1 x.2) (fun haccess _ => ?_)
    fun ns e haccess => ?_
  · rw [haccess] at hbody
    exact hbody rfl
  · rw [haccess] at hrevokes
    exact .finished hwf (hrevokes nofun) (by simp)

/-- Whatever the request, what it does to the tables is to open one handle or to revoke some. -/
theorem starts (w : World) (hwf : w.TablesSound) (r : Request) :
    Starts w r (r.start w).1 (r.start w).2 := by
  cases r with
  | newDevice config features =>
    exact .finished hwf (fun _ _ => rfl) (World.clients_newDevice w config features)
  | dropDevice d =>
    refine .of_same hwf rfl (.of_clients rfl) (fun _ _ => rfl) fun t ht => ?_
    obtain rfl : t = .leaveDevice d := List.mem_singleton.mp ht
    rfl
  | openClient d =>
    have htouches := hwf.newClient d
    refine ⟨rfl, htouches, nofun, nofun, fun c h p => ?_, nofun⟩
    rw [show (start w (openClient d)).1 = (w.newClient d).1 from rfl, htouches.lookup_eq]
    exact ⟨fun hp => Or.inr ⟨rfl, hp⟩, fun hp => hp.elim nofun And.right⟩
  | closeClient c =>
    have hremaps := hwf.remaps_closeClient c
    have hstarts : Starts w (.closeClient c) (w.closeClient c).1
        ⟨_, (w.closeClient c).2.flatMap (Task.closing (w.closeClient c).1 c) ++ [], .ok .done⟩ :=
      .closings hremaps rfl (fun e h p => by rw [hremaps.lookup_none]; simp [revokes]) nofun
    rwa [List.append_nil] at hstarts
  | dropClient c =>
    have hremaps := hwf.remaps_closeClient c
    have hstarts : Starts w (.dropClient c) (w.closeClient c).1
        ⟨_, (w.closeClient c).2.flatMap (Task.closing (w.closeClient c).1 c) ++ [.forgetClient c],
          .ok .done⟩ :=
      .closings hremaps rfl (fun e h p => by rw [hremaps.lookup_none]; simp [revokes])
        (by simp [Task.opening?])
    exact hstarts
  | createObject d size =>
    have hclients := World.clients_newObject w d size
    simp only [start]
    rcases hnew : w.newObject d size with ⟨w', e | o⟩
    · rw [hnew] at hclients
      exact .finished hwf (fun _ _ => rfl) hclients
    · rw [hnew] at hclients
      exact .of_same hwf rfl (.of_clients hclients) (fun _ _ => rfl) (by simp [Task.opening?])
  | cloneObject o => exact .finished hwf (fun _ _ => rfl) rfl
  | dropObject o =>
    refine .of_same hwf rfl (.of_clients rfl) (fun _ _ => rfl) fun t ht => ?_
    obtain rfl : t = .drop o := List.mem_singleton.mp ht
    rfl
  | createHandle c o => exact .opening hwf rfl rfl (fun _ _ => rfl) nofun
  | lookupHandle c h => exact .answering hwf (fun _ _ => rfl) rfl
  | deleteHandle c h => exact .deleting hwf rfl (by simp [revokes])
  | nameHandle d c h =>
    refine .guarded hwf (fun _ _ _ => rfl) fun _ => ?_
    dsimp only
    split
    · exact .finished hwf (fun _ _ => rfl) rfl
    · exact .of_same hwf rfl (.of_clients (by simp)) (fun _ _ => rfl) (by simp [Task.opening?])
  | openName d c n =>
    refine .guarded hwf (fun _ _ _ => rfl) fun _ => ?_
    split
    · exact .finished hwf (fun _ _ => rfl) rfl
    · exact .opening hwf (World.clients_retain w _) rfl (fun _ _ => rfl) (by simp [Task.opening?])
  | closeHandle d c h =>
    refine .guarded hwf (fun hrefused e g => ?_) fun haccess =>
      .deleting hwf rfl (by simp [revokes, haccess])
    simp only [revokes, Bool.false_and]
  | mapHandle d c h =>
    refine .guarded hwf (fun _ _ _ => rfl) fun _ => ?_
    dsimp only
    split
    · exact .finished hwf (fun _ _ => rfl) rfl
    · exact .of_same hwf rfl (.of_clients (by simp)) (fun _ _ => rfl) (by simp [Task.opening?])
  | objectAtAddress d a =>
    simp only [start]
    rcases objectAtAddress_spec w d a with ⟨o, hfound, -⟩ | ⟨ns, e, hfound⟩
    · rw [hfound]
      exact .answering hwf (fun _ _ => rfl) rfl
    · rw [hfound]
      exact .answering hwf (fun _ _ => rfl) (by simp)
  | mapRange d a length =>
    refine .guarded hwf (fun _ _ _ => rfl) fun _ => ?_
    rcases mappingAt_spec w d a length with ⟨o, offset, hfound, -⟩ | ⟨ns, e, hfound⟩
    · rw [hfound]
      exact .finished hwf (fun _ _ => rfl) rfl
    · rw [hfound]
      exact .finished hwf (fun _ _ => rfl) (by simp)
  | publishName d o => exact .finished hwf (fun _ _ => rfl) (World.clients_publishName w d o)
  | resolveName d n => exact .answering hwf (fun _ _ => rfl) rfl
  | retireName d o =>
    have hclients := World.clients_retireName w d o
    simp only [start]
    rcases hretire : w.retireName d o with ⟨w', b | ok⟩
    · rw [hretire] at hclients
      refine .of_same hwf rfl (.of_clients hclients) (fun _ _ => rfl) fun t ht => ?_
      simp only [Operation.fail, Operation.finished, List.filter_nil, List.append_nil,
        List.mem_map] at ht
      obtain ⟨p, -, rfl⟩ := ht
      rfl
    · rw [hretire] at hclients
      exact .finished hwf (fun _ _ => rfl) hclients
  | createToken d o => exact .finished hwf (fun _ _ => rfl) (World.clients_createToken w d o)
  | resolveToken d t => exact .answering hwf (fun _ _ => rfl) rfl
  | destroyToken d o => exact .finished hwf (fun _ _ => rfl) (World.clients_destroyToken w d o)

end Request

/-! ### Tasks and answers -/

namespace Machine

variable {w w' : World} {op : Operation} {task : Task} {rest : List Task}

theorem mem_fail {b : Break} {t : Task} (ht : t ∈ (op.fail b).todo) :
    t ∈ op.todo ∨ t.isRefusable = false := by
  simp only [Operation.fail, List.mem_append, List.mem_map, List.mem_filter] at ht
  rcases ht with ⟨p, -, rfl⟩ | ⟨hin, -⟩
  · exact Or.inr rfl
  · exact Or.inl hin

/-- A task that does not wait leaves the handles alone, and nothing that it leads to can be
refused. -/
theorem sameHandles_carryOut (w : World) (op : Operation) (rest : List Task)
    (hhook : task.hook? = none) :
    w.SameHandles (carryOut w op task rest).1 ∧
      ∀ t ∈ (carryOut w op task rest).2.todo, t ∈ rest ∨ t.isRefusable = false := by
  cases task with
  | prepare | tellOpened | tellClosed | tellFreed => cases hhook
  | uncount d o =>
    have huncount := World.clients_uncountHandle w o
    simp only [carryOut]
    rcases hcount : w.uncountHandle o with ⟨w₁, f | last⟩
    · rw [hcount] at huncount
      exact ⟨.of_clients huncount, fun t ht => mem_fail ht⟩
    · rw [hcount] at huncount
      cases last with
      | false => exact ⟨.of_clients huncount, fun t ht => Or.inl ht⟩
      | true =>
        have hclients := World.clients_retireName w₁ d o
        dsimp only
        rcases hretire : w₁.retireName d o with ⟨w₂, b | ok⟩
        · rw [hretire] at hclients
          exact ⟨.of_clients (hclients.trans huncount), fun t ht => mem_fail ht⟩
        · rw [hretire] at hclients
          exact ⟨.of_clients (hclients.trans huncount), fun t ht => Or.inl ht⟩
  | drop o =>
    have hclients := World.clients_dropRef w o
    simp only [carryOut]
    rcases hdrop : w.dropRef o with ⟨w', f | dropped⟩
    · rw [hdrop] at hclients
      exact ⟨.of_clients hclients, fun t ht => mem_fail ht⟩
    · rw [hdrop] at hclients
      cases dropped with
      | settled => exact ⟨.of_clients hclients, fun t ht => Or.inl ht⟩
      | ended =>
        refine ⟨.of_clients hclients, fun t ht => ?_⟩
        rcases List.mem_cons.mp ht with rfl | hin
        · exact Or.inr rfl
        · exact Or.inl hin
  | forgetClient c =>
    refine ⟨⟨fun e => ?_, World.size_clients_updateClient ..⟩, fun t ht => ?_⟩
    · simp only [carryOut]
      rw [World.client_updateClient]
      split <;> exact .of_eq rfl
    · rcases List.mem_cons.mp ht with rfl | hin
      · exact Or.inr rfl
      · exact Or.inl hin
  | leaveDevice d =>
    refine ⟨.of_clients (World.clients_leaveDevice w d), fun t ht => ?_⟩
    rcases List.mem_append.mp ht with hin | hin
    · obtain ⟨o, -, rfl⟩ := List.mem_map.mp hin
      exact Or.inr rfl
    · exact Or.inl hin

/-- If a task changes the outcome, then to a fault. -/
theorem outcome_carryOut (w : World) (op : Operation) (task : Task) (rest : List Task) :
    (carryOut w op task rest).2.request = op.request ∧
      ((carryOut w op task rest).2.outcome = op.outcome ∨
        ∃ f, (carryOut w op task rest).2.outcome = .fault f) := by
  cases task with
  | uncount d o =>
    simp only [carryOut]
    split
    · exact ⟨rfl, Or.inr ⟨_, rfl⟩⟩
    · exact ⟨rfl, Or.inl rfl⟩
    · split
      · exact ⟨rfl, Or.inl rfl⟩
      · exact ⟨rfl, Or.inr ⟨_, rfl⟩⟩
  | drop o =>
    simp only [carryOut]
    split
    · exact ⟨rfl, Or.inr ⟨_, rfl⟩⟩
    · exact ⟨rfl, Or.inl rfl⟩
    · exact ⟨rfl, Or.inl rfl⟩
  | forgetClient | leaveDevice | prepare | tellOpened | tellClosed | tellFreed =>
    exact ⟨rfl, Or.inl rfl⟩

/-- What undoing a handle takes back: a use and a reference of whatever is under it. -/
def undone (w : World) (c : ClientRef) (h : Handle) : List Task :=
  match w.lookupHandle c h with
  | .ok o => [.uncount (w.client c).device o, .drop o]
  | .error _ => []

theorem isRefusable_of_mem_undone {c : ClientRef} {h : Handle} {t : Task}
    (ht : t ∈ undone w c h) : t.isRefusable = false := by
  unfold undone at ht
  split at ht
  · simp only [List.mem_cons, List.not_mem_nil, or_false] at ht
    rcases ht with rfl | rfl <;> rfl
  · cases ht

theorem remaps_undoHandle (hwf : w.TablesSound) (op : Operation) (c : ClientRef) (h : Handle) :
    w.Remaps c ((w.handleMap c).strike h) (undoHandle w op c h).1 := by
  have hremaps := (hwf.remaps_takeHandle c h).1
  unfold undoHandle
  split
  all_goals
    next htake =>
    rwa [htake] at hremaps

/-- Undoing a handle takes out what is under it, whoever put it there. -/
theorem undoHandle_spec (hwf : w.TablesSound) (op : Operation) (c : ClientRef) (h : Handle) :
    (undoHandle w op c h).1.TablesSound ∧ (undoHandle w op c h).1.objects = w.objects ∧
      (undoHandle w op c h).2 = { op with todo := undone w c h ++ op.todo } ∧
      ∀ e g p, (undoHandle w op c h).1.lookupHandle e g = .ok p ↔
        ¬ (e = c ∧ g = h) ∧ w.lookupHandle e g = .ok p := by
  have hremaps := remaps_undoHandle hwf op c h
  refine ⟨hremaps.tables, ?_⟩
  rw [← and_assoc]
  refine ⟨?_, hremaps.lookup_strike⟩
  unfold undoHandle undone
  rcases htake : w.takeHandle c h with ⟨w', _ | ⟨o, freed⟩⟩
  · obtain ⟨rfl, hnone⟩ := World.of_takeHandle_none htake
    refine ⟨rfl, ?_⟩
    cases hfind : w'.lookupHandle c h with
    | ok o => exact absurd hfind (hnone o)
    | error e => rfl
  · obtain ⟨rfl, hobjects, hdevice, hfound⟩ := hwf.takeHandle htake
    exact ⟨hobjects, by simp only [hfound, hdevice]⟩

/-- An answer at a hook that tells of no new handle leaves the handles alone, and nothing that it
leads to can be refused. -/
theorem sameHandles_conclude (w : World) (op : Operation) (rest : List Task)
    (hnone : task.opening? = none) (v : Verdict) :
    w.SameHandles (conclude w op task rest v).1 ∧
      ∀ t ∈ (conclude w op task rest v).2.todo, t ∈ rest ∨ t.isRefusable = false := by
  cases task with
  | prepare o =>
    cases v with
    | accept => exact ⟨.of_clients rfl, fun t ht => Or.inl ht⟩
    | refuse e =>
      refine ⟨.of_clients rfl, fun t ht => ?_⟩
      rcases List.mem_cons.mp ht with rfl | hin
      · exact Or.inr rfl
      · exact Or.inl hin
  | tellOpened => cases hnone
  | _ => exact ⟨.of_clients rfl, fun t ht => Or.inl ht⟩

/-- What the driver says to an opening leaves the handle and the outcome as they are, or takes the
handle back and is the outcome. -/
theorem remaps_conclude (hwf : w.TablesSound) (op : Operation) (c : ClientRef) (h : Handle)
    (o : ObjectRef) (rest : List Task) (v : Verdict) :
    w.Remaps c
        (match v with
          | .accept => w.handleMap c
          | .refuse _ => (w.handleMap c).strike h)
        (conclude w op (.tellOpened c h o) rest v).1 ∧
      (∀ t ∈ (conclude w op (.tellOpened c h o) rest v).2.todo, t ∈ rest ∨ t.isRefusable = false) ∧
      (conclude w op (.tellOpened c h o) rest v).2.outcome =
        match v with
        | .accept => op.outcome
        | .refuse e => .error e := by
  cases v with
  | accept =>
    have hsame : w.SameHandles (w.note (.handleCreated h)) := .of_clients rfl
    exact ⟨hsame.remaps hwf c, fun t ht => Or.inl ht, rfl⟩
  | refuse e =>
    have hsame : w.SameHandles (w.note (.handleRefused h)) := .of_clients rfl
    let op' : Operation := { op with todo := rest, outcome := .error e }
    have hremaps := remaps_undoHandle (hsame.tables hwf) op' c h
    obtain ⟨-, -, hop', -⟩ := undoHandle_spec (hsame.tables hwf) op' c h
    rw [hsame.handleMap_eq] at hremaps
    refine ⟨hsame.trans_remaps hremaps, fun t ht => ?_, congrArg Operation.outcome hop'⟩
    change t ∈ (undoHandle _ op' c h).2.todo at ht
    rw [hop'] at ht
    exact (List.mem_append.mp ht).symm.imp id isRefusable_of_mem_undone

theorem request_conclude (w : World) (op : Operation) (task : Task) (rest : List Task)
    (v : Verdict) : (conclude w op task rest v).2.request = op.request := by
  unfold conclude
  dsimp only
  split
  · rfl
  · rfl
  · rfl
  · unfold undoHandle
    split <;> rfl
  · rfl

/-- Only an answer to what can be refused changes the outcome. -/
theorem outcome_conclude (w : World) (op : Operation) (rest : List Task)
    (htask : task.isRefusable = false) (v : Verdict) :
    (conclude w op task rest v).2.outcome = op.outcome := by
  cases task with
  | prepare | tellOpened => cases htask
  | _ => rfl

end Machine

end BufferObjects
