import BufferObjects.Proofs.Machine.Agenda

/-!
How requests begin. Whatever the request, it leaves the world in order and itself with everything in
its hands that it has taken over; none of them begins with a fault. What it needs for that is there:
the client and the device it is addressed to, a reference to the object, and, at the calls that go
past the clients, an object of that very device.
-/

open scoped List

namespace BufferObjects

namespace Request

/-- Whether a request that goes past the clients is about an object of the device it is made to. -/
def isOwn (w : World) : Request → Bool
  | publishName d o | retireName d o | createToken d o | destroyToken d o => (w.object o).home == d
  | _ => true

/-- Whether a request that goes past the clients neither gives its object a number nor takes one
away, whatever the device. -/
def isIdle (w : World) : Request → Bool
  | publishName d o => (w.object o).name.isSome || !((w.publishName d o).2 matches .ok _)
  | retireName _ o => (w.object o).name.isNone
  | createToken d o => (w.object o).token.isSome || !((w.createToken d o).2 matches .ok _)
  | destroyToken _ o => (w.object o).token.isNone
  | _ => true

/-- Whether a request gives and takes numbers only at the object's own device. -/
def isTame (w : World) (r : Request) : Bool := r.isOwn w || r.isIdle w

/-- The reference that whoever makes the request gives up. -/
def givenUp : Request → List ObjectRef
  | dropObject o => [o]
  | _ => []

/-- What a request can rely on. -/
structure Ready (w : World) (outside : List ObjectRef) (r : Request) : Prop where
  device : ∀ d, r.device? = some d → (w.device d).alive = true
  client : ∀ c, r.client? = some c → (w.client c).present = true
  object : ∀ o, r.object? = some o → 0 < (w.object o).refs
  viewed : ∀ o, r.viewed? = some o → (w.object o).name.isSome = true → o ∈ outside
  tame : r.isTame w = true

/-- What is true when a request has begun. -/
structure Begins (w : World) (outside uses : List ObjectRef) (r : Request) (w' : World)
    (op : Operation) : Prop where
  sound : w'.Sound (op.references ++ outside) (op.uncounted ++ uses)
  operation : op.Sound w'
  keeps : w.Keeps w'
  request_eq : op.request = r
  quiet : ∀ o, .tellFreed o ∉ op.todo
  prepares : ∀ o, .prepare o ∈ op.todo → w.objects.size ≤ o ∧ o < w'.objects.size

variable {w w₁ w' : World} {outside uses : List ObjectRef} {r : Request} {c : ClientRef}
  {o : ObjectRef}

/-! ### The ways to begin -/

theorem Begins.finished {outcome : Outcome RequestError Reply}
    (h : w'.Sound ((Machine.handedOver outcome).toList ++ outside) uses) (hkeeps : w.Keeps w')
    (houtcome : ∀ f, outcome ≠ .fault f) : Begins w outside uses r w' (.finished r outcome) where
  sound := h
  operation := .of_nil w' r houtcome
  keeps := hkeeps
  request_eq := rfl
  quiet _ := by simp [Operation.finished]
  prepares _ := by simp [Operation.finished]

theorem handedOver_map {α : Type} {reply : α → Reply} (hreply : ∀ a, (reply a).object? = none)
    (outcome : Outcome RequestError α) : Machine.handedOver (outcome.map reply) = none := by
  cases outcome with
  | ok a => exact hreply a
  | error | fault => rfl

theorem map_ne_fault {α : Type} {reply : α → Reply} {outcome : Outcome RequestError α}
    (h : ∀ f, outcome ≠ .fault f) (f : Fault) : outcome.map reply ≠ .fault f := by
  cases outcome with
  | ok | error => nofun
  | fault g => exact absurd rfl (h g)

theorem ofExcept_ne_fault {α : Type} (result : Except RequestError α) (f : Fault) :
    Outcome.ofExcept result ≠ .fault f := by
  cases result <;> nofun

theorem Begins.replying {outcome : Outcome RequestError Reply} (h : w'.Sound outside uses)
    (hkeeps : w.Keeps w') (hnone : Machine.handedOver outcome = none)
    (houtcome : ∀ f, outcome ≠ .fault f) : Begins w outside uses r w' (.finished r outcome) :=
  .finished (by rw [hnone]; exact h) hkeeps houtcome

theorem Ready.present_of_keeps (hr : r.Ready w outside) (hkeeps : w.Keeps w') {c : ClientRef}
    (hc : r.client? = some c) : (w'.client c).present = true :=
  (hkeeps.present c (World.lt_size_of_present (hr.client c hc))).trans (hr.client c hc)

theorem Begins.dropping (hr : r.Ready w outside) {outcome : Outcome RequestError Reply}
    (h : w'.Sound (o :: outside) uses) (hnone : Machine.handedOver outcome = none)
    (hkeeps : w.Keeps w') (houtcome : ∀ f, outcome ≠ .fault f) :
    Begins w outside uses r w' ⟨r, [.drop o], outcome⟩ where
  sound := by
    simpa [Operation.references, Operation.uncounted, Task.references, Task.uncounted, hnone]
      using h
  operation :=
    ⟨.agenda (.drop o .done), fun _ hc => Or.inr (hr.present_of_keeps hkeeps hc), by simp, by simp,
      by simp, houtcome⟩
  keeps := hkeeps
  request_eq := rfl
  quiet _ := by simp
  prepares _ := by simp

theorem Begins.answering {reply : ObjectRef → Reply} (hreply : ∀ o, (reply o).object? = some o)
    {found : Except RequestError ObjectRef} (h : w'.Sound outside uses) (hkeeps : w.Keeps w')
    (hfound : ∀ o, found = .ok o → 0 < (w'.object o).refs) :
    Begins w outside uses r (answerObject w' r reply found).1
      (answerObject w' r reply found).2 := by
  cases found with
  | error e => exact .finished h hkeeps nofun
  | ok o =>
    have hlive := hfound o rfl
    have hlt := World.lt_size_of_refs hlive
    refine .finished ?_ (hkeeps.trans (.retain hlive)) nofun
    rw [show Machine.handedOver (.ok (reply o)) = some o from hreply o]
    exact h.retain hlt

/-- Opening a handle; whatever is given up behind it is given up in any case. -/
theorem Begins.opening (hr : r.Ready w outside) (hc : r.client? = some c) {after : List Task}
    (hafter : after = [] ∧ r = .createHandle c o ∨ after = [.drop o]) {reply : Handle → Reply}
    (hreply : ∀ h, (reply h).object? = none)
    (h : w₁.Sound (after.flatMap Task.references ++ outside) uses) (hkeeps : w.Keeps w₁)
    (hlive : 0 < (w₁.object o).refs) :
    Begins w outside uses r (startOpen w₁ r c o reply after).1
      (startOpen w₁ r c o reply after).2 := by
  obtain ⟨hsound, hkeeps', hunbroken⟩ := h.openHandle (c := c) hlive
  have hagenda : Agenda r after := by
    rcases hafter with ⟨rfl, -⟩ | rfl
    · exact .done
    · exact .drop o .done
  have huncounted : after.flatMap Task.uncounted = [] := by
    rcases hafter with ⟨rfl, -⟩ | rfl <;> rfl
  have hmem (t : Task) (ht : t ∈ after) : t = .drop o := by
    rcases hafter with ⟨rfl, -⟩ | rfl
    · simp at ht
    · simpa using ht
  unfold startOpen
  rcases hopen : w₁.openHandle c o with ⟨w', hd | e | f⟩
  case fault => exact absurd (congrArg Prod.snd hopen) (hunbroken f)
  case error =>
    rw [hopen] at hsound hkeeps'
    have hpresent {e : ClientRef} (he : r.client? = some e) :=
      hr.present_of_keeps (hkeeps.trans hkeeps') he
    refine ⟨?_, ⟨.agenda hagenda, fun _ he => Or.inr (hpresent he), fun d p hp => ?_,
      fun e he => ?_, fun p hp => ?_, nofun⟩, hkeeps.trans hkeeps', rfl, fun p hp => ?_,
      fun p hp => ?_⟩
    · simpa [Operation.references, Operation.uncounted, Machine.handedOver, huncounted] using hsound
    all_goals cases hmem _ ‹_›
  case ok =>
    rw [hopen] at hsound hkeeps'
    have hpresent {e : ClientRef} (he : r.client? = some e) :=
      hr.present_of_keeps (hkeeps.trans hkeeps') he
    have hnone : Machine.handedOver (.ok (reply hd)) = none := hreply hd
    refine ⟨?_, ⟨.opened hd o hc hafter hnone, fun _ he => Or.inr (hpresent he), fun d p hp => ?_,
      fun e he => ?_, fun p hp => ?_, nofun⟩, hkeeps.trans hkeeps', rfl, fun p hp => ?_,
      fun p hp => ?_⟩
    · simpa [Operation.references, Operation.uncounted, Task.references, Task.uncounted, hnone,
        huncounted] using hsound
    all_goals
      rcases List.mem_cons.mp ‹_› with heq | hin
      · cases heq
      · cases hmem _ hin

theorem references_closings (w : World) (c : ClientRef) (entries : List ObjectRef) :
    (entries.flatMap (Task.closing w c)).flatMap Task.references = entries := by
  induction entries with
  | nil => rfl
  | cons o entries ih => simpa [Task.closing, Task.references] using ih

theorem uncounted_closings (w : World) (c : ClientRef) (entries : List ObjectRef) :
    (entries.flatMap (Task.closing w c)).flatMap Task.uncounted = entries := by
  induction entries with
  | nil => rfl
  | cons o entries ih => simpa [Task.closing, Task.uncounted] using ih

theorem Begins.closing (hr : r.Ready w outside) (hc : r.client? = some c)
    {entries : List ObjectRef} {rest : List Task} (hrest : Agenda r rest)
    (hforget : ∀ t ∈ rest, t = .forgetClient c) (hclosed : rest = [] ∨ (w'.client c).handles = none)
    (h : w'.Sound (entries ++ outside) (entries ++ uses)) (hkeeps : w.Keeps w')
    (hitems : ∀ o ∈ entries, o < w.objects.size ∧ (w.object o).home = (w.client c).device) :
    Begins w outside uses r w' ⟨r, entries.flatMap (Task.closing w' c) ++ rest, .ok .done⟩ := by
  have hpresent := hr.present_of_keeps hkeeps hc
  -- a task of this list closes an entry or is what comes after all of them
  have hmem (t : Task) (ht : t ∈ entries.flatMap (Task.closing w' c) ++ rest) :
      (∃ o ∈ entries, t ∈ Task.closing w' c o) ∨ t = .forgetClient c := by
    rcases List.mem_append.mp ht with hin | hin
    · exact Or.inl (List.mem_flatMap.mp hin)
    · exact Or.inr (hforget t hin)
  have hnone (f : Task → List ObjectRef) (hf : f (.forgetClient c) = []) : rest.flatMap f = [] := by
    rw [List.flatMap_eq_nil_iff]
    intro t ht
    rw [hforget t ht, hf]
  refine ⟨?_, ⟨.agenda (hrest.closings hc entries),
    fun e he => Or.inr (hr.present_of_keeps hkeeps he),
    fun d p hp => ?_, fun e he => ?_, fun p hp => ?_, nofun⟩, hkeeps, rfl, fun p hp => ?_,
    fun p hp => ?_⟩
  · simpa [Operation.references, Operation.uncounted, references_closings, uncounted_closings,
      hnone Task.references rfl, hnone Task.uncounted rfl, Machine.handedOver, Reply.object?]
      using h
  · rcases hmem _ hp with ⟨q, hq, ht⟩ | ht
    · obtain ⟨rfl, rfl⟩ : d = (w'.client c).device ∧ p = q := by
        simpa [Task.closing] using ht
      obtain ⟨hlt, hhome⟩ := hitems p hq
      have hltc := World.lt_size_of_present (hr.client c hc)
      exact ⟨Nat.lt_of_lt_of_le hlt hkeeps.size_objects,
        (hkeeps.home p hlt).trans (hhome.trans (hkeeps.device c hltc).symm), c, hc,
        Nat.lt_of_lt_of_le hltc hkeeps.size_clients, rfl⟩
    · cases ht
  · rcases hmem _ he with ⟨q, hq, ht⟩ | ht
    · simp [Task.closing] at ht
    · obtain rfl : e = c := by simpa using ht
      refine ⟨World.lt_size_of_present hpresent, ?_⟩
      rcases hclosed with rfl | hclosed
      · simp [Task.closing] at he
      · exact hclosed
  all_goals
    rcases hmem _ hp with ⟨q, hq, ht⟩ | ht
    · simp [Task.closing] at ht
    · cases ht

theorem Begins.deleting (hr : r.Ready w outside) (hc : r.client? = some c)
    (h : w.Sound outside uses) (hd : Handle) :
    Begins w outside uses r (startDelete w r c hd).1 (startDelete w r c hd).2 := by
  unfold startDelete
  rcases htake : w.takeHandle c hd with ⟨w', _ | ⟨o, freed⟩⟩
  · obtain ⟨rfl, -⟩ := World.of_takeHandle_none htake
    exact .finished h (.refl _) nofun
  · obtain ⟨rfl, hlook, hsound, hkeeps⟩ := h.takeHandle htake
    have hitems : ∀ p ∈ [o], p < w.objects.size ∧ (w.object p).home = (w.client c).device := by
      intro p hp
      obtain rfl : p = o := List.mem_singleton.mp hp
      exact h.clients.item_home c p (h.clients.mem_items hlook)
    have hclosing := Begins.closing hr hc .done (by simp) (Or.inl rfl)
      (hsound.note (.handleRemoved hd)) (hkeeps.note _) hitems
    simpa [Task.closing] using hclosing

/-! ### Every request -/

/-- Access is granted in the world as it is, to a client of the device, or refused with a report. -/
theorem access_spec (w : World) (d : DeviceRef) (c? : Option ClientRef) :
    (access w d c? = (w, .ok ()) ∧ ∀ c, c? = some c → (w.client c).device = d) ∨
      ∃ ns e, access w d c? = (w.noteAll ns, .error e) := by
  unfold access
  split
  · exact Or.inr ⟨[], _, rfl⟩
  · split
    · exact Or.inl ⟨rfl, by simp⟩
    · split
      · next hdevice => exact Or.inl ⟨rfl, by simpa using hdevice⟩
      · exact Or.inr ⟨[_], _, rfl⟩

theorem error_of_access {c? : Option ClientRef} {e : RequestError}
    (h : access w d c? = (w', .error e)) : e = .noDevice ∨ e = .invalidArgument := by
  unfold access at h
  split at h
  · cases h
    exact Or.inl rfl
  · split at h
    · cases h
    · split at h
      · cases h
      · cases h
        exact Or.inr rfl

/-- A guarded request goes on where access is granted, and elsewhere it is refused with a report. -/
theorem guarded_cases {P : World × Operation → Prop} {c? : Option ClientRef}
    {body : World → World × Operation}
    (hbody : access w d c? = (w, .ok ()) → (∀ c, c? = some c → (w.client c).device = d) →
      P (body w))
    (hrefused : ∀ ns e, access w d c? = (w.noteAll ns, .error e) →
      P (w.noteAll ns, .finished r (.error e))) :
    P (match access w d c? with
      | (w, .error e) => (w, Operation.finished r (.error e))
      | (w, .ok ()) => body w) := by
  rcases access_spec w d c? with ⟨haccess, hclient⟩ | ⟨ns, e, haccess⟩
  · rw [haccess]
    exact hbody haccess hclient
  · rw [haccess]
    exact hrefused ns e haccess

theorem Begins.refused (h : w.Sound outside uses) (ns : List Notice) (e : RequestError) :
    Begins w outside uses r (w.noteAll ns) (.finished r (.error e)) :=
  .replying (h.noteAll ns) (.of_eq (by simp) (by simp)) rfl nofun

theorem Begins.guarded {c? : Option ClientRef} {body : World → World × Operation}
    (h : w.Sound outside uses)
    (hbody : (∀ c, c? = some c → (w.client c).device = d) →
      Begins w outside uses r (body w).1 (body w).2) :
    Begins w outside uses r
      (match access w d c? with
        | (w, .error e) => (w, Operation.finished r (.error e))
        | (w, .ok ()) => body w).1
      (match access w d c? with
        | (w, .error e) => (w, Operation.finished r (.error e))
        | (w, .ok ()) => body w).2 :=
  guarded_cases (P := fun x => Begins w outside uses r x.1 x.2) (fun _ => hbody)
    fun ns e _ => .refused h ns e

theorem retain_item (h : w.Sound outside uses) {hd : Handle} (hlook : w.lookupHandle c hd = .ok o) :
    (w.retain o).Sound (o :: outside) uses ∧ w.Keeps (w.retain o) ∧
      0 < ((w.retain o).object o).refs ∧ ((w.retain o).object o).home = (w.client c).device := by
  have hitem := h.clients.mem_items hlook
  have hlive := h.live_of_item hitem
  obtain ⟨hlt, hhome⟩ := h.clients.item_home c o hitem
  have hkeeps : w.Keeps (w.retain o) := .retain hlive
  exact ⟨h.retain hlt, hkeeps, (hkeeps.live o hlt).mpr hlive, (hkeeps.home o hlt).trans hhome⟩

theorem live_of_resolveName (h : w.Sound outside uses) {d : DeviceRef} {n : Name}
    (halive : (w.device d).alive = true) (hres : w.resolveName d n = .ok o) :
    0 < (w.object o).refs := by
  unfold World.resolveName at hres
  split at hres
  · next p hfind =>
    cases hres
    obtain ⟨-, hname⟩ := (h.names.find?_iff d n _ halive).mp hfind
    exact h.live_of_name (by rw [hname]; rfl)
  · cases hres

theorem live_of_resolveToken {d : DeviceRef} {t : Token} (hres : w.resolveToken d t = .ok o) :
    0 < (w.object o).refs := by
  unfold World.resolveToken at hres
  split at hres
  · split at hres
    · next hlive =>
      cases hres
      simpa [World.isLive] using hlive
    · cases hres
  · cases hres

/-- A search by address leaves nothing but a report, and what it finds is alive. -/
theorem objectAtAddress_spec (w : World) (d : DeviceRef) (a : UInt64) :
    (∃ o, w.objectAtAddress d a = (w, .ok o) ∧ 0 < (w.object o).refs) ∨
      ∃ ns e, w.objectAtAddress d a = (w.noteAll ns, .error e) := by
  unfold World.objectAtAddress
  split
  · cases hres : w.resolveToken d (MapAddress.tokenOf a) with
    | ok o => exact Or.inl ⟨o, rfl, live_of_resolveToken hres⟩
    | error e => exact Or.inr ⟨[_], _, rfl⟩
  · exact Or.inr ⟨[], _, rfl⟩

theorem mappingAt_spec (w : World) (d : DeviceRef) (a length : UInt64) :
    (∃ o offset, w.mappingAt d a length = (w, .ok (o, offset)) ∧ 0 < (w.object o).refs) ∨
      ∃ ns e, w.mappingAt d a length = (w.noteAll ns, .error e) := by
  unfold World.mappingAt
  rcases objectAtAddress_spec w d a with ⟨o, hfound, hlive⟩ | ⟨ns, e, hfound⟩
  · rw [hfound]
    dsimp only
    split
    · exact Or.inl ⟨o, _, rfl, hlive⟩
    · exact Or.inr ⟨[_], _, rfl⟩
  · rw [hfound]
    exact Or.inr ⟨ns, e, rfl⟩

/-- A call that publishes nothing new leaves a world that nobody can tell from the one before. -/
theorem restores_publishName {d : DeviceRef} (hwf : (w.device d).names.WellFormed firstName)
    (hidle : isIdle w (.publishName d o) = true) :
    w.Restores (w.publishName d o).1 ∧ ∀ f, (w.publishName d o).2 ≠ .fault f := by
  rcases hpublish : w.publishName d o with ⟨w', outcome⟩
  by_cases hok : ∃ n, outcome = .ok n
  · obtain ⟨n, rfl⟩ := hok
    obtain ⟨-, ⟨-, rfl⟩ | ⟨hnone, -⟩⟩ := World.of_publishName_ok hpublish
    · exact ⟨.refl w', nofun⟩
    · simp [isIdle, hnone, hpublish] at hidle
  · exact World.of_publishName_failed hwf hpublish fun n hn => hok ⟨n, hn⟩

theorem restores_createToken {d : DeviceRef} (hwf : (w.device d).tokens.WellFormed)
    (hidle : isIdle w (.createToken d o) = true) :
    w.Restores (w.createToken d o).1 ∧ ∀ f, (w.createToken d o).2 ≠ .fault f := by
  rcases hcreate : w.createToken d o with ⟨w', outcome⟩
  by_cases hok : ∃ t, outcome = .ok t
  · obtain ⟨t, rfl⟩ := hok
    obtain ⟨-, rfl⟩ | ⟨hnone, -⟩ := World.of_createToken_ok hcreate
    · exact ⟨.refl w', nofun⟩
    · simp [isIdle, hnone, hcreate] at hidle
  · exact World.of_createToken_failed hwf hcreate fun t ht => hok ⟨t, ht⟩

theorem sound_publishName (h : w.Sound outside uses) (hlive : 0 < (w.object o).refs)
    {d : DeviceRef} (halive : (w.device d).alive = true)
    (htame : isTame w (.publishName d o) = true) :
    (w.publishName d o).1.Sound outside uses ∧ w.Keeps (w.publishName d o).1 ∧
      ∀ f, (w.publishName d o).2 ≠ .fault f := by
  rcases Bool.or_eq_true_iff.mp htame with hown | hidle
  · exact h.publishName hlive (by simpa [isOwn] using hown) halive
  · obtain ⟨hrestores, hunbroken⟩ := restores_publishName (h.names.wellFormed d halive) hidle
    exact ⟨hrestores.sound h, hrestores.keeps, hunbroken⟩

theorem sound_createToken (h : w.Sound outside uses) (hlive : 0 < (w.object o).refs)
    {d : DeviceRef} (halive : (w.device d).alive = true)
    (htame : isTame w (.createToken d o) = true) :
    (w.createToken d o).1.Sound outside uses ∧ w.Keeps (w.createToken d o).1 ∧
      ∀ f, (w.createToken d o).2 ≠ .fault f := by
  rcases Bool.or_eq_true_iff.mp htame with hown | hidle
  · exact h.createToken hlive (by simpa [isOwn] using hown) halive
  · obtain ⟨hrestores, hunbroken⟩ := restores_createToken (h.tokens.wellFormed d halive) hidle
    exact ⟨hrestores.sound h, hrestores.keeps, hunbroken⟩

theorem begins (hr : r.Ready w outside) (h : w.Sound (r.givenUp ++ outside) uses) :
    Begins w outside uses r (r.start w).1 (r.start w).2 := by
  have hall (hnone : r.givenUp = []) : w.Sound outside uses := by rwa [hnone, List.nil_append] at h
  cases r with
  | newDevice config features =>
    obtain ⟨hsound, hkeeps⟩ := (hall rfl).newDevice config features
    exact .replying hsound hkeeps (handedOver_map (fun _ => rfl) _)
      (map_ne_fault (ofExcept_ne_fault _))
  | dropDevice d =>
    have hsound : (w.updateDevice d fun x => { x with held := false }).Sound outside uses :=
      World.Sound.updateDevice h fun _ => ⟨rfl, rfl, rfl, fun hheld => by cases hheld⟩
    refine ⟨hsound, ⟨.agenda (.leave d), fun c hc => ?_, ?_, ?_, ?_, by rintro _ ⟨⟩⟩,
      .updateDevice w d _, rfl, ?_, ?_⟩
    · cases hc
    all_goals simp [start]
  | openClient d =>
    obtain ⟨hsound, hkeeps⟩ := (hall rfl).newClient (hr.device d rfl)
    exact .replying hsound hkeeps (handedOver_map (fun _ => rfl) _)
      (map_ne_fault (ofExcept_ne_fault _))
  | closeClient c =>
    obtain ⟨hitems, hsound, hkeeps, -⟩ := (hall rfl).closeClient c
    rw [← hitems] at hsound
    have hentries (o : ObjectRef) (ho : o ∈ (w.closeClient c).2) :=
      h.clients.item_home c o (hitems ▸ ho)
    have hbegins := Begins.closing hr rfl .done (by simp) (Or.inl rfl) hsound hkeeps hentries
    rwa [List.append_nil] at hbegins
  | dropClient c =>
    obtain ⟨hitems, hsound, hkeeps, hclosed⟩ := (hall rfl).closeClient c
    rw [← hitems] at hsound
    have hentries (o : ObjectRef) (ho : o ∈ (w.closeClient c).2) :=
      h.clients.item_home c o (hitems ▸ ho)
    exact .closing hr rfl (.forget rfl) (by simp) (Or.inr hclosed) hsound hkeeps hentries
  | createObject d size =>
    simp only [start]
    rcases hnew : w.newObject d size with ⟨w', e | o⟩
    · obtain ⟨hsound, hkeeps⟩ := (hall rfl).newObject_error hnew
      exact .replying hsound hkeeps rfl (by simp)
    · obtain ⟨hsound, hmakes⟩ := (hall rfl).newObject hnew
      refine ⟨hsound, ⟨.prepare o, fun c hc => ?_, by simp, by simp, by simp, by simp⟩,
        hmakes.keeps, rfl, by simp, fun p hp => ?_⟩
      · cases hc
      · obtain rfl : p = o := by simpa using hp
        exact ⟨Nat.le_of_eq hmakes.eq_size.symm, hmakes.lt_size⟩
  | cloneObject o =>
    have hlive := hr.object o rfl
    exact .finished ((hall rfl).retain (World.lt_size_of_refs hlive)) (.retain hlive) (by simp)
  | dropObject o => exact .dropping hr h rfl (.refl w) (by simp)
  | createHandle c o =>
    exact .opening hr rfl (Or.inl ⟨rfl, rfl⟩) (fun _ => rfl) h (.refl w) (hr.object o rfl)
  | lookupHandle c hd =>
    exact .answering (fun _ => rfl) h (.refl w) fun o ho =>
      h.live_of_item (h.clients.mem_items ho)
  | deleteHandle c hd => exact .deleting hr rfl h hd
  | nameHandle d c hd =>
    refine .guarded h fun hclient => ?_
    dsimp only
    cases hlook : w.lookupHandle c hd with
    | error e => exact .replying h (.refl w) rfl (by simp)
    | ok o =>
      obtain ⟨hretain, hkeeps, hlive, hhome⟩ := retain_item h hlook
      obtain ⟨hsound, hkeeps', hunbroken⟩ :=
        hretain.publishName hlive (hhome.trans (hclient c rfl)) (hr.device d rfl)
      exact .dropping hr hsound (handedOver_map (fun _ => rfl) _) (hkeeps.trans hkeeps')
        (map_ne_fault hunbroken)
  | openName d c n =>
    refine .guarded h fun _ => ?_
    cases hres : w.resolveName d n with
    | error e => exact .replying h (.refl w) rfl (by simp)
    | ok o =>
      have hlive := live_of_resolveName h (hr.device d rfl) hres
      have hkeeps : w.Keeps (w.retain o) := .retain hlive
      exact .opening hr rfl (Or.inr rfl) (fun _ => rfl)
        ((hall rfl).retain (World.lt_size_of_refs hlive)) hkeeps
        ((hkeeps.live o (World.lt_size_of_refs hlive)).mpr hlive)
  | closeHandle d c hd => exact .guarded h fun _ => .deleting hr rfl h hd
  | mapHandle d c hd =>
    refine .guarded h fun hclient => ?_
    dsimp only
    cases hlook : w.lookupHandle c hd with
    | error e => exact .replying h (.refl w) rfl (by simp)
    | ok o =>
      obtain ⟨hretain, hkeeps, hlive, hhome⟩ := retain_item h hlook
      obtain ⟨hsound, hkeeps', hunbroken⟩ :=
        hretain.createToken hlive (hhome.trans (hclient c rfl)) (hr.device d rfl)
      exact .dropping hr hsound (handedOver_map (fun _ => rfl) _) (hkeeps.trans hkeeps')
        (map_ne_fault hunbroken)
  | objectAtAddress d a =>
    simp only [start]
    rcases objectAtAddress_spec w d a with ⟨o, hfound, hlive⟩ | ⟨ns, e, hfound⟩
    · rw [hfound]
      exact .answering (fun _ => rfl) h (.refl w) fun p hp => by
        obtain rfl : o = p := Except.ok.inj hp
        exact hlive
    · rw [hfound]
      exact .refused h ns e
  | mapRange d a length =>
    refine .guarded h fun _ => ?_
    rcases mappingAt_spec w d a length with ⟨o, offset, hfound, hlive⟩ | ⟨ns, e, hfound⟩
    · rw [hfound]
      exact .finished ((hall rfl).retain (World.lt_size_of_refs hlive)) (.retain hlive) (by simp)
    · rw [hfound]
      exact .refused h ns e
  | publishName d o =>
    have hplain : Machine.handedOver ((w.publishName d o).2.map .name) = none :=
      handedOver_map (fun _ => rfl) _
    obtain ⟨hsound, hkeeps, hunbroken⟩ :=
      sound_publishName (hall rfl) (hr.object o rfl) (hr.device d rfl) hr.tame
    exact .replying hsound hkeeps hplain (map_ne_fault hunbroken)
  | resolveName d n =>
    exact .answering (fun _ => rfl) h (.refl w) fun o ho =>
      live_of_resolveName h (hr.device d rfl) ho
  | retireName d o =>
    rcases Bool.or_eq_true_iff.mp hr.tame with hown | hidle
    · have hhome : (w.object o).home = d := by simpa [isOwn] using hown
      obtain ⟨w', hretire, hcons, hretires⟩ :=
        (hall rfl).toConsistent.retireName hhome (hr.viewed o rfl)
      simp only [start, hretire]
      refine .replying ⟨hcons, fun p hp => ?_⟩ hretires.keeps rfl (by simp)
      rw [hretires.name_eq] at hp
      rw [World.handlesTo_congr hretires.clients_eq]
      split at hp
      · cases hp
      · exact h.named_used p hp
    · have hnone : (w.object o).name = none := by simpa [isIdle] using hidle
      simp only [start, World.retireName, hnone]
      exact .replying h (.refl w) rfl (by simp)
  | createToken d o =>
    have hplain : Machine.handedOver ((w.createToken d o).2.map .token) = none :=
      handedOver_map (fun _ => rfl) _
    obtain ⟨hsound, hkeeps, hunbroken⟩ :=
      sound_createToken (hall rfl) (hr.object o rfl) (hr.device d rfl) hr.tame
    exact .replying hsound hkeeps hplain (map_ne_fault hunbroken)
  | resolveToken d t =>
    exact .answering (fun _ => rfl) h (.refl w) fun o ho => live_of_resolveToken ho
  | destroyToken d o =>
    rcases Bool.or_eq_true_iff.mp hr.tame with hown | hidle
    · have hhome : (w.object o).home = d := by simpa [isOwn] using hown
      obtain ⟨w', hdestroy, hsound, hkeeps⟩ :=
        (hall rfl).destroyToken hhome (hr.device d rfl)
      simp only [start, hdestroy]
      exact .replying hsound hkeeps rfl (by rintro _ ⟨⟩)
    · have hnone : (w.object o).token = none := by simpa [isIdle] using hidle
      simp only [start, World.destroyToken, hnone]
      exact .replying h (.refl w) rfl (by rintro _ ⟨⟩)

end Request

end BufferObjects
