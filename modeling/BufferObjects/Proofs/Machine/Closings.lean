import BufferObjects.Proofs.Machine.Tables
import BufferObjects.Proofs.Machine.Trace
import Mathlib.Data.List.Count
import Mathlib.Data.List.Nodup

/-!
What drivers are told of handles that come and go. Where a request opens a handle its operation
stops at once to have the driver's word; where it takes handles out it lists a closing for each, in
the order in which they came out. From then on nothing is put on a list or struck off it that has to
do with handles, unless an operation comes to a fault.
-/

open scoped List

namespace BufferObjects

/-- The closing that a task tells of. -/
def Task.closings : Task → List HookCall
  | tellClosed c o => [⟨.closed c, o⟩]
  | _ => []

/-- Whether a task tells of a handle. -/
def Task.tellsOfHandle : Task → Bool
  | tellOpened .. | tellClosed .. => true
  | _ => false

namespace Operation

variable {op : Operation}

/-- The closings on the list of an operation. -/
def closings (op : Operation) : List HookCall := op.todo.flatMap Task.closings

/-- The closings that an operation has still to tell of. Its first task is being told already. -/
def owed (op : Operation) : List HookCall := op.todo.tail.flatMap Task.closings

theorem closings_eq_nil (h : ∀ t ∈ op.todo, t.tellsOfHandle = false) : op.closings = [] := by
  refine List.flatMap_eq_nil_iff.mpr fun t ht => ?_
  cases t with
  | tellClosed c o => cases h _ ht
  | _ => rfl

/-- A closing comes to its turn, and the others wait. -/
theorem count_closings (op : Operation) (c : ClientRef) (o : ObjectRef) :
    op.closings.count ⟨.closed c, o⟩ =
      op.hook?.toList.count ⟨.closed c, o⟩ + op.owed.count ⟨.closed c, o⟩ := by
  obtain ⟨r, todo, outcome⟩ := op
  cases todo with
  | nil => rfl
  | cons task rest =>
    have htask : task.closings.count ⟨.closed c, o⟩ = task.hook?.toList.count ⟨.closed c, o⟩ := by
      cases task <;> simp [Task.closings, Task.hook?]
    rw [closings, List.flatMap_cons, List.count_append, htask]
    rfl

/-- An operation that is told of an opening is just opening a handle. -/
theorem hook?_eq_opened {c : ClientRef} {o : ObjectRef} :
    op.hook? = some ⟨.opened c, o⟩ ↔ ∃ h, op.opening? = some ⟨c, h, o⟩ := by
  obtain ⟨r, todo, outcome⟩ := op
  cases todo with
  | nil => simp [hook?, opening?]
  | cons task rest => cases task <;> simp [hook?, opening?, Task.hook?, Task.opening?]

/-- The handle that an operation is just opening for a client and an object. -/
def opens? (c : ClientRef) (o : ObjectRef) (op : Operation) : Option Handle :=
  (op.opening?.filter fun y => y.client == c && y.object == o).map Opening.handle

theorem opens?_eq_some {c : ClientRef} {o : ObjectRef} {h : Handle} :
    op.opens? c o = some h ↔ op.opening? = some ⟨c, h, o⟩ := by
  constructor
  · intro hopens
    obtain ⟨⟨e, g, p⟩, hy, rfl⟩ := Option.map_eq_some_iff.mp hopens
    obtain ⟨hopening, heq⟩ := Option.filter_eq_some_iff.mp hy
    simp only [Bool.and_eq_true, beq_iff_eq] at heq
    obtain ⟨rfl, rfl⟩ := heq
    exact hopening
  · intro hopening
    simp [opens?, hopening]

end Operation

/-! ### Entries -/

namespace World

variable {w w' : World} {c e : ClientRef} {o p : ObjectRef}

theorem count_calls (k k' : Hook) (os : List ObjectRef) (o : ObjectRef) :
    (os.map (HookCall.mk k)).count ⟨k', o⟩ = if k = k' then os.count o else 0 := by
  split
  · next h =>
    subst h
    exact List.count_map_of_injective os (HookCall.mk k) (fun _ _ h => (HookCall.mk.inj h).2) o
  · next h =>
    rw [List.count_eq_zero, List.mem_map]
    rintro ⟨p, -, hp⟩
    exact h (HookCall.mk.inj hp).1

theorem SameHandles.items_eq (h : w.SameHandles w') (c : ClientRef) :
    (w'.client c).items = (w.client c).items := (h.handles c).items_eq

/-- Another table for a client, with some entries gone and some come in. -/
theorem count_items_setHandles {handles : Option HandleTable} (gone come : List ObjectRef)
    (hc : c < w.clients.size)
    (hitems : (w.client c).items ++ come ~ gone ++ Client.items { w.client c with handles })
    (e : ClientRef) (o : ObjectRef) :
    ((w.setHandles c handles).client e).items.count o +
        (gone.map (HookCall.mk (.closed c))).count ⟨.closed e, o⟩ =
      (w.client e).items.count o + (come.map (HookCall.mk (.opened c))).count ⟨.opened e, o⟩ := by
  have hcount := hitems.count_eq o
  rw [List.count_append, List.count_append] at hcount
  rw [count_calls, count_calls, client_setHandles]
  by_cases he : c = e
  · subst he
    simp only [true_and, if_pos hc, if_true]
    exact (Nat.add_comm _ _).trans hcount.symm
  · simp [he]

/-- Handles that lead to an object have an entry each. -/
theorem TablesSound.length_le_count_items (hwf : w.TablesSound) {hs : List Handle}
    (hnodup : hs.Nodup) (hleads : ∀ h ∈ hs, w.lookupHandle c h = .ok o) :
    hs.length ≤ (w.client c).items.count o := by
  cases hhandles : (w.client c).handles with
  | none =>
    cases hs with
    | nil => exact Nat.zero_le _
    | cons h hs =>
      have hled := hleads h List.mem_cons_self
      simp [lookupHandle, hhandles] at hled
  | some table =>
    have hsub : hs.map (fun h => (h.toUInt64, o)) <+~ table.entries.toList := by
      refine List.subperm_of_subset (List.Nodup.map (fun g h heq => ?_) hnodup) fun e he => ?_
      · exact UInt32.toUInt64_inj.mp (Prod.mk.inj heq).1
      · obtain ⟨h, hh, rfl⟩ := List.mem_map.mp he
        obtain ⟨table', htable', hfind⟩ := lookupHandle_eq_ok.mp (hleads h hh)
        obtain rfl : table = table' := Option.some.inj (hhandles.symm.trans htable')
        exact (hwf c table hhandles).numbered.table.mem_toList_iff.mpr hfind
    have hle := hsub.countP_le fun e => e.2 == o
    rw [List.countP_map, List.countP_eq_length.mpr (by simp)] at hle
    simp only [Client.items, hhandles, NumberedTable.items, List.count, List.countP_map]
    exact hle

/-- A new client has no entries. -/
theorem items_newClient (w : World) (d : DeviceRef) (c : ClientRef) :
    ((w.newClient d).1.client c).items = (w.client c).items := by
  unfold newClient
  split
  · rfl
  · dsimp only
    split
    · rw [client_noteAll, client_note, client_updateDevice]
    · next table htable =>
      rw [client_pushClient]
      split
      · next hc =>
        have hge : w.clients.size ≤ c := Nat.le_of_eq hc.symm
        rw [client_of_size_le hge]
        exact (NumberedTable.WellFormed.of_create htable).2
      · rw [client_note, client_updateDevice]

/-- What is taken out goes from the entries. -/
theorem TablesSound.count_items_takeHandle (hwf : w.TablesSound) {h : Handle}
    {freed : Except Fault Unit} (htake : w.takeHandle c h = (w', some (p, freed)))
    (e : ClientRef) (o : ObjectRef) :
    (w'.client e).items.count o + [HookCall.mk (.closed c) p].count ⟨.closed e, o⟩ =
      (w.client e).items.count o := by
  obtain ⟨-, table, table', htable, -, -, hwithdraws, rfl⟩ := hwf.of_takeHandle_some htake
  have hc : c < w.clients.size := lt_size_of_handles htable
  refine count_items_setHandles [p] [] hc ?_ e o
  rw [List.append_nil, Client.items, htable]
  exact hwithdraws.items_perm

/-- What is opened comes to the entries. -/
theorem TablesSound.count_items_openHandle (hwf : w.TablesSound) {h : Handle}
    (hopen : w.openHandle c p = (w', .ok h)) (e : ClientRef) (o : ObjectRef) :
    (w'.client e).items.count o =
      (w.client e).items.count o + [HookCall.mk (.opened c) p].count ⟨.opened e, o⟩ := by
  obtain ⟨-, table, table', htable, hissue, rfl⟩ := of_openHandle_ok hopen
  have hc : c < w.clients.size := lt_size_of_handles htable
  refine count_items_setHandles [] [p] hc ?_ e o
  rw [Client.items, htable]
  exact (List.perm_append_singleton p table.items).trans
    ((hwf c table htable).of_issue hissue).2.items_perm.symm

/-- A client that is closed has no entries, and all that it had are handed over. -/
theorem count_items_closeClient (w : World) (c e : ClientRef) (o : ObjectRef) :
    ((w.closeClient c).1.client e).items.count o +
        ((w.closeClient c).2.map (HookCall.mk (.closed c))).count ⟨.closed e, o⟩ =
      (w.client e).items.count o := by
  obtain ⟨ns, hclose⟩ := exists_closeClient w c
  rw [hclose, client_noteAll]
  rcases Nat.lt_or_ge c w.clients.size with hc | hge
  · refine count_items_setHandles _ [] hc ?_ e o
    rw [List.append_nil, Client.items, Client.items, List.append_nil]
  · have hnil : (w.client c).items = [] := by
      rw [client_of_size_le hge]
      rfl
    rw [hnil, client_setHandles, if_neg fun h => absurd h.2 (Nat.not_lt.mpr hge)]
    rfl

end World

/-! ### Requests -/

namespace Request

/-- What a request does to the entries of the clients: the driver is being told of one that has come
in, and each that has gone has its closing on the list. -/
def Enters (w w' : World) (op : Operation) : Prop :=
  ∀ c o, (w'.client c).items.count o + op.closings.count ⟨.closed c, o⟩ =
    (w.client c).items.count o + op.hook?.toList.count ⟨.opened c, o⟩

variable {w w' : World} {r : Request} {op : Operation}

theorem Enters.of_quiet (hitems : ∀ c, (w'.client c).items = (w.client c).items)
    (htodo : ∀ t ∈ op.todo, t.tellsOfHandle = false) : Enters w w' op := by
  intro c o
  have hhook : op.hook?.toList.count ⟨.opened c, o⟩ = 0 := by
    rw [List.count_eq_zero, Option.mem_toList, Operation.hook?_eq_opened]
    rintro ⟨h, hopening⟩
    obtain ⟨r, todo, outcome⟩ := op
    cases todo with
    | nil => cases hopening
    | cons task rest =>
      cases task with
      | tellOpened => cases htodo _ List.mem_cons_self
      | _ => cases hopening
  rw [Operation.closings_eq_nil htodo, hhook, hitems]
  rfl

theorem Enters.finished {outcome : Outcome RequestError Reply} (hclients : w'.clients = w.clients) :
    Enters w w' (.finished r outcome) :=
  .of_quiet (fun c => congrArg Client.items (World.client_congr hclients c)) nofun

theorem Enters.dropping {o : ObjectRef} {outcome : Outcome RequestError Reply}
    (hclients : w'.clients = w.clients) : Enters w w' ⟨r, [.drop o], outcome⟩ :=
  .of_quiet (fun c => congrArg Client.items (World.client_congr hclients c))
    (List.forall_mem_singleton.mpr rfl)

theorem Enters.answering {reply : ObjectRef → Reply} {found : Except RequestError ObjectRef}
    (hclients : w'.clients = w.clients) :
    Enters w (answerObject w' r reply found).1 (answerObject w' r reply found).2 := by
  cases found with
  | ok o => exact .finished hclients
  | error e => exact .finished hclients

theorem Enters.opening {w₁ : World} (hwf : w₁.TablesSound) (hclients : w₁.clients = w.clients)
    {c : ClientRef} {p : ObjectRef} {reply : Handle → Reply} {after : List Task}
    (hafter : ∀ t ∈ after, t.tellsOfHandle = false) :
    Enters w (startOpen w₁ r c p reply after).1 (startOpen w₁ r c p reply after).2 := by
  have hitems (e : ClientRef) : (w₁.client e).items = (w.client e).items :=
    congrArg Client.items (World.client_congr hclients e)
  unfold startOpen
  rcases hopen : w₁.openHandle c p with ⟨w', h | e | f⟩
  case error | fault =>
    obtain ⟨hrestores, -⟩ := hwf.of_openHandle_failed hopen nofun
    exact .of_quiet (fun e => by rw [(hrestores.client e).handles.items_eq, hitems]) hafter
  case ok =>
    intro e o
    have hnone : Operation.closings ⟨r, .tellOpened c h p :: after, .ok (reply h)⟩ = [] :=
      @Operation.closings_eq_nil ⟨r, after, .ok (reply h)⟩ hafter
    rw [hnone, hwf.count_items_openHandle hopen, hitems]
    rfl

theorem Enters.closings {c : ClientRef} {entries : List ObjectRef} {rest : List Task}
    {outcome : Outcome RequestError Reply}
    (hitems : ∀ e o, (w'.client e).items.count o +
      (entries.map (HookCall.mk (.closed c))).count ⟨.closed e, o⟩ = (w.client e).items.count o)
    (hrest : ∀ t ∈ rest, t.tellsOfHandle = false) :
    Enters w w' ⟨r, entries.flatMap (Task.closing w' c) ++ rest, outcome⟩ := by
  have hclosings : Operation.closings
      ⟨r, entries.flatMap (Task.closing w' c) ++ rest, outcome⟩ =
        entries.map (HookCall.mk (.closed c)) := by
    have hnone := @Operation.closings_eq_nil ⟨r, rest, outcome⟩ hrest
    rw [Operation.closings] at hnone ⊢
    rw [List.flatMap_append, hnone, List.append_nil]
    clear hitems
    induction entries with
    | nil => rfl
    | cons p entries ih => simp [Task.closing, Task.closings, ih]
  have hhook (e : ClientRef) (o : ObjectRef) : Operation.hook?
      ⟨r, entries.flatMap (Task.closing w' c) ++ rest, outcome⟩ ≠ some ⟨.opened e, o⟩ := by
    rw [ne_eq, Operation.hook?_eq_opened, not_exists]
    intro h
    rw [Operation.opening?_eq_none fun t ht => ?_]
    · rintro ⟨⟩
    · rcases List.mem_append.mp ht with hin | hin
      · exact Task.opening?_eq_none (Task.isRefusable_closings _ _ _ t hin)
      · cases t with
        | tellOpened => cases hrest _ hin
        | _ => rfl
  intro e o
  have hzero := List.count_eq_zero.mpr fun hin => hhook e o (Option.mem_toList.mp hin)
  rw [hclosings, hitems, hzero]
  rfl

theorem Enters.deleting (hwf : w.TablesSound) (c : ClientRef) (h : Handle) :
    Enters w (startDelete w r c h).1 (startDelete w r c h).2 := by
  unfold startDelete
  rcases htake : w.takeHandle c h with ⟨w', _ | ⟨p, freed⟩⟩
  · obtain ⟨rfl, -⟩ := World.of_takeHandle_none htake
    exact .finished rfl
  · obtain ⟨rfl, -⟩ := hwf.takeHandle htake
    have henters : Enters w (w'.note (.handleRemoved h))
        ⟨r, [p].flatMap (Task.closing (w'.note (.handleRemoved h)) c) ++ [], .ok .done⟩ :=
      .closings (fun e o => hwf.count_items_takeHandle htake e o) (List.forall_mem_nil _)
    simpa [Task.closing] using henters

theorem Enters.guarded {d : DeviceRef} {c? : Option ClientRef} {body : World → World × Operation}
    (hbody : Enters w (body w).1 (body w).2) :
    Enters w
      (match access w d c? with
        | (w, .error e) => (w, Operation.finished r (.error e))
        | (w, .ok ()) => body w).1
      (match access w d c? with
        | (w, .error e) => (w, Operation.finished r (.error e))
        | (w, .ok ()) => body w).2 :=
  guarded_cases (P := fun x => Enters w x.1 x.2) (fun _ _ => hbody)
    fun ns e _ => .finished (by simp)

/-- Whatever the request, it accounts for the entries that come and go. -/
theorem enters (hwf : w.TablesSound) (r : Request) : Enters w (r.start w).1 (r.start w).2 := by
  cases r with
  | newDevice config features => exact .finished (World.clients_newDevice w config features)
  | dropDevice d => exact .of_quiet (fun _ => rfl) (List.forall_mem_singleton.mpr rfl)
  | openClient d => exact .of_quiet (World.items_newClient w d) nofun
  | closeClient c =>
    have henters : Enters w (w.closeClient c).1
        ⟨.closeClient c, (w.closeClient c).2.flatMap (Task.closing (w.closeClient c).1 c) ++ [],
          .ok .done⟩ := .closings (World.count_items_closeClient w c) nofun
    rwa [List.append_nil] at henters
  | dropClient c =>
    exact .closings (World.count_items_closeClient w c) (List.forall_mem_singleton.mpr rfl)
  | createObject d size =>
    have hclients := World.clients_newObject w d size
    simp only [start]
    rcases hnew : w.newObject d size with ⟨w', e | o⟩
    · rw [hnew] at hclients
      exact .finished hclients
    · rw [hnew] at hclients
      exact .of_quiet (fun c => congrArg Client.items (World.client_congr hclients c))
        (List.forall_mem_singleton.mpr rfl)
  | cloneObject o => exact .finished rfl
  | dropObject o => exact .dropping rfl
  | createHandle c o => exact .opening hwf rfl nofun
  | lookupHandle c h => exact .answering rfl
  | deleteHandle c h => exact .deleting hwf c h
  | nameHandle d c h =>
    refine .guarded ?_
    dsimp only
    split
    · exact .finished rfl
    · exact .dropping (by simp)
  | openName d c n =>
    refine .guarded ?_
    split
    · exact .finished rfl
    · exact .opening ((World.SameHandles.of_clients (World.clients_retain w _)).tables hwf)
        (World.clients_retain w _) (List.forall_mem_singleton.mpr rfl)
  | closeHandle d c h => exact .guarded (.deleting hwf c h)
  | mapHandle d c h =>
    refine .guarded ?_
    dsimp only
    split
    · exact .finished rfl
    · exact .dropping (by simp)
  | objectAtAddress d a =>
    simp only [start]
    rcases objectAtAddress_spec w d a with ⟨o, hfound, -⟩ | ⟨ns, e, hfound⟩
    · rw [hfound]
      exact .answering rfl
    · rw [hfound]
      exact .answering (by simp)
  | mapRange d a length =>
    refine .guarded ?_
    rcases mappingAt_spec w d a length with ⟨o, offset, hfound, -⟩ | ⟨ns, e, hfound⟩
    · rw [hfound]
      exact .finished rfl
    · rw [hfound]
      exact .finished (by simp)
  | publishName d o => exact .finished (World.clients_publishName w d o)
  | resolveName d n => exact .answering rfl
  | retireName d o =>
    have hclients := World.clients_retireName w d o
    simp only [start]
    rcases hretire : w.retireName d o with ⟨w', b | ok⟩
    · rw [hretire] at hclients
      refine .of_quiet (fun c => congrArg Client.items (World.client_congr hclients c))
        fun t ht => ?_
      simp only [Operation.fail, Operation.finished, List.filter_nil, List.append_nil,
        List.mem_map] at ht
      obtain ⟨p, -, rfl⟩ := ht
      rfl
    · rw [hretire] at hclients
      exact .finished hclients
  | createToken d o => exact .finished (World.clients_createToken w d o)
  | resolveToken d t => exact .answering rfl
  | destroyToken d o => exact .finished (World.clients_destroyToken w d o)

end Request

/-! ### Tasks and answers -/

/-- No task but the first of an operation tells of an opening. -/
theorem Due.opening?_eq_none {r : Request} {task : Task} {rest : List Task}
    {outcome : Outcome RequestError Reply} (h : Due r (task :: rest) outcome) :
    ∀ t ∈ rest, t.opening? = none := by
  have hagenda {todo : List Task} (h : Agenda r todo) (t : Task) (ht : t ∈ todo) :
      t.opening? = none := by
    rcases h.hook_of_mem ht with hnone | ⟨c, o, rfl⟩
    · cases t with
      | tellOpened => cases hnone
      | _ => rfl
    · rfl
  cases h with
  | agenda h => exact fun t ht => hagenda h t (List.mem_cons_of_mem _ ht)
  | freed o h => exact hagenda h
  | prepare o => exact List.forall_mem_nil _
  | opened hd o hc hrest =>
    rcases hrest with ⟨rfl, -⟩ | rfl
    · exact List.forall_mem_nil _
    · exact List.forall_mem_singleton.mpr rfl

namespace Machine

variable {w : World} {op : Operation} {task : Task} {rest : List Task}

/-- A task that does not wait puts no closing on the list and strikes none off it, unless it comes
to a fault. -/
theorem closings_carryOut (w : World) (op : Operation) (rest : List Task)
    (hhook : task.hook? = none) (hfine : ∀ f, (carryOut w op task rest).2.outcome ≠ .fault f) :
    (carryOut w op task rest).2.closings = rest.flatMap Task.closings := by
  cases task with
  | prepare | tellOpened | tellClosed | tellFreed => cases hhook
  | uncount d o =>
    revert hfine
    simp only [carryOut]
    rcases w.uncountHandle o with ⟨w₁, f | last⟩
    · exact fun hfine => absurd rfl (hfine f)
    · cases last with
      | false => exact fun _ => rfl
      | true =>
        dsimp only
        rcases w₁.retireName d o with ⟨w₂, b | ok⟩
        · exact fun hfine => absurd rfl (hfine b.fault)
        · exact fun _ => rfl
  | drop o =>
    revert hfine
    simp only [carryOut]
    rcases w.dropRef o with ⟨w', f | dropped⟩
    · exact fun hfine => absurd rfl (hfine f)
    · cases dropped <;> exact fun _ => rfl
  | forgetClient c => rfl
  | leaveDevice d =>
    have hdrops (os : List ObjectRef) : (os.map Task.drop).flatMap Task.closings = [] := by
      rw [List.flatMap_eq_nil_iff]
      intro t ht
      obtain ⟨o, -, rfl⟩ := List.mem_map.mp ht
      rfl
    simp only [carryOut, Operation.closings, List.flatMap_append, hdrops, List.nil_append]

/-- Neither does an answer. In particular no closing is owed for a handle that was refused. -/
theorem closings_conclude (hwf : w.TablesSound) (op : Operation) (task : Task) (rest : List Task)
    (v : Verdict) :
    (conclude w op task rest v).2.closings = rest.flatMap Task.closings := by
  cases task with
  | prepare o => cases v <;> rfl
  | tellOpened c h o =>
    cases v with
    | accept => rfl
    | refuse e =>
      have hsame : w.SameHandles (w.note (.handleRefused h)) := .of_clients rfl
      let op' : Operation := { op with todo := rest, outcome := .error e }
      obtain ⟨-, -, hundone, -⟩ := undoHandle_spec (hsame.tables hwf) op' c h
      have hnone : (undone (w.note (.handleRefused h)) c h).flatMap Task.closings = [] := by
        unfold undone
        split <;> rfl
      change (undoHandle (w.note (.handleRefused h)) op' c h).2.closings = _
      rw [hundone, Operation.closings, List.flatMap_append, hnone, List.nil_append]
  | _ => rfl

/-- The undoing of a handle takes its entry out. -/
theorem count_items_undoHandle (hwf : w.TablesSound) (op : Operation) {c : ClientRef} {h : Handle}
    {p : ObjectRef} (hlook : w.lookupHandle c h = .ok p) (e : ClientRef) (o : ObjectRef) :
    ((undoHandle w op c h).1.client e).items.count o +
        [HookCall.mk (.opened c) p].count ⟨.opened e, o⟩ =
      (w.client e).items.count o := by
  have hcalls : [HookCall.mk (.opened c) p].count ⟨.opened e, o⟩ =
      [HookCall.mk (.closed c) p].count ⟨.closed e, o⟩ := by
    simp [List.count_singleton]
  rw [hcalls]
  unfold undoHandle
  rcases htake : w.takeHandle c h with ⟨w', _ | ⟨q, freed⟩⟩
  · exact absurd hlook ((World.of_takeHandle_none htake).2 p)
  · obtain ⟨rfl, -, -, hfound⟩ := hwf.takeHandle htake
    obtain rfl : q = p := Except.ok.inj (hfound.symm.trans hlook)
    exact hwf.count_items_takeHandle htake e o

/-- An opening that the driver accepts keeps its entry, and one that it refuses loses it. -/
theorem count_items_conclude (hwf : w.TablesSound) (op : Operation) (task : Task)
    (rest : List Task) (v : Verdict)
    (hleads : ∀ y, task.opening? = some y → w.lookupHandle y.client y.handle = .ok y.object)
    (e : ClientRef) (o : ObjectRef) :
    (if v = .accept then task.hook?.toList.count ⟨.opened e, o⟩ else 0) +
        (w.client e).items.count o =
      task.hook?.toList.count ⟨.opened e, o⟩ +
        ((conclude w op task rest v).1.client e).items.count o := by
  cases hopening : task.opening? with
  | none =>
    have hnone : task.hook?.toList.count ⟨.opened e, o⟩ = 0 := by
      cases task with
      | tellOpened => cases hopening
      | _ => simp [Task.hook?]
    rw [(sameHandles_conclude w op rest hopening v).1.items_eq, hnone, ite_self]
  | some y =>
    have hled := hleads y hopening
    cases task with
    | tellOpened c h p =>
      obtain rfl : ⟨c, h, p⟩ = y := Option.some.inj hopening
      cases v with
      | accept => rw [if_pos rfl]; rfl
      | refuse err =>
        have hsame : w.SameHandles (w.note (.handleRefused h)) := .of_clients rfl
        have hcount := count_items_undoHandle (hsame.tables hwf)
          { op with todo := rest, outcome := .error err } ((hsame.lookup_eq c h).trans hled) e o
        rw [hsame.items_eq] at hcount
        rw [if_neg (by simp), Nat.zero_add, ← hcount, Nat.add_comm]
        rfl
    | _ => cases hopening

/-! ### Moves -/

/-- The closings that operations in progress have still to tell of. -/
def owed (m : Machine) : List HookCall := m.operations.flatMap Operation.owed

variable {m m' : Machine} {op' : Operation} {outer : List Operation} {x : Move} {t : List Event}
  {c : ClientRef} {o : ObjectRef}

/-- The operation that goes on opens nothing any more, and what it owes is what it owed, but for a
closing that has come to its turn. -/
structure Advances (m m' : Machine) (op op' : Operation) (outer : List Operation) : Prop where
  before : m.operations = op :: outer
  after : m'.operations = op' :: outer
  closings_eq : op'.closings = op.owed
  opening?_eq : op'.opening? = none

/-- The innermost operation works on a task, and the handles stay as they are. -/
theorem Sound.advances_work (h : m.Sound) (hmove : m.tameMove? .work = some m') :
    ∃ op op' outer, Advances m m' op op' outer ∧ op.hook? = none ∧
      m.world.SameHandles m'.world := by
  obtain ⟨-, hx, -⟩ := tameMove?_eq_some.mp hmove
  obtain ⟨op, outer, task, rest, hops, htodo, hhook, rfl⟩ := of_work? hx
  obtain ⟨hsame, hlater⟩ := sameHandles_carryOut m.world op rest hhook
  have hdue := (h.operations op (by rw [hops]; exact List.mem_cons_self)).due
  rw [htodo] at hdue
  have hcont := h.continues hops htodo hhook
  refine ⟨op, _, outer, ⟨hops, rfl, ?_, Operation.opening?_eq_none fun t ht => ?_⟩, ?_, hsame⟩
  · rw [closings_carryOut m.world op rest hhook hcont.operation.faultless, Operation.owed, htodo]
    rfl
  · exact (hlater t ht).elim (hdue.opening?_eq_none t) Task.opening?_eq_none
  · rw [Operation.hook?, htodo]
    exact hhook

/-- The driver answers the innermost operation. -/
theorem Sound.advances_answer (h : m.Sound) {v : Verdict}
    (hmove : m.tameMove? (.answer v) = some m') :
    ∃ op op' outer task rest call, Advances m m' op op' outer ∧ op.todo = task :: rest ∧
      task.hook? = some call ∧ m'.world = (conclude m.world op task rest v).1 := by
  obtain ⟨-, hx, -⟩ := tameMove?_eq_some.mp hmove
  obtain ⟨op, outer, task, rest, call, hops, htodo, hhook, rfl⟩ := of_answer? hx
  have hwf := h.world.clients.wellFormed
  have hdue := (h.operations op (by rw [hops]; exact List.mem_cons_self)).due
  rw [htodo] at hdue
  refine ⟨op, _, outer, task, rest, call,
    ⟨hops, rfl, ?_, Operation.opening?_eq_none fun t ht => ?_⟩, htodo, hhook, rfl⟩
  · rw [closings_conclude hwf, Operation.owed, htodo]
    rfl
  · have hlater : t ∈ rest ∨ t.isRefusable = false := by
      cases hnone : task.opening? with
      | none => exact (sameHandles_conclude m.world op rest hnone v).2 t ht
      | some y =>
        cases task with
        | tellOpened c h o => exact (remaps_conclude hwf op c h o rest v).2.1 t ht
        | _ => cases hnone
    exact hlater.elim (hdue.opening?_eq_none t) Task.opening?_eq_none

theorem Advances.hook?_eq (h : Advances m m' op op' outer) : m'.hook? = op'.hook? := by
  obtain ⟨w, held, operations⟩ := m'
  obtain rfl : operations = op' :: outer := h.after
  exact hook?_cons w held op' outer

/-! ### Nothing after the end -/

/-- An object of whose closing the driver is being told is alive. -/
theorem Sound.live_of_closing (h : m.Sound) (hhook : m.hook? = some ⟨.closed c, o⟩) :
    0 < (m.world.object o).refs := by
  obtain ⟨w, held, operations⟩ := m
  cases operations with
  | nil => cases hhook
  | cons op outer =>
    rw [hook?_cons] at hhook
    have hdue := (h.operations op List.mem_cons_self).due
    refine h.world.live_of_outside (List.mem_append_left _ ?_)
    rw [List.flatMap_cons, List.mem_append]
    refine Or.inl ?_
    obtain ⟨r, todo, outcome⟩ := op
    dsimp only at hdue
    cases hdue with
    | agenda hagenda =>
      cases hagenda with
      | close d p hc =>
        obtain ⟨-, rfl⟩ : _ = c ∧ p = o := by simpa [Operation.hook?, Task.hook?] using hhook
        simp [Operation.references, Task.references]
      | done | drop | uncount | forget | leave => simp [Operation.hook?, Task.hook?] at hhook
    | freed | prepare | opened => simp [Operation.hook?, Task.hook?] at hhook

/-- No closing of an object is told of after the object's end. -/
structure ClosesFirst (t : List Event) (m : Machine) : Prop where
  sound : m.Sound
  dead : ∀ o, .told ⟨.freed, o⟩ ∈ t → o < m.world.objects.size ∧ (m.world.object o).refs = 0
  inOrder : t.Pairwise fun a b => ∀ c o, a = .told ⟨.freed, o⟩ → b ≠ .told ⟨.closed c, o⟩

theorem mem_events_told {call : HookCall} :
    .told call ∈ m.events x m' ↔ told? x m' = some call := by
  rw [← List.count_pos_iff, count_told_events]
  split
  · next h => simp [h]
  · next h => simp [h]

theorem ClosesFirst.move (h : ClosesFirst t m) (hmove : m.tameMove? x = some m') :
    ClosesFirst (t ++ m.events x m') m' := by
  have hsound := h.sound.tameMove hmove
  have hturn := h.sound.turn_of_tameMove hmove
  have hdead (o : ObjectRef) (ho : .told ⟨.freed, o⟩ ∈ t) :
      o < m'.world.objects.size ∧ (m'.world.object o).refs = 0 := by
    obtain ⟨hlt, hzero⟩ := h.dead o ho
    exact ⟨Nat.lt_of_lt_of_le hlt hturn.size_objects, hturn.dead o hlt hzero⟩
  refine ⟨hsound, fun o ho => ?_, List.pairwise_append.mpr ⟨h.inOrder, ?_, fun a ha b hb c o hfreed
    hclosed => ?_⟩⟩
  · rcases List.mem_append.mp ho with hin | hin
    · exact hdead o hin
    · obtain ⟨hlt, -, hzero, -⟩ := (hturn.freed_iff o).mp (mem_events_told.mp hin)
      exact ⟨Nat.lt_of_lt_of_le hlt hturn.size_objects, hzero⟩
  · -- a move leads to one hook at most, and the answer that it gives comes before
    refine List.pairwise_append.mpr ⟨?_, ?_, fun a ha b _ c o hfreed => ?_⟩
    · cases m.answered? x <;> simp
    · cases told? x m' <;> simp
    · subst hfreed
      cases x with
      | answer v =>
        obtain ⟨call, -, heq⟩ := Option.map_eq_some_iff.mp (Option.mem_toList.mp ha)
        cases heq
      | _ => simp [answered?] at ha
  · subst hfreed hclosed
    have hhook : m'.hook? = some ⟨.closed c, o⟩ := by
      have htold := mem_events_told.mp hb
      cases x with
      | finish | memory => cases htold
      | _ => exact htold
    have hlive := hsound.live_of_closing hhook
    rw [(hdead o ha).2] at hlive
    exact absurd hlive (Nat.lt_irrefl 0)

theorem ClosesFirst.start (h : m.Sound) : ClosesFirst [] m := ⟨h, nofun, .nil⟩

end Machine

end BufferObjects
