import BufferObjects.Proofs.Machine.Closings
import BufferObjects.Proofs.Refusal

/-!
What drivers are told of handles adds up. Each handle whose opening was accepted is open still, or
the driver has been told that it has gone, or it will be: its closing is on the list of an operation
in progress. So between operations the openings accepted outnumber the closings told of by just the
handles that are open; no closing is told of for a handle that was refused, and none of an object
that has ended. All of this needs that no handle is taken away while its driver is still being told
of it.
-/

open scoped List

namespace BufferObjects.Machine

/-- Whether a move takes a handle away while its driver is being told of it. -/
def snatches (m : Machine) : Move → Bool
  | .call r =>
    m.operations.any fun op => op.opening?.any fun y => r.revokes m.world y.client y.handle
  | _ => false

/-- The hooks at which operations in progress wait. -/
def awaited (m : Machine) : List HookCall := m.operations.flatMap fun op => op.hook?.toList

variable {m m' : Machine} {x : Move} {xs : List Move} {t : List Event} {c : ClientRef}
  {o : ObjectRef} {op op' : Operation} {outer : List Operation} {w : World}
  {held : List ObjectRef}

/-! ### Handles that are being opened -/

/-- Each handle that is being opened leads to its object, and no two of them are the same. -/
structure Intact (m : Machine) : Prop where
  leads : ∀ op ∈ m.operations, ∀ y, op.opening? = some y →
    m.world.lookupHandle y.client y.handle = .ok y.object
  apart : m.operations.Pairwise fun inner outer =>
    ∀ y z, inner.opening? = some y → outer.opening? = some z →
      ¬ (z.client = y.client ∧ z.handle = y.handle)

namespace Intact

theorem empty : Machine.empty.Intact := ⟨List.forall_mem_nil _, .nil⟩

/-- The innermost operation goes on and opens nothing, and the handles of the others stay. -/
theorem advance (h : m.Intact) (hops : m.operations = op :: outer) (hnone : op'.opening? = none)
    (hlook : ∀ p ∈ outer, ∀ y, p.opening? = some y →
      w.lookupHandle y.client y.handle = m.world.lookupHandle y.client y.handle) :
    Intact ⟨w, held, op' :: outer⟩ := by
  have hleads := h.leads
  have hapart := h.apart
  rw [hops] at hleads hapart
  rw [List.forall_mem_cons] at hleads
  rw [List.pairwise_cons] at hapart
  refine ⟨List.forall_mem_cons.mpr ⟨fun y hy => ?_, fun p hp y hy => ?_⟩,
    List.pairwise_cons.mpr ⟨fun p _ y z hy => ?_, hapart.2⟩⟩
  · rw [hnone] at hy
    cases hy
  · rw [hlook p hp y hy]
    exact hleads.2 p hp y hy
  · rw [hnone] at hy
    cases hy

theorem call (h : m.Intact) (hwf : m.world.TablesSound) {r : Request}
    (hcall : m.call? r = some m') (hspares : m.snatches (.call r) = false) : m'.Intact := by
  obtain ⟨-, rfl⟩ := call?_eq_some.mp hcall
  have hstarts := Request.starts m.world hwf r
  refine ⟨List.forall_mem_cons.mpr ⟨fun y hy => (hstarts.lookup_iff _ _ _).mpr (Or.inl hy),
      fun p hp y hy => (hstarts.lookup_iff _ _ _).mpr (Or.inr ⟨?_, h.leads p hp y hy⟩)⟩,
    List.pairwise_cons.mpr ⟨fun p hp y z hy hz heq => ?_, h.apart⟩⟩
  · have hop := List.any_eq_false.mp hspares p hp
    rwa [hy, Option.any_some, Bool.not_eq_true] at hop
  · -- a new handle led nowhere before
    have hled := h.leads p hp z hz
    rw [heq.1, heq.2] at hled
    exact hstarts.wasFree y hy _ hled

end Intact

theorem Intact.move (hi : m.Intact) (h : m.Sound) (hmove : m.tameMove? x = some m')
    (hspares : m.snatches x = false) : m'.Intact := by
  cases x with
  | call r =>
    exact hi.call h.world.clients.wellFormed (tameMove?_eq_some.mp hmove).2.1 hspares
  | work =>
    obtain ⟨op, op', outer, hadv, -, hsame⟩ := h.advances_work hmove
    obtain ⟨w, held, operations⟩ := m'
    obtain rfl : operations = op' :: outer := hadv.after
    exact hi.advance hadv.before hadv.opening?_eq fun p _ y _ => hsame.lookup_eq _ _
  | answer v =>
    obtain ⟨op, op', outer, task, rest, call, hadv, htodo, -, hworld⟩ := h.advances_answer hmove
    have hwf := h.world.clients.wellFormed
    have hop : op.opening? = task.opening? := by rw [Operation.opening?, htodo]; rfl
    obtain ⟨w, held, operations⟩ := m'
    obtain rfl : operations = op' :: outer := hadv.after
    obtain rfl : w = _ := hworld
    refine hi.advance hadv.before hadv.opening?_eq fun p hp z hz => ?_
    cases hnone : task.opening? with
    | none => exact (sameHandles_conclude m.world op rest hnone v).1.lookup_eq _ _
    | some y =>
      cases task with
      | tellOpened c hd o =>
        have hremaps := (remaps_conclude hwf op c hd o rest v).1
        rw [World.lookupHandle_eq, World.lookupHandle_eq, hremaps.handleMap_eq]
        split
        · next hz' =>
          cases v with
          | accept => rw [hz']
          | refuse e =>
            -- another operation's handle is not the one that goes
            have hapart := hi.apart
            rw [hadv.before, List.pairwise_cons] at hapart
            have hne : z.handle ≠ hd := fun heq => hapart.1 p hp _ z (hop.trans rfl) hz ⟨hz', heq⟩
            dsimp only
            rw [HandleMap.lookup, HandleMap.lookup, HandleMap.find?_strike, if_neg hne, hz']
        · rfl
      | _ => cases hnone
  | finish =>
    obtain ⟨op, outer, hops, -, rfl⟩ := of_finish (tameMove?_eq_some.mp hmove).2.1
    have hleads := hi.leads
    have hapart := hi.apart
    rw [hops] at hleads hapart
    exact ⟨(List.forall_mem_cons.mp hleads).2, (List.pairwise_cons.mp hapart).2⟩
  | memory memory =>
    cases (tameMove?_eq_some.mp hmove).2.1
    exact ⟨hi.leads, hi.apart⟩

/-! ### The balance -/

/-- How often a driver has accepted that a client opens an object. -/
def acceptances (t : List Event) (c : ClientRef) (o : ObjectRef) : Nat :=
  t.count (.answered ⟨.opened c, o⟩ .accept)

/-- How often a driver has been told that a handle of a client for an object has gone. -/
def closings (t : List Event) (c : ClientRef) (o : ObjectRef) : Nat :=
  t.count (.told ⟨.closed c, o⟩)

/-- Openings accepted or waiting for the driver's word stand against closings told or owed and the
handles that are open. -/
def Balances (t : List Event) (m : Machine) : Prop :=
  ∀ c o, acceptances t c o + m.awaited.count ⟨.opened c, o⟩ =
    closings t c o + m.owed.count ⟨.closed c, o⟩ + (m.world.client c).items.count o

theorem count_answered_events (call : HookCall) (v : Verdict) :
    (m.events x m').count (.answered call v) =
      if x = .answer v then m.hook?.toList.count call else 0 := by
  have htold : ((told? x m').map Event.told).toList.count (.answered call v) = 0 := by
    cases told? x m' <;> simp
  rw [events, List.count_append, htold, Nat.add_zero]
  cases x with
  | answer u =>
    cases hhook : m.hook? with
    | none => simp [answered?, hhook]
    | some call' =>
      by_cases hu : u = v
      · subst hu
        simp [answered?, hhook, List.count_singleton]
      · simp [answered?, hhook, hu]
  | _ => simp [answered?]

theorem Advances.count_owed (h : Advances m m' op op' outer) (c : ClientRef) (o : ObjectRef) :
    m'.hook?.toList.count ⟨.closed c, o⟩ + m'.owed.count ⟨.closed c, o⟩ =
      m.owed.count ⟨.closed c, o⟩ := by
  have hclosings := op'.count_closings c o
  rw [h.closings_eq] at hclosings
  simp only [owed, h.before, h.after, List.flatMap_cons, List.count_append, h.hook?_eq]
  omega

theorem Advances.count_awaited (h : Advances m m' op op' outer) (c : ClientRef) (o : ObjectRef) :
    op.hook?.toList.count ⟨.opened c, o⟩ + m'.awaited.count ⟨.opened c, o⟩ =
      m.awaited.count ⟨.opened c, o⟩ := by
  have hnone : op'.hook?.toList.count ⟨.opened c, o⟩ = 0 := by
    rw [List.count_eq_zero, Option.mem_toList, Operation.hook?_eq_opened, h.opening?_eq]
    exact nofun
  simp only [awaited, h.before, h.after, List.flatMap_cons, List.count_append, hnone]
  omega

theorem Balances.move (hb : Balances t m) (h : m.Sound) (hi : m.Intact)
    (hmove : m.tameMove? x = some m') : Balances (t ++ m.events x m') m' := by
  intro c o
  have hbefore := hb c o
  have hwf := h.world.clients.wellFormed
  have htold (call : HookCall) : (told? x m').toList.count call =
      if told? x m' = some call then 1 else 0 := by
    cases told? x m' <;> simp [List.count_singleton]
  rw [acceptances, closings] at hbefore ⊢
  rw [List.count_append, List.count_append, count_told_events, count_answered_events, ← htold]
  cases x with
  | call r =>
    obtain ⟨hperm, rfl⟩ := call?_eq_some.mp (tameMove?_eq_some.mp hmove).2.1
    have henters := Request.enters hwf r c o
    have hclosings := (r.start m.world).2.count_closings c o
    simp only [told?, hook?_cons, reduceCtorEq, if_false, awaited, owed, List.flatMap_cons,
      List.count_append] at hbefore ⊢
    omega
  | work =>
    obtain ⟨op, op', outer, hadv, hnone, hsame⟩ := h.advances_work hmove
    have hitems := hsame.items_eq c
    have howed := hadv.count_owed c o
    have hawaited := hadv.count_awaited c o
    simp only [hnone, Option.toList_none, List.count_nil] at hawaited
    simp only [told?, reduceCtorEq, if_false, hitems]
    omega
  | answer v =>
    obtain ⟨op, op', outer, task, rest, call, hadv, htodo, hhook, hworld⟩ :=
      h.advances_answer hmove
    have howed := hadv.count_owed c o
    have hawaited := hadv.count_awaited c o
    have hop : op.hook? = task.hook? := by rw [Operation.hook?, htodo]; rfl
    have hm : m.hook? = task.hook? := hook?_of_operations hadv.before htodo
    have hitems := count_items_conclude hwf op task rest v (fun y hy =>
      hi.leads op (by rw [hadv.before]; exact List.mem_cons_self) y
        (by rw [Operation.opening?, htodo]; exact hy)) c o
    rw [← hworld, ← hop] at hitems
    simp only [Move.answer.injEq, hm, ← hop]
    simp only [told?]
    omega
  | finish =>
    obtain ⟨op, outer, hops, htodo, rfl⟩ := of_finish (tameMove?_eq_some.mp hmove).2.1
    have hhook : op.hook? = none := by rw [Operation.hook?, htodo]; rfl
    have howed : op.owed = [] := by rw [Operation.owed, htodo]; rfl
    simpa [told?, awaited, owed, hops, hhook, howed] using hbefore
  | memory memory =>
    cases (tameMove?_eq_some.mp hmove).2.1
    simp only [told?, reduceCtorEq, if_false, Option.toList_none, List.count_nil, Nat.add_zero]
    exact hbefore

theorem Balances.empty : Balances [] Machine.empty := fun _ _ => rfl

theorem count_awaited (ops : List Operation) (c : ClientRef) (o : ObjectRef) :
    (ops.flatMap fun op => op.hook?.toList).count ⟨.opened c, o⟩ =
      (ops.filterMap (Operation.opens? c o)).length := by
  induction ops with
  | nil => rfl
  | cons op ops ih =>
    rw [List.flatMap_cons, List.count_append, ih, List.filterMap_cons]
    cases hopens : op.opens? c o with
    | some h =>
      rw [Operation.hook?_eq_opened.mpr ⟨h, Operation.opens?_eq_some.mp hopens⟩]
      simp [Nat.add_comm]
    | none =>
      have hnone : op.hook?.toList.count ⟨.opened c, o⟩ = 0 := by
        rw [List.count_eq_zero, Option.mem_toList, Operation.hook?_eq_opened]
        rintro ⟨h, hopening⟩
        rw [Operation.opens?_eq_some.mpr hopening] at hopens
        cases hopens
      rw [hnone, Nat.zero_add]

/-- Every opening that waits for the driver's word has an entry of its own. -/
theorem Intact.count_awaited_le (hi : m.Intact) (hwf : m.world.TablesSound) (c : ClientRef)
    (o : ObjectRef) :
    m.awaited.count ⟨.opened c, o⟩ ≤ (m.world.client c).items.count o := by
  rw [awaited, count_awaited]
  refine hwf.length_le_count_items ?_ fun h hh => ?_
  · refine hi.apart.filterMap _ fun op op' hne h hh h' hh' heq => ?_
    exact hne _ _ (Operation.opens?_eq_some.mp hh) (Operation.opens?_eq_some.mp hh')
      ⟨rfl, heq.symm⟩
  · obtain ⟨op, hop, hopens⟩ := List.mem_filterMap.mp hh
    exact hi.leads op hop _ (Operation.opens?_eq_some.mp hopens)

/-! ### Runs -/

/-- An opening that is refused takes its own entry out again and lists no closing. -/
theorem Intact.refused (hi : m.Intact) (h : m.Sound) {y : Opening} {e : RequestError}
    (hy : m.opening? = some y) (hrefuse : m.move? (.answer (.refuse e)) = some m') :
    (∀ p, m'.world.lookupHandle y.client y.handle ≠ .ok p) ∧
      (m'.world.client y.client).items.count y.object + 1 =
        (m.world.client y.client).items.count y.object ∧
      ∃ op outer, m'.operations = op :: outer ∧ op.closings = [] := by
  have hwf := h.world.clients.wellFormed
  obtain ⟨op, outer, rest, hops, htodo, rfl⟩ := of_refuse hy hrefuse
  have hsame : m.world.SameHandles (m.world.note (.handleRefused y.handle)) := .of_clients rfl
  have hmem : op ∈ m.operations := by rw [hops]; exact List.mem_cons_self
  have hled := hi.leads op hmem y (by rw [Operation.opening?, htodo]; rfl)
  have hcount := count_items_undoHandle (hsame.tables hwf)
    { op with todo := rest, outcome := .error e } ((hsame.lookup_eq _ _).trans hled) y.client y.object
  obtain ⟨-, -, -, hlook⟩ := undoHandle_spec (hsame.tables hwf)
    { op with todo := rest, outcome := .error e } y.client y.handle
  refine ⟨fun p hp => ((hlook _ _ p).mp hp).1 ⟨rfl, rfl⟩, ?_, _, outer, rfl, ?_⟩
  · rwa [hsame.items_eq, List.count_singleton_self] at hcount
  · have hdue := (h.operations op hmem).due
    rw [htodo] at hdue
    refine (closings_conclude hwf op (.tellOpened y.client y.handle y.object) rest
      (.refuse e)).trans ?_
    cases hdue with
    | agenda hagenda => cases hagenda
    | opened hd o hc hrest => rcases hrest with ⟨rfl, -⟩ | rfl <;> rfl

/-- Openings and closings match, in every state of a run in which no handle is taken away while its
driver is being told of it. What has been accepted or waits for the driver's word has been told of as
gone, or is owed a closing, or is open; the driver is never told of more closings than it has
accepted openings; and between operations the difference is what is open, nothing once the client is
closed. A refused opening takes its own entry out and leads to no closing. And no closing of an
object is told of after the object's end. -/
theorem openings_match_closings {moves : List Move}
    (hrun : empty.tameRunWhile? (fun m x _ => !m.snatches x) moves = some m) :
    (∀ c o, acceptances (empty.trace moves) c o + m.awaited.count ⟨.opened c, o⟩ =
      closings (empty.trace moves) c o + m.owed.count ⟨.closed c, o⟩ +
        (m.world.client c).items.count o) ∧
    (∀ c o, closings (empty.trace moves) c o ≤ acceptances (empty.trace moves) c o) ∧
    (m.operations = [] → ∀ c o,
      acceptances (empty.trace moves) c o =
        closings (empty.trace moves) c o + (m.world.client c).items.count o ∧
      (m.world.isClosed c = true →
        acceptances (empty.trace moves) c o = closings (empty.trace moves) c o)) ∧
    (∀ y e m', m.opening? = some y → m.move? (.answer (.refuse e)) = some m' →
      (∀ p, m'.world.lookupHandle y.client y.handle ≠ .ok p) ∧
      (m'.world.client y.client).items.count y.object + 1 =
        (m.world.client y.client).items.count y.object ∧
      ∃ op outer, m'.operations = op :: outer ∧ op.closings = []) ∧
    (empty.trace moves).Pairwise fun a b =>
      ∀ c o, a = .told ⟨.freed, o⟩ → b ≠ .told ⟨.closed c, o⟩ := by
  obtain ⟨hi, hbalance, hfirst⟩ := tameRunWhile?_trace_induction
    (P := fun t m => m.Intact ∧ Balances t m ∧ ClosesFirst t m)
    (fun t m x m' ⟨hi, hb, hf⟩ hmove htest =>
      ⟨hi.move hf.sound hmove (by simpa using htest), hb.move hf.sound hi hmove, hf.move hmove⟩)
    ⟨.empty, .empty, .start .empty⟩ hrun
  rw [List.nil_append] at hbalance hfirst
  refine ⟨hbalance, fun c o => ?_, fun hquiet c o => ?_, fun y e m' hy hrefuse =>
    hi.refused hfirst.sound hy hrefuse, hfirst.inOrder⟩
  · have hle := hi.count_awaited_le hfirst.sound.world.clients.wellFormed c o
    have hlaw := hbalance c o
    omega
  · have hlaw := hbalance c o
    simp only [awaited, owed, hquiet, List.flatMap_nil, List.count_nil, Nat.add_zero] at hlaw
    refine ⟨hlaw, fun hclosed => ?_⟩
    have hnone : (m.world.client c).items = [] := by
      rw [Client.items, Option.isNone_iff_eq_none.mp hclosed]
    rwa [hnone, List.count_nil, Nat.add_zero] at hlaw

/-- An object is opened, opened again and refused; while the driver is told that the first handle has
gone, the object is opened once more. In the end one handle is open of two that were accepted. -/
theorem openings_match_closings_reopened :
    let moves := opening ++ [.call (.createHandle 0 0), .answer .accept, .finish,
      .call (.createHandle 0 0), .answer (.refuse (.driver 5)), .work, .work, .finish,
      .call (.deleteHandle 0 1), .call (.createHandle 0 0), .answer .accept, .finish,
      .answer .accept, .work, .work, .finish]
    ∃ m, empty.tameRunWhile? (fun m x _ => !m.snatches x) moves = some m ∧ m.operations = [] ∧
      acceptances (empty.trace moves) 0 0 = 2 ∧ closings (empty.trace moves) 0 0 = 1 ∧
      (m.world.client 0).items.count 0 = 1 := by
  intro moves
  have hread : (empty.tameRunWhile? (fun m x _ => !m.snatches x) moves).map
      (fun m => m.operations) = some [] := by decide +kernel
  have hcounts : acceptances (empty.trace moves) 0 0 = 2 ∧
      closings (empty.trace moves) 0 0 = 1 := by decide +kernel
  obtain ⟨m, hrun, hquiet⟩ := Option.map_eq_some_iff.mp hread
  obtain ⟨-, -, hmatch, -⟩ := openings_match_closings hrun
  have hequal := (hmatch hquiet 0 0).1
  exact ⟨m, hrun, hquiet, hcounts.1, hcounts.2, by omega⟩

/-- Two objects of the second device are opened, and the first device gives one of them a name. -/
def estranged : List Move :=
  [.call (.newDevice { handleOrder := 2, nameOrder := 2, tokenOrder := 2 } default), .finish,
    .call (.newDevice { handleOrder := 2, nameOrder := 2, tokenOrder := 2 } default), .finish,
    .call (.openClient 1), .finish, .call (.createObject 1 4096), .answer .accept, .finish,
    .call (.createObject 1 4096), .answer .accept, .finish,
    .call (.createHandle 0 0), .answer .accept, .finish,
    .call (.createHandle 0 1), .answer .accept, .finish, .call (.publishName 0 1), .finish]

/-- When the client is dropped, the closing of the object with the name breaks off at the home
device, where the name was never given out; the driver is never told that the handle of the other
object has gone. -/
theorem openings_unmatched_elsewhere :
    let moves := estranged ++
      [.call (.dropClient 0), .answer .accept, .work, .work, .work, .work, .work, .finish]
    ∃ m, empty.run? moves = some m ∧ m.operations = [] ∧
      acceptances (empty.trace moves) 0 0 ≠
        closings (empty.trace moves) 0 0 + (m.world.client 0).items.count 0 := by
  intro moves
  have hread : (empty.run? moves).map (fun m => (m.operations, (m.world.client 0).items)) =
      some ([], []) := by decide +kernel
  have hcounts : acceptances (empty.trace moves) 0 0 = 1 ∧
      closings (empty.trace moves) 0 0 = 0 := by decide +kernel
  obtain ⟨m, hrun, hfacts⟩ := Option.map_eq_some_iff.mp hread
  obtain ⟨hquiet, hitems⟩ := Prod.mk.inj hfacts
  refine ⟨m, hrun, hquiet, ?_⟩
  rw [hcounts.1, hcounts.2, hitems]
  decide

end BufferObjects.Machine
