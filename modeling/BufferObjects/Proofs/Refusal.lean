import BufferObjects.Proofs.Machine.Run
import BufferObjects.Proofs.Machine.Tables

/-!
What a refused handle takes with it. The undoing of a handle knows it by its number alone, and while
the driver was told, the number may have been freed and given out again: then another call's handle
is taken out. A ledger says whose handles are whose: it is kept as if an undoing took back only what
its own operation had put in. The tables agree with the ledger as long as no refusal strikes a
number that another call has given out, and a refusal spares the handles of others if and only if it
does not strike.
-/

namespace BufferObjects

/-- A handle in the ledger. While it is being opened its author is the operation that opens it, by
its place among the operations in progress; once the opening has succeeded it has no author any more
and belongs to the client. -/
@[ext]
structure LedgerEntry where
  opening : Opening
  author : Option Nat
  deriving DecidableEq, Repr

/-- Whether an entry is under a number of a client. -/
def LedgerEntry.isUnder (e : LedgerEntry) (c : ClientRef) (h : Handle) : Bool :=
  e.opening.client == c && e.opening.handle == h

/-- What becomes of an entry when the driver has answered the operation at a place: if the entry is
that operation's, it goes to the client or goes away. -/
def LedgerEntry.settle (k : Nat) (v : Verdict) (e : LedgerEntry) : Option LedgerEntry :=
  if e.author = some k then
    match v with
    | .accept => some ⟨e.opening, none⟩
    | .refuse _ => none
  else some e

/-- All open handles. -/
abbrev Ledger := List LedgerEntry

namespace Machine

/-- The handle that the innermost operation is just opening. -/
def opening? (m : Machine) : Option Opening := m.operations.head?.bind Operation.opening?

/-- The place of the innermost operation: the number of operations further out. -/
def depth (m : Machine) : Nat := m.operations.length - 1

/-- The ledger after a move. -/
def book (m : Machine) (l : Ledger) (x : Move) (m' : Machine) : Ledger :=
  match x with
  | .call r =>
    (m'.opening?.map fun y => ⟨y, some m'.depth⟩).toList ++
      l.filter fun e => !r.revokes m.world e.opening.client e.opening.handle
  | .answer v => if m.opening?.isSome then l.filterMap (LedgerEntry.settle m.depth v) else l
  | .work | .finish | .memory _ => l

/-- Whether a move refuses a handle whose number another call has given out in the meantime. -/
def strikes (m : Machine) (l : Ledger) : Move → Bool
  | .answer (.refuse _) =>
    m.opening?.any fun y => l.any fun e => e.isUnder y.client y.handle && e.author.isNone
  | _ => false

/-- Makes moves one after the other and keeps the ledger, as long as none of them strikes. -/
def follow? (m : Machine) (l : Ledger) : List Move → Option (Machine × Ledger)
  | [] => some (m, l)
  | x :: xs =>
    (m.move? x).bind fun m' => if m.strikes l x then none else m'.follow? (m.book l x m') xs

/-- The handle that is being opened at a place among operations. -/
def openingAt (ops : List Operation) (k : Nat) : Option Opening :=
  ops.reverse[k]?.bind Operation.opening?

/-- The ledger and the machine agree. -/
structure Tallies (l : Ledger) (m : Machine) : Prop where
  tables : m.world.TablesSound
  lookup_iff : ∀ c h o, m.world.lookupHandle c h = .ok o ↔ ∃ a, ⟨⟨c, h, o⟩, a⟩ ∈ l
  single : ∀ e ∈ l, ∀ e' ∈ l, e.opening.client = e'.opening.client →
    e.opening.handle = e'.opening.handle → e = e'
  authored : ∀ e ∈ l, ∀ k, e.author = some k → openingAt m.operations k = some e.opening
  /-- Whoever opens a handle under a number in use came before the entry that is there. -/
  earlier : ∀ e ∈ l, ∀ j, e.author = some j → ∀ k y, openingAt m.operations k = some y →
    e.isUnder y.client y.handle = true → k ≤ j
  behind : ∀ op ∈ m.operations, ∀ t ∈ op.todo.tail, t.opening? = none

variable {m m' : Machine} {l : Ledger} {x : Move} {xs : List Move}

theorem openingAt_cons (op : Operation) (outer : List Operation) (k : Nat) :
    openingAt (op :: outer) k = if k = outer.length then op.opening? else openingAt outer k := by
  unfold openingAt
  rw [List.reverse_cons, List.getElem?_append]
  split
  · next hlt =>
    rw [List.length_reverse] at hlt
    rw [if_neg (Nat.ne_of_lt hlt)]
  · next hge =>
    rw [List.length_reverse, Nat.not_lt] at hge
    rw [List.length_reverse]
    split
    · next heq => simp [heq]
    · next hne =>
      rw [List.getElem?_eq_none (by simp; omega), List.getElem?_eq_none (by simpa using hge)]

theorem lt_of_openingAt {ops : List Operation} {k : Nat} {y : Opening}
    (h : openingAt ops k = some y) : k < ops.length := by
  obtain ⟨op, hop, -⟩ := Option.bind_eq_some_iff.mp h
  have := (List.getElem?_eq_some_iff.mp hop).1
  rwa [List.length_reverse] at this

theorem isUnder_iff {e : LedgerEntry} {c : ClientRef} {h : Handle} :
    e.isUnder c h = true ↔ e.opening.client = c ∧ e.opening.handle = h := by
  simp [LedgerEntry.isUnder]

theorem settle_eq_some {k : Nat} {v : Verdict} {e e' : LedgerEntry} :
    e.settle k v = some e' ↔ e.author ≠ some k ∧ e = e' ∨
      e.author = some k ∧ v = .accept ∧ e' = ⟨e.opening, none⟩ := by
  unfold LedgerEntry.settle
  split
  · next h => cases v <;> simp [h, eq_comm]
  · next h => simp [h]

theorem strikes_refuse {y : Opening} {e : RequestError} (hy : m.opening? = some y) :
    m.strikes l (.answer (.refuse e)) = false ↔
      ∀ x ∈ l, x.isUnder y.client y.handle = true → x.author ≠ none := by
  simp [strikes, hy]

theorem exists_mem_settle {k : Nat} {v : Verdict} {y : Opening} :
    (∃ a, ⟨y, a⟩ ∈ l.filterMap (LedgerEntry.settle k v)) ↔
      ∃ a, ⟨y, a⟩ ∈ l ∧ (a = some k → v = .accept) := by
  simp only [List.mem_filterMap, settle_eq_some]
  constructor
  · rintro ⟨a, e, he, ⟨hne, rfl⟩ | ⟨ha, hv, heq⟩⟩
    · exact ⟨a, he, fun ha => absurd ha hne⟩
    · obtain ⟨rfl, -⟩ := LedgerEntry.mk.inj heq
      exact ⟨e.author, he, fun _ => hv⟩
  · rintro ⟨a, he, hv⟩
    by_cases ha : a = some k
    · exact ⟨none, ⟨y, a⟩, he, Or.inr ⟨ha, hv ha, rfl⟩⟩
    · exact ⟨a, ⟨y, a⟩, he, Or.inl ⟨ha, rfl⟩⟩

namespace Tallies

theorem lookup (h : Tallies l m) {e : LedgerEntry} (he : e ∈ l) :
    m.world.lookupHandle e.opening.client e.opening.handle = .ok e.opening.object :=
  (h.lookup_iff ..).mpr ⟨e.author, he⟩

theorem empty : Tallies [] Machine.empty := by
  refine ⟨World.Sound.empty.clients.wellFormed, fun c h o => iff_of_false (fun hp => ?_) ?_,
    List.forall_mem_nil _, List.forall_mem_nil _, List.forall_mem_nil _, List.forall_mem_nil _⟩
  · cases hp
  · rintro ⟨a, ha⟩
    exact List.not_mem_nil ha

/-- Whatever an operation that opens nothing does without touching the handles. -/
theorem of_quiet (h : Tallies l m) {op op' : Operation} {outer : List Operation} {w : World}
    {held : List ObjectRef} (hops : m.operations = op :: outer) (hnone : op.opening? = none)
    (hsame : m.world.SameHandles w)
    (htodo : ∀ t ∈ op'.todo, t ∈ op.todo.tail ∨ t.isRefusable = false) :
    Tallies l ⟨w, held, op' :: outer⟩ := by
  have hbehind := h.behind
  rw [hops, List.forall_mem_cons] at hbehind
  have hopens (t : Task) (ht : t ∈ op'.todo) : t.opening? = none :=
    (htodo t ht).elim (hbehind.1 t) Task.opening?_eq_none
  have hopening (k : Nat) : openingAt (op' :: outer) k = openingAt m.operations k := by
    rw [hops, openingAt_cons, openingAt_cons, hnone, Operation.opening?_eq_none hopens]
  refine ⟨hsame.tables h.tables, fun c hd o => ?_, h.single, fun e he k hk => ?_,
    fun e he j hj k y hy => ?_, List.forall_mem_cons.mpr ⟨fun t ht => ?_, hbehind.2⟩⟩
  · rw [hsame.lookup_eq, h.lookup_iff]
  · rw [hopening, h.authored e he k hk]
  · rw [hopening] at hy
    exact h.earlier e he j hj k y hy
  · exact hopens t (List.mem_of_mem_tail ht)

theorem of_finished (h : Tallies l m) {op : Operation} {outer : List Operation}
    {held : List ObjectRef} (hops : m.operations = op :: outer) (hnone : op.opening? = none) :
    Tallies l ⟨m.world, held, outer⟩ := by
  have hbehind := h.behind
  rw [hops, List.forall_mem_cons] at hbehind
  have hopening (k : Nat) : openingAt outer k = openingAt m.operations k := by
    rw [hops, openingAt_cons, hnone]
    split
    · next heq =>
      rw [Option.eq_none_iff_forall_ne_some]
      intro y hy
      exact absurd (lt_of_openingAt hy) (Nat.not_lt.mpr (Nat.le_of_eq heq.symm))
    · rfl
  refine ⟨h.tables, h.lookup_iff, h.single, fun e he k hk => ?_, fun e he j hj k y hy => ?_,
    hbehind.2⟩
  · rw [hopening, h.authored e he k hk]
  · rw [hopening] at hy
    exact h.earlier e he j hj k y hy

/-- An operation has been answered, and opens nothing any more. -/
theorem of_settled (h : Tallies l m) {op op' : Operation} {outer : List Operation} {w : World}
    {held : List ObjectRef} {v : Verdict} (hops : m.operations = op :: outer)
    (hopens : ∀ t ∈ op'.todo, t.opening? = none) (htables : w.TablesSound)
    (hlook : ∀ c hd o, w.lookupHandle c hd = .ok o ↔
      ∃ a, ⟨⟨c, hd, o⟩, a⟩ ∈ l ∧ (a = some outer.length → v = .accept)) :
    Tallies (l.filterMap (LedgerEntry.settle outer.length v)) ⟨w, held, op' :: outer⟩ := by
  have hbehind := h.behind
  rw [hops, List.forall_mem_cons] at hbehind
  have hopening {k : Nat} (hk : k ≠ outer.length) :
      openingAt (op' :: outer) k = openingAt m.operations k := by
    rw [hops, openingAt_cons, openingAt_cons, if_neg hk, if_neg hk]
  -- an entry that still has an author has another one than the operation answered
  have hpast {e : LedgerEntry} {j : Nat}
      (he : e ∈ l.filterMap (LedgerEntry.settle outer.length v)) (hj : e.author = some j) :
      e ∈ l ∧ j ≠ outer.length := by
    obtain ⟨e', he', heq⟩ := List.mem_filterMap.mp he
    rcases settle_eq_some.mp heq with ⟨hne, rfl⟩ | ⟨-, -, rfl⟩
    · exact ⟨he', fun hjk => hne (by rw [hj, hjk])⟩
    · cases hj
  refine ⟨htables, fun c hd o => ?_, fun e he e' he' hc hh => ?_, fun e he k hk => ?_,
    fun e he j hj k y hy => ?_,
    List.forall_mem_cons.mpr ⟨fun t ht => hopens t (List.mem_of_mem_tail ht), hbehind.2⟩⟩
  · rw [hlook, exists_mem_settle]
  · obtain ⟨p, hp, hpe⟩ := List.mem_filterMap.mp he
    obtain ⟨p', hp', hpe'⟩ := List.mem_filterMap.mp he'
    have hopening_eq {q q' : LedgerEntry} (hq : q.settle outer.length v = some q') :
        q'.opening = q.opening := by
      rcases settle_eq_some.mp hq with ⟨-, rfl⟩ | ⟨-, -, rfl⟩ <;> rfl
    rw [hopening_eq hpe, hopening_eq hpe'] at hc hh
    obtain rfl := h.single p hp p' hp' hc hh
    exact Option.some.inj (hpe.symm.trans hpe')
  · obtain ⟨he, hne⟩ := hpast he hk
    rw [hopening hne, h.authored e he k hk]
  · obtain ⟨he, -⟩ := hpast he hj
    have hne : k ≠ outer.length := by
      rintro rfl
      rw [openingAt_cons, if_pos rfl, Operation.opening?_eq_none hopens] at hy
      cases hy
    rw [hopening hne] at hy
    exact h.earlier e he j hj k y hy

/-! ### Requests -/

theorem mem_book_call {r : Request} {e : LedgerEntry} :
    e ∈ m.book l (.call r) m' ↔ (m'.opening? = some e.opening ∧ e.author = some m'.depth) ∨
      (e ∈ l ∧ r.revokes m.world e.opening.client e.opening.handle = false) := by
  obtain ⟨y, a⟩ := e
  simp only [book, List.mem_append, Option.mem_toList, Option.map_eq_some_iff, List.mem_filter,
    Bool.not_eq_true', LedgerEntry.mk.injEq]
  refine or_congr_left ⟨?_, fun hy => ⟨y, hy.1, rfl, hy.2.symm⟩⟩
  rintro ⟨z, hz, rfl, ha⟩
  exact ⟨hz, ha.symm⟩

/-- A request enters the handle that it opens and strikes out those that it revokes. -/
theorem call (h : Tallies l m) {r : Request} (hcall : m.call? r = some m') :
    Tallies (m.book l (.call r) m') m' := by
  obtain ⟨-, rfl⟩ := call?_eq_some.mp hcall
  have hstarts := Request.starts m.world h.tables r
  generalize (r.start m.world).1 = w at hstarts
  generalize (r.start m.world).2 = op at hstarts
  have hmem {e : LedgerEntry} : e ∈ m.book l (.call r) ⟨w, m.heldDuring r, op :: m.operations⟩ ↔
      (op.opening? = some e.opening ∧ e.author = some m.operations.length) ∨
        (e ∈ l ∧ r.revokes m.world e.opening.client e.opening.handle = false) := mem_book_call
  -- no entry is under the number of the new handle yet
  have hfresh {y : Opening} (hy : op.opening? = some y) {e : LedgerEntry} (he : e ∈ l)
      (hunder : e.isUnder y.client y.handle = true) : False := by
    obtain ⟨hc, hh⟩ := isUnder_iff.mp hunder
    have hlook := h.lookup he
    rw [hc, hh] at hlook
    exact hstarts.wasFree y hy _ hlook
  refine ⟨hstarts.touches.tables, fun c hd o => ?_, fun e he e' he' hc hh => ?_, fun e he k hk => ?_,
    fun e he j hj k y hy hunder => ?_, List.forall_mem_cons.mpr ⟨hstarts.behind, h.behind⟩⟩
  · rw [hstarts.lookup_iff, h.lookup_iff]
    constructor
    · rintro (hy | ⟨hrev, a, ha⟩)
      · exact ⟨some m.operations.length, hmem.mpr (Or.inl ⟨hy, rfl⟩)⟩
      · exact ⟨a, hmem.mpr (Or.inr ⟨ha, hrev⟩)⟩
    · rintro ⟨a, ha⟩
      rcases hmem.mp ha with ⟨hy, -⟩ | ⟨ha, hrev⟩
      · exact Or.inl hy
      · exact Or.inr ⟨hrev, a, ha⟩
  · rcases hmem.mp he with ⟨hy, ha⟩ | ⟨he, -⟩ <;> rcases hmem.mp he' with ⟨hy', ha'⟩ | ⟨he', -⟩
    · exact LedgerEntry.ext (Option.some.inj (hy.symm.trans hy')) (ha.trans ha'.symm)
    · exact (hfresh hy he' (isUnder_iff.mpr ⟨hc.symm, hh.symm⟩)).elim
    · exact (hfresh hy' he (isUnder_iff.mpr ⟨hc, hh⟩)).elim
    · exact h.single e he e' he' hc hh
  · rw [openingAt_cons]
    rcases hmem.mp he with ⟨hy, ha⟩ | ⟨he, -⟩
    · obtain rfl : m.operations.length = k := Option.some.inj (ha.symm.trans hk)
      rw [if_pos rfl, hy]
    · have hat := h.authored e he k hk
      rw [if_neg (Nat.ne_of_lt (lt_of_openingAt hat)), hat]
  · rcases hmem.mp he with ⟨-, ha⟩ | ⟨he, -⟩
    · obtain rfl : m.operations.length = j := Option.some.inj (ha.symm.trans hj)
      exact Nat.le_of_lt_succ (lt_of_openingAt hy)
    · rw [openingAt_cons] at hy
      split at hy
      · exact (hfresh hy he hunder).elim
      · exact h.earlier e he j hj k y hy hunder

/-! ### Answers -/

/-- While a handle is being opened, the entry under its number is its own, unless its number has
been given out. -/
theorem author_iff (h : Tallies l m) {op : Operation} {outer : List Operation} {y : Opening}
    (hops : m.operations = op :: outer) (hy : op.opening? = some y) {e : LedgerEntry} (he : e ∈ l)
    (hauthor : e.isUnder y.client y.handle = true → e.author.isSome = true) :
    e.isUnder y.client y.handle = true ↔ e.author = some outer.length := by
  have hat : openingAt m.operations outer.length = some y := by
    rw [hops, openingAt_cons, if_pos rfl, hy]
  constructor
  · -- the entry is not older than this opening, and no operation is further in
    intro hunder
    obtain ⟨j, hj⟩ := Option.isSome_iff_exists.mp (hauthor hunder)
    have hlt := lt_of_openingAt (h.authored e he j hj)
    have hle := h.earlier e he j hj _ y hat hunder
    rw [hops, List.length_cons] at hlt
    rw [hj, Nat.le_antisymm (Nat.le_of_lt_succ hlt) hle]
  · intro ha
    obtain rfl : y = e.opening := Option.some.inj (hat.symm.trans (h.authored e he _ ha))
    exact isUnder_iff.mpr ⟨rfl, rfl⟩

theorem answer (h : Tallies l m) {v : Verdict} (hanswer : m.answer? v = some m')
    (hstrikes : m.strikes l (.answer v) = false) : Tallies (m.book l (.answer v) m') m' := by
  obtain ⟨op, outer, task, rest, call, hops, htodo, -, rfl⟩ := of_answer? hanswer
  have hrest : ∀ t ∈ rest, t.opening? = none := by
    have hbehind := h.behind op (by rw [hops]; exact List.mem_cons_self)
    rwa [htodo] at hbehind
  have hop : op.opening? = task.opening? := by rw [Operation.opening?, htodo]; rfl
  have hm : m.opening? = task.opening? := by rw [opening?, hops]; exact hop
  have hdepth : m.depth = outer.length := by rw [depth, hops]; rfl
  cases hnone : task.opening? with
  | none =>
    have hsame := sameHandles_conclude m.world op rest hnone v
    simp only [book, hm, hnone, Option.isSome_none, Bool.false_eq_true, if_false]
    exact h.of_quiet hops (hop.trans hnone) hsame.1 (by rw [htodo]; exact hsame.2)
  | some y =>
    simp only [book, hm, hnone, Option.isSome_some, if_true, hdepth]
    obtain ⟨c, hd, o, rfl⟩ : ∃ c hd o, task = .tellOpened c hd o := by
      cases task with
      | tellOpened c hd o => exact ⟨c, hd, o, rfl⟩
      | _ => cases hnone
    obtain rfl : ⟨c, hd, o⟩ = y := Option.some.inj hnone
    cases v with
    | accept =>
      refine h.of_settled hops hrest (World.SameHandles.tables (.of_clients rfl) h.tables)
        fun e g p => ?_
      simp only [implies_true, and_true, ← h.lookup_iff]
      exact Iff.rfl
    | refuse err =>
      -- the number was not given out in the meantime, so it is the operation's own entry that goes
      have hown {e : LedgerEntry} (he : e ∈ l) :
          e.isUnder c hd = true ↔ e.author = some outer.length := by
        refine h.author_iff hops (hop.trans hnone) he fun hunder => ?_
        exact Option.isSome_iff_ne_none.mpr
          ((strikes_refuse (hm.trans hnone)).mp hstrikes e he hunder)
      have hsame : m.world.SameHandles (m.world.note (.handleRefused hd)) := .of_clients rfl
      obtain ⟨htables, -, htodo', hlook⟩ := undoHandle_spec (hsame.tables h.tables)
        { op with todo := rest, outcome := .error err } c hd
      refine h.of_settled hops (fun t ht => ?_) htables fun e g p => ?_
      · change t ∈ (undoHandle _ _ c hd).2.todo at ht
        rw [htodo', List.mem_append] at ht
        exact ht.elim (fun hin => Task.opening?_eq_none (isRefusable_of_mem_undone hin)) (hrest t)
      · refine (hlook e g p).trans ?_
        rw [hsame.lookup_eq, h.lookup_iff, ← exists_and_left]
        refine exists_congr fun a => ?_
        rw [and_comm]
        refine and_congr_right fun he => ?_
        simp only [reduceCtorEq, imp_false, ← hown he, isUnder_iff]

/-! ### Runs -/

/-- The tables go on agreeing with the ledger, whatever the move, if it does not strike. -/
theorem move (h : Tallies l m) (hmove : m.move? x = some m') (hstrikes : m.strikes l x = false) :
    Tallies (m.book l x m') m' := by
  cases x with
  | call r => exact h.call hmove
  | work =>
    obtain ⟨op, outer, task, rest, hops, htodo, hhook, rfl⟩ := of_work? hmove
    have hnone : task.opening? = none := by
      cases task with
      | tellOpened => cases hhook
      | _ => rfl
    obtain ⟨hsame, hlater⟩ := sameHandles_carryOut m.world op rest hhook
    refine h.of_quiet hops ?_ hsame (by rw [htodo]; exact hlater)
    rw [Operation.opening?, htodo]
    exact hnone
  | answer v => exact h.answer hmove hstrikes
  | finish =>
    obtain ⟨op, outer, hops, htodo, rfl⟩ := of_finish hmove
    refine h.of_finished hops ?_
    rw [Operation.opening?, htodo]
    rfl
  | memory memory =>
    cases hmove
    exact ⟨h.tables, h.lookup_iff, h.single, h.authored, h.earlier, h.behind⟩

theorem of_follow {l' : Ledger} (h : Tallies l m) (hrun : m.follow? l xs = some (m', l')) :
    Tallies l' m' := by
  induction xs generalizing m l with
  | nil =>
    cases hrun
    exact h
  | cons x xs ih =>
    obtain ⟨m₁, hmove, hrun⟩ := Option.bind_eq_some_iff.mp hrun
    split at hrun
    · cases hrun
    · next hstrikes => exact ih (h.move hmove (by simpa using hstrikes)) hrun

end Tallies

theorem of_refuse {y : Opening} {e : RequestError} (hy : m.opening? = some y)
    (hrefuse : m.move? (.answer (.refuse e)) = some m') : ∃ op outer rest,
    m.operations = op :: outer ∧ op.todo = .tellOpened y.client y.handle y.object :: rest ∧
      m' = ⟨(undoHandle (m.world.note (.handleRefused y.handle))
          { op with todo := rest, outcome := .error e } y.client y.handle).1, m.held,
        (undoHandle (m.world.note (.handleRefused y.handle))
          { op with todo := rest, outcome := .error e } y.client y.handle).2 :: outer⟩ := by
  obtain ⟨op, outer, task, rest, call, hops, htodo, -, rfl⟩ := of_answer? hrefuse
  have hm : m.opening? = task.opening? := by rw [opening?, hops, List.head?_cons,
    Option.bind_some, Operation.opening?, htodo, List.head?_cons, Option.bind_some]
  rw [hm] at hy
  cases task with
  | tellOpened c h o =>
    obtain rfl : ⟨c, h, o⟩ = y := Option.some.inj hy
    exact ⟨op, outer, rest, hops, htodo, rfl⟩
  | _ => cases hy

/-- As long as no refusal has struck the handle of another call, every handle that has been opened
and not been deleted or closed since leads to its object. A refused opening then takes out what is
under its number and gives up one use and one reference of it, and touches no other handle and no
object. The handles that belong to clients all survive this if and only if none of them is under
that number; and then what goes is what the refused operation put in itself, and the others lead to
their objects for as long as the run goes on like this. -/
theorem refusal_spares_others_iff {y : Opening} {e : RequestError}
    (hrun : empty.follow? [] xs = some (m, l)) (hy : m.opening? = some y)
    (hrefuse : m.move? (.answer (.refuse e)) = some m') :
    (∀ x ∈ l, m.world.lookupHandle x.opening.client x.opening.handle = .ok x.opening.object) ∧
    (∃ op outer, m.operations = op :: outer ∧ m'.operations =
      ⟨op.request, undone m.world y.client y.handle ++ op.todo.tail, .error e⟩ :: outer) ∧
    m'.world.objects = m.world.objects ∧ m'.held = m.held ∧
    (∀ c h p, m'.world.lookupHandle c h = .ok p ↔
      ¬ (c = y.client ∧ h = y.handle) ∧ m.world.lookupHandle c h = .ok p) ∧
    ((∀ x ∈ l, x.author = none →
        m'.world.lookupHandle x.opening.client x.opening.handle = .ok x.opening.object) ↔
      ∀ x ∈ l, x.isUnder y.client y.handle = true → x.author ≠ none) ∧
    ((∀ x ∈ l, x.isUnder y.client y.handle = true → x.author ≠ none) →
      (∀ p, m.world.lookupHandle y.client y.handle = .ok p →
        p = y.object ∧ ⟨y, some m.depth⟩ ∈ l) ∧
      ∀ ys m'' l'', m'.follow? (m.book l (.answer (.refuse e)) m') ys = some (m'', l'') →
        ∀ x ∈ l'', m''.world.lookupHandle x.opening.client x.opening.handle =
          .ok x.opening.object) := by
  have h := Tallies.empty.of_follow hrun
  have hspares (hall : ∀ x ∈ l, x.isUnder y.client y.handle = true → x.author ≠ none) :
      Tallies (m.book l (.answer (.refuse e)) m') m' :=
    h.move hrefuse ((strikes_refuse hy).mpr hall)
  obtain ⟨op, outer, rest, hops, htodo, rfl⟩ := of_refuse hy hrefuse
  have hsame : m.world.SameHandles (m.world.note (.handleRefused y.handle)) := .of_clients rfl
  obtain ⟨-, hobjects, htodo', hlook⟩ := undoHandle_spec (hsame.tables h.tables)
    { op with todo := rest, outcome := .error e } y.client y.handle
  have hdepth : m.depth = outer.length := by rw [depth, hops]; rfl
  have hop : op.opening? = some y := by rw [Operation.opening?, htodo]; rfl
  refine ⟨fun x hx => h.lookup hx, ⟨op, outer, hops, ?_⟩, hobjects, rfl, fun c hd p => ?_,
    ⟨fun hall x hx hunder hnone => ?_, fun hall x hx hnone => ?_⟩,
    fun hall => ⟨fun p hp => ?_, fun ys m'' l'' hys x hx => ?_⟩⟩
  · rw [htodo', htodo]
    rfl
  · rw [hlook, hsame.lookup_eq]
  · exact ((hlook _ _ _).mp (hall x hx hnone)).1 (isUnder_iff.mp hunder)
  · refine (hlook _ _ _).mpr ⟨fun hunder => hall x hx (isUnder_iff.mpr hunder) hnone, ?_⟩
    rw [hsame.lookup_eq]
    exact h.lookup hx
  · -- whatever is under the number has the refused operation for its author
    obtain ⟨a, ha⟩ := (h.lookup_iff _ _ _).mp hp
    have hunder : LedgerEntry.isUnder ⟨⟨y.client, y.handle, p⟩, a⟩ y.client y.handle = true :=
      isUnder_iff.mpr ⟨rfl, rfl⟩
    have hauthor := (h.author_iff hops hop ha fun _ =>
      Option.isSome_iff_ne_none.mpr (hall _ ha hunder)).mp hunder
    have hat := h.authored _ ha _ hauthor
    rw [hops, openingAt_cons, if_pos rfl, hop] at hat
    have heq : y = ⟨y.client, y.handle, p⟩ := Option.some.inj hat
    obtain rfl : a = some outer.length := hauthor
    rw [← heq, ← hdepth] at ha
    exact ⟨(congrArg Opening.object heq).symm, ha⟩
  · exact ((hspares hall).of_follow hys).lookup hx

/-- A second handle is refused, and the first is still there. -/
theorem refusal_spares_others_second :
    let moves := opening ++ [.call (.createHandle 0 0), .answer .accept, .finish,
      .call (.createHandle 0 0)]
    ∃ m l m', empty.follow? [] moves = some (m, l) ∧ m.opening? = some ⟨0, 2, 0⟩ ∧
      m.move? (.answer (.refuse (.driver 5))) = some m' ∧ m'.world.lookupHandle 0 1 = .ok 0 := by
  intro moves
  have hread : (empty.follow? [] moves).map (fun s => (s.2, s.1.opening?,
      (s.1.move? (.answer (.refuse (.driver 5)))).isSome)) =
      some ([⟨⟨0, 2, 0⟩, some 0⟩, ⟨⟨0, 1, 0⟩, none⟩], some ⟨0, 2, 0⟩, true) := by decide +kernel
  obtain ⟨⟨m, l⟩, hrun, hfacts⟩ := Option.map_eq_some_iff.mp hread
  obtain ⟨hl, hy, hrefuse⟩ := by simpa using hfacts
  obtain ⟨m', hm'⟩ := Option.isSome_iff_exists.mp hrefuse
  obtain ⟨-, -, -, -, -, hspares, -⟩ := refusal_spares_others_iff hrun hy hm'
  refine ⟨m, l, m', hrun, hy, hm', hspares.mpr ?_ ⟨⟨0, 1, 0⟩, none⟩ (by rw [hl]; simp) rfl⟩
  rw [hl]
  decide

/-- While the driver is told of a handle, it deletes the handle and opens another object, which gets
the number. Then it refuses, and the other object's handle is taken out. -/
theorem refusal_strikes_reissued :
    ∃ moves m l y e m', empty.follow? [] moves = some (m, l) ∧ m.opening? = some y ∧
      m.move? (.answer (.refuse e)) = some m' ∧
      ∃ x ∈ l, x.author = none ∧
        m.world.lookupHandle x.opening.client x.opening.handle = .ok x.opening.object ∧
        ∀ p, m'.world.lookupHandle x.opening.client x.opening.handle ≠ .ok p := by
  let moves := opening ++ [.call (.createObject 0 4096), .answer .accept, .finish,
    .call (.createHandle 0 0), .call (.deleteHandle 0 1), .answer .accept, .work, .work, .finish,
    .call (.createHandle 0 1), .answer .accept, .finish]
  have hread : ((empty.follow? [] moves).bind fun s =>
      (s.1.move? (.answer (.refuse (.driver 5)))).map fun m' =>
        (s.2, s.1.opening?, (m'.world.lookupHandle 0 1).toOption)) =
      some ([⟨⟨0, 1, 1⟩, none⟩], some ⟨0, 1, 0⟩, none) := by decide +kernel
  obtain ⟨⟨m, l⟩, hrun, hrefuse⟩ := Option.bind_eq_some_iff.mp hread
  obtain ⟨m', hm', hfacts⟩ := Option.map_eq_some_iff.mp hrefuse
  obtain ⟨hl, hy, hafter⟩ := by simpa using hfacts
  have hmem : ⟨⟨0, 1, 1⟩, none⟩ ∈ l := by simp [hl]
  refine ⟨moves, m, l, ⟨0, 1, 0⟩, .driver 5, m', hrun, hy, hm', _, hmem, rfl,
    (Tallies.empty.of_follow hrun).lookup hmem, fun p hp => ?_⟩
  rw [hp] at hafter
  cases hafter

end Machine

end BufferObjects
