import BufferObjects.IdAllocator
import BufferObjects.Machine.Hook
import Mathlib.Algebra.Group.Nat.Defs
import Mathlib.Logic.Function.Basic

/-!
Handles as they should be, without tables and without allocators. A client's handles are a map from
numbers to objects. What is asked of them is a history, newest step first: openings with what the
driver said to each, deletions, the closing of the client, and requests that were turned away. The
history alone says what the map is and what each step was answered. Which objects it names is of no
account for the numbers: with its objects renamed it gives the same answers and the renamed map.
-/

namespace BufferObjects

/-- What a client's handles lead to; none once the client is closed. -/
abbrev HandleMap := Option (Handle → Option ObjectRef)

/-- What can be asked of a client's handles. -/
inductive HandleStep
  | opens (o : ObjectRef)
  | deletes (h : Handle)
  | closes
  /-- A request that is turned away before it comes to the handles. -/
  | barred (cause : RequestError)
  deriving DecidableEq, Repr

/-- A step, with what the driver said if it was told. -/
structure HandleDeed where
  step : HandleStep
  verdict : Option Verdict
  deriving DecidableEq, Repr

/-- The answer to a step: a refusal, or the handle given out if any. -/
abbrev HandleAnswer := Except RequestError (Option Handle)

/-- The same step, with another name for its object. -/
def HandleStep.rename (f : ObjectRef → ObjectRef) : HandleStep → HandleStep
  | opens o => opens (f o)
  | deletes h => deletes h
  | closes => closes
  | barred e => barred e

def HandleDeed.rename (f : ObjectRef → ObjectRef) (x : HandleDeed) : HandleDeed :=
  { x with step := x.step.rename f }

namespace HandleMap

/-- Nothing opened yet. -/
def fresh : HandleMap := some fun _ => none

def find? (b : HandleMap) (h : Handle) : Option ObjectRef := b.bind fun t => t h

def lookup (b : HandleMap) (h : Handle) : Except RequestError ObjectRef :=
  match b.find? h with
  | some o => .ok o
  | none => .error .invalidHandle

def enter (b : HandleMap) (h : Handle) (o : ObjectRef) : HandleMap :=
  b.map fun t => Function.update t h (some o)

def strike (b : HandleMap) (h : Handle) : HandleMap := b.map fun t => Function.update t h none

def rename (f : ObjectRef → ObjectRef) (b : HandleMap) : HandleMap :=
  b.map fun t => Option.map f ∘ t

/-- The first of so many handles in a row, from one on, that is not in use. -/
def unusedFrom? (t : Handle → Option ObjectRef) (i : Nat) : Nat → Option Handle
  | 0 => none
  | n + 1 =>
    if t (UInt32.ofNat i) = none then some (UInt32.ofNat i) else unusedFrom? t (i + 1) n

/-- The least handle that is not in use. -/
def vacancy? (b : HandleMap) : Option Handle :=
  b.bind fun t =>
    unusedFrom? t firstHandle.toNat (unboundedMaxId.toNat + 1 - firstHandle.toNat)

/-- The map after a step. An opening takes the least handle that is not in use, and keeps it unless
the driver refuses. -/
def after (b : HandleMap) (x : HandleDeed) : HandleMap :=
  match x.step with
  | .opens o =>
    match x.verdict with
    | some (.refuse _) => b
    | _ =>
      match b.vacancy? with
      | some h => b.enter h o
      | none => b
  | .deletes h => b.strike h
  | .closes => none
  | .barred _ => b

/-- The answer to a step; none while the driver still has to say something to it. -/
def answer? (b : HandleMap) (x : HandleDeed) : Option HandleAnswer :=
  match x.step with
  | .opens _ =>
    match b.vacancy? with
    | some h =>
      x.verdict.map fun
        | .accept => .ok (some h)
        | .refuse e => .error e
    | none => some (.error (if b = none then .invalidArgument else .outOfSpace))
  | .deletes h => some (if b.find? h = none then .error .invalidHandle else .ok none)
  | .closes => some (.ok none)
  | .barred e => some (.error e)

/-- The map that a history leads to. -/
def replay : List HandleDeed → HandleMap
  | [] => fresh
  | x :: xs => (replay xs).after x

/-- The answers to the steps of a history. -/
def answers : List HandleDeed → List (Option HandleAnswer)
  | [] => []
  | x :: xs => (replay xs).answer? x :: answers xs

/-! ### The least handle -/

/-- The least handle there is that is not in use. -/
structure LeastUnused (t : Handle → Option ObjectRef) (h : Handle) : Prop where
  first_le : firstHandle ≤ h
  le_last : h ≤ unboundedMaxId
  unused : t h = none
  below : ∀ j, firstHandle ≤ j → j < h → t j ≠ none

variable {t : Handle → Option ObjectRef} {g h : Handle} {b : HandleMap} {o : ObjectRef}
  {f : ObjectRef → ObjectRef} {x : HandleDeed} {xs : List HandleDeed}

theorem LeastUnused.unique (hh : LeastUnused t h) (hg : LeastUnused t g) : h = g := by
  refine UInt32.le_antisymm (UInt32.not_lt.mp fun hlt => ?_) (UInt32.not_lt.mp fun hlt => ?_)
  · exact hh.below g hg.first_le hlt hg.unused
  · exact hg.below h hh.first_le hlt hh.unused

theorem unusedFrom?_eq_some {i n : Nat} (hin : i + n ≤ 2 ^ 32) (hfound : unusedFrom? t i n = some h) :
    i ≤ h.toNat ∧ h.toNat < i + n ∧ t h = none ∧ ∀ j, i ≤ j.toNat → j < h → t j ≠ none := by
  induction n generalizing i with
  | zero => cases hfound
  | succ n ih =>
    have hi : (UInt32.ofNat i).toNat = i := UInt32.toNat_ofNat_of_lt' (show i < 2 ^ 32 by omega)
    rw [unusedFrom?] at hfound
    split at hfound
    · next hunused =>
      obtain rfl := Option.some.inj hfound
      refine ⟨by omega, by omega, hunused, fun j hj hlt => ?_⟩
      rw [UInt32.lt_iff_toNat_lt] at hlt
      omega
    · next hused =>
      obtain ⟨hle, hlt, hunused, hbelow⟩ := ih (by omega) hfound
      refine ⟨by omega, by omega, hunused, fun j hj hjh => ?_⟩
      rcases Nat.lt_or_ge i j.toNat with hij | hji
      · exact hbelow j hij hjh
      · obtain rfl : UInt32.ofNat i = j := UInt32.toNat_inj.mp (by omega)
        exact hused

theorem unusedFrom?_eq_none {i n : Nat} (hin : i + n ≤ 2 ^ 32) (hnone : unusedFrom? t i n = none)
    (hj : i ≤ h.toNat) (hlt : h.toNat < i + n) : t h ≠ none := by
  induction n generalizing i with
  | zero => omega
  | succ n ih =>
    have hi : (UInt32.ofNat i).toNat = i := UInt32.toNat_ofNat_of_lt' (show i < 2 ^ 32 by omega)
    rw [unusedFrom?] at hnone
    split at hnone
    · cases hnone
    · next hused =>
      rcases Nat.lt_or_ge i h.toNat with hih | hhi
      · exact ih (by omega) hnone hih (by omega)
      · obtain rfl : UInt32.ofNat i = h := UInt32.toNat_inj.mp (by omega)
        exact hused

theorem ne_none_of_vacancy?_eq_none (hnone : vacancy? (some t) = none) (hfirst : firstHandle ≤ h)
    (hlast : h ≤ unboundedMaxId) : t h ≠ none := by
  rw [UInt32.le_iff_toNat_le] at hfirst hlast
  refine unusedFrom?_eq_none (by decide) hnone hfirst (Nat.lt_of_le_of_lt hlast ?_)
  decide

theorem vacancy?_eq_some_iff : vacancy? (some t) = some h ↔ LeastUnused t h := by
  have hleast {g : Handle} (hfound : vacancy? (some t) = some g) : LeastUnused t g := by
    obtain ⟨hfirst, hlt, hunused, hbelow⟩ := unusedFrom?_eq_some (by decide) hfound
    exact ⟨UInt32.le_iff_toNat_le.mpr hfirst,
      UInt32.le_iff_toNat_le.mpr (Nat.le_of_lt_succ (Nat.lt_of_lt_of_eq hlt (by decide))), hunused,
      fun j hj => hbelow j (UInt32.le_iff_toNat_le.mp hj)⟩
  refine ⟨hleast, fun hh => ?_⟩
  cases hfound : vacancy? (some t) with
  | none => exact absurd hh.unused (ne_none_of_vacancy?_eq_none hfound hh.first_le hh.le_last)
  | some g => rw [(hleast hfound).unique hh]

theorem exists_of_vacancy? (hh : b.vacancy? = some h) : ∃ t, b = some t ∧ LeastUnused t h := by
  cases b with
  | none => cases hh
  | some t => exact ⟨t, rfl, vacancy?_eq_some_iff.mp hh⟩

/-! ### Reading a map -/

theorem lookup_eq_ok : b.lookup h = .ok o ↔ b.find? h = some o := by
  unfold lookup
  cases b.find? h <;> simp

theorem find?_of_vacancy? (hh : b.vacancy? = some h) : b.find? h = none := by
  obtain ⟨t, rfl, hleast⟩ := exists_of_vacancy? hh
  exact hleast.unused

theorem find?_enter (hh : b.vacancy? = some h) :
    (b.enter h o).find? g = if g = h then some o else b.find? g := by
  obtain ⟨t, rfl, -⟩ := exists_of_vacancy? hh
  exact Function.update_apply ..

theorem find?_strike : (b.strike h).find? g = if g = h then none else b.find? g := by
  cases b with
  | none => exact (ite_self _).symm
  | some t => exact Function.update_apply ..

theorem strike_eq_self (hh : b.find? h = none) : b.strike h = b := by
  cases b with
  | none => rfl
  | some t => exact congrArg some (Function.update_eq_self_iff.mpr hh.symm)

/-! ### Steps -/

/-- A handle that was free is free again once it is taken back. -/
theorem strike_enter (hh : b.vacancy? = some h) (o : ObjectRef) : (b.enter h o).strike h = b := by
  obtain ⟨t, rfl, hleast⟩ := exists_of_vacancy? hh
  simp only [enter, strike, Option.map_some, Function.update_idem, Option.some.injEq]
  exact Function.update_eq_self_iff.mpr hleast.unused.symm

theorem after_opens (hh : b.vacancy? = some h) : b.after ⟨.opens o, none⟩ = b.enter h o := by
  simp [after, hh]

theorem after_opens_of_no_vacancy (hnone : b.vacancy? = none) (v : Option Verdict) :
    b.after ⟨.opens o, v⟩ = b := by
  simp only [after, hnone]
  split <;> rfl

/-- Closing is for good. -/
theorem replay_of_closes (hx : ∃ x ∈ xs, x.step = .closes) : replay xs = none := by
  induction xs with
  | nil => simp at hx
  | cons x xs ih =>
    obtain ⟨y, hy, hstep⟩ := hx
    rcases List.mem_cons.mp hy with rfl | hin
    · simp [replay, after, hstep]
    · simp only [replay, ih ⟨y, hin, hstep⟩, after, strike, vacancy?, Option.map_none,
        Option.bind_none]
      split
      · split <;> rfl
      all_goals rfl

/-! ### Renaming -/

@[simp] theorem rename_eq_none : b.rename f = none ↔ b = none := Option.map_eq_none_iff

@[simp] theorem find?_rename (b : HandleMap) (h : Handle) :
    (b.rename f).find? h = (b.find? h).map f := by
  cases b <;> rfl

theorem lookup_rename (b : HandleMap) (h : Handle) :
    (b.rename f).lookup h = (b.lookup h).map f := by
  rw [lookup, lookup, find?_rename]
  cases b.find? h <;> rfl

theorem rename_enter (b : HandleMap) (h : Handle) (o : ObjectRef) :
    (b.enter h o).rename f = (b.rename f).enter h (f o) := by
  cases b with
  | none => rfl
  | some t => simp [rename, enter, Function.comp_update]

theorem rename_strike (b : HandleMap) (h : Handle) :
    (b.strike h).rename f = (b.rename f).strike h := by
  cases b with
  | none => rfl
  | some t => simp [rename, strike, Function.comp_update]

theorem unusedFrom?_comp (t : Handle → Option ObjectRef) (i n : Nat) :
    unusedFrom? (Option.map f ∘ t) i n = unusedFrom? t i n := by
  induction n generalizing i with
  | zero => rfl
  | succ n ih => simp [unusedFrom?, ih]

@[simp] theorem vacancy?_rename (b : HandleMap) : (b.rename f).vacancy? = b.vacancy? := by
  -- for any number of handles, as there are too many of them to compute with
  have hall (i n : Nat) : Option.bind (b.rename f) (fun t => unusedFrom? t i n) =
      Option.bind b fun t => unusedFrom? t i n := by
    cases b with
    | none => rfl
    | some t => exact unusedFrom?_comp t i n
  exact hall _ _

theorem after_rename (b : HandleMap) (x : HandleDeed) :
    (b.rename f).after (x.rename f) = (b.after x).rename f := by
  obtain ⟨step, verdict⟩ := x
  cases step with
  | opens o =>
    simp only [after, HandleDeed.rename, HandleStep.rename, vacancy?_rename]
    split
    · rfl
    · cases b.vacancy? with
      | none => rfl
      | some h => exact (rename_enter b h o).symm
  | deletes h => exact (rename_strike b h).symm
  | closes | barred => rfl

theorem answer?_rename (b : HandleMap) (x : HandleDeed) :
    (b.rename f).answer? (x.rename f) = b.answer? x := by
  obtain ⟨step, verdict⟩ := x
  cases step with
  | opens o => simp [answer?, HandleDeed.rename, HandleStep.rename]
  | deletes h => simp [answer?, HandleDeed.rename, HandleStep.rename]
  | closes | barred => rfl

/-- Other names for the objects of a history give the same map, with these names. -/
theorem replay_rename (f : ObjectRef → ObjectRef) (xs : List HandleDeed) :
    replay (xs.map (HandleDeed.rename f)) = (replay xs).rename f := by
  induction xs with
  | nil => rfl
  | cons x xs ih => rw [List.map_cons, replay, replay, ih, after_rename]

theorem answers_rename (f : ObjectRef → ObjectRef) (xs : List HandleDeed) :
    answers (xs.map (HandleDeed.rename f)) = answers xs := by
  induction xs with
  | nil => rfl
  | cons x xs ih => rw [List.map_cons, answers, answers, ih, replay_rename, answer?_rename]

end HandleMap

end BufferObjects
