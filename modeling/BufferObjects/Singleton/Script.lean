import BufferObjects.Singleton.Registry

/-!
Runs on singletons, with named slots for the objects that callers hold. Making and releasing an
object may itself use singletons of other kinds; those steps are nested in the step that causes
them, so a run is a tree.
-/

namespace BufferObjects.Singletons

variable {τ α : Type}

inductive Step (τ α : Type) where
  /-- Asks for a singleton. If it has to be made, `inner` runs meanwhile, and making it fails if
  there is an `error`. -/
  | acquire (kind : SingletonKind) (type : τ) (value : α) (target : String)
      (error : Option RequestError) (inner : List (Step τ α))
  /-- Lets the object of a named slot go. If it was the last use, `inner` runs on release. -/
  | release (kind : SingletonKind) (object : String) (inner : List (Step τ α))
  /-- Makes an object that no kind knows. -/
  | stray (type : τ) (value : α) (target : String)
  /-- Whether two named slots hold the very same object. -/
  | same (a b : String)
  | useCount (kind : SingletonKind)
  | isIdle

inductive Answer (τ α : Type) where
  | done
  | object (type : τ) (value : α)
  | truth (b : Bool)
  | count (n : Nat)
  | noSlot (name : String)
  | error (cause : RequestError)
  | fault (fault : Fault)

/-- What happens in the course of a step, with the answers and events of the nested steps. -/
inductive Event (τ α : Type) where
  | making (kind : SingletonKind) (inner : List (Answer τ α × List (Event τ α)))
  | releasing (kind : SingletonKind) (value : α) (inner : List (Answer τ α × List (Event τ α)))

/-- The registry and the named slots of callers. -/
structure Holders (τ α : Type) where
  registry : Singletons τ α
  slots : List (String × Singleton τ α)

namespace Holders

def empty : Holders τ α := ⟨.empty, []⟩

def get? (h : Holders τ α) (name : String) : Option (Singleton τ α) := h.slots.lookup name

/-- Puts an object into a named slot. -/
def put (h : Holders τ α) (name : String) (x : Singleton τ α) : Holders τ α :=
  { h with slots := (name, x) :: h.slots.filter fun s => s.1 != name }

/-- Whether two named slots hold the very same object. -/
def same [DecidableEq τ] (h : Holders τ α) (a b : String) : Bool :=
  match h.get? a, h.get? b with
  | some x, some y => x.type == y.type && x.identity == y.identity
  | _, _ => false

end Holders

mutual

/-- Runs a step: its answer and its events. -/
def Step.run [DecidableEq τ] (h : Holders τ α) :
    Step τ α → Holders τ α × Answer τ α × List (Event τ α)
  | .acquire kind type value target error inner =>
    match h.registry.join kind type with
    | (r, .joined x) => (({ h with registry := r }).put target x, .object x.type x.value, [])
    | (r, .otherType) => ({ h with registry := r }, .error .invalidArgument, [])
    | (r, .vacant) =>
      let (h, answers) := Step.runAll { h with registry := r } inner
      let event := Event.making kind answers
      match error with
      | some e => (h, .error e, [event])
      | none =>
        let (r, x) := h.registry.fill kind type value
        (({ h with registry := r }).put target x, .object x.type x.value, [event])
  | .release kind object inner =>
    match h.get? object with
    | none => (h, .noSlot object, [])
    | some x =>
      match h.registry.leave kind x with
      | (r, .error f) => ({ h with registry := r }, .fault f, [])
      | (r, .ok none) => ({ h with registry := r }, .done, [])
      | (r, .ok (some y)) =>
        let (h, answers) := Step.runAll { h with registry := r } inner
        (h, .done, [.releasing kind y.value answers])
  | .stray type value target =>
    let (r, x) := h.registry.make type value
    (({ h with registry := r }).put target x, .done, [])
  | .same a b => (h, .truth (h.same a b), [])
  | .useCount kind => (h, .count (h.registry.useCount kind), [])
  | .isIdle => (h, .truth h.registry.isIdle, [])

def Step.runAll [DecidableEq τ] (h : Holders τ α) :
    List (Step τ α) → Holders τ α × List (Answer τ α × List (Event τ α))
  | [] => (h, [])
  | s :: rest =>
    let (h, answer, events) := Step.run h s
    let (h, answers) := Step.runAll h rest
    (h, (answer, events) :: answers)

end

/-- A step of a run and where it left the registry. -/
structure Report (τ α : Type) where
  answer : Answer τ α
  events : List (Event τ α)
  /-- The uses of each kind after the step. -/
  counts : List Nat
  idle : Bool
  log : List Notice

/-- Runs a step and reports on it. -/
def Step.report [DecidableEq τ] (h : Holders τ α) (s : Step τ α) : Holders τ α × Report τ α :=
  let (h', answer, events) := s.run h
  (h', {
    answer, events
    counts := SingletonKind.all.map h'.registry.useCount
    idle := h'.registry.isIdle
    log := Notice.since h.registry.log h'.registry.log })

/-- Runs a script from an empty registry: a report for each step, and what is reported when the
registry is given up. -/
def run [DecidableEq τ] (script : List (Step τ α)) : List (Report τ α) × List Notice :=
  let (h, reports) := script.foldl
    (fun (h, reports) s => let (h, r) := s.report h; (h, r :: reports)) (Holders.empty, [])
  (reports.reverse, h.registry.leftovers)

end BufferObjects.Singletons
