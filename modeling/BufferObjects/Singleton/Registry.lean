import BufferObjects.Error
import BufferObjects.Outcome
import BufferObjects.Log.Notice

/-!
Singletons shared between devices. There is one slot for each kind; it is filled by the first who
asks, counts who else does, and is emptied by the last who lets go. A singleton is known by its
identity, not by its value: only the very object of the slot can be let go.
-/

namespace BufferObjects

/-- The kinds of singletons. -/
inductive SingletonKind
  /-- Accounting of memory. -/
  | memory
  /-- Global state of buffer management. -/
  | buffers
  /-- Global state of the objects beneath. -/
  | objects
  deriving DecidableEq, Repr

namespace SingletonKind

def index : SingletonKind → Nat
  | memory => 0
  | buffers => 1
  | objects => 2

/-- All kinds, in the order of their numbers. -/
def all : List SingletonKind := [memory, buffers, objects]

end SingletonKind

/-- A shared object: a value of some type, made once and never copied. -/
structure Singleton (τ α : Type) where
  identity : Nat
  type : τ
  value : α
  deriving DecidableEq, Repr

/-- The place of a singleton. -/
structure SingletonSlot (τ α : Type) where
  object : Option (Singleton τ α)
  uses : Nat

namespace SingletonSlot

def empty {τ α : Type} : SingletonSlot τ α := ⟨none, 0⟩

end SingletonSlot

/-- The slots of all kinds, the next identity, and what was reported, newest first. -/
structure Singletons (τ α : Type) where
  memory : SingletonSlot τ α
  buffers : SingletonSlot τ α
  objects : SingletonSlot τ α
  nextIdentity : Nat
  log : List Notice

namespace Singletons

variable {τ α : Type}

def empty : Singletons τ α := ⟨.empty, .empty, .empty, 0, []⟩

def slot (s : Singletons τ α) : SingletonKind → SingletonSlot τ α
  | .memory => s.memory
  | .buffers => s.buffers
  | .objects => s.objects

def setSlot (s : Singletons τ α) (k : SingletonKind) (x : SingletonSlot τ α) : Singletons τ α :=
  match k with
  | .memory => { s with memory := x }
  | .buffers => { s with buffers := x }
  | .objects => { s with objects := x }

def note (s : Singletons τ α) (n : Notice) : Singletons τ α := { s with log := n :: s.log }

def useCount (s : Singletons τ α) (k : SingletonKind) : Nat := (s.slot k).uses

def isIdle (s : Singletons τ α) : Bool :=
  SingletonKind.all.all fun k => (s.slot k).object.isNone

/-- A new object that no slot holds. -/
def make (s : Singletons τ α) (type : τ) (value : α) : Singletons τ α × Singleton τ α :=
  ({ s with nextIdentity := s.nextIdentity + 1 }, ⟨s.nextIdentity, type, value⟩)

/-- What asking for a singleton comes to at first. -/
inductive Join (τ α : Type) where
  | joined (object : Singleton τ α)
  | otherType
  /-- The slot is empty; whoever asks has to make the object. -/
  | vacant

/-- Joins those who use the singleton of a kind, if there is one of the right type. -/
def join [DecidableEq τ] (s : Singletons τ α) (k : SingletonKind) (type : τ) :
    Singletons τ α × Join τ α :=
  match (s.slot k).object with
  | none => (s, .vacant)
  | some x =>
    if x.type = type then
      (s.setSlot k { object := some x, uses := (s.slot k).uses + 1 }, .joined x)
    else (s.note (.singletonOfOtherType k.index), .otherType)

/-- Fills the slot of a kind with an object made for it, in use once more. -/
def fill (s : Singletons τ α) (k : SingletonKind) (type : τ) (value : α) :
    Singletons τ α × Singleton τ α :=
  let (s, x) := s.make type value
  ((s.setSlot k { object := some x, uses := (s.slot k).uses + 1 }).note
    (.singletonCreated k.index), x)

/-- Whether the slot of a kind holds this very object and is in use. -/
def isUsing (s : Singletons τ α) (k : SingletonKind) (x : Singleton τ α) : Bool :=
  (s.slot k).object.any (fun y => y.identity == x.identity) && (s.slot k).uses != 0

/-- Lets the singleton of a kind go. After the last use the slot is empty and the object is handed
over to be released. -/
def leave (s : Singletons τ α) (k : SingletonKind) (x : Singleton τ α) :
    Singletons τ α × Except Fault (Option (Singleton τ α)) :=
  if s.isUsing k x then
    let slot := s.slot k
    if 1 < slot.uses then
      (s.setSlot k { slot with uses := slot.uses - 1 }, .ok none)
    else ((s.setSlot k .empty).note (.singletonReleased k.index), .ok slot.object)
  else (s.note (.unmatchedRelease k.index), .error .unmatchedRelease)

/-- What is reported when the registry is given up. -/
def leftovers (s : Singletons τ α) : List Notice := if s.isIdle then [] else [.singletonsLeft]

end Singletons

end BufferObjects
