/-!
Chains: lists of key and item in strictly ascending order of their keys. A search stops at the
first larger key, so it is right about absent keys only because the order is kept; inserting at the
place where the search stopped keeps it.
-/

namespace BufferObjects

/-- The entries of one bucket. -/
abbrev Chain (α : Type) := List (UInt64 × α)

namespace Chain

variable {α : Type}

def find? (key : UInt64) : Chain α → Option α
  | [] => none
  | (k, a) :: rest => if k = key then some a else if key < k then none else find? key rest

/-- Adds an entry at its place; refuses a key that is there already. -/
def insert? (key : UInt64) (item : α) : Chain α → Option (Chain α)
  | [] => some [(key, item)]
  | (k, a) :: rest =>
    if k = key then none
    else if key < k then some ((key, item) :: (k, a) :: rest)
    else (insert? key item rest).map ((k, a) :: ·)

/-- Takes the entry of `key` out; the item and the other entries. -/
def take? (key : UInt64) : Chain α → Option (α × Chain α)
  | [] => none
  | (k, a) :: rest =>
    if k = key then some (a, rest)
    else if key < k then none
    else (take? key rest).map fun (b, others) => (b, (k, a) :: others)

/-- Rewrites the item of `key`; the new item and the chain with it. -/
def update? (key : UInt64) (f : α → α) : Chain α → Option (α × Chain α)
  | [] => none
  | (k, a) :: rest =>
    if k = key then some (f a, (k, f a) :: rest)
    else if key < k then none
    else (update? key f rest).map fun (b, others) => (b, (k, a) :: others)

end Chain

end BufferObjects
