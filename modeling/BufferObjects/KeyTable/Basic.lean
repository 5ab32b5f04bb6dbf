import BufferObjects.Error
import BufferObjects.KeyTable.Hash
import BufferObjects.KeyTable.Chain

/-!
A table from 64-bit keys to items: `2 ^ order` buckets, each an ascending chain, and every key in
the bucket that its hash names. Listing goes by bucket and then by key, so it depends on the entries
and the order only, never on how they came in.
-/

namespace BufferObjects

/-- The largest order a table can have. -/
def maxTableOrder : UInt32 := 24

/-- A hash table with `2 ^ order` ascending chains. -/
structure KeyTable (α : Type) where
  order : UInt32
  buckets : Array (Chain α)
  /-- The number of entries. -/
  size : Nat
  deriving Inhabited

namespace KeyTable

variable {α : Type}

/-- An empty table of the given order, if there is room in memory for its buckets. -/
def create (order : UInt32) (room : Bool) : Except TableError (KeyTable α) :=
  if maxTableOrder < order then .error .invalidKeySpace
  else if !room then .error .outOfMemory
  else .ok { order, buckets := Array.replicate (1 <<< order.toNat) [], size := 0 }

def isEmpty (t : KeyTable α) : Bool := t.size == 0

/-- The bucket a key belongs to. -/
def bucketOf (t : KeyTable α) (key : UInt64) : Nat := (hashKey key t.order).toNat

def chainOf (t : KeyTable α) (key : UInt64) : Chain α := t.buckets.getD (t.bucketOf key) []

def find? (t : KeyTable α) (key : UInt64) : Option α := (t.chainOf key).find? key

/-- The item under `key`, or the refusal of a key that is not there. -/
def find (t : KeyTable α) (key : UInt64) : Except TableError α :=
  match t.find? key with
  | some a => .ok a
  | none => .error .notFound

def contains (t : KeyTable α) (key : UInt64) : Bool := (t.find? key).isSome

/-- Files an item under a new key. Memory is asked for room in the chain, unless the key is there
already; `room` is what it answers. -/
def insert (t : KeyTable α) (key : UInt64) (item : α) (room : Bool) :
    Except TableError (KeyTable α) :=
  match (t.chainOf key).insert? key item with
  | none => .error .duplicateKey
  | some chain =>
    if !room then .error .outOfMemory
    else .ok { t with
      buckets := t.buckets.setIfInBounds (t.bucketOf key) chain
      size := t.size + 1 }

def remove (t : KeyTable α) (key : UInt64) : Except TableError (α × KeyTable α) :=
  match (t.chainOf key).take? key with
  | none => .error .notFound
  | some (item, chain) =>
    .ok (item, { t with
      buckets := t.buckets.setIfInBounds (t.bucketOf key) chain
      size := t.size - 1 })

/-- Rewrites the item of `key`; the new item and the table with it. -/
def update (t : KeyTable α) (key : UInt64) (f : α → α) : Except TableError (α × KeyTable α) :=
  match (t.chainOf key).update? key f with
  | none => .error .notFound
  | some (item, chain) =>
    .ok (item, { t with buckets := t.buckets.setIfInBounds (t.bucketOf key) chain })

/-- All entries, by bucket and then by key. -/
def toList (t : KeyTable α) : List (UInt64 × α) := t.buckets.toList.flatten

/-- Empties the table and hands over what was in it, in listing order. -/
def drain (t : KeyTable α) : List (UInt64 × α) × KeyTable α :=
  (t.toList, { t with buckets := t.buckets.map fun _ => [], size := 0 })

end KeyTable

end BufferObjects
