import BufferObjects.KeyTable.Probe
import BufferObjects.Log.Notice

/-!
What a key table reports: buckets for which there is no memory, the listing of a chain, a key space
that is used up, and entries that are left when the table is given up.
-/

namespace BufferObjects.KeyTable

variable {α : Type}

/-- What is reported when a table of an order cannot be created. -/
def createReport (order : UInt32) : TableError → List Notice
  | .outOfMemory => [.noRoomForBuckets order]
  | _ => []

/-- The listing of the chain that `key` belongs to. -/
def chainReport (t : KeyTable α) (key : UInt64) : List Notice :=
  .chainKey key :: .chainBucket (t.bucketOf key) :: (t.chainOf key).map fun e => .chainEntry e.1

/-- What is reported when the table is given up. -/
def leftovers (t : KeyTable α) : List Notice :=
  if t.isEmpty then [] else [.tableGivenUp t.size]

/-- What is reported about an attempt to insert under any free key. -/
def insertAnyReport {β : Type} (bits : UInt32) : Outcome TableError β → List Notice
  | .error .keySpaceExhausted => [.keySpaceExhausted bits]
  | _ => []

end BufferObjects.KeyTable
