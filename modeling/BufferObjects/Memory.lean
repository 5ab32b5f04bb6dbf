/-!
What there is room for in memory. Memory is asked before anything grows, and it may refuse at any
time; a refusal is an error for the caller like any other. Nothing is known of the answers in
advance. No request asks twice for the same, so one answer for each is all it needs.
-/

namespace BufferObjects

/-- What memory answers when it is asked for room. -/
structure Memory where
  /-- For the buckets of a table of handles or names. -/
  buckets : Bool
  /-- For the buckets of a table of mapping tokens. -/
  tokenBuckets : Bool
  /-- For more ids than there were at any time. -/
  ids : Bool
  /-- For one more entry. -/
  entry : Bool
  deriving DecidableEq, Repr

/-- Room for everything. -/
def Memory.ample : Memory := ⟨true, true, true, true⟩

end BufferObjects
