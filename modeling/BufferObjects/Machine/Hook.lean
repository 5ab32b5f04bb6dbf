import BufferObjects.World.Basic

/-!
Hooks: the points at which a driver is told what happens to its objects. It may refuse an object
that is being made and a handle that is being opened; of a closed handle and of an object's end it
is only told.
-/

namespace BufferObjects

/-- What a driver is told. -/
inductive Hook
  /-- An object has been made and wants preparing. -/
  | prepare
  /-- A client has opened a handle. -/
  | opened (c : ClientRef)
  /-- A client's handle has gone. -/
  | closed (c : ClientRef)
  /-- The object has ended. -/
  | freed
  deriving DecidableEq, Repr

/-- A hook as it is called: what is told, and of which object. -/
structure HookCall where
  hook : Hook
  object : ObjectRef
  deriving DecidableEq, Repr

/-- What a driver can answer. -/
inductive Verdict
  | accept
  | refuse (cause : RequestError)
  deriving DecidableEq, Repr

end BufferObjects
