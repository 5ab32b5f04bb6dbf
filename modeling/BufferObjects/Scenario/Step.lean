import BufferObjects.Machine.Basic

/-!
Scenarios: what callers and drivers do, written down as data. Callers keep devices, clients and
references to objects in named slots, and a step names the slots it works on. What a driver's hook
does is a script: steps of its own and, where the hook may refuse, a refusal.
-/

namespace BufferObjects.Scenario

/-- The hooks for which scripts can be laid out. -/
inductive HookKind
  | prepare | opened | closed | freed
  deriving DecidableEq, Repr

def HookKind.of : Hook → HookKind
  | .prepare => prepare
  | .opened _ => opened
  | .closed _ => closed
  | .freed => freed

/-- How the driver of a device behaves. -/
inductive Conduct
  /-- It announces these features and follows the scripts laid out for its device's slot. -/
  | scripted (features : Features)
  /-- It leaves everything as it is by default: it announces no features of its own and accepts
  every call in silence. -/
  | plain
  deriving DecidableEq, Repr

/-- What a driver announces. -/
def Conduct.features : Conduct → Features
  | scripted f => f
  | plain => default

inductive Step where
  | newDevice (dev : String) (config : Config) (driver : Conduct)
  | deviceInfo (dev : String)
  | dropDevice (dev : String)
  | openClient (dev client : String)
  | clientInfo (client : String)
  | closeClient (client : String)
  | dropClient (client : String)
  | createObject (dev : String) (size : UInt64) (target : String)
  | dropObject (obj : String)
  | cloneObject (obj target : String)
  | objectInfo (obj : String)
  | createHandle (client obj : String)
  | lookupHandle (client : String) (handle : Handle) (target : Option String)
  | deleteHandle (client : String) (handle : Handle)
  | nameHandle (dev client : String) (handle : Handle)
  | openName (dev client : String) (name : Name)
  | closeHandle (dev client : String) (handle : Handle)
  | mapHandle (dev client : String) (handle : Handle)
  | objectAtAddress (dev : String) (address : UInt64) (target : Option String)
  | mapRange (dev : String) (address length : UInt64) (target : Option String)
  | publishName (dev obj : String)
  | resolveName (dev : String) (name : Name) (target : Option String)
  | retireName (dev obj : String)
  | createToken (dev obj : String)
  | resolveToken (dev : String) (token : Token) (target : Option String)
  | destroyToken (dev obj : String)
  | counts (dev : String)
  /-- Lays out a script for the next `times` calls of a hook for which none is laid out yet. -/
  | script (dev : String) (hook : HookKind) (steps : List Step) (refusal : Option RequestError)
      (times : Nat)

/-- What a hook does when it is called. -/
structure Script where
  steps : List Step
  refusal : Option RequestError

/-- How many steps there are, counting each script as often as it is laid out. -/
def Step.size : Step → Nat
  | script _ _ steps _ times => 1 + times * (1 + sizes steps)
  | _ => 1
where
  /-- How many steps there are in a list of steps. -/
  sizes : List Step → Nat
    | [] => 0
    | s :: rest => s.size + sizes rest

end BufferObjects.Scenario
