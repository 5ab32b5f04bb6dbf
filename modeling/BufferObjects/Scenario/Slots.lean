/-!
Named slots, kept in ascending order of their names.
-/

namespace BufferObjects.Scenario

/-- What is stored under which name. -/
abbrev Slots (α : Type) := List (String × α)

namespace Slots

variable {α : Type}

def get? (s : Slots α) (name : String) : Option α := s.lookup name

def holds [BEq α] (s : Slots α) (content : α) : Bool := s.any fun e => e.2 == content

def put (name : String) (content : α) : Slots α → Slots α
  | [] => [(name, content)]
  | (n, a) :: rest =>
    if n = name then (name, content) :: rest
    else if name < n then (name, content) :: (n, a) :: rest
    else (n, a) :: put name content rest

def erase (s : Slots α) (name : String) : Slots α := s.filter fun e => e.1 != name

end Slots

end BufferObjects.Scenario
