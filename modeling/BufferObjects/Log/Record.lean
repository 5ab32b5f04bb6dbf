import BufferObjects.Log.Hex

/-!
Log records and how they reach a sink. A record is handed over in fragments: the coloured label of
its level, the texts and hexadecimal numbers it is made of, and the end of the line. Without a sink
nothing is handed over.
-/

namespace BufferObjects

/-- How much a record matters. -/
inductive Level
  | error | warn | info | debug | trace
  deriving DecidableEq, Repr

/-- The coloured label at the start of a line. -/
def Level.label : Level → String
  | error => "\x1b[1;31m[ERRO]\x1b[0m "
  | warn => "\x1b[1;33m[WARN]\x1b[0m "
  | info => "\x1b[32m[INFO]\x1b[0m "
  | debug => "\x1b[36m[DEBG]\x1b[0m "
  | trace => "\x1b[35m[TRAC]\x1b[0m "

/-- A piece of a record. -/
inductive Fragment
  | label (level : Level)
  | text (text : String)
  | number (value : UInt64)
  | newline
  deriving DecidableEq, Repr

def Fragment.render : Fragment → String
  | label level => level.label
  | text s => s
  | number v => Hex.text v
  | newline => "\n"

/-- A record is the list of its pieces. -/
abbrev Record := List Fragment

namespace Record

/-- A whole line: label, text, at most one number, end of line. -/
def line (level : Level) (text : String) (value : Option UInt64) : Record :=
  [.label level, .text text] ++ (value.map Fragment.number).toList ++ [.newline]

def render (r : Record) : List String := r.map Fragment.render

def joined (rs : List Record) : String := String.join (rs.flatMap render)

end Record

/-- Where records go: to an installed receiver, or nowhere. -/
inductive Sink
  | installed
  | absent
  deriving DecidableEq, Repr

/-- What the receiver gets of a record. -/
def Sink.receive (s : Sink) (r : Record) : List String :=
  match s with
  | installed => r.render
  | absent => []

end BufferObjects
