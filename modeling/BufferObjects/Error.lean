import BufferObjects.Errno

/-!
What can be refused, and why. The tables and the id allocator have causes of their own; a request
passes them on as its own causes, each with a text for the log and an error number for the client.
-/

namespace BufferObjects

/-- Why a key table refuses. -/
inductive TableError
  | outOfMemory
  | duplicateKey
  | notFound
  /-- Every key of the space has been tried. -/
  | keySpaceExhausted
  /-- The width, shift or addend describe no space of keys. -/
  | invalidKeySpace
  deriving DecidableEq, Repr

def TableError.message : TableError → String
  | outOfMemory => "Sem memória para a tabela hash"
  | duplicateKey => "Chave duplicada"
  | notFound => "Chave não encontrada"
  | keySpaceExhausted => "Espaço de chaves esgotado"
  | invalidKeySpace => "Espaço de chaves inválido"

inductive IdError
  | outOfSpace
  | outOfMemory
  deriving DecidableEq, Repr

def IdError.message : IdError → String
  | outOfSpace => "Range de IDs esgotado"
  | outOfMemory => "Sem memória para o bitmap de IDs"

inductive RequestError
  /-- The client has no such handle. -/
  | invalidHandle
  /-- The name is not published. -/
  | noSuchName
  | notFound
  | duplicateKey
  /-- All ids of the range are in use. -/
  | outOfSpace
  /-- All mapping tokens are in use. -/
  | keySpaceExhausted
  | outOfMemory
  /-- The size is zero or no multiple of a page. -/
  | invalidSize
  | invalidArgument
  /-- The driver does not manage buffers. -/
  | noDevice
  /-- The driver refused, with a code of its own. -/
  | driver (code : Int32)
  deriving DecidableEq, Repr

namespace RequestError

/-- The text of the cause, without the driver's code. -/
def summary : RequestError → String
  | invalidHandle => "Handle inválido"
  | noSuchName => "Nome não publicado"
  | notFound => "Não encontrado"
  | duplicateKey => "Chave duplicada"
  | outOfSpace => "Range de IDs esgotado"
  | keySpaceExhausted => "Espaço de tokens esgotado"
  | outOfMemory => "Sem memória"
  | invalidSize => "Tamanho inválido"
  | invalidArgument => "Parâmetro inválido"
  | noDevice => "Driver sem suporte a GEM"
  | driver _ => "Erro do driver"

/-- The full text of the cause. -/
def message : RequestError → String
  | driver c => "Erro do driver (" ++ toString c.toInt ++ ")"
  | e => e.summary

/-- The error number of the cause. A driver's code stands for itself if it is a known number. -/
def errno : RequestError → Errno
  | invalidHandle => .invalidArgument
  | noSuchName | notFound => .noEntry
  | duplicateKey => .fileExists
  | outOfSpace | keySpaceExhausted => .noSpace
  | outOfMemory => .noMemory
  | invalidSize | invalidArgument => .invalidArgument
  | noDevice => .noDevice
  | driver c => (Errno.ofCode? c).getD .inputOutput

/-- What the failing request returns to the client. -/
def returned (e : RequestError) : Int := e.errno.returned

def ofTable : TableError → RequestError
  | .outOfMemory => outOfMemory
  | .duplicateKey => duplicateKey
  | .notFound => notFound
  | .keySpaceExhausted => keySpaceExhausted
  | .invalidKeySpace => invalidArgument

def ofId : IdError → RequestError
  | .outOfSpace => outOfSpace
  | .outOfMemory => outOfMemory

/-- The id allocator's refusal where the ids are mapping tokens. -/
def ofTokenId : IdError → RequestError
  | .outOfSpace => keySpaceExhausted
  | .outOfMemory => outOfMemory

end RequestError

end BufferObjects
