import BufferObjects.Config
import BufferObjects.Log.Record

/-!
What the library reports to its log. A notice says what happened; its level and wording are given
here, once for each. Keeping notices as data lets a theorem say that some of them never appear.
-/

namespace BufferObjects

/-- Something worth a record. -/
inductive Notice
  /-- There is no memory for the buckets of a table of this order. -/
  | noRoomForBuckets (order : UInt32)
  /-- Every candidate of a key space of this width is taken. -/
  | keySpaceExhausted (bits : UInt32)
  /-- A chain is listed: the key asked for, its bucket, and each entry. -/
  | chainKey (key : UInt64)
  | chainBucket (index : Nat)
  | chainEntry (key : UInt64)
  /-- A table is given up with entries in it. -/
  | tableGivenUp (entries : Nat)
  /-- An id is given back that is not in use. -/
  | idNotInUse (id : UInt32)
  | defectiveConfig (defect : Config.Defect)
  | deviceReady (maxTokenIndex : UInt32)
  | clientOpened (client : UInt32)
  | foreignClient (client : UInt32)
  | invalidSize (size : UInt64)
  | objectNotPrepared (id : UInt64)
  | objectCreated (id : UInt64)
  | objectDying (id : UInt64)
  /-- An object ends without its driver having prepared it. -/
  | objectDiscarded (id : UInt64)
  | foreignObject (id : UInt64)
  | handleTaken (handle : UInt32)
  | handleRefused (handle : UInt32)
  | handleCreated (handle : UInt32)
  | handleRemoved (handle : UInt32)
  | clientClosed (client : UInt32) (handles : Nat)
  /-- A name is asked for an object without handles. -/
  | nameRefused (id : UInt64)
  | nameTaken (name : UInt32)
  | namePublished (name : UInt32)
  | nameWithoutEntry (name : UInt32)
  | nameRetired (id : UInt64)
  | tokenCreated (token : UInt64)
  | tokenReleased (id : UInt64)
  | tokenWithoutEntry (id : UInt64)
  | addressUnknown (address : UInt64)
  | mappingTooLong (offset : UInt64)
  | singletonCreated (kind : Nat)
  | singletonReleased (kind : Nat)
  | singletonOfOtherType (kind : Nat)
  | unmatchedRelease (kind : Nat)
  | singletonsLeft
  deriving DecidableEq, Repr

namespace Notice

private def word (level : Level) (text : String) (value : UInt64) : Record :=
  .line level text (some value)

def ofDefect : Config.Defect → Record
  | .tableOrder order => word .error "(GEM) Ordem de tabela inválida=" order.toUInt64
  | .indexBeyondAddress index =>
    word .error "(GEM) max_offset_index excede o layout=" index.toUInt64
  | .spaceTooSmall size => word .error "(GEM) Espaço de tokens pequeno demais=" size
  | .spaceNoPowerOfTwo size => word .error "(GEM) Espaço de tokens não é potência de 2=" size
  | .addendOverlapsCandidate add => word .error "(GEM) offset_key_add invade o candidato=" add
  | .tokenBeyondAddress shift =>
    word .error "(GEM) Token alinhado não cabe no endereço, shift=" shift.toUInt64

def record : Notice → Record
  | noRoomForBuckets order =>
    word .error "(KeyTable) Sem memória para buckets, ordem=" order.toUInt64
  | keySpaceExhausted bits =>
    word .error "(KeyTable) Espaço de chaves esgotado, bits=" bits.toUInt64
  | chainKey key => word .debug "(KeyTable) Chave=" key
  | chainBucket index => word .debug "(KeyTable) Bucket=" (UInt64.ofNat index)
  | chainEntry key => word .debug "(KeyTable)   entrada=" key
  | tableGivenUp entries =>
    word .error "(KeyTable) Destruída com entradas vivas=" (UInt64.ofNat entries)
  | idNotInUse id => word .error "(IDR) Double free / ID fora do range=" id.toUInt64
  | defectiveConfig defect => ofDefect defect
  | deviceReady index =>
    word .info "(GEM) Dispositivo inicializado, tokens max=" index.toUInt64
  | clientOpened client => word .debug "(GEM) Cliente aberto=" client.toUInt64
  | foreignClient client => word .warn "(GEM) Cliente de outro dispositivo=" client.toUInt64
  | invalidSize size => word .warn "(GEM) Tamanho de objeto inválido=" size
  | objectNotPrepared id => word .warn "(GEM) init_object falhou, objeto=" id
  | objectCreated id => word .trace "(GEM) Objeto criado=" id
  | objectDying id => word .trace "(GEM) Destruindo objeto id=" id
  | objectDiscarded id => word .debug "(GEM) Objeto descartado sem init, id=" id
  | foreignObject id => word .warn "(GEM) Objeto de outro dispositivo, id=" id
  | handleTaken handle => word .error "(GEM) Handle duplicado na tabela=" handle.toUInt64
  | handleRefused handle => word .warn "(GEM) Driver recusou handle, desfazendo=" handle.toUInt64
  | handleCreated handle => word .trace "(GEM) Handle criado=" handle.toUInt64
  | handleRemoved handle => word .trace "(GEM) Handle removido=" handle.toUInt64
  | clientClosed client handles =>
    [.text "(GEM) Teardown cliente=", .number client.toUInt64, .text " handles=",
      .number (UInt64.ofNat handles), .newline]
  | nameRefused id => word .warn "(GEM) Publicação recusada, objeto sem handles=" id
  | nameTaken name => word .error "(GEM) Nome duplicado na tabela=" name.toUInt64
  | namePublished name => word .trace "(GEM) Nome publicado=" name.toUInt64
  | nameWithoutEntry name => word .error "(GEM) Nome sem entrada na tabela=" name.toUInt64
  | nameRetired id => word .trace "(GEM) Nome aposentado, objeto=" id
  | tokenCreated token => word .trace "(GEM) Token de offset criado=" token
  | tokenReleased id => word .trace "(GEM) Token de offset liberado, objeto=" id
  | tokenWithoutEntry id => word .error "(GEM) Token sem entrada na tabela, objeto=" id
  | addressUnknown address => word .debug "(GEM) Offset sem objeto, addr=" address
  | mappingTooLong offset => word .warn "(GEM) Mapeamento excede o objeto, offset=" offset
  | singletonCreated kind =>
    word .debug "(GEM) Singleton global criado, kind=" (UInt64.ofNat kind)
  | singletonReleased kind =>
    word .debug "(GEM) Singleton global liberado, kind=" (UInt64.ofNat kind)
  | singletonOfOtherType kind =>
    word .error "(GEM) Tipo incompatível no slot global=" (UInt64.ofNat kind)
  | unmatchedRelease kind => word .error "(GEM) item_unref inválido, kind=" (UInt64.ofNat kind)
  | singletonsLeft =>
    .line .error "(GEM) Registro global destruído com singletons vivos" none

/-- The text of several notices, oldest first. -/
def joined (ns : List Notice) : String := Record.joined (ns.map record)

/-- What a log, newest first, has more than an earlier state of it; oldest first. -/
def since (before now : List Notice) : List Notice :=
  (now.take (now.length - before.length)).reverse

end Notice

end BufferObjects
