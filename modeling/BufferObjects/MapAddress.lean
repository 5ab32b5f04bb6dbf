/-!
Mapping addresses. What a client passes to map a buffer is no real address: its two high bits mark
it, 22 bits below them hold the buffer's token and the low 40 bits the offset in the buffer.

     63 62 61            40 39                      0
    +-----+----------------+-------------------------+
    | 1 0 |     token      |         offset          |
    +-----+----------------+-------------------------+
-/

namespace BufferObjects.MapAddress

/-- The bits that mark a mapping address. -/
def markBits : UInt64 := (3 : UInt64) <<< 62

/-- The value of the marking bits in a mapping address. -/
def mark : UInt64 := (2 : UInt64) <<< 62

/-- Where the token starts. -/
def tokenShift : UInt64 := 40

def maxToken : UInt64 := 0x3fffff

/-- A token moved to its place; bits that have no room there are lost. -/
def place (token : UInt64) : UInt64 := token <<< tokenShift

/-- The address at which the buffer with this token starts. -/
def encode (token : UInt64) : UInt64 := mark ||| place (token &&& maxToken)

def isMarked (address : UInt64) : Bool := address &&& markBits == mark

def tokenOf (address : UInt64) : UInt64 := (address >>> tokenShift) &&& maxToken

/-- The offset in an address: what is left without the token and the high marking bit. -/
def offsetOf (address : UInt64) : UInt64 := address &&& ~~~(place maxToken ||| mark)

end BufferObjects.MapAddress
