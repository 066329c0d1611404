import Telemetry.View

namespace Telemetry.Counters

/-- How labels are written: ASCII replaces bytes above 127, UTF-8 keeps every byte. -/
inductive Charset
  | ascii
  | utf8
  deriving DecidableEq, Repr

namespace Charset

def name : Charset → Text
  | ascii => Telemetry.ascii "ascii"
  | utf8 => Telemetry.ascii "utf8"

def encode : Charset → Text → Text
  | ascii, t => t.map View.asciiByte
  | utf8, t => t

end Charset

namespace Record

def length : Nat := 512

def typeOffset : Nat := 4

def deadlineOffset : Nat := 8

def keyOffset : Nat := 16

def labelOffset : Nat := 128

def labelTextOffset : Nat := labelOffset + 4

def keyLength : Nat := labelOffset - keyOffset

def maxLabelLength : Nat := length - labelTextOffset

def unused : Int := 0

def allocated : Int := 1

def reclaimed : Int := -1

def neverReusable : Int := 0x7FFFFFFFFFFFFFFF

def defaultType : Int := 0

def noCounter : Int := -1

/-- Where the record of an id starts; the product is an unsigned word. -/
def offset (id : Int) : Nat := Word.offset (id * length)

end Record

namespace Slot

def length : Nat := 128

def registrationOffset : Nat := 8

def ownerOffset : Nat := 16

def defaultRegistration : Int := 0

def defaultOwner : Int := 0

def offset (id : Int) : Nat := Word.offset (id * length)

end Slot

end Telemetry.Counters
