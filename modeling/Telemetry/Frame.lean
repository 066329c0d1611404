import Telemetry.View

namespace Telemetry

inductive FrameKind
  | common
  | nak
  | data
  | status
  | setup
  deriving DecidableEq, Repr

/-- Where a field lies in its frame, its size in bytes, and whether it carries a sign. -/
structure Field where
  offset : Nat
  size : Nat
  isSigned : Bool
  deriving DecidableEq, Repr

inductive FieldName
  | frameLength
  | version
  | flags
  | type
  | termOffset
  | sessionId
  | streamId
  | termId
  | length
  | reservedValue
  | consumptionTermId
  | consumptionTermOffset
  | receiverWindow
  | receiverId
  | initialTermId
  | activeTermId
  | termLength
  | mtu
  | ttl
  deriving DecidableEq, Repr

namespace FrameKind

def int32 (offset : Nat) : Field := ⟨offset, 4, true⟩

def int64 (offset : Nat) : Field := ⟨offset, 8, true⟩

def commonFields : List (FieldName × Field) :=
  [(.frameLength, int32 0), (.version, ⟨4, 1, false⟩), (.flags, ⟨5, 1, false⟩),
    (.type, ⟨6, 2, false⟩)]

def ownFields : FrameKind → List (FieldName × Field)
  | common => []
  | nak =>
    [(.sessionId, int32 8), (.streamId, int32 12), (.termId, int32 16), (.termOffset, int32 20),
      (.length, int32 24)]
  | data =>
    [(.termOffset, int32 8), (.sessionId, int32 12), (.streamId, int32 16), (.termId, int32 20),
      (.reservedValue, int64 24)]
  | status =>
    [(.sessionId, int32 8), (.streamId, int32 12), (.consumptionTermId, int32 16),
      (.consumptionTermOffset, int32 20), (.receiverWindow, int32 24), (.receiverId, int64 28)]
  | setup =>
    [(.termOffset, int32 8), (.sessionId, int32 12), (.streamId, int32 16),
      (.initialTermId, int32 20), (.activeTermId, int32 24), (.termLength, int32 28),
      (.mtu, int32 32), (.ttl, int32 36)]

def fields (k : FrameKind) : List (FieldName × Field) := commonFields ++ k.ownFields

def field? (k : FrameKind) (name : FieldName) : Option Field := k.fields.lookup name

/-- The length of the fixed part of a frame; a NAK is padded to a multiple of 32. -/
def headerLength : FrameKind → Nat
  | common => 8
  | nak => 32
  | data => 32
  | status => 36
  | setup => 40

end FrameKind

inductive FrameCode
  | padding
  | data
  | nak
  | status
  | error
  | setup
  | roundTrip
  | resolution
  deriving DecidableEq, Repr

def FrameCode.number : FrameCode → Nat
  | padding => 0
  | data => 1
  | nak => 2
  | status => 3
  | error => 4
  | setup => 5
  | roundTrip => 6
  | resolution => 7

/-- A frame of any kind at an offset of a view. It is not checked when it is formed: every access
to a field is. -/
structure Frame where
  view : View
  offset : Nat
  deriving DecidableEq, Repr, Inhabited

namespace Frame

/-- Bits of the flags of a data frame: its payload begins or ends a message, or ends the stream. -/
def beginFlag : Nat := 0x80

def endFlag : Nat := 0x40

def endOfStreamFlag : Nat := 0x20

def sendSetupFlag : Nat := 0x80

def currentVersion : Nat := 0

/-- The index of a field in the view; offsets add as unsigned words of eight bytes. -/
def index (f : Frame) (x : Field) : Nat := Word.offset (f.offset + x.offset)

def get (f : Frame) (x : Field) : Query Int := do
  let bs ← f.view.load (f.index x) x.size
  return if x.isSigned then Word.signed bs else Word.unsigned bs

def set (f : Frame) (x : Field) (value : Int) : Action Unit :=
  f.view.store (f.index x) (Word.encode x.size value)

def dataLength (f : Frame) : Query Int := do
  return (← f.get (FrameKind.int32 0)) - FrameKind.headerLength .data

def hasFlag (f : Frame) (bit : Nat) : Query Bool := do
  return ((← f.get ⟨5, 1, false⟩).toNat &&& bit) != 0

end Frame

end Telemetry
