import Telemetry.Fault

namespace Telemetry.Bits

def powerCeil (n : Nat) : Nat := if n ≤ 1 then 1 else 1 <<< ((n - 1).log2 + 1)

/-- The least positive power of two not below a 32-bit value; above `2 ^ 30` the sign bit is set. -/
def nextPowerOfTwo32 (v : Int32) : Int32 := Int32.ofNat (powerCeil v.toInt.toNat)

def nextPowerOfTwo64 (v : Int64) : Int64 := Int64.ofNat (powerCeil v.toInt.toNat)

def align32 (v alignment : Int32) : Int32 := (v + (alignment - 1)) &&& -alignment

def align64 (v alignment : Int64) : Int64 := (v + (alignment - 1)) &&& -alignment

def isEven (v : Int64) : Bool := v &&& 1 == 0

def isPowerOfTwo (v : Int64) : Bool := decide (0 < v) && (v &&& (v - 1)) == 0

def next (current size : Int32) : Int32 := if current + 1 = size then 0 else current + 1

def previous (current size : Int32) : Int32 := if current = 0 then size - 1 else current - 1

def shiftForScale (scale : Int32) : Except Fault Int32 :=
  if scale = 4 then .ok 2 else if scale = 8 then .ok 3 else .error (.unknownScale scale.toInt)

/-- Whether an address is a multiple of an alignment, which must be a power of two. -/
def isAligned (address : UInt64) (alignment : Int64) : Except Fault Bool :=
  if isPowerOfTwo alignment then .ok (address &&& (alignment - 1).toUInt64 == 0)
  else .error (.alignmentNotPowerOfTwo alignment.toInt)

end Telemetry.Bits
