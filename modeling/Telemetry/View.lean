import Telemetry.Bits
import Telemetry.Memory
import Telemetry.Word

namespace Telemetry

/-- The window of `capacity` bytes that starts at offset `base` of a region. -/
structure View where
  region : Nat
  base : Nat
  capacity : Nat
  deriving DecidableEq, Repr, Inhabited

namespace View

def empty : View := ⟨0, 0, 0⟩

def check (v : View) (i n : Nat) : Except Fault Unit :=
  if i + n ≤ v.capacity then .ok () else .error (.outOfBounds i n v.capacity)

theorem check_eq_ok_iff (v : View) (i n : Nat) : v.check i n = .ok () ↔ i + n ≤ v.capacity := by
  unfold check
  split <;> simp_all

def sub (v : View) (i n : Nat) : Except Fault View := do
  v.check i n
  return ⟨v.region, v.base + i, n⟩

def alignment : Nat := 8

/-- Regions start at multiples of the alignment, so the offset decides. -/
def requireAligned (v : View) : Except Fault Unit := do
  unless ← Bits.isAligned (UInt64.ofNat v.base) (Int64.ofNat alignment) do
    throw (.misaligned v.base alignment)

def load (v : View) (i n : Nat) : Query (List Byte) := do
  v.check i n
  return (← read).load v.region (v.base + i) n

def store (v : View) (i : Nat) (bs : List Byte) : Action Unit := do
  v.check i bs.length
  Action.write ⟨v.region, v.base + i, bs⟩

def get (v : View) (n i : Nat) : Query Int := do return Word.signed (← v.load i n)

def put (v : View) (n i : Nat) (x : Int) : Action Unit := v.store i (Word.encode n x)

def getAndAdd (v : View) (n i : Nat) (x : Int) : Action Int := do
  let old ← v.get n i
  v.put n i (old + x)
  return old

def getAndSet (v : View) (n i : Nat) (x : Int) : Action Int := do
  let old ← v.get n i
  v.put n i x
  return old

def compareAndSet (v : View) (n i : Nat) (expected x : Int) : Action Bool := do
  if (← v.get n i) = Word.wrap n expected then
    v.put n i x
    return true
  else
    return false

/-- Copies from another window; the source is read before anything is written. -/
def copy (v : View) (i : Nat) (source : View) (j n : Nat) : Action Unit := do
  v.check i n
  v.store i (← source.load j n)

/-- Copies a range of bytes that lie outside memory. -/
def copyBytes (v : View) (i : Nat) (source : List Byte) (j n : Nat) : Action Unit := do
  v.check i n
  if j + n ≤ source.length then v.store i ((source.drop j).take n)
  else Action.refuse (.outOfBounds j n source.length)

def fill (v : View) (i n : Nat) (b : Byte) : Action Unit := do
  v.check i n
  v.store i (List.replicate n b)

def asciiByte (b : Byte) : Byte := if 127 < b then 63 else b

def putAscii (v : View) (i : Nat) (t : Text) : Action Nat := do
  v.store i (t.map asciiByte)
  return t.length

end View

end Telemetry
