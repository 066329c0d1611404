import Telemetry.Consumer
import Telemetry.Counters.Record

namespace Telemetry.Counters

structure Monitor where
  metadata : View
  values : View
  charset : Charset
  deriving DecidableEq, Repr

/-- What a consumer was handed in order, and the fault that the scan ended with, if any. -/
structure Walk (α : Type) where
  seen : List α
  fault : Option Fault

namespace Monitor

def maxId (r : Monitor) : Int := Word.wrap 4 (r.values.capacity / Slot.length : Nat) - 1

def validate (r : Monitor) (id : Int) : Except Fault Unit :=
  if id < 0 ∨ r.maxId < id then .error (.counterIdOutOfRange id r.maxId) else .ok ()

def slotWord (r : Monitor) (field : Nat) (id : Int) : Query Int := do
  r.validate id
  r.values.get 8 (Slot.offset id + field)

def value (r : Monitor) (id : Int) : Query Int := r.slotWord 0 id

def registration (r : Monitor) (id : Int) : Query Int := r.slotWord Slot.registrationOffset id

def owner (r : Monitor) (id : Int) : Query Int := r.slotWord Slot.ownerOffset id

def recordWord (r : Monitor) (n field : Nat) (id : Int) : Query Int := do
  r.validate id
  r.metadata.get n (Record.offset id + field)

def state (r : Monitor) (id : Int) : Query Int := r.recordWord 4 0 id

def type (r : Monitor) (id : Int) : Query Int := r.recordWord 4 Record.typeOffset id

def deadline (r : Monitor) (id : Int) : Query Int := r.recordWord 8 Record.deadlineOffset id

/-- The label of the record at an offset; a stored length that no writer leaves is refused. -/
def labelAt (r : Monitor) (offset : Nat) : Query Text := do
  let n ← r.metadata.get 4 (offset + Record.labelOffset)
  if n < 0 ∨ (Record.maxLabelLength : Int) < n then throw (.labelLengthOutOfRange offset n)
  r.metadata.load (offset + Record.labelTextOffset) n.toNat

def label (r : Monitor) (id : Int) : Query Text := do
  r.validate id
  r.labelAt (Record.offset id)

def keyView (r : Monitor) (id : Int) : Except Fault View := do
  r.validate id
  r.metadata.sub (Record.offset id + Record.keyOffset) Record.keyLength

def key (r : Monitor) (id : Int) : Query (List Byte) := do
  (← r.keyView id).load 0 Record.keyLength

def iterable (r : Monitor) : Nat :=
  (min r.maxId (Word.wrap 4 (r.metadata.capacity / Record.length : Nat) - 1) + 1).toNat

/-- The allocated ids among `count` from `id` on, up to the first that was never used. -/
def allocatedFrom (r : Monitor) : Nat → Int → Query (List Int)
  | 0, _ => return []
  | count + 1, id => do
    let s ← r.metadata.get 4 (Record.offset id)
    if s = Record.allocated then return id :: (← allocatedFrom r count (id + 1))
    else if s = Record.unused then return []
    else allocatedFrom r count (id + 1)

def allocatedIds (r : Monitor) : Query (List Int) := r.allocatedFrom r.iterable 0

def handOver (row : Int → Query α) (consumer : Consumer α) (m : Memory) :
    Nat → List Int → Walk α
  | _, [] => ⟨[], none⟩
  | taken, id :: rest =>
    match row id m with
    | .error e => ⟨[], some e⟩
    | .ok x =>
      match consumer taken x with
      | some e => ⟨[], some e⟩
      | none =>
        let w := handOver row consumer m (taken + 1) rest
        { w with seen := x :: w.seen }

def handAll (row : Int → Query α) (consumer : Consumer α) (m : Memory) :
    Except Fault (List Int) → Walk α
  | .error e => ⟨[], some e⟩
  | .ok ids => handOver row consumer m 0 ids

def walk (r : Monitor) (row : Int → Query α) (consumer : Consumer α) (m : Memory) :
    Walk α :=
  handAll row consumer m (r.allocatedIds m)

structure LabelRow where
  id : Int
  label : Text
  deriving DecidableEq, Repr

structure ValueRow where
  id : Int
  value : Int
  deriving DecidableEq, Repr

structure RecordRow where
  id : Int
  type : Int
  key : List Byte
  label : Text
  deriving DecidableEq, Repr

def labelRow (r : Monitor) (id : Int) : Query LabelRow := do
  return ⟨id, ← r.labelAt (Record.offset id)⟩

def valueRow (r : Monitor) (id : Int) : Query ValueRow := do
  return ⟨id, ← r.values.get 8 (Slot.offset id)⟩

def recordRow (r : Monitor) (id : Int) : Query RecordRow := do
  let at0 := Record.offset id
  let type ← r.metadata.get 4 (at0 + Record.typeOffset)
  let key ← r.metadata.load (at0 + Record.keyOffset) Record.keyLength
  return ⟨id, type, key, ← r.labelAt at0⟩

def walkLabels (r : Monitor) (consumer : Consumer LabelRow) (m : Memory) : Walk LabelRow :=
  r.walk r.labelRow consumer m

def walkValues (r : Monitor) (consumer : Consumer ValueRow) (m : Memory) : Walk ValueRow :=
  r.walk r.valueRow consumer m

def walkRecords (r : Monitor) (consumer : Consumer RecordRow) (m : Memory) :
    Walk RecordRow :=
  r.walk r.recordRow consumer m

def hasTypeAndRegistration (r : Monitor) (type registration id : Int) : Query Bool := do
  if (← r.metadata.get 4 (Record.offset id + Record.typeOffset)) = type then
    return (← r.values.get 8 (Slot.offset id + Slot.registrationOffset)) = registration
  else
    return false

def findIn (r : Monitor) (type registration : Int) : List Int → Query Int
  | [] => return Record.noCounter
  | id :: rest => do
    if ← r.hasTypeAndRegistration type registration id then return id
    else findIn r type registration rest

def find (r : Monitor) (type registration : Int) : Query Int := do
  r.findIn type registration (← r.allocatedIds)

end Monitor

end Telemetry.Counters
