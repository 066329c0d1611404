import Telemetry.Counters.Monitor
import Telemetry.View.Access

namespace Telemetry.Counters

structure Registry where
  monitor : Monitor
  timeout : Int
  issued : Nat
  freed : List Int
  deriving DecidableEq, Repr

/-- What an operation of the registry does: the registry afterwards, its writes and its answer. -/
structure Outcome (α : Type) where
  registry : Registry
  writes : List Write
  result : Except Fault α

/-- A range of bytes to copy from; the range may lie outside. Assumption of sources: the bytes are
not those of the two views of the registry, so that nothing it writes changes them. -/
structure Source where
  bytes : List Byte
  offset : Nat
  length : Nat
  deriving DecidableEq, Repr

inductive Request
  | labelled (type : Int) (label : Text)
  | keyed (type : Int) (label : Text) (key : Script)
  | copied (type : Int) (key : Option Source) (label : Source)

namespace Registry

def capacity (r : Registry) : Int := r.monitor.maxId + 1

/-- A registry over two views in which nothing is allocated. A registry without a clock is refused,
and so is one whose capacity came out negative, since room is kept for as many ids. -/
def create (monitor : Monitor) (hasClock : Bool) (timeout : Int) : Except Fault Registry := do
  monitor.values.requireAligned
  unless hasClock do throw .nullClock
  if monitor.metadata.capacity < monitor.values.capacity * (Record.length / Slot.length) then
    throw .metadataTooSmall
  if monitor.maxId + 1 < 0 then throw .noRoomForIds
  return ⟨monitor, timeout, 0, []⟩

def isReusable (r : Registry) (now : Int) (id : Int) : Query Bool := do
  return (← r.monitor.metadata.get 8 (Record.offset id + Record.deadlineOffset)) ≤ now

def countReusable (r : Registry) (now : Int) : List Int → Query Nat
  | [] => return 0
  | id :: rest => do
    let here ← r.isReusable now id
    let n ← countReusable r now rest
    return if here then n + 1 else n

def available (r : Registry) (now : Int) : Query Int := do
  return r.capacity - r.issued + (← r.countReusable now r.freed)

def pickReusable (r : Registry) (now : Int) : List Int → Query (Option (Int × List Int))
  | [] => return none
  | id :: rest => do
    if ← r.isReusable now id then return some (id, rest)
    return (← pickReusable r now rest).map fun (found, others) => (found, id :: others)

def resetSlot (r : Registry) (id : Int) : Action Unit := do
  r.monitor.values.put 8 (Slot.offset id + Slot.registrationOffset) Slot.defaultRegistration
  r.monitor.values.put 8 (Slot.offset id + Slot.ownerOffset) Slot.defaultOwner
  r.monitor.values.put 8 (Slot.offset id) 0

/-- Takes an id: the one given back longest ago that is reusable, otherwise the next new one. -/
def takeId (r : Registry) (now : Int) : Action (Registry × Int) := do
  match ← r.pickReusable now r.freed with
  | some (id, others) =>
    r.resetSlot id
    return ({ r with freed := others }, id)
  | none =>
    if r.monitor.maxId < r.issued then Action.refuse (.registryFull r.monitor.maxId)
    else return ({ r with issued := r.issued + 1 }, r.issued)

def putLabel (r : Registry) (offset : Nat) (label : Text) : Action Unit := do
  let t := r.monitor.charset.encode (label.take Record.maxLabelLength)
  r.monitor.metadata.store (offset + Record.labelTextOffset) t
  r.monitor.metadata.put 4 (offset + Record.labelOffset) t.length

/-- Appends to the label of the record at an offset, cut to the room that is left. -/
def addLabel (r : Registry) (offset : Nat) (suffix : Text) : Action Unit := do
  let n ← r.monitor.metadata.get 4 (offset + Record.labelOffset)
  if n < 0 ∨ (Record.maxLabelLength : Int) < n then
    Action.refuse (.labelLengthOutOfRange offset n)
  else
    let t := r.monitor.charset.encode (suffix.take (Record.maxLabelLength - n.toNat))
    r.monitor.metadata.store (offset + Record.labelTextOffset + n.toNat) t
    r.monitor.metadata.put 4 (offset + Record.labelOffset) (n + t.length)

def putType (r : Registry) (offset : Nat) (type : Int) : Action Unit :=
  r.monitor.metadata.put 4 (offset + Record.typeOffset) type

def putDeadline (r : Registry) (offset : Nat) (deadline : Int) : Action Unit :=
  r.monitor.metadata.put 8 (offset + Record.deadlineOffset) deadline

def putState (r : Registry) (offset : Nat) (state : Int) : Action Unit :=
  r.monitor.metadata.put 4 offset state

def clearKey (r : Registry) (offset : Nat) : Action Unit :=
  r.monitor.metadata.fill (offset + Record.keyOffset) Record.keyLength 0

def copySource (r : Registry) (index limit : Nat) (s : Source) : Action Unit :=
  r.monitor.metadata.copyBytes index s.bytes s.offset (min s.length limit)

/-- Fills the record at an offset; the last write publishes it. -/
def publish (r : Registry) (offset : Nat) : Request → Action Unit
  | .labelled type label => do
    r.putType offset type
    r.putDeadline offset Record.neverReusable
    r.putLabel offset label
    r.putState offset Record.allocated
  | .keyed type label key => do
    r.putType offset type
    key.run (← r.monitor.metadata.sub (offset + Record.keyOffset) Record.keyLength)
    r.putDeadline offset Record.neverReusable
    r.putLabel offset label
    r.putState offset Record.allocated
  | .copied type key label => do
    r.putType offset type
    r.putDeadline offset Record.neverReusable
    match key with
    | some k => r.copySource (offset + Record.keyOffset) Record.keyLength k
    | none => pure ()
    r.monitor.metadata.put 4 (offset + Record.labelOffset) (min label.length Record.maxLabelLength)
    r.copySource (offset + Record.labelTextOffset) Record.maxLabelLength label
    r.putState offset Record.allocated

/-- Marks a record that was not published as given back and reusable at once. -/
def withdraw (r : Registry) (offset : Nat) : Action Unit := do
  r.clearKey offset
  r.putDeadline offset 0
  r.putState offset Record.reclaimed

/-- Allocates a counter and answers its id. If the record cannot be filled, the id goes back to the
end of the freed ids and the fault is passed on. -/
def allocate (r : Registry) (now : Int) (request : Request) (m : Memory) : Outcome Int :=
  let taken := r.takeId now m
  match taken.result with
  | .error e => ⟨r, taken.writes, .error e⟩
  | .ok (r', id) =>
    let offset := Record.offset id
    let m' := m.storeAll taken.writes
    let filled := r'.publish offset request m'
    match filled.result with
    | .ok () => ⟨r', taken.writes ++ filled.writes, .ok id⟩
    | .error e =>
      let undone := r'.withdraw offset (m'.storeAll filled.writes)
      ⟨{ r' with freed := r'.freed ++ [id] }, taken.writes ++ filled.writes ++ undone.writes,
        .error e⟩

def reclaim (r : Registry) (now id : Int) : Action Unit := do
  r.monitor.validate id
  let offset := Record.offset id
  if (← r.monitor.metadata.get 4 offset) = Record.allocated then
    r.putState offset Record.reclaimed
    r.clearKey offset
    r.putDeadline offset (now + r.timeout)
  else
    Action.refuse (.counterNotAllocated id)

def free (r : Registry) (now id : Int) (m : Memory) : Outcome Unit :=
  let p := r.reclaim now id m
  match p.result with
  | .ok () => ⟨{ r with freed := r.freed ++ [id] }, p.writes, .ok ()⟩
  | .error e => ⟨r, p.writes, .error e⟩

def putSlotWord (r : Registry) (field : Nat) (id x : Int) : Action Unit := do
  r.monitor.validate id
  r.monitor.values.put 8 (Slot.offset id + field) x

def setValue (r : Registry) (id x : Int) : Action Unit := r.putSlotWord 0 id x

def setRegistration (r : Registry) (id x : Int) : Action Unit :=
  r.putSlotWord Slot.registrationOffset id x

def setOwner (r : Registry) (id x : Int) : Action Unit := r.putSlotWord Slot.ownerOffset id x

def setLabel (r : Registry) (id : Int) (label : Text) : Action Unit := do
  r.monitor.validate id
  r.putLabel (Record.offset id) label

def appendLabel (r : Registry) (id : Int) (suffix : Text) : Action Unit := do
  r.monitor.validate id
  r.addLabel (Record.offset id) suffix

def writeKey (r : Registry) (id : Int) (key : Script) : Action Unit := do
  key.run (← r.monitor.keyView id)

def setKey (r : Registry) (id : Int) (s : Source) : Action Unit := do
  r.monitor.validate id
  if Record.keyLength < s.length then Action.refuse (.keyTooLong s.length Record.keyLength)
  else r.monitor.metadata.copyBytes (Record.offset id + Record.keyOffset) s.bytes s.offset s.length

end Registry

end Telemetry.Counters
