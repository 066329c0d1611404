import Telemetry.Counters.Session
import Telemetry.Host
import Telemetry.Settings
import Telemetry.Shared.Buffer

namespace Telemetry.Shared

open Counters

structure Board where
  buffer : Buffer
  session : Session
  deriving Repr

namespace Board

def magic : Int := 0x544E4354

def layoutVersion : Int := 1

def headerLength : Nat := 128

def magicOffset : Nat := 0

def versionOffset : Nat := 4

def metadataLengthOffset : Nat := 8

def valuesLengthOffset : Nat := 16

def processOffset : Nat := 24

def startOffset : Nat := 32

def sections (whole : View) (metadataLength valuesLength : Nat) : Except Fault (View × View) := do
  let metadata ← whole.sub headerLength metadataLength
  let values ← whole.sub (Word.offset (headerLength + metadataLength)) valuesLength
  return (metadata, values)

/-- The length of the segment for given lengths of its sections, as an unsigned word. -/
def segmentLength (metadataLength valuesLength : Nat) : Nat :=
  Word.offset (headerLength + metadataLength + valuesLength)

def initialise (whole : View) (host : Host) (metadataLength valuesLength : Nat) (charset : Charset)
    (clock : Option Clock) (timeout : Int) : Action Registry := do
  let header ← whole.sub 0 headerLength
  header.put 4 versionOffset layoutVersion
  header.put 8 metadataLengthOffset metadataLength
  header.put 8 valuesLengthOffset valuesLength
  header.put 8 processOffset host.process
  header.put 8 startOffset ((clock.getD .wall).read host.wallTime)
  let (metadata, values) ← sections whole metadataLength valuesLength
  let registry ← Registry.create ⟨metadata, values, charset⟩ clock.isSome timeout
  -- the magic word comes last: whoever sees it sees the rest of the header
  header.put 4 magicOffset magic
  return registry

/-- What creating a board does to the names and to memory, and the board. -/
structure Creation where
  space : Namespace
  writes : List Write
  result : Except Fault Board

variable [Platform]

/-- Creates a board; whatever has the name is taken over. When the segment cannot be filled, its
name is removed again. -/
def create (s : Namespace) (host : Host) (name : Text) (valuesLength : Nat) (charset : Charset)
    (clock : Option Clock) (timeout : Int) (m : Memory) : Creation :=
  if valuesLength = 0 ∨ valuesLength % Slot.length ≠ 0 then
    ⟨s, [], .error (.valuesLengthNotMultiple Slot.length valuesLength)⟩
  else
    let metadataLength := Word.offset (valuesLength * (Record.length / Slot.length))
    match Buffer.create s name (segmentLength metadataLength valuesLength) with
    | (s', .error e) => ⟨s', [], .error e⟩
    | (s', .ok buffer) =>
      let p := initialise buffer.view host metadataLength valuesLength charset clock timeout m
      match p.result with
      | .error e => ⟨buffer.release s', p.writes, .error e⟩
      | .ok registry =>
        ⟨s', p.writes,
          .ok ⟨buffer, Session.create registry.monitor (some registry) (clock.getD .wall)⟩⟩

def charsetOf (c : Settings) : Charset := if c.charset = ascii "ascii" then .ascii else .utf8

def createFrom (s : Namespace) (host : Host) (c : Settings) (m : Memory) : Creation :=
  create s host c.name c.valuesLength.toNat (charsetOf c) (some .wall) c.timeoutMilliseconds m

def inspect (name : Text) (whole : View) : Query (View × View) := do
  if whole.capacity < headerLength then throw (.boardTooSmall name whole.capacity)
  let header ← whole.sub 0 headerLength
  let seen ← header.get 4 magicOffset
  if seen ≠ magic then throw (.boardForeign name seen)
  let version ← header.get 4 versionOffset
  if version ≠ layoutVersion then throw (.boardLayout name version layoutVersion)
  let metadataLength ← header.get 8 metadataLengthOffset
  let valuesLength ← header.get 8 valuesLengthOffset
  if metadataLength < 0 ∨ valuesLength < 0
      ∨ whole.capacity < segmentLength metadataLength.toNat valuesLength.toNat then
    throw (.boardLengths name metadataLength valuesLength whole.capacity)
  sections whole metadataLength.toNat valuesLength.toNat

def attach (s : Namespace) (name : Text) (m : Memory) : Except Fault Board := do
  let buffer ← Buffer.attach s name
  let (metadata, values) ← inspect name buffer.view m
  return ⟨buffer, Session.create ⟨metadata, values, .utf8⟩ none .wall⟩

/-- The registry of the board; an attached board has none. -/
def registry (b : Board) : Except Fault Registry :=
  match b.session.registry with
  | some r => if b.buffer.owner then .ok r else .error (.boardReadOnly b.buffer.name)
  | none => .error (.boardReadOnly b.buffer.name)

def headerWord (b : Board) (field : Nat) : Query Int := do
  (← b.buffer.view.sub 0 headerLength).get 8 field

def metadataLength (b : Board) : Query Int := b.headerWord metadataLengthOffset

def valuesLength (b : Board) : Query Int := b.headerWord valuesLengthOffset

def creator (b : Board) : Query Int := b.headerWord processOffset

def start (b : Board) : Query Int := b.headerWord startOffset

def isCreatorRunning (b : Board) (host : Host) : Query Bool := do
  let p ← b.creator
  return decide (0 < p) && host.isRunning p.toNat

/-- The end of a board: its handles are closed, then its buffer is released. -/
def release (b : Board) (s : Namespace) (host : Host) (m : Memory) :
    Namespace × List Write :=
  (b.buffer.release s, b.session.finish host.wallTime m)

end Board

end Telemetry.Shared
