import Telemetry.Text

namespace Telemetry

inductive FaultKind
  | invalidArgument
  | outOfRange
  | length
  | system
  | runtime
  | invalidState
  | capacityExceeded
  | corruptedRecord
  | document
  deriving DecidableEq, Repr

/-- The kinds that describe the state of a registry carry a code. -/
def FaultKind.ofCode? (code : Int) : Option FaultKind :=
  if code = 1 then some .invalidState
  else if code = 2 then some .capacityExceeded
  else if code = 3 then some .corruptedRecord
  else none

def FaultKind.name : FaultKind → Text
  | .invalidArgument => ascii "InvalidArgument"
  | .outOfRange => ascii "OutOfRange"
  | .length => ascii "Length"
  | .system => ascii "System"
  | .runtime => ascii "Runtime"
  | .invalidState => ascii "InvalidState"
  | .capacityExceeded => ascii "CapacityExceeded"
  | .corruptedRecord => ascii "CorruptedRecord"
  | .document => ascii "Document"

inductive OsError
  | none
  | noEntry
  | exists
  | isDirectory
  | notDirectory
  | nameTooLong
  | invalid
  | noMemory
  | noSpace
  deriving DecidableEq, Repr

def OsError.message : OsError → Text
  | .none => ascii "Success"
  | .noEntry => ascii "No such file or directory"
  | .exists => ascii "File exists"
  | .isDirectory => ascii "Is a directory"
  | .notDirectory => ascii "Not a directory"
  | .nameTooLong => ascii "File name too long"
  | .invalid => ascii "Invalid argument"
  | .noMemory => ascii "Cannot allocate memory"
  | .noSpace => ascii "No space left on device"

inductive SettingProblem
  | empty
  | tooLarge (value : Text)
  | notNumber (value : Text)
  | sizeSuffix (suffix : Text)
  | durationSuffix (suffix : Text)
  | negative
  | notSize
  | notDuration
  | notText
  | unknownLevel (name : Text)
  | lengthOutOfRange (length : Int)
  | unknownCharset (name : Text)
  | emptyName
  deriving DecidableEq, Repr

open Text in
def SettingProblem.message : SettingProblem → Text
  | .empty => ascii "empty value"
  | .tooLarge v => ascii "value out of range: " ++ v
  | .notNumber v => ascii "expected a non-negative number: " ++ quoted v
  | .sizeSuffix s => ascii "unknown size suffix " ++ quoted s ++ ascii " (expected k, m or g)"
  | .durationSuffix s =>
    ascii "unknown duration suffix " ++ quoted s ++ ascii " (expected ns, us, ms or s)"
  | .negative => ascii "must not be negative"
  | .notSize => ascii "expected a size string or integer"
  | .notDuration => ascii "expected a duration string or integer"
  | .notText => ascii "expected a string"
  | .unknownLevel n => ascii "unknown log level " ++ quoted n
  | .lengthOutOfRange n => ascii "out of range: " ++ decimal n
  | .unknownCharset n => ascii "expected 'ascii' or 'utf-8', got " ++ quoted n
  | .emptyName => ascii "must not be empty"

inductive Fault
  | outOfBounds (index length capacity : Nat)
  | misaligned (address alignment : Nat)
  | alignmentNotPowerOfTwo (alignment : Int)
  | unknownScale (scale : Int)
  | oddHexLength (length : Nat)
  | badHexDigit (index : Nat) (digit : Byte)
  | ringTooSmall (requested : Int)
  | ringTooLarge (requested : Int)
  | nullElement
  | counterIdOutOfRange (id maxId : Int)
  | keyTooLong (length limit : Nat)
  | nullClock
  | metadataTooSmall
  | noRoomForIds
  | counterNotAllocated (id : Int)
  | detachedHandle (id : Int)
  | noRegistry
  | registryFull (maxId : Int)
  | labelLengthOutOfRange (record : Nat) (length : Int)
  | valuesLengthNotMultiple (unit length : Nat)
  | segmentNotCreated (name : Text) (length : Nat) (reason : OsError)
  | segmentNotAttached (name : Text) (reason : OsError)
  | boardTooSmall (name : Text) (length : Nat)
  | boardForeign (name : Text) (magic : Int)
  | boardLayout (name : Text) (version expected : Int)
  | boardLengths (name : Text) (metadata values : Int) (segment : Nat)
  | boardReadOnly (name : Text)
  | logFileNotOpened (path : Text) (reason : OsError)
  | logWriteFailed (reason : OsError)
  | setting (property : Text) (problem : SettingProblem)
  | fileNotRead (reason : OsError)
  | numberBeyond (number : Text)
  | raised (message : Text)
  deriving DecidableEq, Repr

namespace Fault

def kind : Fault → FaultKind
  | outOfBounds .. => .outOfRange
  | noRoomForIds => .length
  | counterNotAllocated _ | detachedHandle _ | noRegistry | boardReadOnly _ => .invalidState
  | registryFull _ => .capacityExceeded
  | labelLengthOutOfRange .. => .corruptedRecord
  | numberBeyond _ => .document
  | segmentNotCreated .. | segmentNotAttached .. | logWriteFailed _ | fileNotRead _ => .system
  | boardTooSmall .. | boardForeign .. | boardLayout .. | boardLengths .. | logFileNotOpened ..
  | raised _ => .runtime
  | _ => .invalidArgument

open Text in
def wording : Fault → Text
  | outOfBounds i n c =>
    ascii "index=" ++ natural i ++ ascii " length=" ++ natural n ++ ascii " capacity=" ++ natural c
  | misaligned a n =>
    ascii "AtomicBuffer is not correctly aligned: addressOffset=" ++ natural a
      ++ ascii " is not divisible by " ++ natural n
  | alignmentNotPowerOfTwo a => ascii "alignment must be a power of 2: alignment=" ++ decimal a
  | unknownScale s => ascii "unknown pointer size for scale=" ++ decimal s
  | oddHexLength n => ascii "hex string must have an even length: length=" ++ natural n
  | badHexDigit i d => ascii "invalid hex digit at index " ++ natural i ++ ascii ": " ++ quoted [d]
  | ringTooSmall n =>
    ascii "requestedCapacity must be >= 2: requestedCapacity=" ++ decimal n
  | ringTooLarge n =>
    ascii "requestedCapacity must be <= 2^30: requestedCapacity=" ++ decimal n
  | nullElement => ascii "element cannot be null"
  | counterIdOutOfRange i m =>
    ascii "counter id " ++ decimal i ++ ascii " out of range: 0 - maxCounterId=" ++ decimal m
  | keyTooLong n m => ascii "key is too long: " ++ natural n ++ ascii ", max: " ++ natural m
  | nullClock => ascii "epoch clock must not be null"
  | metadataTooSmall => ascii "metadata buffer is too small"
  | noRoomForIds => ascii "vector::reserve"
  | counterNotAllocated i => ascii "counter not allocated: id=" ++ decimal i
  | detachedHandle i =>
    ascii "counter id=" ++ decimal i ++ ascii " was not constructed with a CountersManager"
  | noRegistry => ascii "no counters registry"
  | registryFull m =>
    ascii "unable to allocate counter, buffer is full: maxCounterId=" ++ decimal m
  | labelLengthOutOfRange o n =>
    ascii "label length out of range: offset=" ++ natural o ++ ascii " length=" ++ decimal n
  | valuesLengthNotMultiple u n =>
    ascii "values length must be a positive multiple of " ++ natural u ++ ascii ": values_length="
      ++ natural n
  | segmentNotCreated s n e =>
    ascii "shm_create(" ++ quoted s ++ ascii ", " ++ natural n ++ ascii ") failed: " ++ e.message
  | segmentNotAttached s e =>
    ascii "shm_attach(" ++ quoted s ++ ascii ") failed: " ++ e.message
  | boardTooSmall s n =>
    quoted s ++ ascii " is too small to be a counters file: length=" ++ natural n
  | boardForeign s m => quoted s ++ ascii " is not a counters file: magic=0x" ++ signedHex 8 m
  | boardLayout s v e =>
    quoted s ++ ascii " has unsupported layout version " ++ decimal v ++ ascii ", expected "
      ++ decimal e
  | boardLengths s m v n =>
    quoted s ++ ascii " header lengths exceed the segment: metadata=" ++ decimal m
      ++ ascii " values=" ++ decimal v ++ ascii " segment=" ++ natural n
  | boardReadOnly s => ascii "counters file " ++ quoted s ++ ascii " is attached read-only"
  | logFileNotOpened p e => ascii "Failed to open log file " ++ quoted p ++ ascii ": " ++ e.message
  | logWriteFailed e => ascii "write failed for log file: " ++ e.message
  | setting p e => p ++ ascii ": " ++ e.message
  | fileNotRead e =>
    ascii "basic_filebuf::underflow error reading the file: " ++ e.message
  | numberBeyond n =>
    ascii "[json.exception.out_of_range.406] number overflow parsing " ++ quoted n
  | raised m => m

/-- The text that is reported: the wording up to its first zero byte. -/
def message (f : Fault) : Text := f.wording.beforeNul

end Fault

end Telemetry
