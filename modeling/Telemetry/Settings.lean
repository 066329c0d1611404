import Telemetry.Document
import Telemetry.Fault
import Telemetry.FileTree
import Telemetry.Log.Level
import Telemetry.Quantity
import Telemetry.Word

namespace Telemetry

structure Settings where
  valuesLength : Int
  timeout : Int
  charset : Text
  name : Text
  level : Log.Level
  document : Document
  source : Text
  deriving Repr

namespace Settings

def defaultValuesLength : Int := 1024 * 1024

def defaultName : Text := ascii "/tachyon_counters"

def defaultDocument : Document :=
  .object [
    (ascii "counters", .object [
      (ascii "values_buffer_length", .int defaultValuesLength),
      (ascii "free_to_reuse_timeout", .int 0),
      (ascii "label_charset", .text (ascii "utf-8")),
      (ascii "shm_name", .text defaultName)]),
    (ascii "logging", .object [(ascii "level", .text (ascii "info"))])]

def defaults : Settings :=
  ⟨defaultValuesLength, 0, ascii "utf-8", defaultName, .info, defaultDocument, []⟩

def metadataLength (s : Settings) : Int := s.valuesLength * 4

def timeoutMilliseconds (s : Settings) : Int := s.timeout / 1000000

/-- A quantity is a natural number, or a text that is read as one. Integers count as signed
words. -/
def quantityOf (read : Text → Except SettingProblem Nat) (mismatch : SettingProblem) :
    Document → Except SettingProblem Int
  | .int n =>
    let w := Word.wrap 8 n
    if w < 0 then .error .negative else .ok w
  | .text t => (read t).map Int.ofNat
  | _ => .error mismatch

def sizeOf : Document → Except SettingProblem Int := quantityOf Quantity.size .notSize

def durationOf : Document → Except SettingProblem Int := quantityOf Quantity.duration .notDuration

def textOf : Document → Except SettingProblem Text
  | .text t => .ok t
  | _ => .error .notText

def levelNamed (name : Text) : Except SettingProblem Log.Level :=
  match Log.Level.ofName? name with
  | some l => .ok l
  | none => .error (.unknownLevel name)

def levelOf (d : Document) : Except SettingProblem Log.Level := do levelNamed (← textOf d)

def under (property : Text) : Except SettingProblem α → Except Fault α :=
  Except.mapError (Fault.setting property)

/-- The value of a key of a section, or what there was; a section that is no object has no keys. -/
def override (section_ : Option Document) (sectionName key : String) (current : α)
    (read : Document → Except SettingProblem α) : Except Fault α :=
  match section_.bind (Document.get? · (ascii key)) with
  | none => .ok current
  | some d => under (ascii (sectionName ++ "." ++ key)) (read d)

def applyDocument (s : Settings) (d : Document) : Except Fault Settings := do
  let counters := d.get? (ascii "counters")
  let valuesLength ← override counters "counters" "values_buffer_length" s.valuesLength sizeOf
  let timeout ← override counters "counters" "free_to_reuse_timeout" s.timeout durationOf
  let charset ← override counters "counters" "label_charset" s.charset textOf
  let name ← override counters "counters" "shm_name" s.name textOf
  let level ← override (d.get? (ascii "logging")) "logging" "level" s.level levelOf
  return { s with valuesLength, timeout, charset, name, level }

abbrev Environment := List (Text × Text)

def variableNames : List String :=
  ["TACHYON_CONFIG_FILE", "TACHYON_COUNTERS_VALUES_BUFFER_LENGTH",
    "TACHYON_COUNTERS_FREE_TO_REUSE_TIMEOUT", "TACHYON_COUNTERS_SHM_NAME", "TACHYON_LABEL_CHARSET",
    "TACHYON_LOG_LEVEL"]

/-- The value of a variable, which ends at its first zero byte. -/
def valueOf? (env : Environment) (name : String) : Option Text :=
  (env.lookup (ascii name)).map Text.beforeNul

def overrideBy (env : Environment) (name : String) (current : α)
    (read : Text → Except SettingProblem α) : Except Fault α :=
  match valueOf? env name with
  | none => .ok current
  | some t => under (ascii name) (read t)

def applyEnvironment (s : Settings) (env : Environment) : Except Fault Settings := do
  let valuesLength ← overrideBy env "TACHYON_COUNTERS_VALUES_BUFFER_LENGTH" s.valuesLength
    fun t => (Quantity.size t).map Int.ofNat
  let timeout ← overrideBy env "TACHYON_COUNTERS_FREE_TO_REUSE_TIMEOUT" s.timeout
    fun t => (Quantity.duration t).map Int.ofNat
  let name ← overrideBy env "TACHYON_COUNTERS_SHM_NAME" s.name .ok
  let charset ← overrideBy env "TACHYON_LABEL_CHARSET" s.charset .ok
  let level ← overrideBy env "TACHYON_LOG_LEVEL" s.level levelNamed
  return { s with valuesLength, timeout, charset, name, level }

/-- The largest length for which the records still have a 32-bit length. -/
def maxValuesLength : Int := 0x7FFFFFFF / 4

def validate (s : Settings) : Except Fault Settings :=
  if s.valuesLength ≤ 0 ∨ maxValuesLength < s.valuesLength then
    .error (.setting (ascii "counters.values_buffer_length") (.lengthOutOfRange s.valuesLength))
  else if s.charset ≠ ascii "ascii" ∧ s.charset ≠ ascii "utf-8" then
    .error (.setting (ascii "counters.label_charset") (.unknownCharset s.charset))
  else if s.name.isEmpty then .error (.setting (ascii "counters.shm_name") .emptyName)
  else .ok s

def layered (d : Document) : Settings := { defaults with document := defaultDocument.merge d }

def ofDocument (d : Document) : Except Fault Settings := do
  let s := layered d
  (← s.applyDocument s.document).validate

abbrev Files := Text → Reading

def localName : Text := ascii "tachyon.json"

/-- The path to read: the given one, else the one the environment names, else the local one if there
is one. An empty path stands for no file. -/
def chosenPath (path : Text) (env : Environment) (files : Files) : Text :=
  if path.isEmpty then
    match valueOf? env "TACHYON_CONFIG_FILE" with
    | some p => p
    | none => if files localName = .unopened then [] else localName
  else path

/-- The document of a file. A file that cannot be opened, holds no document or holds null counts as
absent. Of what else can go wrong nothing is caught. -/
def documentAt (parser : Document.Parser) (files : Files) (path : Text) :
    Except Fault (Option Document) :=
  if path.isEmpty then .ok none
  else
    match files path with
    | .unopened => .ok none
    | .failed e => .error (.fileNotRead e)
    | .content t =>
      match parser t with
      | .ok d => .ok (if d.isNull then none else some d)
      | .error .malformed => .ok none
      | .error (.beyond number) => .error (.numberBeyond number)

def load (parser : Document.Parser) (path : Text) (env : Environment) (files : Files) :
    Except Fault Settings := do
  let chosen := chosenPath path env files
  let s :=
    match ← documentAt parser files chosen with
    | some d => { layered d with source := chosen }
    | none => defaults
  (← (← s.applyDocument s.document).applyEnvironment env).validate

end Settings

end Telemetry
