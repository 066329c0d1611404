import Telemetry.Calendar
import Telemetry.Shared.Board

namespace Telemetry

open Counters Shared

def version : Text := ascii "0.1.0"

namespace Viewer

structure Report where
  code : Nat
  out : Text
  err : Text
  deriving DecidableEq, Repr

structure Options where
  config : Text
  name : Text
  interval : Int
  type : Option Int
  deriving DecidableEq, Repr

def Options.none : Options := ⟨[], [], 0, Option.none⟩

open Text in
def usage (program : Text) : Text :=
  ascii "Usage:\n  " ++ program
    ++ ascii " [--config <path.json>] [--name <shm>] [--interval <ms>] [--type <id>]\n\n"
    ++ ascii "Options:\n"
    ++ ascii "  --config <path>   Read the segment name from this tachyon.json\n"
    ++ ascii "  --name <shm>      Counters segment name (overrides config)\n"
    ++ ascii "  --interval <ms>   Repeat every <ms> milliseconds until interrupted\n"
    ++ ascii "  --type <id>       Only show counters with this type id\n"
    ++ ascii "  --version         Print the library version and exit\n"
    ++ ascii "  --help            Show this message\n"

def versionLine : Text := ascii "tachyon-stat " ++ version ++ ascii "\n"

/-- The largest number that an argument can stand for; larger ones are cut to it. -/
def largest : Int := 0x7FFFFFFFFFFFFFFF

/-- The natural number that an argument spells, with blanks and a sign in front allowed. -/
def natural? (argument : Text) : Option Int :=
  let t := argument.dropWhile Text.isBlank
  let (negative, digits) :=
    match t with
    | [] => (false, [])
    | b :: rest => if b = 45 then (true, rest) else if b = 43 then (false, rest) else (false, t)
  if digits.isEmpty ∨ ¬ digits.all Text.isDigit then Option.none
  else if negative then if Text.numeral digits = 0 then some 0 else Option.none
  else some (min (Text.numeral digits) largest)

def unknownArgument (program argument : Text) : Report :=
  ⟨1, usage program, ascii "Unknown argument: " ++ argument ++ ascii "\n"⟩

def badNumber (program option argument : Text) : Report :=
  ⟨1, usage program,
    ascii "Error: " ++ option ++ ascii " expects a non-negative integer, got "
      ++ Text.quoted argument ++ ascii "\n\n"⟩

def parse (program : Text) (o : Options) : List Text → Except Report Options
  | [] => .ok o
  | [a] =>
    if a = ascii "--help" ∨ a = ascii "-h" then .error ⟨0, usage program, []⟩
    else if a = ascii "--version" then .error ⟨0, versionLine, []⟩
    else .error (unknownArgument program a)
  | a :: v :: rest =>
    if a = ascii "--help" ∨ a = ascii "-h" then .error ⟨0, usage program, []⟩
    else if a = ascii "--version" then .error ⟨0, versionLine, []⟩
    else if a = ascii "--config" then parse program { o with config := v } rest
    else if a = ascii "--name" then parse program { o with name := v } rest
    else if a = ascii "--interval" then
      match natural? v with
      | some n => parse program { o with interval := n } rest
      | Option.none => .error (badNumber program a v)
    else if a = ascii "--type" then
      match natural? v with
      | some n => parse program { o with type := some (Word.wrap 4 n) } rest
      | Option.none => .error (badNumber program a v)
    else .error (unknownArgument program a)

structure Style where
  time : Text
  process : Int → Text

def Style.at (time : Int) : Style := ⟨timeText time, Text.decimal⟩

open Text in
def banner (style : Style) (process : Int) (running : Bool) (name : Text) : Text :=
  style.time ++ ascii " - pid " ++ style.process process ++ ascii " ("
    ++ (if running then ascii "running" else ascii "exited") ++ ascii ") - " ++ name ++ ascii "\n"
    ++ List.replicate 80 61 ++ ascii "\n"

open Text in
def row (id value : Int) (label : Text) : Text :=
  padLeft 3 (decimal id) ++ ascii ": " ++ padLeft 20 (decimal value) ++ ascii " - " ++ label
    ++ ascii "\n"

/-- The rows of the scanned counters, without those of another type than the wanted one. -/
def rows (monitor : Monitor) (type : Option Int) (m : Memory) : List Monitor.RecordRow →
    Except Fault Text
  | [] => .ok []
  | r :: rest => do
    let more ← rows monitor type m rest
    if type.elim false (· != r.type) then return more
    return row r.id (← monitor.value r.id m) r.label ++ more

def print (b : Board) (host : Host) (style : Style) (type : Option Int) (m : Memory) :
    Text × Option Fault :=
  let head := do
    return banner style (← b.creator) (← b.isCreatorRunning host) b.buffer.name
  match head m with
  | .error e => ([], some e)
  | .ok t =>
    let w := b.session.monitor.walkRecords Consumer.all m
    match rows b.session.monitor type m w.seen with
    | .ok body => (t ++ body, w.fault)
    | .error e => (t, some e)

/-- The message and the exit code of a fault that ended the program. Faults of the counters are told
by their kind. -/
def failure (name : Text) (e : Fault) : Nat × Text :=
  match e.kind with
  | .invalidState | .capacityExceeded | .corruptedRecord =>
    (2, ascii "Error: " ++ e.kind.name ++ ascii ": " ++ e.message ++ ascii "\n")
  | _ =>
    (1, ascii "Error: cannot read counters " ++ Text.quoted name ++ ascii ": " ++ e.message
      ++ ascii "\n")

variable [Platform]

def report (s : Namespace) (host : Host) (style : Style) (name : Text) (type : Option Int)
    (m : Memory) : Report :=
  match Board.attach s name m with
  | .error e =>
    let (code, err) := failure name e
    ⟨code, [], err⟩
  | .ok b =>
    match print b host style type m with
    | (out, Option.none) => ⟨0, out, []⟩
    | (out, some e) =>
      let (code, err) := failure name e
      ⟨code, out, err⟩

def aborted (e : Fault) : Report :=
  let type :=
    if e.kind = .document then ascii "nlohmann::detail::out_of_range"
    else ascii "std::__ios_failure"
  ⟨134, [],
    ascii "terminate called after throwing an instance of " ++ Text.quoted type
      ++ ascii "\n  what():  " ++ e.message ++ ascii "\n"⟩

/-- The segment to print: the named one, else the one that the settings name. -/
def chosenName (parser : Document.Parser) (o : Options) (env : Settings.Environment)
    (files : Settings.Files) : Except Report Text :=
  match Settings.load parser o.config env files with
  | .error e =>
    .error (if e.kind = .invalidArgument then
      ⟨1, [], ascii "Error: invalid configuration: " ++ e.message ++ ascii "\n"⟩
    else aborted e)
  | .ok c => .ok (if o.name.isEmpty then c.name else o.name)

/-- What the program was asked for: its options and the segment, unless its arguments or settings
end it. -/
def prepare (parser : Document.Parser) (program : Text) (arguments : List Text)
    (env : Settings.Environment) (files : Settings.Files) : Except Report (Options × Text) := do
  let o ← parse program Options.none (arguments.map Text.beforeNul)
  return (o, ← chosenName parser o env files)

def run (parser : Document.Parser) (program : Text) (arguments : List Text)
    (env : Settings.Environment) (files : Settings.Files) (s : Namespace) (host : Host)
    (style : Style) (m : Memory) : Report :=
  match prepare parser program arguments env files with
  | .error r => r
  | .ok (o, name) => report s host style name o.type m

end Viewer

end Telemetry
