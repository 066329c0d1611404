import Std.Time.DateTime.Timestamp
import Telemetry.Document.Parse
import Telemetry.Viewer

namespace Telemetry.CommandLine

open Shared
open scoped Shared.Platform

def programName : Text := ascii "tachyon-stat"

def textOf (s : String) : Text := s.toUTF8.toList

def stringOf? (t : Text) : Option String := String.fromUTF8? ⟨t.toArray⟩

def readBytes? (path : Text) : IO (Option ByteArray) :=
  match stringOf? path with
  | none => return none
  | some p => try return some (← IO.FS.readBinFile p) catch _ => return none

def environment : IO Settings.Environment :=
  Settings.variableNames.filterMapM fun name => do
    return (← IO.getEnv name).map fun value => (ascii name, textOf value)

/-- The number of the error of reading a directory. -/
def directoryCode : UInt32 := 21

def reading (path : Text) : IO Reading :=
  match stringOf? path with
  | none => return .unopened
  | some p =>
    try return .content (← IO.FS.readBinFile p).toList
    catch
      | .inappropriateType _ code _ =>
        return if code = directoryCode then .failed .isDirectory else .unopened
      | _ => return .unopened

def settingsFiles (paths : List Text) : IO (List (Text × Reading)) :=
  paths.mapM fun p => return (p, ← reading p)

/-- The paths that settings may come from: the named one, that of the environment, the local one. -/
def candidates (arguments : List Text) (env : Settings.Environment) : List Text :=
  let named := match Viewer.parse programName Viewer.Options.none arguments with
    | .ok o => [o.config]
    | .error _ => []
  named ++ (Settings.valueOf? env "TACHYON_CONFIG_FILE").toList ++ [Settings.localName]

def sharedMemory (name : Text) : IO (Namespace × Memory) := do
  match segmentName name with
  | .error _ => return (.empty, .zero)
  | .ok n =>
    match ← readBytes? (ascii "/dev/shm/" ++ n) with
    | none => return (.empty, .zero)
    | some bs =>
      return (⟨[(n, 0)], [bs.size]⟩, ⟨fun r i => if r = 0 then (bs.data[i]?).getD 0 else 0⟩)

def now : IO Int := do return (← Std.Time.Timestamp.now).toNanosecondsSinceUnixEpoch.val

/-- Whether a process exists, as far as the creator of a segment is concerned. -/
def hostFor (name : Text) (s : Namespace) (m : Memory) (time : Int) : IO Host := do
  let creator := (do (← Board.attach s name m).creator m).toOption.getD 0
  let process := Word.wrap 4 creator
  let found ← readBytes? (ascii "/proc/" ++ Text.decimal process ++ ascii "/stat")
  return ⟨0, time / 1000000, fun p => found.isSome && p == process⟩

def write (r : Viewer.Report) : IO Unit := do
  let out ← IO.getStdout
  out.write ⟨r.out.toArray⟩
  out.flush
  let err ← IO.getStderr
  err.write ⟨r.err.toArray⟩
  err.flush

def printOnce (name : Text) (type : Option Int) : IO Viewer.Report := do
  let (s, m) ← sharedMemory name
  let time ← now
  let report := Viewer.report s (← hostFor name s m time) (.at time) name type m
  write report
  return report

partial def printRepeatedly (name : Text) (type : Option Int) (interval : Nat) :
    IO Viewer.Report := do
  let report ← printOnce name type
  if report.code ≠ 0 then return report
  IO.sleep interval.toUInt32
  printRepeatedly name type interval

end Telemetry.CommandLine

open Telemetry Shared.Platform in
def main (arguments : List String) : IO UInt32 := do
  let arguments := arguments.map CommandLine.textOf
  let env ← CommandLine.environment
  let files ← CommandLine.settingsFiles (CommandLine.candidates arguments env)
  let read : Settings.Files := fun p => (files.lookup p).getD .unopened
  match Viewer.prepare Document.parse CommandLine.programName arguments env read with
  | .error report =>
    CommandLine.write report
    return report.code.toUInt32
  | .ok (o, name) =>
    let report ←
      if o.interval ≤ 0 then CommandLine.printOnce name o.type
      else CommandLine.printRepeatedly name o.type o.interval.toNat
    return report.code.toUInt32
