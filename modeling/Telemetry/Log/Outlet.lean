import Telemetry.FileTree
import Telemetry.Log.Line

namespace Telemetry.Log

inductive Outlet
  | console
  /-- What was opened at a place, and the path that led there. -/
  | file (path : Text) (location : Location)
  | syslog
  deriving DecidableEq, Repr

def Outlet.description : Outlet → Text
  | console => ascii "Console"
  | file path _ => ascii "File: " ++ path
  | syslog => ascii "Syslog"

structure Output where
  console : Text
  files : FileTree
  reported : List Text
  /-- What was written to the error stream about callbacks that failed. -/
  callbackFaults : Text
  deriving DecidableEq, Repr

namespace Output

def create (files : FileTree) : Output := ⟨[], files, [], []⟩

def print (o : Output) (t : Text) : Output := { o with console := o.console ++ t }

end Output

def Outlet.write (s : Outlet) (line : Text) (o : Output) : Except Fault Output :=
  match s with
  | console => .ok (o.print line)
  | file _ l =>
    match o.files.append l line with
    | .ok files => .ok { o with files }
    | .error e => .error (.logWriteFailed e)
  | syslog => .ok o

def Outlet.openFile (path : Text) (o : Output) : Except Fault (Outlet × Output) :=
  match o.files.openToAppend path with
  | .error e => .error (.logFileNotOpened path e)
  | .ok (l, files) => .ok (.file path l, { o with files })

end Telemetry.Log
