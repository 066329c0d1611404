import Telemetry.Log.Outlet

namespace Telemetry.Log

structure Stamp where
  time : Int
  process : Nat
  thread : Nat
  deriving DecidableEq, Repr

/-- Who is told of faults of the worker: one who keeps the text, or one who fails. -/
inductive Callback
  | collect
  | fail (message : Text)
  deriving DecidableEq, Repr

inductive Command
  | message (e : Entry)
  | setOutlet (s : Outlet)
  | flush
  | setCallback (c : Option Callback)
  deriving DecidableEq, Repr

structure Journal where
  format : Entry → Text
  stamp : Stamp
  outlet : Outlet
  level : Int
  limit : Nat
  queue : List Command
  /-- Messages dropped since the worker last told of them. -/
  dropped : Nat
  /-- Messages dropped since the outlet was last set. -/
  droppedInAll : Nat
  callback : Option Callback
  isShutDown : Bool
  output : Output

namespace Journal

def defaultLimit : Nat := 10000

def create (format : Entry → Text) (stamp : Stamp) (files : FileTree) : Journal :=
  ⟨format, stamp, .console, Level.info.number, defaultLimit, [], 0, 0, none, false,
    Output.create files⟩

def entry (l : Journal) (level : Int) (body : Text) : Entry :=
  ⟨l.stamp.time, l.stamp.process, l.stamp.thread, level, body⟩

def print (l : Journal) (t : Text) : Journal := { l with output := l.output.print t }

def write (l : Journal) (e : Entry) : Except Fault Journal :=
  (l.outlet.write (l.format e) l.output).map fun o => { l with output := o }

/-- Tells of a fault of the worker: to the callback, or else on the error stream. -/
def report (l : Journal) (e : Fault) : Journal :=
  match l.callback with
  | none => l.print (ascii "[LOGGER] sink error: " ++ e.message ++ ascii "\n")
  | some .collect =>
    { l with output.reported := l.output.reported ++ [ascii "Logger worker error: " ++ e.message] }
  | some (.fail message) =>
    { l with output.callbackFaults := l.output.callbackFaults
        ++ ascii "[LOGGER] write-error callback threw: " ++ message ++ ascii "\n" }

def writeOrReport (l : Journal) (e : Entry) : Journal :=
  match l.write e with
  | .ok l' => l'
  | .error f => l.report f

/-- Replaces the outlet. The old outlet is told first and stays if it fails; the new one stays even
if the first line to it fails. -/
def replaceOutlet (l : Journal) (s : Outlet) : Journal × Bool :=
  let last := l.entry Level.system.number (ascii "Switching log sink to: " ++ s.description)
  match l.write last with
  | .error e => (l.report e, false)
  | .ok l =>
    let next := { l with outlet := s, droppedInAll := 0 }
    let first :=
      next.entry Level.system.number (ascii "Log sink switched from: " ++ l.outlet.description)
    match next.write first with
    | .error e => (next.report e, false)
    | .ok l => (l, true)

def perform (l : Journal) : Command → Journal × Bool
  | .message e => (if l.level ≤ e.level then l.writeOrReport e else l, true)
  | .setOutlet s => l.replaceOutlet s
  | .flush => (l, true)
  | .setCallback c => ({ l with callback := c }, true)

def performAll (l : Journal) : List Command → Journal × Bool
  | [] => (l, false)
  | [c] => l.perform c
  | c :: rest => (l.perform c).1.performAll rest

def tellDropped (l : Journal) : Journal :=
  if l.dropped = 0 then l
  else
    let quiet := { l with dropped := 0 }
    let told := quiet.entry Level.warning.number
      (ascii "Logger dropped " ++ Text.natural l.dropped ++ ascii " messages due to full queue.")
    match quiet.write told with
    | .ok l => l
    | .error e => quiet.print (ascii "[LOGGER] sink error: " ++ e.message ++ ascii "\n")

def take (l : Journal) : Journal × List Command := ({ l with queue := [] }, l.queue)

def finish (l : Journal) (batch : List Command) : Journal × Bool :=
  let (l, done) := l.performAll batch
  (l.tellDropped, done)

def work (l : Journal) : Journal × Bool :=
  let (l, batch) := l.take
  l.finish batch

/-- Puts a message behind what is waiting, unless it is below the level. A full queue drops it. -/
def log (l : Journal) (level : Int) (body : Text) : Journal :=
  if level < l.level then l
  else if l.isShutDown then l.print (l.format (l.entry level body))
  else if l.limit ≤ l.queue.length then
    { l with dropped := l.dropped + 1, droppedInAll := l.droppedInAll + 1 }
  else { l with queue := l.queue ++ [.message (l.entry level body)] }

/-- Submits a command and waits for it; after the end of the log it fails. -/
def submit (l : Journal) (c : Command) : Journal × Bool :=
  if l.isShutDown then (l, false) else { l with queue := l.queue ++ [c] }.work

def flush (l : Journal) : Journal := (l.submit .flush).1

def setConsole (l : Journal) : Journal × Bool := l.submit (.setOutlet .console)

def setSyslog (l : Journal) : Journal × Bool := l.submit (.setOutlet .syslog)

def setCallback (l : Journal) (c : Option Callback) : Journal := (l.submit (.setCallback c)).1

def logUnopened (l : Journal) (e : Fault) : Journal :=
  l.log Level.error.number (ascii "Failed to create FileSink: " ++ e.message)

/-- Makes a file the outlet. A file that cannot be opened is told of in the log itself. -/
def setFile (l : Journal) (path : Text) : Journal × Bool :=
  match Outlet.openFile path l.output with
  | .error e => (l.logUnopened e, false)
  | .ok (s, o) => { l with output := o }.submit (.setOutlet s)

def setLevel (l : Journal) (level : Int) : Journal := { l with level := level }

def setLimit (l : Journal) (limit : Nat) : Journal := { l with limit := max 1 limit }

def conclude (l : Journal) : Journal :=
  match l.write (l.entry Level.system.number (ascii "Logger is shutting down.")) with
  | .ok l => l
  | .error e => l.print (ascii "[LOGGER] sink error during shutdown: " ++ e.message ++ ascii "\n")

/-- Ends the log: what is waiting is written, then a last message. -/
def shutDown (l : Journal) : Journal :=
  if l.isShutDown then l
  else
    let l := { l with isShutDown := true }
    (if l.queue.isEmpty then l else l.work.1).conclude

end Journal

end Telemetry.Log
