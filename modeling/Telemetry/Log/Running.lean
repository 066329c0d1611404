import Telemetry.Log.Journal
import Telemetry.Reply

namespace Telemetry.Log

inductive Call
  | log (level : Int) (body : Text)
  | flush
  | setLevel (level : Int)
  | setFile (path : Text)
  | shutDown
  deriving DecidableEq, Repr

/-- What the caller waits for: nothing, a command that it has submitted, or the end of the
worker. -/
inductive Wait
  | nothing
  | command
  | finish
  deriving DecidableEq, Repr

/-- Who comes next. Between two steps the clock can come to show anything. -/
inductive Turn
  | caller
  | worker
  | clock (s : Stamp)
  deriving DecidableEq, Repr

structure Running where
  journal : Journal
  /-- What the worker has taken and not yet performed, while it works. -/
  batch : Option (List Command)
  ended : Bool
  wait : Wait
  made : List Call
  todo : List Call
  answers : List Reply

namespace Running

def start (l : Journal) (todo : List Call) : Running := ⟨l, none, false, .nothing, [], todo, []⟩

def answer (s : Running) (r : Reply) : Running := { s with answers := s.answers ++ [r] }

def answerFor : Command → Bool → Reply
  | .setOutlet _, done => .flag done
  | _, _ => .unit

def submit (s : Running) (c : Command) : Running :=
  if s.journal.isShutDown then s.answer (answerFor c false)
  else { s with journal.queue := s.journal.queue ++ [c], wait := .command }

def call (s : Running) : Call → Running
  | .log level body => { s with journal := s.journal.log level body }.answer .unit
  | .flush => s.submit .flush
  | .setLevel level => { s with journal := s.journal.setLevel level }.answer .unit
  | .setFile path =>
    match Outlet.openFile path s.journal.output with
    | .error e => { s with journal := s.journal.logUnopened e }.answer (.flag false)
    | .ok (outlet, output) => { s with journal.output := output }.submit (.setOutlet outlet)
  | .shutDown =>
    if s.journal.isShutDown then s.answer .unit
    else { s with journal.isShutDown := true, wait := .finish }

def release (s : Running) (c : Command) (done : Bool) : Running :=
  match c with
  | .message _ => s
  | _ => { s with wait := .nothing }.answer (answerFor c done)

/-- One step of the worker: it takes what is waiting, performs a command that it has taken, or comes
to the end of them. It ends when nothing is waiting and the log is to be shut down. -/
def tick (s : Running) : Running :=
  match s.ended, s.batch with
  | true, _ => s
  | false, some (c :: rest) =>
    { s with journal := (s.journal.perform c).1, batch := some rest }.release c
      (s.journal.perform c).2
  | false, some [] => { s with journal := s.journal.tellDropped, batch := none }
  | false, none =>
    if ¬ s.journal.queue.isEmpty then
      { s with journal := s.journal.take.1, batch := some s.journal.take.2 }
    else if s.journal.isShutDown then
      { s with journal := s.journal.conclude, ended := true, wait := .nothing }.answer .unit
    else s

/-- The caller makes its next call, unless it waits. -/
def advance (s : Running) : Running :=
  match s.wait, s.todo with
  | .nothing, c :: rest => { s with made := s.made ++ [c], todo := rest }.call c
  | _, _ => s

def step (s : Running) : Turn → Running
  | .caller => s.advance
  | .worker => s.tick
  | .clock stamp => { s with journal.stamp := stamp }

def run (s : Running) (ts : List Turn) : Running := ts.foldl step s

end Running

end Telemetry.Log
