import Telemetry.Text

namespace Telemetry.Log

inductive Level
  | trace
  | debug
  | info
  | warning
  | error
  | system
  deriving DecidableEq, Repr

namespace Level

def number : Level → Nat
  | trace => 0
  | debug => 1
  | info => 2
  | warning => 3
  | error => 4
  | system => 5

def tag : Level → Text
  | trace => ascii "TRACE"
  | debug => ascii "DEBUG"
  | info => ascii "INFO"
  | warning => ascii "WARN"
  | error => ascii "ERROR"
  | system => ascii "SYSTEM"

def all : List Level := [trace, debug, info, warning, error, system]

def ofNumber? (n : Int) : Option Level := all.find? fun l => (l.number : Int) = n

def tagOf (n : Int) : Text := (ofNumber? n).elim (ascii "UNK") tag

/-- The severity with a name, in any case of letters; a warning has two names. -/
def ofName? (name : Text) : Option Level :=
  let t := Text.lower name
  if t = ascii "trace" then some trace
  else if t = ascii "debug" then some debug
  else if t = ascii "info" then some info
  else if t = ascii "warn" ∨ t = ascii "warning" then some warning
  else if t = ascii "error" then some error
  else if t = ascii "system" then some system
  else none

end Level

end Telemetry.Log
