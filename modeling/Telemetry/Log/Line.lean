import Telemetry.Calendar
import Telemetry.Log.Level

namespace Telemetry.Log

/-- A message with everything its line shows; the severity is a number that need not be known. -/
structure Entry where
  time : Int
  process : Nat
  thread : Nat
  level : Int
  body : Text
  deriving DecidableEq, Repr

open Text in
/-- The line `[time] [LEVEL ] [PID:n TID:n] body`. -/
def Entry.line (e : Entry) : Text :=
  ascii "[" ++ timeText e.time ++ ascii "] [" ++ padRight 6 (Level.tagOf e.level) ++ ascii "] [PID:"
    ++ padLeft 5 (natural e.process) ++ ascii " TID:" ++ padLeft 5 (natural e.thread) ++ ascii "] "
    ++ e.body ++ ascii "\n"

end Telemetry.Log
