import Telemetry.Word

namespace Telemetry

structure Host where
  process : Nat
  wallTime : Int
  hasProcess : Int → Bool

namespace Host

/-- Whether a process is running. Process numbers have 32 bits. Zero is no process; a number that is
cut to zero or to minus one means a group that the own process is in. -/
def isRunning (h : Host) (process : Nat) : Bool :=
  process != 0 &&
    (let p := Word.wrap 4 process
     p == 0 || p == -1 || h.hasProcess p)

end Host

end Telemetry
