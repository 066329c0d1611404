import Telemetry.Fault

namespace Telemetry

/-- A consumer is told how many elements it took before; it may refuse the next one. Assumption of
consumers: they do not call back, neither the ring that they empty nor the registry that a scan
watches. -/
abbrev Consumer (α : Type) := Nat → α → Option Fault

namespace Consumer

def all : Consumer α := fun _ _ => none

/-- Takes `limit` elements, if there is a limit, and refuses the next with a fault. -/
def upTo (limit : Option Nat) (e : Fault) : Consumer α := fun taken _ =>
  if limit = some taken then some e else none

end Consumer

end Telemetry
