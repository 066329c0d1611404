import Telemetry.Counters.Registry

namespace Telemetry.Counters

structure Handle where
  values : View
  id : Int
  managed : Bool
  closed : Bool
  deriving DecidableEq, Repr

namespace Handle

def offset (h : Handle) : Nat := Slot.offset h.id

def create (values : View) (id : Int) (managed : Bool) : Except Fault Handle := do
  values.check (Slot.offset id) Slot.length
  return ⟨values, id, managed, false⟩

/-- What is left of a handle that was moved from. -/
def emptied (h : Handle) : Handle := { h with managed := false, closed := true }

def disconnect (h : Handle) : Handle := { h with managed := false }

def get (h : Handle) : Query Int := h.values.get 8 h.offset

def set (h : Handle) (x : Int) : Action Unit := h.values.put 8 h.offset x

def getAndAdd (h : Handle) (x : Int) : Action Int := h.values.getAndAdd 8 h.offset x

def getAndSet (h : Handle) (x : Int) : Action Int := h.values.getAndSet 8 h.offset x

def compareAndSet (h : Handle) (expected x : Int) : Action Bool :=
  h.values.compareAndSet 8 h.offset expected x

def raiseTo (h : Handle) (x : Int) : Action Bool := do
  if (← h.get) < x then
    h.set x
    return true
  else
    return false

/-- The registry that a managed handle reaches its label through; other handles have none. -/
def manager (h : Handle) : Option Registry → Except Fault Registry
  | some r => if h.managed then .ok r else .error (.detachedHandle h.id)
  | none => .error (.detachedHandle h.id)

def label (h : Handle) (r : Option Registry) : Query Text := do
  (← h.manager r).monitor.label h.id

def setLabel (h : Handle) (r : Option Registry) (t : Text) : Action Unit := do
  (← h.manager r).setLabel h.id t

def appendLabel (h : Handle) (r : Option Registry) (t : Text) : Action Unit := do
  (← h.manager r).appendLabel h.id t

def owns (h : Handle) : Bool := h.managed && !h.closed

def close (h : Handle) : Handle := { h with closed := true }

end Handle

end Telemetry.Counters
