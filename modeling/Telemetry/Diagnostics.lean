import Telemetry.Text

namespace Telemetry.Diagnostics

/-- A place in a source; the names end at their first zero byte. -/
structure Place where
  file : Text
  line : Nat
  function : Text
  deriving DecidableEq, Repr

def Place.text (p : Place) : Text :=
  Text.fileName p.file.beforeNul ++ ascii ":" ++ Text.natural p.line ++ ascii ":"
    ++ p.function.beforeNul

structure Outcome where
  code : Nat
  err : Text
  deriving DecidableEq, Repr

def traceHeading : Text := ascii "Stack Trace (most recent call first):\n"

def message (t : Text) : Outcome := ⟨0, ascii "[DBG]  " ++ t ++ ascii "\n"⟩

def trace : Outcome := ⟨0, traceHeading⟩

def abortCode : Nat := 134

def panic (p : Place) (t : Text) : Outcome :=
  ⟨abortCode, ascii "[PANIC] " ++ p.text ++ ascii " -- " ++ t ++ ascii "\n" ++ traceHeading⟩

end Telemetry.Diagnostics
