import Telemetry.Shared.Namespace

namespace Telemetry.Shared

structure Buffer where
  name : Text
  mapping : Option Mapping
  owner : Bool
  deriving DecidableEq, Repr

namespace Buffer

variable [Platform]

def view (b : Buffer) : View := viewOf b.mapping

def length (b : Buffer) : Nat := b.mapping.elim 0 Mapping.size

/-- Creates a zeroed segment; a name in use is taken over. -/
def create (s : Namespace) (name : Text) (length : Nat) : Namespace × Except Fault Buffer :=
  let g := s.create name length false true
  (g.space,
    match g.result with
    | .ok p => .ok ⟨name, some p, true⟩
    | .error e => .error (.segmentNotCreated name length e))

def attach (s : Namespace) (name : Text) : Except Fault Buffer :=
  match s.attach name with
  | .ok p => .ok ⟨name, some p, false⟩
  | .error e => .error (.segmentNotAttached name e)

def emptied (_ : Buffer) : Buffer := ⟨[], none, false⟩

/-- The end of a buffer: an owner removes the name, whoever has it by then. -/
def release (b : Buffer) (s : Namespace) : Namespace := if b.owner then s.unlink b.name else s

end Buffer

end Telemetry.Shared
