import Telemetry.Reply

namespace Telemetry

/-- A guard of a numbered action. A guard that has come to its end stays, as it is, until its action
returns. -/
structure Guard where
  action : Nat
  active : Bool
  ending : Bool
  deriving DecidableEq, Repr

namespace Guard

def dismiss (g : Guard) : Guard := { g with active := false }

def handedOn (g : Guard) : Guard := { g with ending := false }

def due (g : Guard) : List Nat := if g.active then [g.action] else []

/-- A guard without an action to run is gone at once. No program ends a guard twice. -/
def finish (g : Guard) : Option Guard :=
  if g.active ∨ g.ending then some { g with ending := true } else none

def dueAtEnd (g : Guard) : List Nat := if g.ending then [] else g.due

def leave (g : Guard) : Option Guard := if g.ending then none else some g

end Guard

structure Guards where
  /-- Guards in the order of their creation; one that is gone leaves its number unused. -/
  guards : List (Option Guard)
  actions : Nat
  runs : List Nat
  deriving DecidableEq, Repr

namespace Guards

-- A run of an action is the command that begins it. What the action does in its turn, to its own
-- guard or to others, are commands that follow.
inductive Command
  | create
  | move (g : Nat)
  | dismiss (g : Nat)
  | invoke (g : Nat)
  | isActive (g : Nat)
  /-- The guard comes to its end: at the end of its scope, or when the scope is left by a fault. -/
  | finish (g : Nat)
  /-- The action that ran for the end of the guard has returned. -/
  | leave (g : Nat)
  deriving DecidableEq, Repr

def empty : Guards := ⟨[], 0, []⟩

def get? (s : Guards) (g : Nat) : Option Guard := (s.guards[g]?).join

def alter (s : Guards) (g : Nat) (become : Guard → Option Guard) : Guards :=
  { s with guards := s.guards.set g ((s.get? g).bind become) }

def run (s : Guards) (due : List Nat) : Guards := { s with runs := s.runs ++ due }

/-- Runs a command and answers. A command about a guard that is gone does nothing. -/
def step (s : Guards) : Command → Guards × Reply
  | .create =>
    ({ s with guards := s.guards ++ [some ⟨s.actions, true, false⟩], actions := s.actions + 1 },
      .number s.guards.length)
  | .move g =>
    let s' := s.alter g fun x => some x.dismiss
    ({ s' with guards := s'.guards ++ [(s.get? g).map Guard.handedOn] }, .number s.guards.length)
  | .dismiss g => (s.alter g fun x => some x.dismiss, .unit)
  | .invoke g =>
    -- dismissed before its action runs, so that the action cannot run again through it
    ((s.alter g fun x => some x.dismiss).run ((s.get? g).elim [] Guard.due), .unit)
  | .isActive g => (s, .flag ((s.get? g).elim false Guard.active))
  | .finish g =>
    -- still active while its action runs
    ((s.alter g Guard.finish).run ((s.get? g).elim [] Guard.dueAtEnd), .unit)
  | .leave g => (s.alter g Guard.leave, .unit)

def runAll (s : Guards) (cs : List Command) : Guards := cs.foldl (fun s c => (s.step c).1) s

def ending (g : Nat) : List Command := [.finish g, .leave g]

def finishAll (s : Guards) : Guards := s.runAll ((List.range s.guards.length).flatMap ending)

end Guards

end Telemetry
