import Telemetry.View.Access

namespace Telemetry

/-- Views by number, and how many heaps there are below them. -/
structure Family where
  views : List View
  heaps : Nat
  deriving DecidableEq, Repr

namespace Family

inductive Command
  | heap (size : UInt64)
  | empty
  /-- A view of a range of the first heap, with nothing checked. -/
  | span (offset length : UInt64)
  | cut (parent : Nat) (offset length : UInt64)
  /-- Points a view to a range of a view, which may be the same one. -/
  | wrap (b parent : Nat) (offset length : UInt64)
  /-- Points a view to a range of the first heap, with nothing checked. -/
  | rebind (b : Nat) (offset length : UInt64)
  | copy (b : Nat) (i : UInt64) (source : Nat) (j n : UInt64)
  | access (b : Nat) (a : Access)
  deriving DecidableEq, Repr

def ofHeap (size : UInt64) : Family := ⟨[⟨0, 0, size.toNat⟩], 1⟩

def viewAt (s : Family) (b : Nat) : View := s.views.getD b View.empty

def add (s : Family) (v : View) : Family × Reply :=
  ({ s with views := s.views ++ [v] }, .number s.views.length)

def set (s : Family) (b : Nat) (v : View) : Family × Reply :=
  ({ s with views := s.views.set b v }, .unit)

def step (s : Family) : Command → Action (Family × Reply)
  | .heap size => return { s with heaps := s.heaps + 1 }.add ⟨s.heaps, 0, size.toNat⟩
  | .empty => return s.add View.empty
  | .span offset length => return s.add ⟨0, offset.toNat, length.toNat⟩
  | .cut parent offset length => do
    return s.add (← (s.viewAt parent).sub offset.toNat length.toNat)
  | .wrap b parent offset length => do
    return s.set b (← (s.viewAt parent).sub offset.toNat length.toNat)
  | .rebind b offset length => return s.set b ⟨0, offset.toNat, length.toNat⟩
  | .copy b i source j n => do
    (s.viewAt b).copy i.toNat (s.viewAt source) j.toNat n.toNat
    return (s, .unit)
  | .access b a => do return (s, ← a.run (s.viewAt b))

/-- The family and the memory after a command, and its answer. A command that is refused leaves the
family as it is. -/
def perform (s : Family) (m : Memory) (c : Command) : Family × Memory × Except Fault Reply :=
  match (s.step c).run m with
  | (m, .ok (s, r)) => (s, m, .ok r)
  | (m, .error e) => (s, m, .error e)

end Family

end Telemetry
