import Telemetry.Reply
import Telemetry.View

namespace Telemetry

inductive Access
  | get (n i : Nat)
  | put (n i : Nat) (x : Int)
  | getAndAdd (n i : Nat) (x : Int)
  | getAndSet (n i : Nat) (x : Int)
  | compareAndSet (n i : Nat) (expected x : Int)
  | getBytes (i count : Nat)
  | getText (i count : Nat)
  | putBytes (i : Nat) (bs : List Byte)
  | putAscii (i : Nat) (t : Text)
  | fill (i count : Nat) (b : Byte)
  | check (i count : Nat)
  | capacity
  | requireAligned
  | raise (message : Text)
  deriving DecidableEq, Repr

namespace Access

def run (v : View) : Access → Action Reply
  | get n i => do return .number (← v.get n i)
  | put n i x => do v.put n i x; return .unit
  | getAndAdd n i x => do return .number (← v.getAndAdd n i x)
  | getAndSet n i x => do return .number (← v.getAndSet n i x)
  | compareAndSet n i e x => do return .flag (← v.compareAndSet n i e x)
  | getBytes i n => do return .bytes (← v.load i n)
  | getText i n => do return .text (← v.load i n)
  | putBytes i bs => do v.store i bs; return .unit
  | putAscii i t => do return .number (← v.putAscii i t)
  | fill i n b => do v.fill i n b; return .unit
  | check i n => do v.check i n; return .unit
  | capacity => return .number v.capacity
  | requireAligned => do v.requireAligned; return .unit
  | raise m => Action.refuse (.raised m)

end Access

/-- A program of accesses to a view in which each access may depend on the replies so far.
Assumption of scripts: whoever writes a key does nothing else to the registry that the key belongs
to; it asks nothing of it until the key is written. -/
inductive Script
  | done
  | step (a : Access) (next : Reply → Script)

namespace Script

/-- Runs accesses until one is refused or none is left. -/
def run (v : View) : Script → Action Unit
  | done => return ()
  | step a next => do
    let r ← a.run v
    (next r).run v

def ofList : List Access → Script
  | [] => done
  | a :: rest => step a fun _ => ofList rest

end Script

end Telemetry
