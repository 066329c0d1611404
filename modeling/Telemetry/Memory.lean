import Telemetry.Fault

namespace Telemetry

structure Write where
  region : Nat
  offset : Nat
  bytes : List Byte
  deriving DecidableEq, Repr

structure Memory where
  byte : Nat → Nat → Byte

namespace Memory

def zero : Memory := ⟨fun _ _ => 0⟩

instance : Inhabited Memory := ⟨zero⟩

def store (m : Memory) (w : Write) : Memory :=
  ⟨fun r i =>
    if r = w.region ∧ w.offset ≤ i then (w.bytes[i - w.offset]?).getD (m.byte r i)
    else m.byte r i⟩

def storeAll (m : Memory) (ws : List Write) : Memory := ws.foldl store m

def load (m : Memory) (r i n : Nat) : List Byte := (List.range n).map fun k => m.byte r (i + k)

def clearFrom (m : Memory) (r i : Nat) : Memory :=
  ⟨fun r' j => if r' = r ∧ i ≤ j then 0 else m.byte r' j⟩

@[simp] theorem storeAll_nil (m : Memory) : m.storeAll [] = m := rfl

theorem storeAll_append (m : Memory) (ws us : List Write) :
    m.storeAll (ws ++ us) = (m.storeAll ws).storeAll us := List.foldl_append

@[simp] theorem length_load (m : Memory) (r i n : Nat) : (m.load r i n).length = n := by
  simp [load]

theorem byte_store (m : Memory) (w : Write) (r i : Nat) :
    (m.store w).byte r i =
      if r = w.region ∧ w.offset ≤ i then (w.bytes[i - w.offset]?).getD (m.byte r i)
      else m.byte r i := rfl

theorem load_store_self (m : Memory) (w : Write) :
    (m.store w).load w.region w.offset w.bytes.length = w.bytes := by
  apply List.ext_getElem (by simp)
  intro k h₁ h₂
  simp [load, byte_store, h₂]

theorem load_store_of_disjoint (m : Memory) (w : Write) {r i n : Nat}
    (h : r ≠ w.region ∨ i + n ≤ w.offset ∨ w.offset + w.bytes.length ≤ i) :
    (m.store w).load r i n = m.load r i n := by
  apply List.ext_getElem (by simp)
  intro k h₁ _
  have hk : k < n := by simpa using h₁
  simp only [load, List.getElem_map, List.getElem_range, byte_store]
  split
  · next hin =>
    have hout : w.bytes.length ≤ i + k - w.offset := by omega
    rw [List.getElem?_eq_none hout, Option.getD_none]
  · rfl

end Memory

abbrev Query (α : Type) := ReaderT Memory (Except Fault) α

/-- What an operation does: its writes in order, then its answer or the fault that ended it. -/
structure Plan (α : Type) where
  writes : List Write
  result : Except Fault α

def Action (α : Type) := Memory → Plan α

namespace Action

protected def pure (a : α) : Action α := fun _ => ⟨[], .ok a⟩

/-- The second operation sees the writes of the first; a fault ends the sequence. -/
protected def bind (x : Action α) (f : α → Action β) : Action β := fun m =>
  match x m with
  | ⟨ws, .ok a⟩ =>
    let p := f a (m.storeAll ws)
    ⟨ws ++ p.writes, p.result⟩
  | ⟨ws, .error e⟩ => ⟨ws, .error e⟩

instance : Monad Action where
  pure := Action.pure
  bind := Action.bind

def ofQuery (q : Query α) : Action α := fun m => ⟨[], q m⟩

instance : MonadLift Query Action := ⟨ofQuery⟩

def ofExcept (x : Except Fault α) : Action α := fun _ => ⟨[], x⟩

instance : MonadLift (Except Fault) Action := ⟨ofExcept⟩

def refuse (e : Fault) : Action α := ofExcept (.error e)

def write (w : Write) : Action Unit := fun _ => ⟨[w], .ok ()⟩

def run (x : Action α) (m : Memory) : Memory × Except Fault α :=
  let p := x m
  (m.storeAll p.writes, p.result)

end Action

end Telemetry
