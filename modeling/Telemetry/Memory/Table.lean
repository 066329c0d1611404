import Std.Data.HashMap
import Telemetry.Memory

namespace Telemetry

structure Table where
  bytes : Std.HashMap (Nat × Nat) Byte

namespace Table

def zero : Table := ⟨∅⟩

instance : Inhabited Table := ⟨zero⟩

def memory (t : Table) : Memory := ⟨fun r i => t.bytes.getD (r, i) 0⟩

def storeBytes (t : Table) (r : Nat) : Nat → List Byte → Table
  | _, [] => t
  | i, b :: rest => storeBytes ⟨t.bytes.insert (r, i) b⟩ r (i + 1) rest

def store (t : Table) (w : Write) : Table := t.storeBytes w.region w.offset w.bytes

def storeAll (t : Table) (ws : List Write) : Table := ws.foldl store t

def clearFrom (t : Table) (r i : Nat) : Table :=
  ⟨t.bytes.filter fun k _ => !(k.1 == r && decide (i ≤ k.2))⟩

theorem getD_storeBytes (t : Table) (r i : Nat) (bs : List Byte) (r' j : Nat) :
    (t.storeBytes r i bs).bytes.getD (r', j) 0 =
      if r' = r ∧ i ≤ j then (bs[j - i]?).getD (t.bytes.getD (r', j) 0)
      else t.bytes.getD (r', j) 0 := by
  induction bs generalizing t i with
  | nil => simp [storeBytes]
  | cons b rest ih =>
    rw [storeBytes, ih]
    simp only [Std.HashMap.getD_insert, beq_iff_eq, Prod.mk.injEq]
    by_cases hr : r' = r
    · subst hr
      by_cases hj : i + 1 ≤ j
      · have hi : i ≤ j := by omega
        have hn : ¬ i = j := by omega
        have hs : j - i = (j - (i + 1)) + 1 := by omega
        simp [hj, hi, hn, hs]
      · by_cases hi : i = j
        · subst hi
          have hn : ¬ i + 1 ≤ i := by omega
          simp [hn, -Nat.not_lt]
        · have hl : ¬ i ≤ j := by omega
          simp [hj, hl, hi]
    · have hr' : ¬ r = r' := fun h => hr h.symm
      simp [hr, hr']

theorem memory_store (t : Table) (w : Write) : (t.store w).memory = t.memory.store w := by
  simp only [memory, store, Memory.store, getD_storeBytes]

theorem memory_storeAll (t : Table) (ws : List Write) :
    (t.storeAll ws).memory = t.memory.storeAll ws := by
  induction ws generalizing t with
  | nil => rfl
  | cons w rest ih => exact (ih (t.store w)).trans (by rw [memory_store]; rfl)

end Table

end Telemetry
