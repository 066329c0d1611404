import Telemetry.Proofs.Memory.Refusal
import Telemetry.Proofs.View.Range

namespace Telemetry

variable {α β : Type}

/-- An operation that ends with a fault has written nothing. -/
def Action.Atomic (x : Action α) : Prop := ∀ m e, (x m).result = .error e → (x m).writes = []

namespace Action

theorem atomic_pure (a : α) : (pure a : Action α).Atomic := fun _ _ _ => rfl

theorem atomic_refuse (e : Fault) : (refuse e : Action α).Atomic := fun _ _ _ => rfl

theorem Faults.atomic {x : Action α} (h : x.Faults fun _ => False) : x.Atomic :=
  fun m e he => (h m e he).elim

theorem atomic_ofQuery_bind {q : Query α} {f : α → Action β} (hf : ∀ a, (f a).Atomic) :
    (liftM q >>= f : Action β).Atomic := by
  intro m e he
  cases hq : q m with
  | error e' => rw [bind_refused _ (ofQuery_refused hq)]
  | ok a =>
    rw [ofQuery_bind_ok _ hq] at he ⊢
    exact hf a m e he

theorem atomic_ofExcept_bind {y : Except Fault α} {f : α → Action β}
    (hf : ∀ a, y = .ok a → (f a).Atomic) : (liftM y >>= f : Action β).Atomic := by
  cases y with
  | error e => exact fun _ _ _ => rfl
  | ok a => exact hf a rfl

theorem Atomic.bind {x : Action α} {f : α → Action β} (hx : x.Atomic)
    (hf : ∀ a, (f a).Faults fun _ => False) : (x >>= f).Atomic := by
  intro m e he
  rcases hplan : x m with ⟨ws, e' | a⟩
  · have hnone : ws = [] := by
      have hwrites := hx m e' (by rw [hplan])
      rwa [hplan] at hwrites
    subst hnone
    rw [bind_refused _ hplan]
  · rw [bind_plan _ hplan] at he
    exact (hf a _ e he).elim

end Action

namespace View

open Telemetry.Action

theorem store_atomic (v : View) (i : Nat) (bs : List Byte) : (v.store i bs).Atomic :=
  atomic_ofExcept_bind fun _ _ => (faults_of_run fun _ => ⟨_, _, rfl⟩).atomic

theorem put_atomic (v : View) (n i : Nat) (x : Int) : (v.put n i x).Atomic :=
  store_atomic v i _

theorem copyBytes_atomic (v : View) (i : Nat) (source : List Byte) (j n : Nat) :
    (v.copyBytes i source j n).Atomic := by
  refine atomic_ofExcept_bind fun _ _ => ?_
  split
  · exact store_atomic v i _
  · exact atomic_refuse _

theorem copyBytes_refused_source {v : View} {i j n : Nat} {source : List Byte}
    (h : i + n ≤ v.capacity) (h' : source.length < j + n) (m : Memory) :
    v.copyBytes i source j n m = ⟨[], .error (.outOfBounds j n source.length)⟩ := by
  rw [copyBytes, check_of_le h, if_neg (Nat.not_le.2 h')]
  rfl

end View

theorem Access.run_atomic (v : View) (a : Access) : (a.run v).Atomic := by
  intro m e he
  cases ha : a.range? with
  | none =>
    obtain ⟨answer, hrun⟩ := run_of_none ha v
    rw [hrun]
  | some p =>
    obtain ⟨i, n⟩ := p
    by_cases h : i + n ≤ v.capacity
    · rw [run_of_le ha h] at he
      cases he
    · rw [run_of_lt ha (Nat.lt_of_not_le h)]

end Telemetry
