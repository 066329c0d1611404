import Telemetry.Proofs.Memory.Footprint

namespace Telemetry

variable {α β : Type} {P : Fault → Prop} {m : Memory}

def Query.Faults (q : Query α) (P : Fault → Prop) : Prop := ∀ m e, q m = .error e → P e

def Action.Faults (x : Action α) (P : Fault → Prop) : Prop := ∀ m e, (x m).result = .error e → P e

/-- A fault that does not tell of a range. -/
def Fault.NoRange (e : Fault) : Prop := e.kind ≠ .outOfRange

theorem Fault.noRange_of_kind {e : Fault} (h : decide (e.kind = .outOfRange) = false) :
    e.NoRange := of_decide_eq_false h

namespace Query

theorem faults_of_ok {q : Query α} (h : ∀ m, ∃ a, q m = .ok a) : q.Faults P := by
  intro m e he
  obtain ⟨a, ha⟩ := h m
  rw [ha] at he
  nomatch he

theorem faults_pure (a : α) : (pure a : Query α).Faults P := fun _ _ h => nomatch h

theorem faults_throw {e : Fault} (h : P e) : (throw e : Query α).Faults P := by
  intro m e' he
  cases he
  exact h

theorem Faults.bind {q : Query α} {f : α → Query β} (hq : q.Faults P)
    (hf : ∀ a, (f a).Faults P) : (q >>= f).Faults P := by
  intro m e he
  change (q m >>= fun a => f a m) = .error e at he
  cases hqm : q m with
  | error e' =>
    rw [hqm] at he
    cases he
    exact hq m _ hqm
  | ok a =>
    rw [hqm] at he
    exact hf a m e he

end Query

namespace Action

theorem faults_pure (a : α) : (pure a : Action α).Faults P := fun _ _ h => nomatch h

theorem faults_ofQuery {q : Query α} (h : q.Faults P) : (liftM q : Action α).Faults P := h

theorem faults_ofExcept {y : Except Fault α} (h : ∀ e, y = .error e → P e) :
    (liftM y : Action α).Faults P := fun _ e he => h e he

theorem faults_refuse {e : Fault} (h : P e) : (refuse e : Action α).Faults P := by
  intro m e' he
  cases he
  exact h

theorem faults_of_run {x : Action α} (h : ∀ m, ∃ m' a, x.run m = (m', .ok a)) : x.Faults P := by
  intro m e he
  obtain ⟨m', a, hrun⟩ := h m
  have hok : (x m).result = .ok a := (Prod.mk.inj hrun).2
  rw [hok] at he
  nomatch he

theorem Faults.bind {x : Action α} {f : α → Action β} (hx : x.Faults P)
    (hf : ∀ a, (f a).Faults P) : (x >>= f).Faults P := by
  intro m e he
  change (Action.bind x f m).result = .error e at he
  have hm := hx m
  rcases hxm : x m with ⟨ws, e' | a⟩
  · simp only [Action.bind, hxm] at he hm
    cases he
    exact hm e rfl
  · simp only [Action.bind, hxm] at he
    exact hf a _ e he

end Action

namespace View

open Telemetry.Action

variable {v : View} {i n : Nat}

theorem get_faults (h : i + n ≤ v.capacity) : (v.get n i).Faults P :=
  Query.faults_of_ok fun m => ⟨_, get_of_le h m⟩

theorem load_faults (h : i + n ≤ v.capacity) : (v.load i n).Faults P :=
  Query.faults_of_ok fun m => ⟨_, load_of_le h m⟩

theorem store_faults {bs : List Byte} (h : i + bs.length ≤ v.capacity) :
    (v.store i bs).Faults P :=
  faults_of_run fun m => ⟨_, _, run_store h m⟩

theorem put_faults (h : i + n ≤ v.capacity) (x : Int) : (v.put n i x).Faults P :=
  faults_of_run fun m => ⟨_, _, run_put h x m⟩

theorem copyBytes_faults (h : i + n ≤ v.capacity) {source : List Byte} {j : Nat}
    (hP : source.length < j + n → P (.outOfBounds j n source.length)) :
    (v.copyBytes i source j n).Faults P := by
  refine (faults_ofExcept fun e he => ?_).bind fun _ => ?_
  · rw [check_of_le h] at he
    nomatch he
  · split
    · refine store_faults ?_
      rw [List.length_take]
      omega
    · next hlt => exact faults_refuse (hP (Nat.lt_of_not_le hlt))

/-- A fault names a range that does not lie in a window, or no range at all. -/
def Leaves (v : View) (e : Fault) : Prop :=
  e.kind = .outOfRange → ∃ i n, e = .outOfBounds i n v.capacity ∧ v.capacity < i + n

theorem check_leaves {e : Fault} (h : v.check i n = .error e) : v.Leaves e := by
  intro _
  by_cases hc : i + n ≤ v.capacity
  · rw [check_of_le hc] at h
    nomatch h
  · rw [check_of_lt (Nat.lt_of_not_le hc)] at h
    cases h
    exact ⟨i, n, rfl, Nat.lt_of_not_le hc⟩

theorem load_leaves (v : View) (i n : Nat) : (v.load i n).Faults v.Leaves :=
  Query.Faults.bind (fun _ _ h => check_leaves h) fun _ =>
    Query.faults_of_ok fun _ => ⟨_, rfl⟩

theorem get_leaves (v : View) (n i : Nat) : (v.get n i).Faults v.Leaves :=
  (load_leaves v i n).bind fun _ => Query.faults_pure _

theorem store_leaves (v : View) (i : Nat) (bs : List Byte) : (v.store i bs).Faults v.Leaves :=
  (faults_ofExcept fun _ h => check_leaves h).bind fun _ =>
    faults_of_run fun _ => ⟨_, _, rfl⟩

theorem put_leaves (v : View) (n i : Nat) (x : Int) : (v.put n i x).Faults v.Leaves :=
  store_leaves v i _

theorem requireAligned_leaves {e : Fault} (h : v.requireAligned = .error e) : v.Leaves e := by
  unfold requireAligned Bits.isAligned at h
  split at h
  · simp only [Except.bind, bind] at h
    split at h
    · nomatch h
    · cases h
      exact fun hkind => nomatch hkind
  · cases h
    exact fun hkind => nomatch hkind

end View

open Telemetry.Action View in
theorem Access.run_leaves (v : View) (a : Access) : (a.run v).Faults v.Leaves := by
  cases a with
  | get n i => exact (faults_ofQuery (get_leaves v n i)).bind fun _ => faults_pure _
  | put n i x => exact (put_leaves v n i x).bind fun _ => faults_pure _
  | getAndAdd n i x =>
    exact ((faults_ofQuery (get_leaves v n i)).bind fun _ =>
      (put_leaves v n i _).bind fun _ => faults_pure _).bind fun _ => faults_pure _
  | getAndSet n i x =>
    exact ((faults_ofQuery (get_leaves v n i)).bind fun _ =>
      (put_leaves v n i x).bind fun _ => faults_pure _).bind fun _ => faults_pure _
  | compareAndSet n i e x =>
    refine ((faults_ofQuery (get_leaves v n i)).bind fun old => ?_).bind fun _ => faults_pure _
    split
    · exact (put_leaves v n i x).bind fun _ => faults_pure _
    · exact faults_pure _
  | getBytes i n => exact (faults_ofQuery (load_leaves v i n)).bind fun _ => faults_pure _
  | getText i n => exact (faults_ofQuery (load_leaves v i n)).bind fun _ => faults_pure _
  | putBytes i bs => exact (store_leaves v i bs).bind fun _ => faults_pure _
  | putAscii i t =>
    exact ((store_leaves v i _).bind fun _ => faults_pure _).bind fun _ => faults_pure _
  | fill i n b =>
    exact ((faults_ofExcept fun _ h => check_leaves h).bind fun _ =>
      store_leaves v i _).bind fun _ => faults_pure _
  | check i n => exact (faults_ofExcept fun _ h => check_leaves h).bind fun _ => faults_pure _
  | capacity => exact faults_pure _
  | requireAligned =>
    exact (faults_ofExcept fun _ h => requireAligned_leaves h).bind fun _ => faults_pure _
  | raise t => exact faults_refuse fun hkind => nomatch hkind

theorem Script.run_leaves (v : View) (k : Script) : (k.run v).Faults v.Leaves := by
  induction k with
  | done => exact Action.faults_pure _
  | step a next ih => exact (a.run_leaves v).bind ih

end Telemetry
