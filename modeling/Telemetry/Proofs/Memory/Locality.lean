import Telemetry.Proofs.Memory.Footprint

namespace Telemetry

variable {α β : Type} {m m' : Memory} {v : View}

theorem View.bytes_storeAll_congr (ws : List Write) (h : v.bytes m = v.bytes m') :
    v.bytes (m.storeAll ws) = v.bytes (m'.storeAll ws) := by
  induction ws generalizing m m' with
  | nil => exact h
  | cons w rest ih =>
    apply ih
    apply View.bytes_ext
    intro i hi
    rw [Memory.byte_store, Memory.byte_store, View.byte_eq_of_bytes_eq h hi]

/-- A question is answered by the bytes of a window. -/
def Query.Sees (q : Query α) (v : View) : Prop :=
  ∀ m m' : Memory, v.bytes m = v.bytes m' → q m = q m'

def Action.Sees (x : Action α) (v : View) : Prop :=
  ∀ m m' : Memory, v.bytes m = v.bytes m' → x m = x m'

theorem View.load_sees (v : View) (i n : Nat) : (v.load i n).Sees v := by
  intro m m' h
  by_cases hle : i + n ≤ v.capacity
  · rw [load_of_le hle, load_of_le hle, bytes_mono (slice_inside hle) h]
  · have hlt := Nat.lt_of_not_le hle
    rw [load_of_lt hlt, load_of_lt hlt]

theorem View.get_sees (v : View) (n i : Nat) : (v.get n i).Sees v := by
  intro m m' h
  change (v.load i n m >>= fun bs => .ok (Word.signed bs)) =
    (v.load i n m' >>= fun bs => .ok (Word.signed bs))
  rw [v.load_sees i n m m' h]

namespace Action

theorem sees_pure (a : α) : (pure a : Action α).Sees v := fun _ _ _ => rfl

theorem sees_ofExcept (y : Except Fault α) : (liftM y : Action α).Sees v := fun _ _ _ => rfl

theorem sees_refuse (e : Fault) : (refuse e : Action α).Sees v := fun _ _ _ => rfl

theorem sees_write (w : Write) : (write w).Sees v := fun _ _ _ => rfl

theorem sees_ofQuery {q : Query α} (h : q.Sees v) : (liftM q : Action α).Sees v := by
  intro m m' hm
  change Plan.mk [] (q m) = Plan.mk [] (q m')
  rw [h m m' hm]

theorem Sees.bind {x : Action α} {f : α → Action β} (hx : x.Sees v) (hf : ∀ a, (f a).Sees v) :
    (x >>= f).Sees v := by
  intro m m' hm
  change Action.bind x f m = Action.bind x f m'
  rw [Action.bind, Action.bind, ← hx m m' hm]
  rcases x m with ⟨ws, e | a⟩
  · rfl
  · dsimp only
    -- The second part starts from two memories that still agree.
    rw [hf a _ _ (View.bytes_storeAll_congr ws hm)]

end Action

open Telemetry.Action

theorem View.store_sees (u : View) (i : Nat) (bs : List Byte) : (u.store i bs).Sees v :=
  (sees_ofExcept _).bind fun _ => sees_write _

theorem View.put_sees (u : View) (n i : Nat) (x : Int) : (u.put n i x).Sees v :=
  View.store_sees u i _

theorem Access.run_sees (v : View) (a : Access) : (a.run v).Sees v := by
  cases a with
  | get n i => exact (sees_ofQuery (v.get_sees n i)).bind fun _ => sees_pure _
  | put n i x => exact (View.put_sees v n i x).bind fun _ => sees_pure _
  | getAndAdd n i x =>
    exact ((sees_ofQuery (v.get_sees n i)).bind fun _ => (View.put_sees v n i _).bind fun _ =>
      sees_pure _).bind fun _ => sees_pure _
  | getAndSet n i x =>
    exact ((sees_ofQuery (v.get_sees n i)).bind fun _ => (View.put_sees v n i x).bind fun _ =>
      sees_pure _).bind fun _ => sees_pure _
  | compareAndSet n i e x =>
    refine ((sees_ofQuery (v.get_sees n i)).bind fun old => ?_).bind fun _ => sees_pure _
    split
    · exact (View.put_sees v n i x).bind fun _ => sees_pure _
    · exact sees_pure _
  | getBytes i n => exact (sees_ofQuery (v.load_sees i n)).bind fun _ => sees_pure _
  | getText i n => exact (sees_ofQuery (v.load_sees i n)).bind fun _ => sees_pure _
  | putBytes i bs => exact (View.store_sees v i bs).bind fun _ => sees_pure _
  | putAscii i t =>
    exact ((View.store_sees v i _).bind fun _ => sees_pure _).bind fun _ => sees_pure _
  | fill i n b =>
    exact ((sees_ofExcept _).bind fun _ => View.store_sees v i _).bind fun _ => sees_pure _
  | check i n => exact (sees_ofExcept _).bind fun _ => sees_pure _
  | capacity => exact sees_pure _
  | requireAligned => exact (sees_ofExcept _).bind fun _ => sees_pure _
  | raise e => exact sees_refuse _

theorem Script.run_sees (v : View) (k : Script) : (k.run v).Sees v := by
  induction k with
  | done => exact sees_pure _
  | step a next ih => exact (a.run_sees v).bind ih

theorem Action.Sees.bytes_run {x : Action α} (hx : x.Sees v) (h : v.bytes m = v.bytes m') :
    v.bytes (x.run m).1 = v.bytes (x.run m').1 := by
  rw [run_fst, run_fst, ← hx m m' h]
  exact View.bytes_storeAll_congr _ h

end Telemetry
