import Telemetry.Proofs.Counters.Capacity

namespace Telemetry.Counters

namespace Registry

variable {r r' : Registry} {m m' m₁ : Memory} {id now : Int} {q : Request} {e : Fault} {n : Nat}

theorem spare_append (r : Registry) (id now : Int) (m : Memory) :
    ({ r with freed := r.freed ++ [id] } : Registry).spare now m =
      r.spare now m + if r.monitor.deadlineOf id m ≤ now then 1 else 0 := by
  simp only [spare, List.countP_append, List.countP_singleton, decide_eq_true_eq, Nat.add_assoc]

theorem spare_mono (h : ∀ j ∈ r.freed, r.monitor.deadlineOf j m ≤ now →
    r.monitor.deadlineOf j m' ≤ now) : r.spare now m ≤ r.spare now m' := by
  have hcount : r.freed.countP (fun j => r.monitor.deadlineOf j m ≤ now) ≤
      r.freed.countP (fun j => r.monitor.deadlineOf j m' ≤ now) :=
    List.countP_mono_left fun j hj hready => by
      simp only [decide_eq_true_eq] at hready ⊢
      exact h j hj hready
  simp only [spare]
  omega

/-- An allocation took an id and ended with a fault: that of filling the record. The record is the
only one that changed, it was released to be used again at zero, and its id is freed last. -/
structure Withdraws (r : Registry) (now : Int) (m : Memory) (q : Request) (r' : Registry) (id : Int)
    (m₁ : Memory) (e : Fault) (o : Outcome Int) : Prop where
  taken : r.Taken now m r' id m₁
  memory : m₁ = m.storeAll (r.takeId now m).writes
  fault : (r'.publish (Record.offset id) q m₁).result = .error e
  result : o.result = .error e
  registry : o.registry = { r' with freed := r'.freed ++ [id] }
  record : (r.monitor.record id).Confines m₁ (o.memory m)
  released : r.monitor.Released id 0 (o.memory m)

theorem withdraws_of_error (hp : r.monitor.Paired) (hb : r.Bounded)
    (htake : (r.takeId now m).result = .ok (r', id))
    (he : (r.allocate now q m).result = .error e) :
    ∃ m₁, r.Withdraws now m q r' id m₁ e (r.allocate now q m) := by
  obtain ⟨m₁, hrun, htaken⟩ := taken_of_takeId hp hb.hasId htake
  have hmon := htaken.monitor_eq
  have hp' : r'.monitor.Paired := hmon ▸ hp
  have hid : r'.monitor.HasId id := hmon ▸ htaken.hasId hb.hasId
  rcases hpub : (r'.publish (Record.offset id) q).run m₁ with ⟨m₂, e' | _⟩
  · obtain ⟨m₃, hwith, hreleased, -⟩ := run_withdraw hp' hid m₂
    obtain ⟨hregistry, hmemory, hresult⟩ := allocate_of_withdraw hrun hpub hwith
    have hrecord : (r'.monitor.record id).Confines m₁ m₃ :=
      ((publish_within (Record.offset id) q).confines_of_run hpub).trans
        ((withdraw_within (Record.offset id)).confines_of_run hwith)
    rw [hresult] at he
    cases he
    rw [hmon] at hrecord hreleased
    exact ⟨m₁, htaken, (Prod.mk.inj hrun).1.symm, (Prod.mk.inj hpub).2, hresult, hregistry,
      hmemory ▸ hrecord, hmemory ▸ hreleased⟩
  · have hok := (allocate_of_publish hrun hpub).2.2
    rw [hok] at he
    cases he

theorem withdraws_cut_of_error (h : r.monitor.Spans n) (hb : (r.cut n).Bounded)
    (htake : (r.takeId now m).result = .ok (r', id))
    (he : (r.allocate now q m).result = .error e) :
    ∃ m₁, (r.cut n).Withdraws now m q (r'.cut n) id m₁ e ((r.allocate now q m).cut n) := by
  have hcut := allocate_cut h hb.hasId now q m
  have htake' : ((r.cut n).takeId now m).result = .ok (r'.cut n, id) := by
    rw [takeId_cut h hb.hasId, htake]
    rfl
  have he' : ((r.cut n).allocate now q m).result = .error e := by
    rw [hcut]
    exact he
  rw [← hcut]
  exact withdraws_of_error h.paired hb htake' he'

namespace Withdraws

variable {o : Outcome Int} (h : r.Withdraws now m q r' id m₁ e o)
include h

theorem spare_eq : o.registry.spare now (o.memory m) =
    r'.spare now (o.memory m) + if 0 ≤ now then 1 else 0 := by
  rw [h.registry, spare_append, h.taken.monitor_eq, h.released.deadline]

variable (hp : r.monitor.Paired) (hb : r.Bounded)
include hp hb

theorem deadline_eq {j : Int} (hj : j ∈ r'.freed) (hne : j ≠ id) :
    r'.monitor.deadlineOf j (o.memory m) = r'.monitor.deadlineOf j m₁ := by
  have hids := (h.taken.bounded hb).hasId
  rw [h.taken.monitor_eq] at hids ⊢
  exact Monitor.recordWordOf_congr (by decide) (Monitor.record_of_record hp
    (h.taken.hasId hb.hasId) (hids j hj) (Ne.symm hne) h.record)

theorem spare_le (hnow : 0 ≤ now) : r.spare now m ≤ o.registry.spare now (o.memory m) := by
  have htaken := h.taken.spare_eq hp hb
  -- if the id is freed twice then the other place counts now, too
  have hmono : r'.spare now m₁ ≤ r'.spare now (o.memory m) := by
    refine spare_mono fun j hj hready => ?_
    by_cases hne : j = id
    · rw [hne, h.taken.monitor_eq, h.released.deadline]
      exact hnow
    · rwa [h.deadline_eq hp hb hj hne]
  rw [h.spare_eq, if_pos hnow]
  omega

theorem spare_lt (hnow : now < 0) : o.registry.spare now (o.memory m) < r.spare now m := by
  have htaken := h.taken.spare_eq hp hb
  -- if the id is freed twice then neither place counts any more
  have hmono : r'.spare now (o.memory m) ≤ r'.spare now m₁ := by
    refine spare_mono fun j hj hready => ?_
    by_cases hne : j = id
    · rw [hne, h.taken.monitor_eq, h.released.deadline] at hready
      omega
    · rwa [h.deadline_eq hp hb hj hne] at hready
  rw [h.spare_eq, if_neg (by omega)]
  omega

/-- As long as an id is freed once, no other capacity comes or goes. -/
theorem spare_add_eq (habsent : id ∉ r'.freed) :
    o.registry.spare now (o.memory m) + (if 0 ≤ now then 0 else 1) = r.spare now m := by
  have htaken := h.taken.spare_eq hp hb
  have hsame : r'.spare now (o.memory m) = r'.spare now m₁ :=
    spare_congr fun j hj => h.deadline_eq hp hb hj fun heq => habsent (heq ▸ hj)
  rw [h.spare_eq, hsame]
  split <;> omega

end Withdraws

/-- What a failed allocation does to the number of counters that are available at its time: none is
lost if the time is not negative, and one or more otherwise. The next labelled counter can be
allocated if any is left. -/
structure Rollback (r : Registry) (now : Int) (q : Request) (m : Memory) (before after : Nat) :
    Prop where
  available : r.available now m = .ok (before : Int)
  left : (r.allocate now q m).registry.available now ((r.allocate now q m).memory m) =
    .ok (after : Int)
  taken : 0 < before
  kept : 0 ≤ now → before ≤ after
  lost : now < 0 → after < before
  next : ∀ type label, (∃ id, ((r.allocate now q m).registry.allocate now (.labelled type label)
    ((r.allocate now q m).memory m)).result = .ok id) ↔ 0 < after

theorem rollback_of_error (h : r.monitor.Spans n) (hb : (r.cut n).Bounded)
    (htake : (r.takeId now m).result = .ok (r', id))
    (he : (r.allocate now q m).result = .error e) :
    ∃ before after, r.Rollback now q m before after ∧
      (id ∉ r'.freed → after + (if 0 ≤ now then 0 else 1) = before) := by
  obtain ⟨m₁, hwith⟩ := withdraws_cut_of_error h hb htake he
  have hleft := (allocate_change h.paired hb.hasId now q m).bounded hb
  rw [allocate_cut h hb.hasId] at hleft
  have htaken := hwith.taken.spare_eq h.paired hb
  have hspans : (r.allocate now q m).registry.monitor.Spans n := by
    rw [allocate_monitor_eq]
    exact h
  refine ⟨_, _, ⟨available_eq_of_spans h hb now m, available_eq_of_spans hspans hleft now _,
    by omega, hwith.spare_le h.paired hb, hwith.spare_lt h.paired hb,
    fun type label => allocate_labelled_iff_of_spans hspans hleft type label⟩,
    hwith.spare_add_eq h.paired hb⟩

end Registry

namespace Session

open Registry

variable {r₀ : Registry} {m₀ : Memory}

/-- After every run, whatever the memory holds: a failed allocation costs no capacity as long as the
time is not negative, and some at a negative time. If the metadata were zeros at first, and nobody
else wrote to them, then it costs just the id that it took, and nothing is gained either. -/
theorem run_rollback (made : r₀.Made) (clock : Clock) (wallTime : Int) (m₀ : Memory)
    (calls : List Call) :
    ∃ s r m, (create r₀.monitor (some r₀) clock).run wallTime m₀ calls = (s, m) ∧
      s.registry = some r ∧ ∀ now q r' id e, (r.takeId now m).result = .ok (r', id) →
        (r.allocate now q m).result = .error e →
          ∃ before after, r.Rollback now q m before after ∧
            (r₀.monitor.metadata.bytes m₀ = List.replicate r₀.monitor.metadata.capacity 0 →
              (∀ c ∈ calls, c.Regular) → after + (if 0 ≤ now then 0 else 1) = before) := by
  obtain ⟨n, h⟩ := made.spans
  obtain ⟨r, hon, hmon, hb⟩ :=
    run_bounded h (on_create r₀ clock) (made.bounded n) wallTime m₀ calls
  have hspans : r.monitor.Spans n := hmon ▸ h
  refine ⟨_, r, _, rfl, hon.registry, fun now q r' id e htake he => ?_⟩
  obtain ⟨before, after, hrollback, hexact⟩ := rollback_of_error hspans hb htake he
  refine ⟨before, after, hrollback, fun blank regular => hexact ?_⟩
  -- settled ids are freed once, so that the id that was taken is freed no more
  obtain ⟨r₁, hon₁, -, hc⟩ := run_settled made h blank clock wallTime calls regular
  rw [← hon.unique hon₁] at hc
  obtain ⟨m₁, hwith⟩ := withdraws_cut_of_error hspans hb htake he
  exact (hwith.taken.limbo hspans.paired hc).absent

end Session

def Registry.single : Registry := ⟨⟨⟨0, 0, 512⟩, ⟨1, 0, 128⟩, .ascii⟩, 0, 0, []⟩

theorem Registry.single_made : single.Made :=
  ⟨create_eq_ok_iff.2 ⟨rfl, by decide, by decide, rfl⟩, by decide⟩

/-- A request whose key cannot be written. -/
def Request.doomed : Request := .keyed 1 [97] (.ofList [.putBytes 0 [7], .raise []])

theorem Session.run_rollback_single : Registry.single.Made ∧
    (Registry.single.takeId (-1) Memory.zero).result =
      .ok ({ Registry.single with issued := 1 }, 0) ∧
    (Registry.single.allocate (-1) .doomed Memory.zero).result = .error (.raised []) ∧
    ∃ before after, Registry.single.Rollback (-1) .doomed Memory.zero before after ∧
      after + 1 = before := by
  obtain ⟨s, r, m, hrun, hr, hall⟩ :=
    run_rollback Registry.single_made (.manual (-1)) 0 Memory.zero []
  cases hrun
  cases hr
  obtain ⟨before, after, hrollback, hexact⟩ := hall (-1) .doomed _ 0 _ rfl rfl
  exact ⟨Registry.single_made, rfl, rfl, before, after, hrollback,
    hexact (View.bytes_zero _) (List.forall_mem_nil _)⟩

/-- Before zero the id of a failed allocation is not available again, and nothing else is. -/
theorem Registry.allocate_doomed_before_zero :
    let o := single.allocate (-1) .doomed Memory.zero
    single.available (-1) Memory.zero = .ok 1 ∧ o.result = .error (.raised []) ∧
      o.registry.available (-1) (o.memory Memory.zero) = .ok 0 ∧
      (o.registry.allocate (-1) (.labelled 0 [98]) (o.memory Memory.zero)).result =
        .error (.registryFull 0) := by
  decide +kernel

end Telemetry.Counters
