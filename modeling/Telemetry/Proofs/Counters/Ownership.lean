import Mathlib.Data.List.Nodup
import Telemetry.Proofs.Counters.Session

namespace Telemetry.Counters

def Monitor.inUse (w : Monitor) (m : Memory) : List Int :=
  ((List.range w.slots).map Int.ofNat).filter fun id => w.stateOf id m = Record.allocated

theorem Monitor.mem_inUse {w : Monitor} {m : Memory} {id : Int} :
    id ∈ w.inUse m ↔ w.HasId id ∧ w.stateOf id m = Record.allocated := by
  have hrange : id ∈ (List.range w.slots).map Int.ofNat ↔ w.HasId id := by
    rw [List.mem_map, HasId]
    constructor
    · rintro ⟨k, hk, rfl⟩
      exact ⟨Int.natCast_nonneg k, Int.ofNat_lt.2 (List.mem_range.1 hk)⟩
    · rintro ⟨h₀, h₁⟩
      exact ⟨id.toNat, List.mem_range.2 (by omega), Int.toNat_of_nonneg h₀⟩
  rw [inUse, List.mem_filter, hrange, decide_eq_true_eq]

namespace Registry

/-- An id is in use and not freed, or given back and freed once. -/
def Settled (r : Registry) (m : Memory) (id : Int) : Prop :=
  (r.monitor.stateOf id m = Record.allocated ∧ id ∉ r.freed) ∨
    (r.monitor.stateOf id m = Record.reclaimed ∧ r.freed.count id = 1)

/-- Every id is settled if it was issued, and unused if not. -/
structure Coherent (r : Registry) (m : Memory) : Prop where
  issued_le : r.issued ≤ r.monitor.slots
  settled : ∀ id : Int, 0 ≤ id → id < r.issued → r.Settled m id
  unused : ∀ id : Int, r.issued ≤ id → id < r.monitor.slots →
    r.monitor.stateOf id m = Record.unused
  freed : ∀ id ∈ r.freed, 0 ≤ id ∧ id < r.issued

/-- All is settled but for one id that was issued and is not freed. -/
structure Limbo (r : Registry) (m : Memory) (id : Int) : Prop where
  issued_le : r.issued ≤ r.monitor.slots
  settled : ∀ j : Int, 0 ≤ j → j < r.issued → j ≠ id → r.Settled m j
  unused : ∀ j : Int, r.issued ≤ j → j < r.monitor.slots →
    r.monitor.stateOf j m = Record.unused
  freed : ∀ j ∈ r.freed, 0 ≤ j ∧ j < r.issued
  issued : 0 ≤ id ∧ id < r.issued
  absent : id ∉ r.freed

variable {r r' : Registry} {m m' : Memory} {id now : Int}

theorem Starts.coherent (h : r.Starts m) : r.Coherent m := by
  have hissued := h.issued_eq
  have hfreed := h.freed_eq
  refine ⟨by omega, fun id _ _ => by omega, fun id h₀ h₁ => ?_, fun id hid => ?_⟩
  · exact h.recordWordOf_eq ⟨by omega, h₁⟩ (by decide)
  · rw [hfreed] at hid
    nomatch hid

namespace Coherent

theorem hasId (h : r.Coherent m) : ∀ id ∈ r.freed, r.monitor.HasId id := by
  intro id hid
  obtain ⟨h₀, h₁⟩ := h.freed id hid
  have hle := h.issued_le
  exact ⟨h₀, by omega⟩

theorem count_freed (h : r.Coherent m) (hid : id ∈ r.freed) :
    r.monitor.stateOf id m = Record.reclaimed ∧ r.freed.count id = 1 := by
  obtain ⟨h₀, h₁⟩ := h.freed id hid
  rcases h.settled id h₀ h₁ with ⟨_, habsent⟩ | hfreed
  · exact absurd hid habsent
  · exact hfreed

theorem of_inUse (h : r.Coherent m) (hid : r.monitor.HasId id)
    (hs : r.monitor.stateOf id m = Record.allocated) :
    (0 ≤ id ∧ id < r.issued) ∧ id ∉ r.freed := by
  have hissued : id < r.issued := by
    apply Int.lt_of_not_ge
    intro hge
    have hunused := h.unused id hge hid.2
    exact Record.unused_ne_allocated (hunused.symm.trans hs)
  rcases h.settled id hid.1 hissued with ⟨_, habsent⟩ | ⟨hreclaimed, _⟩
  · exact ⟨⟨hid.1, hissued⟩, habsent⟩
  · exact absurd (hs.symm.trans hreclaimed) Record.allocated_ne_reclaimed

theorem used (h : r.Coherent m) (h₀ : 0 ≤ id) (h₁ : id < r.issued) :
    r.monitor.stateOf id m ≠ Record.unused := by
  intro hs
  rcases h.settled id h₀ h₁ with ⟨huse, _⟩ | ⟨hfreed, _⟩
  · exact Record.unused_ne_allocated (hs.symm.trans huse)
  · exact Record.unused_ne_reclaimed (hs.symm.trans hfreed)

theorem congr (h : r.Coherent m)
    (hstates : ∀ id, r.monitor.HasId id → r.monitor.stateOf id m' = r.monitor.stateOf id m) :
    r.Coherent m' := by
  have hle := h.issued_le
  refine ⟨hle, fun id h₀ h₁ => ?_, fun id h₀ h₁ => ?_, h.freed⟩
  · rw [Settled, hstates id ⟨h₀, by omega⟩]
    exact h.settled id h₀ h₁
  · rw [hstates id ⟨by omega, h₁⟩]
    exact h.unused id h₀ h₁

end Coherent

theorem Coherent.limbo (h : r.Coherent m) (hid : r.monitor.HasId id)
    (hs : r.monitor.stateOf id m = Record.allocated) : r.Limbo m id :=
  ⟨h.issued_le, fun j h₀ h₁ _ => h.settled j h₀ h₁, h.unused, h.freed,
    (h.of_inUse hid hs).1, (h.of_inUse hid hs).2⟩

theorem Taken.limbo {m₁ : Memory} (ht : Taken r now m r' id m₁) (hp : r.monitor.Paired)
    (h : r.Coherent m) : r'.Limbo m₁ id := by
  have hle := h.issued_le
  cases ht with
  | @reused before after _ _ freed ready others slot blank =>
    have hmem : id ∈ r.freed := by rw [freed]; simp
    have hslot := (h.hasId id hmem).hasSlot hp
    have hstates : ∀ j, r.monitor.HasId j → r.monitor.stateOf j m₁ = r.monitor.stateOf j m :=
      fun j hj => Monitor.recordWordOf_congr (by decide) (Monitor.record_of_slot hp hslot hj slot)
    -- Only the count of the taken id changes, from one to none.
    have hcount := count_of_split freed
    refine ⟨hle, fun j h₀ h₁ hj => ?_, fun j h₀ h₁ => ?_, fun j hj => ?_, h.freed id hmem, ?_⟩
    · have hcj := hcount j
      rw [if_neg (Ne.symm hj), Nat.add_zero] at hcj
      change r.monitor.stateOf j m₁ = _ ∧ _ ∨ r.monitor.stateOf j m₁ = _ ∧ _
      rw [hstates j ⟨h₀, Int.lt_of_lt_of_le h₁ (Int.ofNat_le.2 hle)⟩, ← hcj,
        ← List.count_eq_zero, ← hcj, List.count_eq_zero]
      exact h.settled j h₀ h₁
    · change r.monitor.stateOf j m₁ = _
      rw [hstates j ⟨Int.le_trans (Int.natCast_nonneg _) h₀, h₁⟩]
      exact h.unused j h₀ h₁
    · refine h.freed j ?_
      rw [freed]
      simp only [List.mem_append, List.mem_cons] at hj ⊢
      rcases hj with hj | hj
      · exact .inl hj
      · exact .inr (.inr hj)
    · have honce := (h.count_freed hmem).2
      have hid := hcount id
      rw [honce, if_pos rfl] at hid
      have hnone : (before ++ after).count id = 0 := by omega
      exact List.count_eq_zero.1 hnone
  | fresh others room =>
    refine ⟨room, fun j h₀ h₁ hj => ?_, fun j h₀ h₁ => ?_, fun j hj => ?_, ?_, fun hid => ?_⟩
    · refine h.settled j h₀ ?_
      simp only [Int.natCast_add, Int.natCast_one] at h₁
      omega
    · refine h.unused j ?_ h₁
      simp only [Int.natCast_add, Int.natCast_one] at h₀
      omega
    · obtain ⟨h₀, h₁⟩ := h.freed j hj
      simp only [Int.natCast_add, Int.natCast_one]
      exact ⟨h₀, by omega⟩
    · exact ⟨Int.natCast_nonneg _, Int.ofNat_lt.2 (Nat.lt_succ_self _)⟩
    · exact absurd (h.freed _ hid).2 (Int.lt_irrefl _)

namespace Limbo

theorem hasId (h : r.Limbo m id) : r.monitor.HasId id := by
  have hle := h.issued_le
  have hissued := h.issued
  exact ⟨hissued.1, by omega⟩

theorem stateOf_eq (h : r.Limbo m id) (hp : r.monitor.Paired)
    (hc : (r.monitor.record id).Confines m m') {j : Int} (hj : r.monitor.HasId j) (hne : j ≠ id) :
    r.monitor.stateOf j m' = r.monitor.stateOf j m :=
  Monitor.recordWordOf_congr (by decide)
    (Monitor.record_of_record hp h.hasId hj (Ne.symm hne) hc)

theorem unused_of_record (h : r.Limbo m id) (hp : r.monitor.Paired)
    (hc : (r.monitor.record id).Confines m m') (j : Int) (h₀ : r.issued ≤ j)
    (h₁ : j < r.monitor.slots) : r.monitor.stateOf j m' = Record.unused := by
  have hissued := h.issued
  rw [h.stateOf_eq hp hc ⟨by omega, h₁⟩ (by omega)]
  exact h.unused j h₀ h₁

theorem publish (h : r.Limbo m id) (hp : r.monitor.Paired)
    (hc : (r.monitor.record id).Confines m m')
    (hs : r.monitor.stateOf id m' = Record.allocated) : r.Coherent m' := by
  have hle := h.issued_le
  refine ⟨hle, fun j h₀ h₁ => ?_, h.unused_of_record hp hc, h.freed⟩
  by_cases hj : j = id
  · subst hj
    exact .inl ⟨hs, h.absent⟩
  · rw [Settled, h.stateOf_eq hp hc ⟨h₀, by omega⟩ hj]
    exact h.settled j h₀ h₁ hj

theorem release (h : r.Limbo m id) (hp : r.monitor.Paired)
    (hc : (r.monitor.record id).Confines m m')
    (hs : r.monitor.stateOf id m' = Record.reclaimed) :
    ({ r with freed := r.freed ++ [id] } : Registry).Coherent m' := by
  have hle := h.issued_le
  refine ⟨hle, fun j h₀ h₁ => ?_, h.unused_of_record hp hc, fun j hj => ?_⟩
  · by_cases hj : j = id
    · subst hj
      refine .inr ⟨hs, ?_⟩
      rw [List.count_append, List.count_eq_zero.2 h.absent, List.count_singleton_self]
    · have hstate := h.stateOf_eq hp hc ⟨h₀, Int.lt_of_lt_of_le h₁ (Int.ofNat_le.2 hle)⟩ hj
      rcases h.settled j h₀ h₁ hj with ⟨huse, habsent⟩ | ⟨hfreed, honce⟩
      · refine .inl ⟨hstate.trans huse, fun hmem => ?_⟩
        rcases List.mem_append.1 hmem with hmem | hmem
        · exact habsent hmem
        · exact hj (List.mem_singleton.1 hmem)
      · refine .inr ⟨hstate.trans hfreed, ?_⟩
        have hnone : [id].count j = 0 :=
          List.count_eq_zero.2 fun hmem => hj (List.mem_singleton.1 hmem)
        rw [List.count_append, honce, hnone]
  · rcases List.mem_append.1 hj with hj | hj
    · exact h.freed j hj
    · exact List.mem_singleton.1 hj ▸ h.issued

end Limbo

theorem Change.coherent {d : Deed} {es : List Event} (hchange : r.Change now m d es r' m')
    (hp : r.monitor.Paired) (h : r.Coherent m) : r'.Coherent m' := by
  cases hchange with
  | quiet written =>
    exact h.congr fun id hid => Monitor.recordWordOf_of_header (by decide)
      (written.header_eq hp hid)
  | freed hasId inUse record released =>
    exact (h.limbo hasId inUse).release hp record released.state
  | published taken record inUse =>
    have hmon := taken.monitor_eq
    exact (taken.limbo hp h).publish (hmon ▸ hp) (hmon ▸ record) (hmon ▸ inUse)
  | withdrawn taken record released =>
    have hmon := taken.monitor_eq
    exact (taken.limbo hp h).release (hmon ▸ hp) (hmon ▸ record) (hmon ▸ released.state)

theorem Coherent.nodup_freed (h : r.Coherent m) : r.freed.Nodup := by
  rw [List.nodup_iff_count_eq_one]
  exact fun _ hid => (h.count_freed hid).2

/-- The ids in use and the freed ids together are the ids that were issued. -/
theorem Coherent.inUse_append_freed_perm (h : r.Coherent m) :
    (r.monitor.inUse m ++ r.freed).Perm ((List.range r.issued).map Int.ofNat) := by
  have hrange (n : Nat) : ((List.range n).map Int.ofNat).Nodup :=
    List.Nodup.map (fun _ _ => Int.ofNat.inj) List.nodup_range
  -- Neither list repeats an id and no id is in both, so having the same ids is enough.
  have hdisjoint : (r.monitor.inUse m).Disjoint r.freed := by
    intro id huse hfreed
    obtain ⟨hid, hs⟩ := Monitor.mem_inUse.1 huse
    exact (h.of_inUse hid hs).2 hfreed
  refine (List.perm_ext_iff_of_nodup ?_ (hrange _)).2 fun id => ?_
  · exact List.Nodup.append ((hrange _).filter _) h.nodup_freed hdisjoint
  · have hle := h.issued_le
    rw [List.mem_append, Monitor.mem_inUse, List.mem_map]
    constructor
    · intro hid
      have hissued : 0 ≤ id ∧ id < r.issued := by
        rcases hid with ⟨hid, hs⟩ | hid
        · exact (h.of_inUse hid hs).1
        · exact h.freed id hid
      exact ⟨id.toNat, List.mem_range.2 (by omega), Int.toNat_of_nonneg hissued.1⟩
    · rintro ⟨k, hk, rfl⟩
      have hk' := List.mem_range.1 hk
      rcases h.settled k (Int.natCast_nonneg k) (Int.ofNat_lt.2 hk') with ⟨hs, _⟩ | ⟨_, honce⟩
      · exact .inl ⟨⟨Int.natCast_nonneg k, Int.ofNat_lt.2 (by omega)⟩, hs⟩
      · exact .inr (List.count_pos_iff.1 (by
          change 0 < r.freed.count (k : Int)
          omega))

theorem Coherent.length_inUse_add_length_freed (h : r.Coherent m) :
    (r.monitor.inUse m).length + r.freed.length = r.issued := by
  have hlength := h.inUse_append_freed_perm.length_eq
  rwa [List.length_append, List.length_map, List.length_range] at hlength

theorem Coherent.not_inUse_of_taken {m₁ : Memory} (h : r.Coherent m)
    (ht : r.Taken now m r' id m₁) : r.monitor.stateOf id m ≠ Record.allocated := by
  intro hs
  cases ht with
  | reused freed =>
    have hmem : id ∈ r.freed := by rw [freed]; simp
    exact Record.allocated_ne_reclaimed (hs.symm.trans (h.count_freed hmem).1)
  | fresh others room =>
    have hunused := h.unused r.issued (Int.le_refl _) (Int.ofNat_lt.2 room)
    exact Record.unused_ne_allocated (hunused.symm.trans hs)

/-- The books of a registry balance: what was issued is either in use or waits among the freed ids,
there exactly once; nothing else was touched; an allocation never answers an id in use; and no id
is lost. -/
structure Accounted (r : Registry) (m : Memory) : Prop where
  issued : ∀ id : Int, 0 ≤ id → id < r.issued →
    (r.monitor.state id m = .ok Record.allocated ∧ id ∉ r.freed) ∨
      (r.monitor.state id m = .ok Record.reclaimed ∧ r.freed.count id = 1)
  beyond : ∀ id : Int, r.issued ≤ id → id ≤ r.monitor.maxId →
    r.monitor.state id m = .ok Record.unused ∧ id ∉ r.freed
  exclusive : ∀ now q id, (r.allocate now q m).result = .ok id →
    r.monitor.state id m ≠ .ok Record.allocated
  complete : (r.monitor.inUse m).length + r.freed.length = r.issued

theorem Coherent.accounted (h : r.Coherent m) (hp : r.monitor.Paired) : r.Accounted m := by
  have hle := h.issued_le
  have hmax := hp.maxId_eq
  refine ⟨fun id h₀ h₁ => ?_, fun id h₀ h₁ => ?_, fun now q id hok hs => ?_,
    h.length_inUse_add_length_freed⟩
  · rw [Monitor.state_eq hp ⟨h₀, by omega⟩, Except.ok.injEq, Except.ok.injEq]
    exact h.settled id h₀ h₁
  · rw [Monitor.state_eq hp ⟨by omega, by omega⟩, h.unused id h₀ (by omega)]
    exact ⟨rfl, fun hid => absurd (h.freed id hid).2 (Int.not_lt.2 h₀)⟩
  · obtain ⟨_, _, htaken, _⟩ := allocate_eq_ok hp h.hasId hok
    exact h.not_inUse_of_taken htaken ((Monitor.state_eq_ok_iff hp).1 hs).2

end Registry

namespace Session

open Registry

variable {r₀ : Registry} {m₀ : Memory}

theorem run_coherent (start : r₀.Starts m₀) (clock : Clock) (wallTime : Int) (calls : List Call)
    (regular : ∀ c ∈ calls, c.Regular) :
    ∃ r, ((create r₀.monitor (some r₀) clock).run wallTime m₀ calls).1.On r ∧
      r.monitor = r₀.monitor ∧ r.timeout = r₀.timeout ∧
      r.Coherent ((create r₀.monitor (some r₀) clock).run wallTime m₀ calls).2 :=
  run_invariant (P := fun _ r m => r.Coherent m) (start.on clock) start.paired start.coherent
    (fun _ _ _ h => h.hasId)
    (fun _ _ _ _ _ _ _ _ hp h hchange => hchange.coherent hp h) wallTime calls regular

/-- After every run of regular calls the books of the registry balance. -/
theorem run_accounted (start : r₀.Starts m₀) (clock : Clock) (wallTime : Int) (calls : List Call)
    (regular : ∀ c ∈ calls, c.Regular) :
    ∃ s r m, (create r₀.monitor (some r₀) clock).run wallTime m₀ calls = (s, m) ∧
      s.registry = some r ∧ r.Accounted m := by
  obtain ⟨r, hon, hmon, _, hcoherent⟩ := run_coherent start clock wallTime calls regular
  exact ⟨_, r, _, rfl, hon.registry, hcoherent.accounted (hmon ▸ start.paired)⟩

theorem run_accounted_small : small.Starts Memory.zero ∧ (∀ c ∈ mixed, c.Regular) ∧
    ∃ s r m, (create small.monitor (some small) (.manual 0)).run 0 Memory.zero mixed = (s, m) ∧
      s.registry = some r ∧ r.Accounted m :=
  ⟨small_starts, by decide, run_accounted small_starts (.manual 0) 0 mixed (by decide)⟩

end Session

end Telemetry.Counters
