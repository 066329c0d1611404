import Telemetry.Proofs.Counters.Ownership
import Telemetry.Proofs.Counters.Survey

namespace Telemetry.Counters

namespace Monitor

def Labelled (w : Monitor) (m : Memory) : Prop := ∀ id, w.HasId id → w.LabelFits id m

/-- The used records are the first ones, and every label can be read. -/
structure Packed (w : Monitor) (n : Nat) (m : Memory) : Prop where
  used : ∀ id : Int, 0 ≤ id → id < n → w.stateOf id m ≠ Record.unused
  unused : ∀ id : Int, n ≤ id → id < w.slots → w.stateOf id m = Record.unused
  labels : w.Labelled m

variable {w : Monitor} {m : Memory} {n : Nat} {α : Type}

theorem iterable_eq (h : w.Paired) (hrecords : w.metadata.capacity / Record.length < 0x80000000) :
    w.iterable = w.slots := by
  have hmax := h.maxId_eq
  have hroom := h.room
  have hle : w.slots ≤ w.metadata.capacity / Record.length := by
    simp only [slots, Slot.length, Record.length]
    omega
  rw [iterable, hmax, Word.wrap_natCast hrecords]
  omega

/-- A scan comes to every id in use, since nothing below it was never used. -/
theorem Packed.visible_iff (hw : w.Packed n m) (h : w.Paired)
    (hrecords : w.metadata.capacity / Record.length < 0x80000000) {id : Int} :
    w.Visible m id ↔ w.state id m = .ok Record.allocated := by
  have hslots := iterable_eq h hrecords
  rw [state_eq_ok_iff h]
  constructor
  · rintro ⟨⟨h₀, h₁⟩, hinUse, -⟩
    exact ⟨⟨h₀, by omega⟩, hinUse⟩
  · rintro ⟨⟨h₀, h₁⟩, hinUse⟩
    refine ⟨⟨h₀, by omega⟩, hinUse, fun j hj hlt => hw.used j hj ?_⟩
    refine Int.not_le.1 fun hle => Record.unused_ne_allocated ?_
    exact (hw.unused id (by omega) h₁).symm.trans hinUse

/-- The rows of a scan: one for each id in use, in increasing order, agreeing with what the monitor
answers for that id. -/
structure Visits (w : Monitor) (m : Memory) (x : Walk α) (idOf : α → Int) (agrees : α → Prop) :
    Prop where
  finished : x.fault = none
  increasing : (x.seen.map idOf).Pairwise (· < ·)
  complete : ∀ id, id ∈ x.seen.map idOf ↔ w.state id m = .ok Record.allocated
  rows : ∀ row ∈ x.seen, agrees row

theorem Packed.visits (hw : w.Packed n m) (h : w.Paired)
    (hrecords : w.metadata.capacity / Record.length < 0x80000000)
    {row : Int → Query α} {f : Int → α} {idOf : α → Int} {agrees : α → Prop}
    (hid : ∀ id, idOf (f id) = id)
    (hrow : ∀ id, w.HasId id → row id m = .ok (f id)) (hagrees : ∀ id, w.HasId id → agrees (f id)) :
    w.Visits m (w.walk row Consumer.all m) idOf agrees := by
  have hasId (id : Int) (hv : w.Visible m id) : w.HasId id :=
    ((state_eq_ok_iff h).1 ((hw.visible_iff h hrecords).1 hv)).1
  obtain ⟨hfault, hlists⟩ := walk_lists (m := m) hid (fun id hv => hrow id (hasId id hv))
    fun id hv => hagrees id (hasId id hv)
  exact ⟨hfault, hlists.ids.increasing,
    fun id => (hlists.ids.complete id).trans (hw.visible_iff h hrecords), hlists.rows⟩

def Matches (w : Monitor) (m : Memory) (type registration id : Int) : Prop :=
  w.state id m = .ok Record.allocated ∧ w.type id m = .ok type ∧
    w.registration id m = .ok registration

theorem Packed.matches_iff (hw : w.Packed n m) (h : w.Paired)
    (hrecords : w.metadata.capacity / Record.length < 0x80000000) {type registration id : Int} :
    w.Matches m type registration id ↔ w.Visible m id ∧ w.Bears m type registration id := by
  rw [Matches, hw.visible_iff h hrecords]
  refine and_congr_right fun hstate => ?_
  have hid : w.HasId id := ((state_eq_ok_iff h).1 hstate).1
  rw [Monitor.type, recordWord_eq h hid (by decide), Monitor.registration,
    slotWord_eq h hid (by decide), Except.ok.injEq, Except.ok.injEq, Bears]

/-- A monitor enumerates the counters in use: every scan finishes with a row for each of them, and a
search answers the least that matches. -/
structure Enumerates (w : Monitor) (m : Memory) : Prop where
  labels : w.Visits m (w.walkLabels Consumer.all m) LabelRow.id fun row =>
    w.label row.id m = .ok row.label
  values : w.Visits m (w.walkValues Consumer.all m) ValueRow.id fun row =>
    w.value row.id m = .ok row.value
  records : w.Visits m (w.walkRecords Consumer.all m) RecordRow.id fun row =>
    w.type row.id m = .ok row.type ∧ w.key row.id m = .ok row.key ∧
      w.label row.id m = .ok row.label
  found : ∀ type registration,
    (∃ id, w.find type registration m = .ok id ∧ w.Matches m type registration id ∧
      ∀ j, w.Matches m type registration j → id ≤ j) ∨
    w.find type registration m = .ok Record.noCounter ∧ ∀ j, ¬ w.Matches m type registration j

theorem Packed.enumerates (hw : w.Packed n m) (h : w.Paired)
    (hrecords : w.metadata.capacity / Record.length < 0x80000000) : w.Enumerates m := by
  have hplaced (id : Int) (hid : w.HasId id) : w.Placed id := hid.placed h
  have hlabels (id : Int) (hid : w.HasId id) : w.LabelFits id m := hw.labels id hid
  refine ⟨hw.visits h hrecords (f := fun id => ⟨id, w.labelOf id m⟩) (fun _ => rfl) ?_ ?_,
    hw.visits h hrecords (f := fun id => ⟨id, w.slotWordOf 0 id m⟩) (fun _ => rfl) ?_ ?_,
    hw.visits h hrecords (f := fun id => ⟨id, w.typeOf id m, (w.keyOf id).bytes m,
      w.labelOf id m⟩) (fun _ => rfl) ?_ ?_, fun type registration => ?_⟩
  · exact fun id hid => (hplaced id hid).labelRow_eq (hlabels id hid)
  · exact fun id hid => label_eq h hid (hlabels id hid)
  · exact fun id hid => (hplaced id hid).valueRow_eq m
  · exact fun id hid => (hplaced id hid).value_eq m
  · exact fun id hid => (hplaced id hid).recordRow_eq (hlabels id hid)
  · exact fun id hid => ⟨(hplaced id hid).type_eq m, key_eq h hid m, label_eq h hid (hlabels id hid)⟩
  · have hmatches {j : Int} : w.Matches m type registration j ↔
        w.Visible m j ∧ w.Bears m type registration j := hw.matches_iff h hrecords
    rcases w.find_least m type registration with ⟨id, hfind, hv, hbears, hleast⟩ | ⟨hfind, hnone⟩
    · refine .inl ⟨id, hfind, hmatches.2 ⟨hv, hbears⟩, fun j hj => ?_⟩
      obtain ⟨hj, hjbears⟩ := hmatches.1 hj
      exact hleast j hj hjbears
    · refine .inr ⟨hfind, fun j hj => ?_⟩
      obtain ⟨hj, hjbears⟩ := hmatches.1 hj
      exact hnone j hj hjbears

variable {m' : Memory} {id : Int}

theorem Labelled.write (hw : w.Labelled m) (h : w.Paired) (hid : w.HasId id)
    (hc : (w.record id).Confines m m') (hfits : w.LabelFits id m → w.LabelFits id m') :
    w.Labelled m' := by
  intro j hj
  by_cases hne : id = j
  · exact hne ▸ hfits (hw id hid)
  · rw [LabelFits, labelLengthOf, recordWordOf_congr (by decide) (record_of_record h hid hj hne hc)]
    exact hw j hj

theorem Labelled.writeSlot (hw : w.Labelled m) (h : w.Paired) (hslot : w.HasSlot id)
    (hc : (w.slot id).Confines m m') : w.Labelled m' := by
  intro j hj
  rw [LabelFits, labelLengthOf, recordWordOf_congr (by decide) (record_of_slot h hslot hj hc)]
  exact hw j hj

/-- A monitor that reads labels in another way sees the same records. -/
theorem Packed.recharset (hw : w.Packed n m) (c : Charset) :
    ({ w with charset := c } : Monitor).Packed n m := ⟨hw.used, hw.unused, hw.labels⟩

theorem Paired.recharset (h : w.Paired) (c : Charset) :
    ({ w with charset := c } : Monitor).Paired := ⟨h.apart, h.room, h.few⟩

end Monitor

namespace Registry

variable {r r' : Registry} {m m₁ m' : Memory} {id now : Int}

theorem Starts.labelled (h : r.Starts m) : r.monitor.Labelled m := by
  intro id hid
  have hzero : r.monitor.labelLengthOf id m = 0 := h.recordWordOf_eq hid (by decide)
  rw [Monitor.LabelFits, hzero]
  exact ⟨Int.le_refl 0, Int.natCast_nonneg _⟩

theorem Taken.labelled (ht : Taken r now m r' id m₁) (hp : r.monitor.Paired) (hco : r.Coherent m)
    (hl : r.monitor.Labelled m) : r.monitor.Labelled m₁ := by
  cases ht with
  | reused freed ready others slot =>
    have hfreed : id ∈ r.freed := by rw [freed]; simp
    exact hl.writeSlot hp ((hco.hasId id hfreed).hasSlot hp) slot
  | fresh => exact hl

theorem Change.labelled {d : Deed} {es : List Event} (hchange : r.Change now m d es r' m')
    (hp : r.monitor.Paired) (hco : r.Coherent m) (hl : r.monitor.Labelled m) :
    r'.monitor.Labelled m' := by
  rw [hchange.monitor_eq]
  cases hchange with
  | quiet written =>
    cases written with
    | refused => exact hl
    | value hasSlot slot => exact hl.writeSlot hp hasSlot slot
    | label hasId label fits =>
      exact hl.write hp hasId (label.mono (labelPart_inside.trans body_inside)) fits
    | @key id _ hasId key =>
      refine hl.write hp hasId (key.mono (keyPart_inside.trans body_inside)) fun hfits => ?_
      have hlength : r.monitor.labelLengthOf id m' = r.monitor.labelLengthOf id m :=
        key.word (View.apart_field (by decide))
      rwa [Monitor.LabelFits, hlength]
  | freed hasId inUse record released fits => exact hl.write hp hasId record fits
  | published taken record inUse fits =>
    exact (taken.labelled hp hco hl).write hp (taken.hasId hco.hasId) record fits
  | withdrawn taken record released fits =>
    exact (taken.labelled hp hco hl).write hp (taken.hasId hco.hasId) record fits

theorem Coherent.packed (h : r.Coherent m) (hl : r.monitor.Labelled m) :
    r.monitor.Packed r.issued m := ⟨fun _ h₀ h₁ => h.used h₀ h₁, h.unused, hl⟩

end Registry

namespace Session

open Registry

variable {r₀ : Registry} {m₀ : Memory}

/-- After every run a monitor over the same views enumerates the counters in use. -/
theorem run_enumerates (start : r₀.Starts m₀)
    (records : r₀.monitor.metadata.capacity / Record.length < 0x80000000) (clock : Clock)
    (wallTime : Int) (calls : List Call) (regular : ∀ c ∈ calls, c.Regular) :
    ∃ s m, (create r₀.monitor (some r₀) clock).run wallTime m₀ calls = (s, m) ∧
      ∀ c, ({ r₀.monitor with charset := c } : Monitor).Enumerates m := by
  obtain ⟨r, _, hmon, _, hco, hl⟩ := run_invariant
    (P := fun _ r m => r.Coherent m ∧ r.monitor.Labelled m)
    (start.on clock) start.paired ⟨start.coherent, start.labelled⟩
    (fun _ _ _ h => h.1.hasId)
    (fun _ _ _ _ _ _ _ _ hp h hchange =>
      ⟨hchange.coherent hp h.1, hchange.labelled hp h.1 h.2⟩)
    wallTime calls regular
  refine ⟨_, _, rfl, fun c => ?_⟩
  have hpacked := hco.packed hl
  rw [hmon] at hpacked
  exact (hpacked.recharset c).enumerates (start.paired.recharset c) records

theorem run_enumerates_small : small.Starts Memory.zero ∧
    small.monitor.metadata.capacity / Record.length < 0x80000000 ∧ (∀ c ∈ mixed, c.Regular) ∧
    ∃ s m, (create small.monitor (some small) (.manual 0)).run 0 Memory.zero mixed = (s, m) ∧
      ∀ c, ({ small.monitor with charset := c } : Monitor).Enumerates m :=
  ⟨small_starts, by decide, by decide,
    run_enumerates small_starts (by decide) (.manual 0) 0 mixed (by decide)⟩

end Session

end Telemetry.Counters
