import Telemetry.Proofs.Counters.Layout

namespace Telemetry

theorem Word.wrap_natCast_le (n k : Nat) : wrap n k ≤ k := by
  have hpos := modulus_pos n
  have hemod : (k : Int) % (modulus n : Int) ≤ k := by
    rw [← Int.natCast_emod]
    exact Int.ofNat_le.2 (Nat.mod_le k _)
  rw [wrap, Int.bmod_def]
  split <;> omega

theorem Word.wrap_four_lt (x : Int) : wrap 4 x < 0x80000000 := Int.bmod_lt (by decide)

namespace Counters.Monitor

variable {w : Monitor} {m : Memory} {id : Int} {α : Type}

def InScan (w : Monitor) (id : Int) : Prop := 0 ≤ id ∧ id < w.iterable

/-- A scan comes to an id, and it is in use. -/
structure Visible (w : Monitor) (m : Memory) (id : Int) : Prop where
  inScan : w.InScan id
  inUse : w.stateOf id m = Record.allocated
  reached : ∀ j, 0 ≤ j → j < id → w.stateOf j m ≠ Record.unused

/-- Ids in increasing order, and no others than those with a property. -/
structure InOrder (ids : List Int) (P : Int → Prop) : Prop where
  increasing : ids.Pairwise (· < ·)
  complete : ∀ id, id ∈ ids ↔ P id

theorem InOrder.nil {P : Int → Prop} (h : ∀ id, ¬ P id) : InOrder [] P :=
  ⟨List.Pairwise.nil, fun id => iff_of_false List.not_mem_nil (h id)⟩

def records (w : Monitor) : Nat := w.metadata.capacity / Record.length

theorem iterable_eq_min (hslots : w.slots < 0x80000000) (hrecords : w.records < 0x80000000) :
    w.iterable = min w.slots w.records := by
  change (min (Word.wrap 4 w.slots - 1) (Word.wrap 4 w.records - 1) + 1).toNat = _
  rw [Word.wrap_natCast hslots, Word.wrap_natCast hrecords]
  omega

theorem InScan.bounds (h : w.InScan id) :
    id ≤ w.maxId ∧ id < w.slots ∧ id < w.records ∧ id < 0x80000000 := by
  have hslots := Word.wrap_natCast_le 4 w.slots
  have hrecords := Word.wrap_natCast_le 4 w.records
  have hfew := Word.wrap_four_lt w.slots
  have hmax : w.maxId = Word.wrap 4 w.slots - 1 := rfl
  have hiterable : w.iterable =
      (min (Word.wrap 4 w.slots - 1) (Word.wrap 4 w.records - 1) + 1).toNat := rfl
  obtain ⟨h₀, h₁⟩ := h
  omega

theorem InScan.placed (h : w.InScan id) : w.Placed id := by
  have h₀ := h.1
  obtain ⟨hmax, hslots, hrecords, hfew⟩ := h.bounds
  refine ⟨validate_of_inside ⟨h₀, hmax⟩, ?_, ?_⟩
  · rw [Record.offset_eq h₀ hfew]
    simp only [records, Record.length] at hrecords
    omega
  · rw [HasSlot, Slot.offset_eq h₀ hfew]
    simp only [slots, Slot.length] at hslots ⊢
    omega

/-- No read of a scan is refused, and from any id on it finds the visible ids if it comes there. -/
theorem allocatedFrom_inOrder :
    ∀ (count : Nat) (k : Int), 0 ≤ k → k + count = w.iterable →
      (∀ j, 0 ≤ j → j < k → w.stateOf j m ≠ Record.unused) →
      ∃ ids, w.allocatedFrom count k m = .ok ids ∧ InOrder ids fun id => k ≤ id ∧ w.Visible m id
  | 0, k, _, hk, _ => by
    refine ⟨[], rfl, .nil fun id h => ?_⟩
    have hlt := h.2.inScan.2
    omega
  | count + 1, k, h₀, hk, hreached => by
    have hscan : w.InScan k := ⟨h₀, by omega⟩
    have hget : w.metadata.get 4 (Record.offset k) m = .ok (w.stateOf k m) :=
      hscan.placed.get_eq (by decide : 0 + 4 ≤ 512) m
    rw [allocatedFrom, Query.bind_ok _ hget]
    by_cases hunused : w.stateOf k m = Record.unused
    · -- The scan ends: everything behind is cut off by this record.
      have hne : w.stateOf k m ≠ Record.allocated := fun h =>
        Record.unused_ne_allocated (hunused.symm.trans h)
      rw [if_neg hne, if_pos hunused]
      refine ⟨[], rfl, .nil fun id ⟨hle, hid⟩ => ?_⟩
      rcases Int.lt_or_eq_of_le hle with hlt | rfl
      · exact absurd hunused (hid.reached k h₀ hlt)
      · exact absurd hid.inUse hne
    · have hnext : ∀ j, 0 ≤ j → j < k + 1 → w.stateOf j m ≠ Record.unused := by
        intro j hj hlt
        rcases Int.lt_or_eq_of_le (Int.lt_add_one_iff.1 hlt) with hlt | rfl
        · exact hreached j hj hlt
        · exact hunused
      obtain ⟨ids, hids, hincreasing, hcomplete⟩ :=
        allocatedFrom_inOrder count (k + 1) (by omega) (by omega) hnext
      by_cases hallocated : w.stateOf k m = Record.allocated
      · rw [if_pos hallocated, Query.bind_ok _ hids]
        refine ⟨k :: ids, rfl, List.pairwise_cons.2 ⟨fun id hid => ?_, hincreasing⟩, fun id => ?_⟩
        · exact ((hcomplete id).1 hid).1
        · rw [List.mem_cons, hcomplete]
          constructor
          · rintro (rfl | ⟨hle, hid⟩)
            · exact ⟨Int.le_refl _, hscan, hallocated, hreached⟩
            · exact ⟨by omega, hid⟩
          · rintro ⟨hle, hid⟩
            rcases Int.lt_or_eq_of_le hle with hlt | rfl
            · exact .inr ⟨hlt, hid⟩
            · exact .inl rfl
      · rw [if_neg hallocated, if_neg hunused]
        refine ⟨ids, hids, hincreasing, fun id => (hcomplete id).trans ?_⟩
        refine and_congr_left fun hid => ⟨fun hle => by omega, fun hle => ?_⟩
        rcases Int.lt_or_eq_of_le hle with hlt | rfl
        · exact hlt
        · exact absurd hid.inUse hallocated

theorem allocatedIds_inOrder (w : Monitor) (m : Memory) :
    ∃ ids, w.allocatedIds m = .ok ids ∧ InOrder ids (w.Visible m) := by
  obtain ⟨ids, hids, hincreasing, hcomplete⟩ := allocatedFrom_inOrder (w := w) (m := m) w.iterable 0
    (Int.le_refl 0) (Int.zero_add _) fun j hj hlt => by omega
  exact ⟨ids, hids, hincreasing, fun id => (hcomplete id).trans
    (and_iff_right_of_imp fun hid => hid.inScan.1)⟩

theorem handOver_all {row : Int → Query α} {f : Int → α} :
    ∀ (ids : List Int) (taken : Nat), (∀ id ∈ ids, row id m = .ok (f id)) →
      handOver row Consumer.all m taken ids = ⟨ids.map f, none⟩
  | [], _, _ => rfl
  | id :: rest, taken, hrows => by
    have hrest := handOver_all rest (taken + 1) fun j hj => hrows j (List.mem_cons_of_mem _ hj)
    simp only [handOver, hrows id List.mem_cons_self, Consumer.all]
    rw [hrest]
    rfl

theorem handOver_error {row : Int → Query α} {f : Int → α} {e : Fault}
    (herror : row id m = .error e) (rest : List Int) :
    ∀ (ids : List Int) (taken : Nat), (∀ j ∈ ids, row j m = .ok (f j)) →
      handOver row Consumer.all m taken (ids ++ id :: rest) = ⟨ids.map f, some e⟩
  | [], taken, _ => by
    simp only [List.nil_append, handOver, herror]
    rfl
  | j :: before, taken, hrows => by
    have hrest := handOver_error herror rest before (taken + 1) fun k hk =>
      hrows k (List.mem_cons_of_mem _ hk)
    simp only [List.cons_append, handOver, hrows j List.mem_cons_self, Consumer.all]
    rw [hrest]
    rfl

/-- Rows of ids in increasing order: those of the ids with a property, each agreeing with what
holds for its id. -/
structure Lists (rows : List α) (idOf : α → Int) (P : Int → Prop) (agrees : α → Prop) : Prop where
  ids : InOrder (rows.map idOf) P
  rows : ∀ row ∈ rows, agrees row

theorem InOrder.lists {ids : List Int} {P : Int → Prop} {f : Int → α} {idOf : α → Int}
    {agrees : α → Prop} (h : InOrder ids P) (hid : ∀ id, idOf (f id) = id)
    (hagrees : ∀ id, P id → agrees (f id)) : Lists (ids.map f) idOf P agrees := by
  have hids : (ids.map f).map idOf = ids := by
    rw [List.map_map]
    exact (List.map_congr_left fun id _ => hid id).trans (List.map_id _)
  refine ⟨hids.symm ▸ h, fun row hrow => ?_⟩
  obtain ⟨id, hmem, rfl⟩ := List.mem_map.1 hrow
  exact hagrees id ((h.complete id).1 hmem)

/-- What a scan that reads labels comes to: it finishes if all of them can be read, and is ended by
the first that cannot. -/
inductive Spells (w : Monitor) (m : Memory) (x : Walk α) (idOf : α → Int) (agrees : α → Prop) : Prop
  | finished (fits : ∀ id, w.Visible m id → w.LabelFits id m) (fault : x.fault = none)
      (lists : Lists x.seen idOf (w.Visible m) agrees)
  | corrupted (id : Int) (visible : w.Visible m id) (misfit : ¬ w.LabelFits id m)
      (fits : ∀ j, w.Visible m j → j < id → w.LabelFits j m)
      (fault : x.fault =
        some (.labelLengthOutOfRange (Record.offset id) (w.labelLengthOf id m)))
      (lists : Lists x.seen idOf (fun j => w.Visible m j ∧ j < id) agrees)

theorem Spells.of_fits {x : Walk α} {idOf : α → Int} {agrees : α → Prop}
    (h : w.Spells m x idOf agrees) (hfits : ∀ id, w.Visible m id → w.LabelFits id m) :
    x.fault = none ∧ Lists x.seen idOf (w.Visible m) agrees := by
  cases h with
  | finished _ fault lists => exact ⟨fault, lists⟩
  | corrupted id visible misfit => exact absurd (hfits id visible) misfit

theorem InOrder.before {before after : List Int} {P : Int → Prop}
    (h : InOrder (before ++ id :: after) P) : InOrder before fun j => P j ∧ j < id := by
  obtain ⟨hbefore, hafter, hbelow⟩ := List.pairwise_append.1 h.increasing
  refine ⟨hbefore, fun j => ⟨fun hj => ⟨(h.complete j).1 (List.mem_append_left _ hj),
    hbelow j hj id List.mem_cons_self⟩, fun ⟨hj, hlt⟩ => ?_⟩⟩
  rcases List.mem_append.1 ((h.complete j).2 hj) with hmem | hmem
  · exact hmem
  · rcases List.mem_cons.1 hmem with rfl | hmem
    · exact absurd hlt (Int.lt_irrefl j)
    · exact absurd hlt (Int.lt_asymm (List.rel_of_pairwise_cons hafter hmem))

instance : Decidable (w.LabelFits id m) := inferInstanceAs (Decidable (_ ∧ _))

theorem walk_lists {row : Int → Query α} {f : Int → α} {idOf : α → Int} {agrees : α → Prop}
    (hid : ∀ id, idOf (f id) = id) (hrow : ∀ id, w.Visible m id → row id m = .ok (f id))
    (hagrees : ∀ id, w.Visible m id → agrees (f id)) :
    (w.walk row Consumer.all m).fault = none ∧
      Lists (w.walk row Consumer.all m).seen idOf (w.Visible m) agrees := by
  obtain ⟨ids, hids, hin⟩ := allocatedIds_inOrder w m
  have hrows (id : Int) (hmem : id ∈ ids) : row id m = .ok (f id) :=
    hrow id ((hin.complete id).1 hmem)
  rw [walk, hids, handAll, handOver_all ids 0 hrows]
  exact ⟨rfl, hin.lists hid hagrees⟩

theorem walk_spells {row : Int → Query α} {f : Int → α} {idOf : α → Int} {agrees : α → Prop}
    (hid : ∀ id, idOf (f id) = id)
    (hrow : ∀ id, w.Placed id → w.LabelFits id m → row id m = .ok (f id))
    (herror : ∀ id, w.Placed id → ¬ w.LabelFits id m → row id m =
      .error (.labelLengthOutOfRange (Record.offset id) (w.labelLengthOf id m)))
    (hagrees : ∀ id, w.Placed id → w.LabelFits id m → agrees (f id)) :
    w.Spells m (w.walk row Consumer.all m) idOf agrees := by
  have hplaced (id : Int) (h : w.Visible m id) : w.Placed id := h.inScan.placed
  obtain ⟨ids, hids, hin⟩ := allocatedIds_inOrder w m
  cases hsearch : ids.find? fun id => ¬ w.LabelFits id m with
  | none =>
    have hfits (id : Int) (h : w.Visible m id) : w.LabelFits id m := by
      simpa using List.find?_eq_none.1 hsearch id ((hin.complete id).2 h)
    obtain ⟨hfault, hlists⟩ := walk_lists hid (fun id h => hrow id (hplaced id h) (hfits id h))
      fun id h => hagrees id (hplaced id h) (hfits id h)
    exact .finished hfits hfault hlists
  | some id =>
    obtain ⟨hmisfit, before, after, rfl, hbefore⟩ := List.find?_eq_some_iff_append.1 hsearch
    have hvisible : w.Visible m id := (hin.complete id).1 (by simp)
    have hmisfit' : ¬ w.LabelFits id m := by simpa using hmisfit
    have hlower := hin.before
    have hfits (j : Int) (h : w.Visible m j ∧ j < id) : w.LabelFits j m := by
      simpa using hbefore j ((hlower.complete j).2 h)
    have hrows (j : Int) (hmem : j ∈ before) : row j m = .ok (f j) :=
      have h := (hlower.complete j).1 hmem
      hrow j (hplaced j h.1) (hfits j h)
    rw [walk, hids, handAll,
      handOver_error (herror id (hplaced id hvisible) hmisfit') after before 0 hrows]
    exact .corrupted id hvisible hmisfit' (fun j h hlt => hfits j ⟨h, hlt⟩) rfl
      (hlower.lists hid fun j h => hagrees j (hplaced j h.1) (hfits j h))

/-- Type and registration of an id, by what its record and its slot hold. -/
def Bears (w : Monitor) (m : Memory) (type registration id : Int) : Prop :=
  w.typeOf id m = type ∧ w.slotWordOf Slot.registrationOffset id m = registration

instance (w : Monitor) (m : Memory) (type registration : Int) :
    DecidablePred (w.Bears m type registration) := fun _ => inferInstanceAs (Decidable (_ ∧ _))

namespace Placed

theorem value_eq (hid : w.Placed id) (m : Memory) : w.value id m = .ok (w.slotWordOf 0 id m) :=
  hid.slotWord_eq (by decide) m

theorem state_eq (hid : w.Placed id) (m : Memory) : w.state id m = .ok (w.stateOf id m) :=
  hid.recordWord_eq (by decide) m

theorem type_eq (hid : w.Placed id) (m : Memory) : w.type id m = .ok (w.typeOf id m) :=
  hid.recordWord_eq (by decide) m

theorem valueRow_eq (hid : w.Placed id) (m : Memory) :
    w.valueRow id m = .ok ⟨id, w.slotWordOf 0 id m⟩ := by
  have hvalue : w.values.get 8 (Slot.offset id) m = .ok (w.slotWordOf 0 id m) :=
    hid.slot_get_eq (by decide : 0 + 8 ≤ 128) m
  rw [valueRow, Query.bind_ok _ hvalue]
  rfl

theorem loadKey_eq (hid : w.Placed id) (m : Memory) :
    w.metadata.load (Record.offset id + Record.keyOffset) Record.keyLength m =
      .ok ((w.keyOf id).bytes m) :=
  View.load_of_le (Record.field_le (by decide) hid.record_le) m

theorem labelRow_eq (hid : w.Placed id) (hfits : w.LabelFits id m) :
    w.labelRow id m = .ok ⟨id, w.labelOf id m⟩ := by
  rw [labelRow, Query.bind_ok _ (hid.labelAt_eq hfits)]
  rfl

theorem recordRow_eq (hid : w.Placed id) (hfits : w.LabelFits id m) :
    w.recordRow id m = .ok ⟨id, w.typeOf id m, (w.keyOf id).bytes m, w.labelOf id m⟩ := by
  have htype : w.metadata.get 4 (Record.offset id + Record.typeOffset) m = .ok (w.typeOf id m) :=
    hid.get_eq (by decide) m
  rw [recordRow, Query.bind_ok _ htype, Query.bind_ok _ (hid.loadKey_eq m),
    Query.bind_ok _ (hid.labelAt_eq hfits)]
  rfl

theorem labelRow_of_not_fits (hid : w.Placed id) (hmisfit : ¬ w.LabelFits id m) :
    w.labelRow id m =
      .error (.labelLengthOutOfRange (Record.offset id) (w.labelLengthOf id m)) := by
  change (w.labelAt (Record.offset id) m >>= fun t => .ok (LabelRow.mk id t)) = _
  rw [hid.labelAt_of_not_fits hmisfit]
  rfl

theorem recordRow_of_not_fits (hid : w.Placed id) (hmisfit : ¬ w.LabelFits id m) :
    w.recordRow id m =
      .error (.labelLengthOutOfRange (Record.offset id) (w.labelLengthOf id m)) := by
  rw [recordRow, Query.bind_ok _ (hid.get_eq (by decide) m), Query.bind_ok _ (hid.loadKey_eq m)]
  change (w.labelAt (Record.offset id) m >>= fun t => .ok (RecordRow.mk id _ _ t)) = _
  rw [hid.labelAt_of_not_fits hmisfit]
  rfl

theorem hasTypeAndRegistration_eq (hid : w.Placed id) (type registration : Int) :
    w.hasTypeAndRegistration type registration id m =
      .ok (decide (w.Bears m type registration id)) := by
  have htype : w.metadata.get 4 (Record.offset id + Record.typeOffset) m =
      .ok (w.typeOf id m) := hid.get_eq (by decide) m
  have hregistration : w.values.get 8 (Slot.offset id + Slot.registrationOffset) m =
      .ok (w.slotWordOf Slot.registrationOffset id m) := hid.slot_get_eq (by decide) m
  rw [hasTypeAndRegistration, Query.bind_ok _ htype]
  by_cases ht : w.typeOf id m = type
  · rw [if_pos ht, Query.bind_ok _ hregistration]
    simp only [Bears, ht, true_and]
    rfl
  · rw [if_neg ht]
    simp only [Bears, ht, false_and, decide_false]
    rfl

end Placed

theorem findIn_eq (type registration : Int) :
    ∀ ids : List Int, (∀ id ∈ ids, w.Placed id) → w.findIn type registration ids m =
      .ok ((ids.find? fun id => w.Bears m type registration id).getD Record.noCounter)
  | [], _ => rfl
  | id :: rest, hids => by
    have hrest := findIn_eq type registration rest fun j hj => hids j (List.mem_cons_of_mem _ hj)
    have hhere := (hids id List.mem_cons_self).hasTypeAndRegistration_eq (m := m) type registration
    rw [findIn, Query.bind_ok _ hhere]
    by_cases hbears : w.Bears m type registration id
    · rw [if_pos (decide_eq_true hbears), List.find?_cons_of_pos (by simpa using hbears)]
      rfl
    · rw [if_neg (by simpa using hbears), List.find?_cons_of_neg (by simpa using hbears)]
      exact hrest

/-- The search answers the least visible id with a type and a registration, and no counter if there
is none. -/
theorem find_least (w : Monitor) (m : Memory) (type registration : Int) :
    (∃ id, w.find type registration m = .ok id ∧ w.Visible m id ∧ w.Bears m type registration id ∧
      ∀ j, w.Visible m j → w.Bears m type registration j → id ≤ j) ∨
    w.find type registration m = .ok Record.noCounter ∧
      ∀ j, w.Visible m j → ¬ w.Bears m type registration j := by
  obtain ⟨ids, hids, hin⟩ := allocatedIds_inOrder w m
  have hplaced (id : Int) (hmem : id ∈ ids) : w.Placed id :=
    ((hin.complete id).1 hmem).inScan.placed
  rw [find, Query.bind_ok _ hids, findIn_eq type registration ids hplaced]
  cases hsearch : ids.find? fun id => w.Bears m type registration id with
  | none =>
    refine .inr ⟨rfl, fun j hj => ?_⟩
    simpa using List.find?_eq_none.1 hsearch j ((hin.complete j).2 hj)
  | some id =>
    -- Nothing before the found id matches, and what is below it stands before it.
    obtain ⟨hbears, before, after, rfl, hbefore⟩ := List.find?_eq_some_iff_append.1 hsearch
    have hvisible : w.Visible m id := (hin.complete id).1 (by simp)
    refine .inl ⟨id, rfl, hvisible, by simpa using hbears, fun j hj hjbears => ?_⟩
    refine Int.not_lt.1 fun hlt => ?_
    have hnot := hbefore j ((hin.before.complete j).2 ⟨hj, hlt⟩)
    simp [hjbears] at hnot

/-- What a monitor makes of a memory, whoever wrote it. -/
structure Surveys (w : Monitor) (m : Memory) : Prop where
  values : (w.walkValues Consumer.all m).fault = none ∧
    Lists (w.walkValues Consumer.all m).seen ValueRow.id (w.Visible m) fun row =>
      w.value row.id m = .ok row.value
  labels : w.Spells m (w.walkLabels Consumer.all m) LabelRow.id fun row =>
    w.label row.id m = .ok row.label
  records : w.Spells m (w.walkRecords Consumer.all m) RecordRow.id fun row =>
    w.type row.id m = .ok row.type ∧ w.key row.id m = .ok row.key ∧
      w.label row.id m = .ok row.label
  found : ∀ type registration,
    (∃ id, w.find type registration m = .ok id ∧ w.Visible m id ∧ w.Bears m type registration id ∧
      ∀ j, w.Visible m j → w.Bears m type registration j → id ≤ j) ∨
    w.find type registration m = .ok Record.noCounter ∧
      ∀ j, w.Visible m j → ¬ w.Bears m type registration j

theorem surveys (w : Monitor) (m : Memory) : w.Surveys m where
  values := by
    unfold walkValues
    apply walk_lists (f := fun id => ⟨id, w.slotWordOf 0 id m⟩)
    · exact fun id => rfl
    · exact fun id hid => hid.inScan.placed.valueRow_eq m
    · exact fun id hid => hid.inScan.placed.value_eq m
  labels := by
    unfold walkLabels
    apply walk_spells (f := fun id => ⟨id, w.labelOf id m⟩)
    · exact fun id => rfl
    · exact fun id hid hfits => hid.labelRow_eq hfits
    · exact fun id hid hmisfit => hid.labelRow_of_not_fits hmisfit
    · exact fun id hid hfits => hid.label_eq hfits
  records := by
    unfold walkRecords
    apply walk_spells (f := fun id => ⟨id, w.typeOf id m, (w.keyOf id).bytes m, w.labelOf id m⟩)
    · exact fun id => rfl
    · exact fun id hid hfits => hid.recordRow_eq hfits
    · exact fun id hid hmisfit => hid.recordRow_of_not_fits hmisfit
    · exact fun id hid hfits => ⟨hid.type_eq m, hid.key_eq m, hid.label_eq hfits⟩
  found := w.find_least m

/-- Readers survive any memory: whatever the sizes of the views, where they lie and what they hold,
the scans go over the ids with both a slot and a record, and no read of theirs is refused but for a
label whose stored length no writer leaves. -/
theorem survey_of_countable (w : Monitor) (hslots : w.slots < 0x80000000)
    (hrecords : w.records < 0x80000000) (m : Memory) :
    w.iterable = min w.slots w.records ∧ w.Surveys m :=
  ⟨iterable_eq_min hslots hrecords, w.surveys m⟩

/-- Views over the same bytes, with room for five slots and three records. -/
def entangled : Monitor := ⟨⟨0, 0, 1600⟩, ⟨0, 64, 700⟩, .ascii⟩

/-- Two records in use; the second has a label that is longer than there is room. -/
def scribbled : Memory :=
  Memory.zero.storeAll [⟨0, 0, [1]⟩, ⟨0, 512, [1, 0, 0, 0, 7]⟩, ⟨0, 640, [125, 1]⟩]

theorem survey_of_countable_entangled :
    entangled.slots < 0x80000000 ∧ entangled.records < 0x80000000 ∧ entangled.iterable = 3 ∧
      entangled.Surveys scribbled ∧
      (entangled.walkValues Consumer.all scribbled).seen.map ValueRow.id = [0, 1] ∧
      (entangled.walkLabels Consumer.all scribbled).seen = [⟨0, []⟩] ∧
      (entangled.walkLabels Consumer.all scribbled).fault = some (.labelLengthOutOfRange 512 381) ∧
      (entangled.find 7 0 scribbled).toOption = some 1 := by
  have hslots : entangled.slots < 0x80000000 := by decide
  have hrecords : entangled.records < 0x80000000 := by decide
  obtain ⟨hiterable, hsurveys⟩ := survey_of_countable entangled hslots hrecords scribbled
  exact ⟨hslots, hrecords, hiterable, hsurveys, by decide +kernel⟩

end Counters.Monitor

end Telemetry
