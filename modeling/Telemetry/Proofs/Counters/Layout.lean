import Telemetry.Counters.Registry
import Telemetry.Proofs.Memory.Footprint

namespace Telemetry

theorem Word.wrap_of_fits {n : Nat} {x : Int} (hlo : -(modulus n : Int) ≤ x * 2)
    (hhi : x * 2 < modulus n) : wrap n x = x := Int.bmod_eq_of_le_mul_two hlo hhi

theorem Word.wrap_natCast {k : Nat} (h : k < 0x80000000) : wrap 4 k = k := by
  have hm : (modulus 4 : Int) = 4294967296 := rfl
  apply wrap_of_fits <;> rw [hm] <;> omega

namespace Counters

namespace Record

theorem offset_eq {id : Int} (h₀ : 0 ≤ id) (h : id < 0x80000000) : offset id = id.toNat * 512 := by
  simp only [offset, Word.offset, length]
  omega

theorem field_le {offset field n capacity : Nat} (hf : field + n ≤ 512)
    (h : offset + 512 ≤ capacity) : offset + field + n ≤ capacity := by omega

theorem unused_ne_allocated : unused ≠ allocated := by decide

theorem unused_ne_reclaimed : unused ≠ reclaimed := by decide

theorem allocated_ne_reclaimed : allocated ≠ reclaimed := by decide

end Record

theorem Slot.offset_eq {id : Int} (h₀ : 0 ≤ id) (h : id < 0x80000000) :
    offset id = id.toNat * 128 := by
  simp only [offset, Word.offset, length]
  omega

theorem Slot.field_le {offset field n capacity : Nat} (hf : field + n ≤ 128)
    (h : offset + 128 ≤ capacity) : offset + field + n ≤ capacity := by omega

namespace Monitor

def slots (w : Monitor) : Nat := w.values.capacity / Slot.length

/-- The views of a registry: they share no byte, every slot has a record, and an id of four bytes
can count the slots. -/
structure Paired (w : Monitor) : Prop where
  apart : w.metadata.Apart w.values
  room : w.values.capacity * 4 ≤ w.metadata.capacity
  few : w.slots < 0x80000000

/-- An id that has a slot. -/
def HasId (w : Monitor) (id : Int) : Prop := 0 ≤ id ∧ id < w.slots

instance (w : Monitor) (id : Int) : Decidable (w.HasId id) := inferInstanceAs (Decidable (_ ∧ _))

/-- The slot of an id lies inside the values, so that a handle can be opened on it. -/
def HasSlot (w : Monitor) (id : Int) : Prop := Slot.offset id + Slot.length ≤ w.values.capacity

instance (w : Monitor) (id : Int) : Decidable (w.HasSlot id) := inferInstanceAs (Decidable (_ ≤ _))

def record (w : Monitor) (id : Int) : View := w.metadata.slice (Record.offset id) Record.length

def slot (w : Monitor) (id : Int) : View := w.values.slice (Slot.offset id) Slot.length

def header (w : Monitor) (id : Int) : View := w.metadata.slice (Record.offset id) 16

def recordWordOf (w : Monitor) (n field : Nat) (id : Int) (m : Memory) : Int :=
  w.metadata.word n (Record.offset id + field) m

abbrev stateOf (w : Monitor) (id : Int) (m : Memory) : Int := w.recordWordOf 4 0 id m

abbrev typeOf (w : Monitor) (id : Int) (m : Memory) : Int :=
  w.recordWordOf 4 Record.typeOffset id m

abbrev deadlineOf (w : Monitor) (id : Int) (m : Memory) : Int :=
  w.recordWordOf 8 Record.deadlineOffset id m

abbrev labelLengthOf (w : Monitor) (id : Int) (m : Memory) : Int :=
  w.recordWordOf 4 Record.labelOffset id m

def keyOf (w : Monitor) (id : Int) : View :=
  w.metadata.slice (Record.offset id + Record.keyOffset) Record.keyLength

def labelOf (w : Monitor) (id : Int) (m : Memory) : Text :=
  (w.metadata.slice (Record.offset id + Record.labelTextOffset)
    (w.labelLengthOf id m).toNat).bytes m

def slotWordOf (w : Monitor) (field : Nat) (id : Int) (m : Memory) : Int :=
  w.values.word 8 (Slot.offset id + field) m

/-- The stored length of a label is one that fits into the record. -/
def LabelFits (w : Monitor) (id : Int) (m : Memory) : Prop :=
  0 ≤ w.labelLengthOf id m ∧ w.labelLengthOf id m ≤ Record.maxLabelLength

variable {w : Monitor} {id id' : Int} {m m' : Memory} {n field : Nat}

theorem validate_of_outside (houtside : id < 0 ∨ w.maxId < id) :
    w.validate id = .error (.counterIdOutOfRange id w.maxId) := if_pos houtside

theorem validate_of_inside (hinside : 0 ≤ id ∧ id ≤ w.maxId) : w.validate id = .ok () :=
  if_neg (by omega)

theorem Paired.maxId_eq (h : w.Paired) : w.maxId = (w.slots : Int) - 1 := by
  change Word.wrap 4 (w.slots : Int) - 1 = _
  rw [Word.wrap_natCast h.few]

theorem validate_of_hasId (h : w.Paired) (hid : w.HasId id) : w.validate id = .ok () := by
  have hmax := h.maxId_eq
  obtain ⟨h₀, h₁⟩ := hid
  exact validate_of_inside (by omega)

theorem validate_of_not_hasId (h : w.Paired) (hid : ¬ w.HasId id) :
    w.validate id = .error (.counterIdOutOfRange id w.maxId) := by
  have hmax := h.maxId_eq
  unfold HasId at hid
  exact validate_of_outside (by omega)

theorem HasId.record_le (hid : w.HasId id) (h : w.Paired) :
    Record.offset id + 512 ≤ w.metadata.capacity := by
  have hroom := h.room
  have hfew := h.few
  obtain ⟨h₀, h₁⟩ := hid
  rw [Record.offset_eq h₀ (by omega)]
  simp only [slots, Slot.length] at h₁
  omega

theorem HasId.hasSlot (hid : w.HasId id) (h : w.Paired) : w.HasSlot id := by
  have hfew := h.few
  obtain ⟨h₀, h₁⟩ := hid
  rw [HasSlot, Slot.offset_eq h₀ (by omega)]
  simp only [slots, Slot.length] at h₁ ⊢
  omega

theorem record_inside (h : w.Paired) (hid : w.HasId id) : (w.record id).Inside w.metadata :=
  View.slice_inside (hid.record_le h)

theorem slot_inside (hslot : w.HasSlot id) : (w.slot id).Inside w.values :=
  View.slice_inside hslot

theorem record_apart (h : w.Paired) (hid : w.HasId id) (hid' : w.HasId id') (hne : id ≠ id') :
    (w.record id).Apart (w.record id') := by
  have hfew := h.few
  obtain ⟨h₀, h₁⟩ := hid
  obtain ⟨h₀', h₁'⟩ := hid'
  apply View.apart_slice
  rw [Record.offset_eq h₀ (by omega), Record.offset_eq h₀' (by omega)]
  simp only [Record.length]
  omega

theorem slot_apart (h : w.Paired) (hid : w.HasId id) (hid' : w.HasId id') (hne : id ≠ id') :
    (w.slot id).Apart (w.slot id') := by
  have hfew := h.few
  obtain ⟨h₀, h₁⟩ := hid
  obtain ⟨h₀', h₁'⟩ := hid'
  apply View.apart_slice
  rw [Slot.offset_eq h₀ (by omega), Slot.offset_eq h₀' (by omega)]
  simp only [Slot.length]
  omega

theorem field_inside (hf : field + n ≤ 512) :
    (w.metadata.slice (Record.offset id + field) n).Inside (w.record id) :=
  View.slice_inside_slice (Nat.le_add_right ..) (by simp only [Record.length]; omega)

theorem slotField_inside (hf : field + n ≤ 128) :
    (w.values.slice (Slot.offset id + field) n).Inside (w.slot id) :=
  View.slice_inside_slice (Nat.le_add_right ..) (by simp only [Slot.length]; omega)

theorem header_inside : (w.header id).Inside (w.record id) :=
  View.slice_inside_slice (Nat.le_refl _) (Nat.add_le_add_left (by decide) _)

theorem keyOf_inside : (w.keyOf id).Inside (w.record id) := field_inside (by decide)

theorem recordWordOf_congr (hf : field + n ≤ 512)
    (h : (w.record id).bytes m = (w.record id).bytes m') :
    w.recordWordOf n field id m = w.recordWordOf n field id m' :=
  View.word_congr h (field_inside hf)

theorem recordWordOf_store_self (x : Int) :
    w.recordWordOf n field id
      (m.store (w.metadata.writeAt (Record.offset id + field) (Word.encode n x))) =
      Word.wrap n x := View.word_store_self ..

theorem recordWordOf_store_of_apart {bs : List Byte} {g k : Nat} (hl : bs.length = k)
    (hf : g + k ≤ field ∨ field + n ≤ g) :
    w.recordWordOf n field id (m.store (w.metadata.writeAt (Record.offset id + g) bs)) =
      w.recordWordOf n field id m := View.word_store_of_apart (by omega)

theorem keyOf_store_of_apart {bs : List Byte} {g k : Nat} (hl : bs.length = k)
    (hf : g + k ≤ Record.keyOffset ∨ Record.keyOffset + Record.keyLength ≤ g) :
    (w.keyOf id).bytes (m.store (w.metadata.writeAt (Record.offset id + g) bs)) =
      (w.keyOf id).bytes m := View.bytes_slice_store_of_apart (by omega)

theorem recordWordOf_of_apart {g k : Nat}
    (hc : (w.metadata.slice (Record.offset id + g) k).Confines m m')
    (hf : g + k ≤ field ∨ field + n ≤ g) :
    w.recordWordOf n field id m' = w.recordWordOf n field id m := hc.word (View.apart_field hf)

theorem keyOf_of_apart {g k : Nat} (hc : (w.metadata.slice (Record.offset id + g) k).Confines m m')
    (hf : g + k ≤ Record.keyOffset ∨ Record.keyOffset + Record.keyLength ≤ g) :
    (w.keyOf id).bytes m' = (w.keyOf id).bytes m := hc _ (View.apart_field hf)

theorem slotWordOf_store_self (x : Int) :
    w.slotWordOf field id
      (m.store (w.values.writeAt (Slot.offset id + field) (Word.encode 8 x))) =
      Word.wrap 8 x := View.word_store_self ..

theorem slotWordOf_store_of_apart {g : Nat} (x : Int) (hf : g + 8 ≤ field ∨ field + 8 ≤ g) :
    w.slotWordOf field id
      (m.store (w.values.writeAt (Slot.offset id + g) (Word.encode 8 x))) =
      w.slotWordOf field id m :=
  View.word_store_of_apart (by rw [Word.length_encode]; omega)

theorem recordWordOf_of_header (hf : field + n ≤ 16)
    (h : (w.header id).bytes m = (w.header id).bytes m') :
    w.recordWordOf n field id m = w.recordWordOf n field id m' :=
  View.word_congr h (View.slice_inside_slice (Nat.le_add_right ..) (by omega))

theorem record_of_slot (h : w.Paired) (hslot : w.HasSlot id) (hid' : w.HasId id')
    (hc : (w.slot id).Confines m m') : (w.record id').bytes m' = (w.record id').bytes m :=
  hc _ (h.apart.symm.mono (slot_inside hslot) (record_inside h hid'))

theorem record_of_record (h : w.Paired) (hid : w.HasId id) (hid' : w.HasId id') (hne : id ≠ id')
    (hc : (w.record id).Confines m m') : (w.record id').bytes m' = (w.record id').bytes m :=
  hc _ (record_apart h hid hid' hne)

theorem slot_of_record (h : w.Paired) (hid : w.HasId id) (hslot' : w.HasSlot id')
    (hc : (w.record id).Confines m m') : (w.slot id').bytes m' = (w.slot id').bytes m :=
  hc _ (h.apart.mono (record_inside h hid) (slot_inside hslot'))

theorem header_of_part {g k : Nat} (h : w.Paired) (hid : w.HasId id) (hid' : w.HasId id')
    (hg : 16 ≤ g) (hk : g + k ≤ 512)
    (hc : (w.metadata.slice (Record.offset id + g) k).Confines m m') :
    (w.header id').bytes m' = (w.header id').bytes m := by
  by_cases hne : id = id'
  · subst hne
    exact hc _ (View.apart_slice (by omega))
  · exact View.bytes_mono header_inside
      (record_of_record h hid hid' hne (hc.mono (field_inside hk)))

theorem slotWordOf_congr (hf : field + 8 ≤ 128) (h : (w.slot id).bytes m = (w.slot id).bytes m') :
    w.slotWordOf field id m = w.slotWordOf field id m' :=
  View.word_congr h (slotField_inside hf)

/-- An id that is valid, with its record and its slot inside the views. -/
structure Placed (w : Monitor) (id : Int) : Prop where
  valid : w.validate id = .ok ()
  record_le : Record.offset id + 512 ≤ w.metadata.capacity
  hasSlot : w.HasSlot id

theorem HasId.placed (hid : w.HasId id) (h : w.Paired) : w.Placed id :=
  ⟨validate_of_hasId h hid, hid.record_le h, hid.hasSlot h⟩

namespace Placed

theorem get_eq (hid : w.Placed id) (hf : field + n ≤ 512) (m : Memory) :
    w.metadata.get n (Record.offset id + field) m = .ok (w.recordWordOf n field id m) :=
  View.get_of_le (Record.field_le hf hid.record_le) m

theorem slot_get_eq (hid : w.Placed id) (hf : field + 8 ≤ 128) (m : Memory) :
    w.values.get 8 (Slot.offset id + field) m = .ok (w.slotWordOf field id m) :=
  View.get_of_le (Slot.field_le hf hid.hasSlot) m

theorem recordWord_eq (hid : w.Placed id) (hf : field + n ≤ 512) (m : Memory) :
    w.recordWord n field id m = .ok (w.recordWordOf n field id m) := by
  change (w.validate id >>= fun _ => w.metadata.get n (Record.offset id + field) m) = _
  rw [hid.valid]
  exact hid.get_eq hf m

theorem slotWord_eq (hid : w.Placed id) (hf : field + 8 ≤ 128) (m : Memory) :
    w.slotWord field id m = .ok (w.slotWordOf field id m) := by
  change (w.validate id >>= fun _ => w.values.get 8 (Slot.offset id + field) m) = _
  rw [hid.valid]
  exact hid.slot_get_eq hf m

theorem keyView_eq (hid : w.Placed id) : w.keyView id = .ok (w.keyOf id) := by
  rw [keyView, hid.valid]
  exact View.sub_of_le (Record.field_le (by decide) hid.record_le)

theorem key_eq (hid : w.Placed id) (m : Memory) : w.key id m = .ok ((w.keyOf id).bytes m) := by
  rw [key, Query.bind_ok _ hid.keyView_eq]
  exact View.load_of_le (v := w.keyOf id) (i := 0) (Nat.le_of_eq (Nat.zero_add _)) m

theorem labelAt_eq (hid : w.Placed id) (hfits : w.LabelFits id m) :
    w.labelAt (Record.offset id) m = .ok (w.labelOf id m) := by
  obtain ⟨h₀, h₁⟩ := hfits
  have hlength : w.metadata.get 4 (Record.offset id + Record.labelOffset) m =
      .ok (w.labelLengthOf id m) := hid.get_eq (by decide) m
  have hmax : (Record.maxLabelLength : Int) = 380 := rfl
  have hrefused : ¬ (w.labelLengthOf id m < 0 ∨
      (Record.maxLabelLength : Int) < w.labelLengthOf id m) := by omega
  have htext : Record.labelTextOffset + (w.labelLengthOf id m).toNat ≤ 512 := by
    simp only [Record.labelTextOffset, Record.labelOffset]
    omega
  rw [labelAt, Query.bind_ok _ hlength, if_neg hrefused]
  exact View.load_of_le (Record.field_le htext hid.record_le) m

theorem labelAt_of_not_fits (hid : w.Placed id) (hmisfit : ¬ w.LabelFits id m) :
    w.labelAt (Record.offset id) m =
      .error (.labelLengthOutOfRange (Record.offset id) (w.labelLengthOf id m)) := by
  have hlength : w.metadata.get 4 (Record.offset id + Record.labelOffset) m =
      .ok (w.labelLengthOf id m) := hid.get_eq (by decide) m
  have hrefused : w.labelLengthOf id m < 0 ∨
      (Record.maxLabelLength : Int) < w.labelLengthOf id m := by
    unfold LabelFits at hmisfit
    omega
  rw [labelAt, Query.bind_ok _ hlength, if_pos hrefused]
  rfl

theorem label_eq (hid : w.Placed id) (hfits : w.LabelFits id m) :
    w.label id m = .ok (w.labelOf id m) := by
  change (w.validate id >>= fun _ => w.labelAt (Record.offset id) m) = _
  rw [hid.valid]
  exact hid.labelAt_eq hfits

theorem label_congr (hid : w.Placed id) (h : (w.record id).bytes m = (w.record id).bytes m') :
    w.label id m = w.label id m' := by
  have hlength : w.labelLengthOf id m = w.labelLengthOf id m' := recordWordOf_congr (by decide) h
  change (w.validate id >>= fun _ => w.labelAt (Record.offset id) m) =
    (w.validate id >>= fun _ => w.labelAt (Record.offset id) m')
  by_cases hfits : w.LabelFits id m
  · have hfits' : w.LabelFits id m' := by rwa [LabelFits, ← hlength]
    have htext : w.labelOf id m = w.labelOf id m' := by
      have hmax := hfits.2
      have hend : Record.labelTextOffset + (w.labelLengthOf id m).toNat ≤ 512 := by
        simp only [Record.labelTextOffset, Record.labelOffset, Record.maxLabelLength,
          Record.length] at hmax ⊢
        omega
      rw [labelOf, labelOf, ← hlength]
      exact View.bytes_mono (field_inside hend) h
    rw [hid.labelAt_eq hfits, hid.labelAt_eq hfits', htext]
  · have hmisfit : ¬ w.LabelFits id m' := by rwa [LabelFits, ← hlength]
    rw [hid.labelAt_of_not_fits hfits, hid.labelAt_of_not_fits hmisfit, hlength]

end Placed

theorem recordWord_eq (h : w.Paired) (hid : w.HasId id) (hf : field + n ≤ 512) (m : Memory) :
    w.recordWord n field id m = .ok (w.recordWordOf n field id m) :=
  (hid.placed h).recordWord_eq hf m

theorem slotWord_eq (h : w.Paired) (hid : w.HasId id) (hf : field + 8 ≤ 128) (m : Memory) :
    w.slotWord field id m = .ok (w.slotWordOf field id m) := (hid.placed h).slotWord_eq hf m

theorem recordWord_of_not_hasId (h : w.Paired) (hid : ¬ w.HasId id) (m : Memory) :
    w.recordWord n field id m = .error (.counterIdOutOfRange id w.maxId) := by
  change (w.validate id >>= fun _ => w.metadata.get n (Record.offset id + field) m) = _
  rw [validate_of_not_hasId h hid]
  rfl

theorem state_eq (h : w.Paired) (hid : w.HasId id) (m : Memory) :
    w.state id m = .ok (w.stateOf id m) := recordWord_eq h hid (by decide) m

theorem state_eq_ok_iff (h : w.Paired) {x : Int} :
    w.state id m = .ok x ↔ w.HasId id ∧ w.stateOf id m = x := by
  by_cases hid : w.HasId id
  · rw [state_eq h hid, Except.ok.injEq]
    simp only [hid, true_and]
  · rw [state, recordWord_of_not_hasId h hid]
    simp only [reduceCtorEq, hid, false_and]

theorem key_eq (h : w.Paired) (hid : w.HasId id) (m : Memory) :
    w.key id m = .ok ((w.keyOf id).bytes m) := (hid.placed h).key_eq m

theorem label_eq (h : w.Paired) (hid : w.HasId id) (hfits : w.LabelFits id m) :
    w.label id m = .ok (w.labelOf id m) := (hid.placed h).label_eq hfits

end Monitor

end Counters

end Telemetry
