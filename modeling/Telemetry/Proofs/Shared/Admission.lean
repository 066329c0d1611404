import Telemetry.Proofs.Shared.Header
import Telemetry.Proofs.Shared.Segment

namespace Telemetry

theorem View.word_eight_lt (v : View) (i : Nat) (m : Memory) :
    v.word 8 i m < 0x8000000000000000 := by
  have hmodulus : Word.modulus 8 = 0x10000000000000000 := rfl
  have hlt : v.word 8 i m < ((0x10000000000000000 : Nat) + 1) / 2 := by
    simp only [View.word, Word.signed, View.length_bytes, View.slice_capacity, hmodulus]
    exact Int.bmod_lt (by omega)
  omega

namespace Shared.Board

open Counters

def announcedRecords (whole : View) (m : Memory) : Int :=
  (headerOf whole).word 8 metadataLengthOffset m

def announcedSlots (whole : View) (m : Memory) : Int :=
  (headerOf whole).word 8 valuesLengthOffset m

/-- What a header announces in all, itself included, added without a limit. -/
def announced (whole : View) (m : Memory) : Int :=
  headerLength + announcedRecords whole m + announcedSlots whole m

/-- A segment that bears the marks of a board: room for a header, the magic word, the version of the
layout, and two lengths that are not negative. -/
structure Marked (whole : View) (m : Memory) : Prop where
  room : headerLength ≤ whole.capacity
  magic : (headerOf whole).word 4 magicOffset m = magic
  version : (headerOf whole).word 4 versionOffset m = layoutVersion
  records : 0 ≤ announcedRecords whole m
  slots : 0 ≤ announcedSlots whole m

variable {whole : View} {name : Text} {m : Memory} {e : Fault}

theorem inspect_of_no_room (h : whole.capacity < headerLength) (name : Text) (m : Memory) :
    inspect name whole m = .error (.boardTooSmall name whole.capacity) := by
  unfold inspect
  rw [if_pos h]
  rfl

theorem sections_of_le {records slots : Nat} (hword : records < 0x8000000000000000)
    (h : headerLength + records + slots ≤ whole.capacity) :
    sections whole records slots = .ok (recordsOf whole records, slotsOf whole records slots) := by
  have hoffset : Word.offset (headerLength + records) = headerLength + records := by
    simp only [Word.offset, headerLength]
    omega
  rw [sections, View.sub_of_le (by omega), hoffset, View.sub_of_le (by omega)]
  rfl

theorem sections_of_lt {records slots : Nat} (hword : records < 0x8000000000000000)
    (h : whole.capacity < headerLength + records + slots) :
    ∃ i n, sections whole records slots = .error (.outOfBounds i n whole.capacity) := by
  have hoffset : Word.offset (headerLength + records) = headerLength + records := by
    simp only [Word.offset, headerLength]
    omega
  by_cases hrecords : headerLength + records ≤ whole.capacity
  · refine ⟨headerLength + records, slots, ?_⟩
    rw [sections, View.sub_of_le hrecords, hoffset, View.sub_of_lt h]
    rfl
  · refine ⟨headerLength, records, ?_⟩
    rw [sections, View.sub_of_lt (Nat.lt_of_not_le hrecords)]
    rfl

namespace Marked

variable (h : Marked whole m)
include h

theorem announced_eq : announced whole m =
    (headerLength + (announcedRecords whole m).toNat + (announcedSlots whole m).toNat : Nat) := by
  have hrecords := h.records
  have hslots := h.slots
  simp only [announced]
  omega

theorem inspect_of_long (hlong : whole.capacity <
    segmentLength (announcedRecords whole m).toNat (announcedSlots whole m).toNat) (name : Text) :
    inspect name whole m = .error (.boardLengths name (announcedRecords whole m)
      (announcedSlots whole m) whole.capacity) := by
  rw [inspect_of_room h.room]
  dsimp only
  rw [if_neg (fun hne => hne h.magic), if_neg (fun hne => hne h.version)]
  exact if_pos (.inr (.inr hlong))

theorem inspect_of_short (hshort : ¬ whole.capacity <
    segmentLength (announcedRecords whole m).toNat (announcedSlots whole m).toNat) (name : Text) :
    inspect name whole m =
      sections whole (announcedRecords whole m).toNat (announcedSlots whole m).toNat := by
  rw [inspect_of_room h.room]
  dsimp only
  rw [if_neg (fun hne => hne h.magic), if_neg (fun hne => hne h.version)]
  apply if_neg
  rintro (hlt | hlt | hlt)
  · exact Int.not_lt.2 h.records hlt
  · exact Int.not_lt.2 h.slots hlt
  · exact hshort hlt

theorem inspect_of_le (hle : announced whole m ≤ whole.capacity) (name : Text) :
    inspect name whole m =
      .ok (recordsOf whole (announcedRecords whole m).toNat,
        slotsOf whole (announcedRecords whole m).toNat (announcedSlots whole m).toNat) := by
  have hsum := h.announced_eq
  have hrecords := (headerOf whole).word_eight_lt metadataLengthOffset m
  -- a sum that is cut to a word does not get larger
  have hcut : segmentLength (announcedRecords whole m).toNat (announcedSlots whole m).toNat ≤
      headerLength + (announcedRecords whole m).toNat + (announcedSlots whole m).toNat := by
    simp only [segmentLength, Word.offset, headerLength]
    omega
  rw [h.inspect_of_short (by omega), sections_of_le (by simp only [announcedRecords]; omega)]
  omega

/-- Otherwise the lengths are refused, unless their sum is too large for a word: then it is cut to
less than a header, and the first section that leaves the segment is refused as a range. -/
theorem inspect_of_lt (hlt : whole.capacity < announced whole m) (name : Text) :
    ∃ e, inspect name whole m = .error e ∧
      e.kind = if announced whole m < 0x10000000000000000 then .runtime else .outOfRange := by
  have hsum := h.announced_eq
  have hroom := h.room
  have hrecords : announcedRecords whole m < 0x8000000000000000 := View.word_eight_lt ..
  have hslots : announcedSlots whole m < 0x8000000000000000 := View.word_eight_lt ..
  by_cases hword : announced whole m < 0x10000000000000000
  · refine ⟨_, h.inspect_of_long ?_ name, (if_pos hword).symm⟩
    simp only [segmentLength, Word.offset]
    omega
  · have hshort : ¬ whole.capacity <
        segmentLength (announcedRecords whole m).toNat (announcedSlots whole m).toNat := by
      simp only [segmentLength, Word.offset, headerLength] at hroom hsum ⊢
      omega
    have hleaves : whole.capacity <
        headerLength + (announcedRecords whole m).toNat + (announcedSlots whole m).toNat := by
      omega
    obtain ⟨i, n, hrange⟩ := sections_of_lt (by omega) hleaves
    rw [h.inspect_of_short hshort, hrange, if_neg hword]
    exact ⟨_, rfl, rfl⟩

end Marked

theorem inspect_of_not_marked (h : ¬ Marked whole m) (name : Text) :
    ∃ e, inspect name whole m = .error e ∧ e.kind = .runtime := by
  by_cases hroom : headerLength ≤ whole.capacity
  · rw [inspect_of_room hroom]
    dsimp only
    split
    · exact ⟨_, rfl, rfl⟩
    · split
      · exact ⟨_, rfl, rfl⟩
      · next hmagic hversion =>
        have hnegative : ¬ (0 ≤ announcedRecords whole m ∧ 0 ≤ announcedSlots whole m) := by
          rintro ⟨hrecords, hslots⟩
          exact h ⟨hroom, Decidable.not_not.1 hmagic, Decidable.not_not.1 hversion, hrecords,
            hslots⟩
        simp only [announcedRecords, announcedSlots] at hnegative
        rw [if_pos (by omega)]
        exact ⟨_, rfl, rfl⟩
  · rw [inspect_of_no_room (Nat.lt_of_not_le hroom)]
    exact ⟨_, rfl, rfl⟩

theorem inspect_ok_iff : (∃ views, inspect name whole m = .ok views) ↔
    Marked whole m ∧ announced whole m ≤ whole.capacity := by
  constructor
  · rintro ⟨views, hviews⟩
    by_cases hmarked : Marked whole m
    · refine ⟨hmarked, Int.not_lt.1 fun hlt => ?_⟩
      obtain ⟨e, he, -⟩ := hmarked.inspect_of_lt hlt name
      nomatch hviews.symm.trans he
    · obtain ⟨e, he, -⟩ := inspect_of_not_marked hmarked name
      nomatch hviews.symm.trans he
  · rintro ⟨hmarked, hle⟩
    exact ⟨_, hmarked.inspect_of_le hle name⟩

/-- A segment that is not admitted is at fault itself, save for lengths that no word can add. -/
theorem inspect_kind (h : inspect name whole m = .error e) :
    (e.kind = .runtime ∨ e.kind = .outOfRange) ∧
      (e.kind = .outOfRange ↔ Marked whole m ∧ 0x10000000000000000 ≤ announced whole m) := by
  by_cases hmarked : Marked whole m
  · have hlt : whole.capacity < announced whole m := by
      apply Int.not_le.1
      intro hle
      nomatch h.symm.trans (hmarked.inspect_of_le hle name)
    obtain ⟨e', he, hkind⟩ := hmarked.inspect_of_lt hlt name
    cases h.symm.trans he
    rw [hkind]
    by_cases hword : announced whole m < 0x10000000000000000
    · simp [hword]
    · simp [hword, hmarked, Int.not_lt.1 hword]
  · obtain ⟨e', he, hkind⟩ := inspect_of_not_marked hmarked name
    cases h.symm.trans he
    simp [hkind, hmarked]

/-- What a reader is given: the mapping, and the two sections that were announced, one behind the
other and both behind the header. -/
structure Admitted (a : Board) (p : Mapping) (m : Memory) : Prop where
  mapping : a.buffer.mapping = some p
  records : (a.session.monitor.metadata.capacity : Int) = announcedRecords p.view m
  slots : (a.session.monitor.values.capacity : Int) = announcedSlots p.view m
  afterHeader : a.session.monitor.metadata.base = p.view.base + headerLength
  afterRecords : a.session.monitor.values.base =
    a.session.monitor.metadata.base + a.session.monitor.metadata.capacity
  recordsInside : a.session.monitor.metadata.Inside p.view
  slotsInside : a.session.monitor.values.Inside p.view
  apart : a.session.monitor.metadata.Apart a.session.monitor.values

theorem Marked.admitted {p : Mapping} (h : Marked p.view m)
    (hle : announced p.view m ≤ p.view.capacity) :
    Admitted ⟨⟨name, some p, false⟩,
      Session.create ⟨recordsOf p.view (announcedRecords p.view m).toNat,
        slotsOf p.view (announcedRecords p.view m).toNat (announcedSlots p.view m).toNat, .utf8⟩
        none .wall⟩ p m := by
  have hsum := h.announced_eq
  constructor
  · rfl
  · exact Int.toNat_of_nonneg h.records
  · exact Int.toNat_of_nonneg h.slots
  · rfl
  · exact (Nat.add_assoc ..).symm
  · apply View.slice_inside
    omega
  · apply View.slice_inside
    omega
  · exact View.apart_slice (.inl (Nat.le_refl _))

section Attaching

variable [Platform]

theorem attach_eq {s : Namespace} {p : Mapping} (hp : s.attach name = .ok p) (m : Memory) :
    attach s name m = (inspect name p.view m).map fun views =>
      ⟨⟨name, some p, false⟩, Session.create ⟨views.1, views.2, .utf8⟩ none .wall⟩ := by
  unfold attach
  rw [Buffer.attach_of_namespace hp]
  rfl

/-- A segment that cannot be mapped is a fault of the system. Any other is admitted exactly when it
is marked and has room for what it announces. Else the fault is one of the segment, save for lengths
that come to `0x10000000000000000` or more with the header: these are refused as a range. -/
theorem attach_admits (s : Namespace) (name : Text) (m : Memory) :
    (∀ r, s.attach name = .error r → ∃ e, attach s name m = .error e ∧ e.kind = .system) ∧
    ∀ p, s.attach name = .ok p →
      ((∃ a, attach s name m = .ok a) ↔ Marked p.view m ∧ announced p.view m ≤ p.size) ∧
      (∀ a, attach s name m = .ok a → Admitted a p m) ∧
      ∀ e, attach s name m = .error e →
        (e.kind = .runtime ∨ e.kind = .outOfRange) ∧
        (e.kind = .outOfRange ↔ Marked p.view m ∧ 0x10000000000000000 ≤ announced p.view m) := by
  refine ⟨fun r hr => ?_, fun p hp => ?_⟩
  · refine ⟨.segmentNotAttached name r, ?_, rfl⟩
    unfold attach Buffer.attach
    rw [hr]
    rfl
  · have hsize : p.view.capacity = p.size := rfl
    have hok : (∃ views, inspect name p.view m = .ok views) ↔
        Marked p.view m ∧ announced p.view m ≤ p.view.capacity := inspect_ok_iff
    rw [attach_eq hp, ← hsize, ← hok]
    cases hinspect : inspect name p.view m with
    | error e =>
      refine ⟨by simp [Except.map], fun a ha => (nomatch ha), fun e' he => ?_⟩
      cases he
      exact inspect_kind hinspect
    | ok views =>
      refine ⟨by simp [Except.map], fun a ha => ?_, fun e he => (nomatch he)⟩
      obtain ⟨hmarked, hle⟩ := hok.1 ⟨views, hinspect⟩
      cases hinspect.symm.trans (hmarked.inspect_of_le hle name)
      cases ha
      exact hmarked.admitted hle

end Attaching

/-- A segment whose header announces two sections of `0x7FFFFFFFFFFFFFFF` bytes. -/
def swollen : Memory :=
  Memory.zero.storeAll [⟨0, 0, Word.encode 4 magic⟩, ⟨0, 4, Word.encode 4 layoutVersion⟩,
    ⟨0, 8, Word.encode 8 0x7FFFFFFFFFFFFFFF⟩, ⟨0, 16, Word.encode 8 0x7FFFFFFFFFFFFFFF⟩]

open scoped Platform

/-- Of 256 bytes such a segment is refused by a fault that is neither its own nor the system's. -/
theorem attach_swollen :
    let s : Namespace := ⟨[([98, 105, 103], 0)], [256]⟩
    s.attach [98, 105, 103] = .ok ⟨0, 256⟩ ∧
    attach s [98, 105, 103] swollen = .error (.outOfBounds 128 0x7FFFFFFFFFFFFFFF 256) ∧
    Fault.kind (.outOfBounds 128 0x7FFFFFFFFFFFFFFF 256) ≠ .runtime ∧
    Fault.kind (.outOfBounds 128 0x7FFFFFFFFFFFFFFF 256) ≠ .system := by
  have hmapped : Namespace.attach ⟨[([98, 105, 103], 0)], [256]⟩ [98, 105, 103] =
      .ok ⟨0, 256⟩ := rfl
  have hmarked : Marked (Mapping.view ⟨0, 256⟩) swollen := by
    constructor <;> decide +kernel
  have hinspect : inspect [98, 105, 103] (Mapping.view ⟨0, 256⟩) swollen =
      .error (.outOfBounds 128 0x7FFFFFFFFFFFFFFF 256) := by
    have hrecords : announcedRecords (Mapping.view ⟨0, 256⟩) swollen = 0x7FFFFFFFFFFFFFFF := by
      decide +kernel
    have hslots : announcedSlots (Mapping.view ⟨0, 256⟩) swollen = 0x7FFFFFFFFFFFFFFF := by
      decide +kernel
    rw [hmarked.inspect_of_short, hrecords, hslots]
    · rfl
    · rw [hrecords, hslots]
      decide
  refine ⟨hmapped, ?_, by decide, by decide⟩
  rw [attach_eq hmapped, hinspect]
  rfl

end Shared.Board

end Telemetry
