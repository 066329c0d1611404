import Telemetry.Proofs.Counters.Enclosure
import Telemetry.Proofs.Shared.Header
import Telemetry.Proofs.Shared.Segment

namespace Telemetry

namespace Counters

namespace Monitor

def withCharset (w : Monitor) (c : Charset) : Monitor := { w with charset := c }

variable (w : Monitor) (c : Charset)

@[simp] theorem maxId_withCharset : (w.withCharset c).maxId = w.maxId := rfl

@[simp] theorem validate_withCharset : (w.withCharset c).validate = w.validate := rfl

@[simp] theorem slotWord_withCharset : (w.withCharset c).slotWord = w.slotWord := rfl

@[simp] theorem recordWord_withCharset : (w.withCharset c).recordWord = w.recordWord := rfl

@[simp] theorem label_withCharset : (w.withCharset c).label = w.label := rfl

@[simp] theorem key_withCharset : (w.withCharset c).key = w.key := rfl

theorem allocatedFrom_withCharset (count : Nat) (id : Int) :
    (w.withCharset c).allocatedFrom count id = w.allocatedFrom count id := by
  induction count generalizing id with
  | zero => rfl
  | succ count ih =>
    simp only [allocatedFrom, ih]
    rfl

theorem allocatedIds_withCharset : (w.withCharset c).allocatedIds = w.allocatedIds :=
  allocatedFrom_withCharset w c w.iterable 0

theorem findIn_withCharset (type registration : Int) (ids : List Int) :
    (w.withCharset c).findIn type registration ids = w.findIn type registration ids := by
  induction ids with
  | nil => rfl
  | cons id rest ih =>
    simp only [findIn, ih]
    rfl

@[simp] theorem find_withCharset (type registration : Int) :
    (w.withCharset c).find type registration = w.find type registration := by
  rw [find, find, allocatedIds_withCharset, funext (findIn_withCharset w c type registration)]

theorem walk_withCharset {α : Type} (row : Int → Query α) (consumer : Consumer α) (m : Memory) :
    (w.withCharset c).walk row consumer m = w.walk row consumer m := by
  rw [walk, walk, allocatedIds_withCharset]

theorem walkLabels_withCharset (consumer : Consumer LabelRow) (m : Memory) :
    (w.withCharset c).walkLabels consumer m = w.walkLabels consumer m :=
  walk_withCharset w c w.labelRow consumer m

theorem walkValues_withCharset (consumer : Consumer ValueRow) (m : Memory) :
    (w.withCharset c).walkValues consumer m = w.walkValues consumer m :=
  walk_withCharset w c w.valueRow consumer m

theorem walkRecords_withCharset (consumer : Consumer RecordRow) (m : Memory) :
    (w.withCharset c).walkRecords consumer m = w.walkRecords consumer m :=
  walk_withCharset w c w.recordRow consumer m

end Monitor

theorem Session.walked_congr {α : Type} (s t : Session) (row : α → Row) {w w' : Walk α}
    (h : w = w') :
    (t.walked row w).reply = (s.walked row w').reply ∧
      (t.walked row w).seen = (s.walked row w').seen := by
  subst h
  exact ⟨rfl, rfl⟩

theorem Session.look_of_withCharset {s t : Session} {c : Charset}
    (h : t.monitor = s.monitor.withCharset c) (m : Memory) {q : Lookup} (hq : q ≠ .charset) :
    (t.look m q).reply = (s.look m q).reply ∧ (t.look m q).seen = (s.look m q).seen := by
  cases q with
  | charset => exact absurd rfl hq
  | labels n =>
    have hwalk := s.monitor.walkLabels_withCharset c (Consumer.upTo n consumerFailed) m
    rw [← h] at hwalk
    simp only [look]
    exact walked_congr s t .label hwalk
  | valuesOf n =>
    have hwalk := s.monitor.walkValues_withCharset c (Consumer.upTo n consumerFailed) m
    rw [← h] at hwalk
    simp only [look]
    exact walked_congr s t .value hwalk
  | records n =>
    have hwalk := s.monitor.walkRecords_withCharset c (Consumer.upTo n consumerFailed) m
    rw [← h] at hwalk
    simp only [look]
    exact walked_congr s t .record hwalk
  | _ =>
    simp [look, answer, h, Monitor.value, Monitor.registration, Monitor.owner, Monitor.state,
      Monitor.type, Monitor.deadline]

end Counters

namespace Shared.Board

open Counters

def monitorOf (whole : View) (valuesLength : Nat) (charset : Charset) : Monitor :=
  ⟨recordsOf whole (4 * valuesLength), slotsOf whole (4 * valuesLength) valuesLength, charset⟩

def bodyOf (whole : View) (valuesLength : Nat) : View :=
  whole.slice headerLength (5 * valuesLength)

variable {s later : Namespace} {name : Text} {valuesLength field : Nat} {buffer : Buffer}
  {whole : View} {p : Mapping} {m m' : Memory} {charset : Charset}

theorem monitorOf_enclosed : (monitorOf whole valuesLength charset).Enclosed
    (bodyOf whole valuesLength) :=
  ⟨View.slice_inside_slice (Nat.le_refl _) (by omega),
    View.slice_inside_slice (by omega) (by omega)⟩

theorem body_apart_header : (bodyOf whole valuesLength).Apart (headerOf whole) :=
  View.apart_slice (.inr (Nat.le_refl _))

theorem maxId_monitorOf : (monitorOf whole valuesLength charset).maxId =
    Word.wrap 4 (valuesLength / 128 : Nat) - 1 := rfl

theorem headerWord_eq {b : Board} {metadataLength : Nat}
    (hfits : Fits b.buffer.view metadataLength valuesLength) (hfield : field + 8 ≤ 128)
    (m : Memory) :
    b.headerWord field m = .ok ((headerOf b.buffer.view).word 8 field m) := by
  unfold headerWord
  rw [hfits.sub_header]
  exact View.get_of_le (v := headerOf b.buffer.view) hfield m

theorem initialise_within_header (hroom : headerLength ≤ whole.capacity) (host : Host)
    (metadataLength valuesLength : Nat) (charset : Charset) (clock : Option Clock) (timeout : Int) :
    (initialise whole host metadataLength valuesLength charset clock timeout).Within
      (headerOf whole) := by
  have hput (n i : Nat) (x : Int) : ((headerOf whole).put n i x).Within (headerOf whole) :=
    View.put_within_self _ n i x
  have hheader : whole.sub 0 headerLength = .ok (headerOf whole) := View.sub_of_le (by omega)
  unfold initialise
  rw [hheader]
  refine (hput _ _ _).bind fun _ => (hput _ _ _).bind fun _ => (hput _ _ _).bind fun _ => ?_
  refine (hput _ _ _).bind fun _ => (hput _ _ _).bind fun _ => ?_
  refine (Action.within_ofExcept _).bind fun views => ?_
  exact (Action.within_ofExcept _).bind fun _ => (hput _ _ _).bind fun _ => Action.within_pure _

/-- A board that was attached tells the lengths that were asked for and, at any time, what a session
over the same views tells. -/
structure Watches (a : Board) (t : Session) (length : Nat) (m : Memory) : Prop where
  metadataLength : a.metadataLength m = .ok (4 * length : Nat)
  valuesLength : a.valuesLength m = .ok length
  maxId : a.session.monitor.maxId = Word.wrap 4 (length / 128 : Nat) - 1
  maxId_of_lt : length < 0x4000000000 → a.session.monitor.maxId = (length / 128 : Nat) - 1
  answers : ∀ (q : Lookup) (wallTime : Int) (m : Memory), q ≠ .charset →
    (a.session.step wallTime m (.look q)).reply = (t.step wallTime m (.look q)).reply ∧
      (a.session.step wallTime m (.look q)).seen = (t.step wallTime m (.look q)).seen

theorem watches_of_stamped {t : Session} (hfits : Fits p.view (4 * valuesLength) valuesLength)
    (hstamped : Stamped p.view (4 * valuesLength) valuesLength m)
    (ht : t.monitor = monitorOf p.view valuesLength charset) :
    Watches ⟨⟨name, some p, false⟩,
      Session.create (monitorOf p.view valuesLength .utf8) none .wall⟩ t valuesLength m := by
  have hview : (Buffer.mk name (some p) false).view = p.view := rfl
  have hword (field : Nat) (hfield : field + 8 ≤ 128) := headerWord_eq
    (b := ⟨⟨name, some p, false⟩,
      Session.create (monitorOf p.view valuesLength .utf8) none .wall⟩) hfits hfield m
  refine ⟨?_, ?_, maxId_monitorOf, fun hlt => ?_, fun q wallTime m' hq => ?_⟩
  · rw [Board.metadataLength, hword _ (by decide), hview, hstamped.metadataLength]
  · rw [Board.valuesLength, hword _ (by decide), hview, hstamped.valuesLength]
  · have hcount := Word.wrap_natCast (k := valuesLength / 128) (by omega)
    exact maxId_monitorOf.trans (by rw [hcount])
  · refine Session.look_of_withCharset (c := .utf8) ?_ m' hq
    rw [ht]
    rfl

section Created

variable [Platform]

theorem attach_of_stamped (hname : s.attach name = .ok p)
    (hfits : Fits p.view (4 * valuesLength) valuesLength)
    (hstamped : Stamped p.view (4 * valuesLength) valuesLength m) :
    attach s name m =
      .ok ⟨⟨name, some p, false⟩,
        Session.create (monitorOf p.view valuesLength .utf8) none .wall⟩ := by
  have hinspect := hstamped.inspect_eq hfits name
  unfold attach
  rw [Buffer.attach_of_namespace hname]
  change (inspect name p.view m >>= _) = _
  rw [hinspect]
  rfl

section Granted

variable (granted : (Buffer.create s name (128 + 5 * valuesLength)).2 = .ok buffer)
include granted

theorem fits_of_granted : Fits buffer.view (4 * valuesLength) valuesLength := by
  obtain ⟨-, hgap, rfl, -⟩ := Buffer.create_eq_ok granted
  refine ⟨?_, ?_⟩
  · change 128 + 5 * valuesLength = 128 + 4 * valuesLength + valuesLength
    omega
  · change 128 + 5 * valuesLength < 0x8000000000000000
    omega

theorem base_of_granted : buffer.view.base = 0 := by
  obtain ⟨-, -, rfl, -⟩ := Buffer.create_eq_ok granted
  rfl

variable (positive : 0 < valuesLength) (multiple : valuesLength % 128 = 0) (host : Host)
  (charset : Charset) (clock : Clock) (timeout : Int) (m : Memory)
include multiple

theorem slots_aligned : (slotsOf buffer.view (4 * valuesLength) valuesLength).requireAligned =
    .ok () := by
  have hbase := base_of_granted granted
  apply View.requireAligned_of_mod
  simp only [slotsOf, View.slice, headerLength, hbase]
  omega

theorem registry_create_ok (counted : 0 ≤ Word.wrap 4 (valuesLength / 128 : Nat)) :
    Registry.create (monitorOf buffer.view valuesLength charset) true timeout =
      .ok ⟨monitorOf buffer.view valuesLength charset, timeout, 0, []⟩ := by
  refine Registry.create_eq_ok_iff.2 ⟨slots_aligned granted multiple, ?_, ?_, rfl⟩
  · change valuesLength * 4 ≤ 4 * valuesLength
    omega
  · rw [maxId_monitorOf, Int.sub_add_cancel]
    exact counted

/-- Room is kept for as many ids as there are, so their count must not come out negative. -/
theorem registry_create_refused (wrapped : Word.wrap 4 (valuesLength / 128 : Nat) < 0) :
    Registry.create (monitorOf buffer.view valuesLength charset) true timeout =
      .error .noRoomForIds := by
  have haligned : (monitorOf buffer.view valuesLength charset).values.requireAligned = .ok () :=
    slots_aligned granted multiple
  have hroom : ¬ (monitorOf buffer.view valuesLength charset).metadata.capacity <
      (monitorOf buffer.view valuesLength charset).values.capacity *
        (Record.length / Slot.length) := by
    change ¬ 4 * valuesLength < valuesLength * 4
    omega
  have hids : (monitorOf buffer.view valuesLength charset).maxId + 1 < 0 := by
    rw [maxId_monitorOf, Int.sub_add_cancel]
    exact wrapped
  unfold Registry.create
  rw [haligned, if_neg hroom, if_pos hids]
  rfl

include positive

theorem create_of_granted :
    create s host name valuesLength charset (some clock) timeout m =
      let space := (Buffer.create s name (128 + 5 * valuesLength)).1
      let filled := initialise buffer.view host (4 * valuesLength) valuesLength charset (some clock)
        timeout m
      match filled.result with
      | .error e => ⟨buffer.release space, filled.writes, .error e⟩
      | .ok r =>
        ⟨space, filled.writes, .ok ⟨buffer, Session.create r.monitor (some r) clock⟩⟩ := by
  have hsmall := (fits_of_granted granted).small
  have hcapacity := (fits_of_granted granted).capacity
  have hlength : ¬ (valuesLength = 0 ∨ valuesLength % Slot.length ≠ 0) := by
    simp only [Slot.length]
    omega
  have hmetadata : Word.offset (valuesLength * (Record.length / Slot.length)) =
      4 * valuesLength := by
    simp only [Word.offset, Record.length, Slot.length, headerLength] at hcapacity ⊢
    omega
  have hsegment : segmentLength (4 * valuesLength) valuesLength = 128 + 5 * valuesLength := by
    rw [(fits_of_granted granted).segmentLength_eq, hcapacity, headerLength]
    omega
  have hbuffer : Buffer.create s name (128 + 5 * valuesLength) =
      ((Buffer.create s name (128 + 5 * valuesLength)).1, .ok buffer) := Prod.ext rfl granted
  -- no length wraps, since the segment that they add up to was granted
  unfold create
  rw [if_neg hlength]
  simp only [hmetadata, hsegment]
  rw [hbuffer]
  rfl

theorem create_writes_header :
    ∀ w ∈ (create s host name valuesLength charset (some clock) timeout m).writes,
      (headerOf buffer.view).Covers w := by
  have hcapacity := (fits_of_granted granted).capacity
  have hroom : headerLength ≤ buffer.view.capacity := by omega
  have hwithin := initialise_within_header hroom host (4 * valuesLength) valuesLength charset
    (some clock) timeout m
  rw [create_of_granted granted positive multiple]
  dsimp only
  split
  · exact hwithin
  · exact hwithin

theorem create_refused (wrapped : Word.wrap 4 (valuesLength / 128 : Nat) < 0) :
    (create s host name valuesLength charset (some clock) timeout m).result =
      .error .noRoomForIds := by
  have hregistry := registry_create_refused granted multiple charset timeout wrapped
  have hresult := initialise_error (fits_of_granted granted) host charset (some clock) timeout m
    hregistry
  replace hresult : (initialise buffer.view host (4 * valuesLength) valuesLength charset
    (some clock) timeout m).result = .error .noRoomForIds := hresult
  rw [create_of_granted granted positive multiple]
  simp only [hresult]

theorem create_ok (counted : 0 ≤ Word.wrap 4 (valuesLength / 128 : Nat)) :
    ∃ writes, create s host name valuesLength charset (some clock) timeout m =
        ⟨(Buffer.create s name (128 + 5 * valuesLength)).1, writes,
          .ok ⟨buffer, Session.create (monitorOf buffer.view valuesLength charset)
            (some ⟨monitorOf buffer.view valuesLength charset, timeout, 0, []⟩) clock⟩⟩ ∧
      Stamped buffer.view (4 * valuesLength) valuesLength (m.storeAll writes) := by
  have hregistry := registry_create_ok granted multiple charset timeout counted
  obtain ⟨m', hrun, hstamped⟩ := initialise_ok (fits_of_granted granted) host charset (some clock)
    timeout m hregistry
  obtain ⟨hwrites, hresult⟩ := Prod.mk.inj hrun
  refine ⟨_, ?_, hwrites ▸ hstamped⟩
  rw [create_of_granted granted positive multiple]
  simp only [hresult]

end Granted

/-- Whatever a name led to before: a board that is created with it is found by whoever attaches to
it, at any time, as long as the name leads to the same segment; reader and creator agree, and the
header stays as it was made. It is not made only if ids of four bytes cannot count the slots without
a change of sign. -/
theorem attach_agrees (granted : (Buffer.create s name (128 + 5 * valuesLength)).2 = .ok buffer)
    (positive : 0 < valuesLength) (multiple : valuesLength % 128 = 0) (host : Host)
    (charset : Charset) (clock : Clock) (timeout : Int) (m : Memory) :
    let made := create s host name valuesLength charset (some clock) timeout m
    (Word.wrap 4 (valuesLength / 128 : Nat) < 0 → made.result = .error .noRoomForIds) ∧
    (0 ≤ Word.wrap 4 (valuesLength / 128 : Nat) → ∃ b, made.result = .ok b ∧
      ∀ t m' later, b.session.Reaches (m.storeAll made.writes) t m' →
        later.attach name = made.space.attach name →
        (∃ a, attach later name m' = .ok a ∧ a.Watches t valuesLength m') ∧
        (headerOf b.buffer.view).bytes m' =
          (headerOf b.buffer.view).bytes (m.storeAll made.writes)) := by
  dsimp only
  refine ⟨create_refused granted positive multiple host charset clock timeout m, fun counted => ?_⟩
  obtain ⟨writes, hmade, hstamped⟩ :=
    create_ok granted positive multiple host charset clock timeout m counted
  rw [hmade]
  refine ⟨_, rfl, fun t m' later hreaches hlater => ?_⟩
  have hfits := fits_of_granted granted
  -- the run starts with a registry over the two views, and keeps to them
  have hon : (Session.create (monitorOf buffer.view valuesLength charset)
      (some ⟨monitorOf buffer.view valuesLength charset, timeout, 0, []⟩) clock).On
        ⟨monitorOf buffer.view valuesLength charset, timeout, 0, []⟩ :=
    ⟨rfl, rfl, fun _ hx => nomatch hx⟩
  obtain ⟨r, hon', hmon⟩ := hreaches.on hon
  have hheader : (headerOf buffer.view).bytes m' =
      (headerOf buffer.view).bytes (m.storeAll writes) :=
    hreaches.confines hon monitorOf_enclosed _ body_apart_header
  have hmonitor : t.monitor = monitorOf buffer.view valuesLength charset :=
    hon'.monitor.symm.trans hmon
  have hstamped' := hstamped.congr hheader
  obtain ⟨-, -, hbuffer, hattach⟩ := Buffer.create_eq_ok granted
  subst hbuffer
  refine ⟨⟨_, attach_of_stamped (hlater.trans hattach) hfits hstamped', ?_⟩, hheader⟩
  exact watches_of_stamped hfits hstamped' hmonitor

end Created

open scoped Platform

def inUse : Namespace := ⟨[([98, 105, 103], 0)], [640]⟩

theorem attach_agrees_inUse :
    let made := create inUse ⟨1, 0, fun _ => true⟩ [47, 98, 105, 103] 256 .ascii
      (some (.manual 5)) 10 ⟨fun _ _ => 255⟩
    (Buffer.create inUse [47, 98, 105, 103] (128 + 5 * 256)).2 =
        .ok ⟨[47, 98, 105, 103], some ⟨1, 1408⟩, true⟩ ∧
      0 < 256 ∧ 256 % 128 = 0 ∧ 0 ≤ Word.wrap 4 (256 / 128 : Nat) ∧
      ∃ b, made.result = .ok b ∧ ∃ t m',
        b.session.run 7 (Memory.storeAll ⟨fun _ _ => 255⟩ made.writes) Session.mixed = (t, m') ∧
        (∃ a, attach made.space [47, 98, 105, 103] m' = .ok a ∧ a.Watches t 256 m') ∧
        (headerOf b.buffer.view).bytes m' =
          (headerOf b.buffer.view).bytes (Memory.storeAll ⟨fun _ _ => 255⟩ made.writes) := by
  have granted : (Buffer.create inUse [47, 98, 105, 103] (128 + 5 * 256)).2 =
      .ok ⟨[47, 98, 105, 103], some ⟨1, 1408⟩, true⟩ := rfl
  have counted : 0 ≤ Word.wrap 4 (256 / 128 : Nat) := by decide
  obtain ⟨b, hmade, hruns⟩ := (attach_agrees granted (by decide) (by decide)
    ⟨1, 0, fun _ => true⟩ .ascii (.manual 5) 10 ⟨fun _ _ => 255⟩).2 counted
  exact ⟨granted, by decide, by decide, counted, b, hmade, _, _, rfl,
    hruns _ _ _ (.run b.session 7 _ Session.mixed) rfl⟩

/-- From slots of `0x4000000000` bytes on, an id of four bytes no longer counts them: with twice as
many a board is made that has no id at all. -/
theorem maxId_not_slots :
    let made := create .empty ⟨1, 0, fun _ => true⟩ [47, 98, 105, 103] 0x8000000000 .utf8
      (some (.manual 5)) 0 .zero
    (Buffer.create .empty [47, 98, 105, 103] (128 + 5 * 0x8000000000)).2 =
        .ok ⟨[47, 98, 105, 103], some ⟨0, 128 + 5 * 0x8000000000⟩, true⟩ ∧
      0x8000000000 % 128 = 0 ∧ 128 + 5 * 0x8000000000 < 0x8000000000000000 ∧
      ∃ b a, made.result = .ok b ∧
        attach made.space [47, 98, 105, 103] (Memory.zero.storeAll made.writes) = .ok a ∧
        a.session.monitor.maxId = -1 ∧
        a.session.monitor.maxId ≠ (0x8000000000 / 128 : Nat) - 1 := by
  have granted : (Buffer.create .empty [47, 98, 105, 103] (128 + 5 * 0x8000000000)).2 =
      .ok ⟨[47, 98, 105, 103], some ⟨0, 128 + 5 * 0x8000000000⟩, true⟩ := rfl
  have counted : 0 ≤ Word.wrap 4 (0x8000000000 / 128 : Nat) := by decide
  obtain ⟨writes, hmade, hstamped⟩ := create_ok granted (by decide) (by decide)
    ⟨1, 0, fun _ => true⟩ .utf8 (.manual 5) 0 .zero counted
  obtain ⟨-, -, -, hname⟩ := Buffer.create_eq_ok granted
  rw [hmade]
  have hmax (whole : View) (c : Charset) : (monitorOf whole 0x8000000000 c).maxId = -1 := by
    rw [maxId_monitorOf]
    decide
  refine ⟨granted, by decide, by decide, _, _, rfl,
    attach_of_stamped hname (fits_of_granted granted) hstamped, hmax _ _, fun h => ?_⟩
  exact absurd ((hmax _ _).symm.trans h) (by decide)

end Shared.Board

end Telemetry
