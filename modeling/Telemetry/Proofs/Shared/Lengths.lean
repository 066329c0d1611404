import Telemetry.Proofs.Shared.Agreement
import Telemetry.Proofs.Shared.Placement
import Telemetry.Proofs.Shared.Tenure

namespace Telemetry.Shared

open Counters

namespace Namespace

variable [Platform] {s s' s'' : Namespace} {name other n : Text} {length : Nat}

/-- Nothing has come of a creation: names lead where they led, unless it is the name of the creation,
which may be gone, and segments are what they were. -/
structure Unmade (s s' : Namespace) (name : Text) : Prop where
  others : ∀ n, segmentName name ≠ .ok n → s'.find? n = s.find? n
  itself : s' = s ∨ ∀ n, segmentName name = .ok n → s'.find? n = none
  segments : s.Extends s'

theorem Unmade.refl (s : Namespace) (name : Text) : s.Unmade s name :=
  ⟨fun _ _ => rfl, .inl rfl, .refl s⟩

theorem unmade_of_create {e : OsError} (h : (s.create name length false true).result = .error e) :
    s.Unmade (s.create name length false true).space name := by
  refine ⟨fun n hn => find?_create_of_ne hn, ?_, create_extends s name length⟩
  rcases s.takeover_cases name length with ⟨e, hcreate⟩ | ⟨n, -, hname, hcreate⟩
  · rw [hcreate]
    exact .inl rfl
  · rw [hcreate] at h ⊢
    refine .inr fun k hk => ?_
    cases hname.symm.trans hk
    exact (resize_eq_error h).2

theorem unmade_of_unlink (hothers : ∀ n, segmentName name ≠ .ok n → s'.find? n = s.find? n)
    (hextends : s.Extends s') : s.Unmade (s'.unlink name) name := by
  refine ⟨fun n hn => (find?_unlink_of_ne hn).trans (hothers n hn),
    .inr fun n hn => find?_unlink_self hn, ?_, fun r hr => ?_⟩
  · rw [sizes_unlink]
    exact hextends.count
  · rw [Namespace.size, sizes_unlink]
    exact hextends.size_eq r hr

/-- Who attaches by a name finds what was there before, or that the name of the creation is gone. -/
theorem Unmade.attach_eq (h : s.Unmade s' name) (hplaced : s.Placed) (other : Text) :
    s'.attach other = s.attach other ∨
      segmentName other = segmentName name ∧ s'.attach other = .error .noEntry := by
  rcases h.itself with rfl | hgone
  · exact .inl rfl
  · cases hother : segmentName other with
    | error e =>
      left
      simp only [Namespace.attach, hother]
      rfl
    | ok n =>
      by_cases hname : segmentName name = .ok n
      · exact .inr ⟨hname.symm, attach_of_find?_none hother (hgone n hname)⟩
      · left
        have hfind := h.others n hname
        simp only [Namespace.attach, hother, bind, Except.bind, hfind]
        cases hregion : s.find? n with
        | none => rfl
        | some region =>
          simp only [h.segments.size_eq region (hplaced n region hregion)]

end Namespace

namespace Buffer

variable [Platform] {s s' : Namespace} {name : Text} {length : Nat} {b : Buffer} {e : Fault}

theorem unmade_of_create (h : create s name length = (s', .error e)) : s.Unmade s' name := by
  have hspace : (s.create name length false true).space = s' := congrArg Prod.fst h
  cases hresult : (s.create name length false true).result with
  | error e => exact hspace ▸ Namespace.unmade_of_create hresult
  | ok p =>
    simp only [create, hresult] at h
    nomatch h

theorem kind_of_create (h : create s name length = (s', .error e)) : e.kind = .system := by
  have hresult : (create s name length).2 = .error e := congrArg Prod.snd h
  unfold create at hresult
  dsimp only at hresult
  split at hresult
  · nomatch hresult
  · cases hresult
    rfl

theorem unmade_of_release (h : create s name length = (s', .ok b)) :
    s.Unmade (b.release s') name := by
  obtain ⟨rfl, -⟩ := create_owner h
  exact Namespace.unmade_of_unlink (fun n hn => find?_create_of_ne h hn) (create_extends h)

end Buffer

namespace Board

variable {s s' : Namespace} {name : Text} {valuesLength : Nat} {buffer : Buffer} {whole : View}
  {m : Memory} {e : Fault}

/-- The length of the segment that is asked for. -/
def requested (valuesLength : Nat) : Nat := (128 + 5 * valuesLength) % 0x10000000000000000

theorem offset_natCast (n : Nat) : Word.offset n = n % 0x10000000000000000 := by
  simp only [Word.offset]
  omega

theorem segmentLength_eq_mod (records slots : Nat) :
    segmentLength records slots = (128 + records + slots) % 0x10000000000000000 :=
  offset_natCast (128 + records + slots)

theorem segmentLength_eq_requested (valuesLength : Nat) :
    segmentLength (valuesLength * 4 % 0x10000000000000000) valuesLength =
      requested valuesLength := by
  rw [segmentLength_eq_mod, requested]
  omega

theorem recordsLength_eq (valuesLength : Nat) :
    Word.offset (valuesLength * (Record.length / Slot.length)) =
      valuesLength * 4 % 0x10000000000000000 := offset_natCast (valuesLength * 4)

theorem requested_of_lt (h : 128 + 5 * valuesLength < 0x10000000000000000) :
    requested valuesLength = 128 + 5 * valuesLength := Nat.mod_eq_of_lt h

theorem headerLength_le_requested (hmultiple : valuesLength % 128 = 0)
    (hpos : 0 < requested valuesLength) : headerLength ≤ requested valuesLength := by
  have hdvd : 128 ∣ requested valuesLength :=
    (Nat.dvd_mod_iff (by decide)).2
      ((Nat.dvd_add_right (Nat.dvd_refl 128)).2
        (Nat.dvd_mul_left_of_dvd (Nat.dvd_of_mod_eq_zero hmultiple) 5))
  exact Nat.le_of_dvd hpos hdvd

theorem sections_eq_error {records slots : Nat} (h : sections whole records slots = .error e) :
    ∃ i n, e = .outOfBounds i n whole.capacity := by
  by_cases hrecords : headerLength + records ≤ whole.capacity
  · by_cases hslots : Word.offset (headerLength + records) + slots ≤ whole.capacity
    · rw [sections, View.sub_of_le hrecords, View.sub_of_le hslots] at h
      cases h
    · rw [sections, View.sub_of_le hrecords, View.sub_of_lt (Nat.lt_of_not_le hslots)] at h
      cases h
      exact ⟨_, _, rfl⟩
  · rw [sections, View.sub_of_lt (Nat.lt_of_not_le hrecords)] at h
    cases h
    exact ⟨_, _, rfl⟩

/-- A board that is longer than a word can say does not fit into any segment that can be mapped. -/
theorem sections_of_wrapped {records : Nat}
    (hwrapped : 0x10000000000000000 ≤ 128 + 5 * valuesLength)
    (hgap : whole.capacity < 0x2000000000000000) :
    ∃ i n, sections whole records valuesLength = .error (.outOfBounds i n whole.capacity) := by
  cases h : sections whole records valuesLength with
  | ok views =>
    have hslots := slots_le_of_sections h
    omega
  | error e =>
    obtain ⟨i, n, rfl⟩ := sections_eq_error h
    exact ⟨i, n, rfl⟩

theorem initialise_of_sections_error {records slots : Nat} (hroom : headerLength ≤ whole.capacity)
    (h : sections whole records slots = .error e) (host : Host) (charset : Charset)
    (clock : Option Clock) (timeout : Int) (m : Memory) :
    (initialise whole host records slots charset clock timeout m).result = .error e := by
  have hrun : (initialise whole host records slots charset clock timeout).run m = _ :=
    run_initialise_of_room hroom host charset clock timeout m
  rw [h] at hrun
  exact congrArg Prod.snd (hrun.trans (Action.run_bind_error _ (Action.run_ofExcept (.error e) _)))

/-- A board with a registry over exactly the records and slots that were asked for. -/
structure Exact (b : Board) (valuesLength : Nat) (m : Memory) : Prop where
  registry : ∃ r, b.registry = .ok r ∧ r.monitor = b.session.monitor
  length : b.buffer.length = 128 + 5 * valuesLength
  records : b.session.monitor.metadata = b.buffer.view.slice 128 (4 * valuesLength)
  slots : b.session.monitor.values = b.buffer.view.slice (128 + 4 * valuesLength) valuesLength
  metadataLength : b.metadataLength m = .ok (4 * valuesLength : Nat)
  valuesLength : b.valuesLength m = .ok valuesLength

theorem not_invalid (hpos : 0 < valuesLength) (hmultiple : valuesLength % 128 = 0) :
    ¬ (valuesLength = 0 ∨ valuesLength % Slot.length ≠ 0) :=
  not_or.2 ⟨Nat.ne_of_gt hpos, not_not_intro hmultiple⟩

section Created

variable [Platform]

inductive Outcome (s : Namespace) (name : Text) (valuesLength : Nat) (m : Memory) : Creation → Prop
  | denied {s' : Namespace} {e : Fault}
      (asked : Buffer.create s name (requested valuesLength) = (s', .error e)) :
      Outcome s name valuesLength m ⟨s', [], .error e⟩
  | wrapped {s' : Namespace} {b : Buffer} {writes : List Write} {i n : Nat}
      (asked : Buffer.create s name (requested valuesLength) = (s', .ok b))
      (long : 0x10000000000000000 ≤ 128 + 5 * valuesLength) :
      Outcome s name valuesLength m
        ⟨b.release s', writes, .error (.outOfBounds i n (requested valuesLength))⟩
  | uncounted {s' : Namespace} {b : Buffer} {writes : List Write}
      (asked : Buffer.create s name (requested valuesLength) = (s', .ok b))
      (short : 128 + 5 * valuesLength < 0x10000000000000000)
      (negative : Word.wrap 4 (valuesLength / 128 : Nat) < 0) :
      Outcome s name valuesLength m ⟨b.release s', writes, .error .noRoomForIds⟩
  | made {s' : Namespace} {b : Buffer} {writes : List Write} {y : Board}
      (asked : Buffer.create s name (requested valuesLength) = (s', .ok b))
      (short : 128 + 5 * valuesLength < 0x10000000000000000)
      (counted : 0 ≤ Word.wrap 4 (valuesLength / 128 : Nat))
      (buffer : y.buffer = b) (exact : y.Exact valuesLength (m.storeAll writes)) :
      Outcome s name valuesLength m ⟨s', writes, .ok y⟩

section Valid

variable (hpos : 0 < valuesLength) (hmultiple : valuesLength % 128 = 0)
include hpos hmultiple

theorem create_of_denied (asked : Buffer.create s name (requested valuesLength) = (s', .error e))
    (host : Host) (charset : Charset) (clock : Option Clock) (timeout : Int) (m : Memory) :
    create s host name valuesLength charset clock timeout m = ⟨s', [], .error e⟩ := by
  unfold create
  rw [if_neg (not_invalid hpos hmultiple)]
  simp only [recordsLength_eq, segmentLength_eq_requested, asked]

theorem create_of_initialise_error {b : Buffer}
    (asked : Buffer.create s name (requested valuesLength) = (s', .ok b)) {host : Host}
    {charset : Charset} {clock : Option Clock} {timeout : Int}
    (h : (initialise b.view host (valuesLength * 4 % 0x10000000000000000) valuesLength charset clock
      timeout m).result = .error e) :
    ∃ writes, create s host name valuesLength charset clock timeout m =
      ⟨b.release s', writes, .error e⟩ := by
  unfold create
  rw [if_neg (not_invalid hpos hmultiple)]
  simp only [recordsLength_eq, segmentLength_eq_requested, asked, h]
  exact ⟨_, rfl⟩

end Valid

section Asked

variable {b : Buffer} (asked : Buffer.create s name (requested valuesLength) = (s', .ok b))
  (hpos : 0 < valuesLength) (hmultiple : valuesLength % 128 = 0) (host : Host) (charset : Charset)
  (clock : Clock) (timeout : Int) (m : Memory)
include asked

theorem capacity_of_asked : b.view.capacity = requested valuesLength ∧
    0 < requested valuesLength ∧ requested valuesLength < 0x2000000000000000 := by
  obtain ⟨hlength, hgap, rfl, -⟩ := Buffer.create_eq_ok (congrArg Prod.snd asked)
  exact ⟨rfl, hlength, hgap⟩

include hpos hmultiple

theorem create_of_wrapped (long : 0x10000000000000000 ≤ 128 + 5 * valuesLength) :
    Outcome s name valuesLength m
      (create s host name valuesLength charset (some clock) timeout m) := by
  obtain ⟨hcapacity, hlength, hgap⟩ := capacity_of_asked asked
  rw [← hcapacity] at hgap
  have hroom : headerLength ≤ b.view.capacity := by
    rw [hcapacity]
    exact headerLength_le_requested hmultiple hlength
  obtain ⟨i, n, hsections⟩ := sections_of_wrapped long hgap
  obtain ⟨writes, hcreate⟩ := create_of_initialise_error hpos hmultiple asked
    (initialise_of_sections_error hroom hsections host charset (some clock) timeout m)
  rw [hcreate, hcapacity]
  exact .wrapped asked long

theorem create_of_uncounted (short : 128 + 5 * valuesLength < 0x10000000000000000)
    (negative : Word.wrap 4 (valuesLength / 128 : Nat) < 0) :
    Outcome s name valuesLength m
      (create s host name valuesLength charset (some clock) timeout m) := by
  have granted : (Buffer.create s name (128 + 5 * valuesLength)).2 = .ok b := by
    rw [← requested_of_lt short, asked]
  have hrecords : valuesLength * 4 % 0x10000000000000000 = 4 * valuesLength := by omega
  have hregistry := registry_create_refused granted hmultiple charset timeout negative
  obtain ⟨writes, hcreate⟩ := create_of_initialise_error hpos hmultiple asked
    (hrecords ▸ initialise_error (fits_of_granted granted) host charset (some clock) timeout m
      hregistry)
  rw [hcreate]
  exact .uncounted asked short negative

theorem create_of_counted (short : 128 + 5 * valuesLength < 0x10000000000000000)
    (counted : 0 ≤ Word.wrap 4 (valuesLength / 128 : Nat)) :
    Outcome s name valuesLength m
      (create s host name valuesLength charset (some clock) timeout m) := by
  have granted : (Buffer.create s name (128 + 5 * valuesLength)).2 = .ok b := by
    rw [← requested_of_lt short, asked]
  have hspace : (Buffer.create s name (128 + 5 * valuesLength)).1 = s' := by
    rw [← requested_of_lt short, asked]
  obtain ⟨writes, hcreate, hstamped⟩ :=
    create_ok granted hpos hmultiple host charset clock timeout m counted
  have hfits := fits_of_granted granted
  obtain ⟨-, -, hbuffer, -⟩ := Buffer.create_eq_ok granted
  have hlength : b.length = 128 + 5 * valuesLength := by
    rw [hbuffer]
    rfl
  have howner : b.owner = true := by rw [hbuffer]
  rw [hcreate, hspace]
  refine .made asked short counted rfl ⟨⟨_, if_pos howner, rfl⟩, hlength, rfl, rfl, ?_, ?_⟩
  · exact (headerWord_eq hfits (by decide) _).trans (congrArg _ hstamped.metadataLength)
  · exact (headerWord_eq hfits (by decide) _).trans (congrArg _ hstamped.valuesLength)

end Asked

theorem create_outcome (hpos : 0 < valuesLength) (hmultiple : valuesLength % 128 = 0) (host : Host)
    (charset : Charset) (clock : Clock) (timeout : Int) (m : Memory) :
    Outcome s name valuesLength m
      (create s host name valuesLength charset (some clock) timeout m) := by
  rcases asked : Buffer.create s name (requested valuesLength) with ⟨s', e | b⟩
  · rw [create_of_denied hpos hmultiple asked]
    exact .denied asked
  · rcases Nat.lt_or_ge (128 + 5 * valuesLength) 0x10000000000000000 with short | long
    · rcases Int.lt_or_le (Word.wrap 4 (valuesLength / 128 : Nat)) 0 with negative | counted
      · exact create_of_uncounted asked hpos hmultiple host charset clock timeout m short negative
      · exact create_of_counted asked hpos hmultiple host charset clock timeout m short counted
    · exact create_of_wrapped asked hpos hmultiple host charset clock timeout m long

theorem Outcome.unmade {c : Creation} (h : Outcome s name valuesLength m c)
    (he : c.result = .error e) : s.Unmade c.space name := by
  cases h with
  | denied asked => exact Buffer.unmade_of_create asked
  | wrapped asked _ | uncounted asked _ _ => exact Buffer.unmade_of_release asked
  | made => nomatch he

/-- Why a board of a length that is allowed is not made. -/
inductive Refusal (s : Namespace) (name : Text) (valuesLength : Nat) (e : Fault) : Prop
  /-- The system refuses the segment. -/
  | denied (kind : e.kind = .system)
      (asked : (Buffer.create s name (requested valuesLength)).2 = .error e)
  /-- The segment that is granted is too short, since the length of the whole board is no word. -/
  | wrapped (kind : e.kind = .outOfRange)
      (asked : ∃ b, (Buffer.create s name (requested valuesLength)).2 = .ok b)
      (long : 0x10000000000000000 ≤ 128 + 5 * valuesLength)
  /-- Ids of four bytes cannot count the slots. -/
  | uncounted (kind : e.kind = .length)
      (asked : ∃ b, (Buffer.create s name (requested valuesLength)).2 = .ok b)
      (short : 128 + 5 * valuesLength < 0x10000000000000000)
      (negative : Word.wrap 4 (valuesLength / 128 : Nat) < 0)

theorem Outcome.refusal {c : Creation} (h : Outcome s name valuesLength m c)
    (he : c.result = .error e) : Refusal s name valuesLength e := by
  cases h with
  | denied asked =>
    cases he
    exact .denied (Buffer.kind_of_create asked) (congrArg Prod.snd asked)
  | wrapped asked long =>
    cases he
    exact .wrapped rfl ⟨_, congrArg Prod.snd asked⟩ long
  | uncounted asked short negative =>
    cases he
    exact .uncounted rfl ⟨_, congrArg Prod.snd asked⟩ short negative
  | made => nomatch he

theorem Outcome.exact {c : Creation} {y : Board} (h : Outcome s name valuesLength m c)
    (hy : c.result = .ok y) : y.Exact valuesLength (m.storeAll c.writes) := by
  cases h with
  | made _ _ _ _ hexact =>
    cases hy
    exact hexact
  | denied | wrapped | uncounted => nomatch hy

theorem Outcome.made_of_granted {c : Creation} {b : Buffer} (h : Outcome s name valuesLength m c)
    (short : 128 + 5 * valuesLength < 0x10000000000000000)
    (counted : 0 ≤ Word.wrap 4 (valuesLength / 128 : Nat))
    (granted : (Buffer.create s name (requested valuesLength)).2 = .ok b) :
    ∃ y, c.result = .ok y ∧ y.buffer = b := by
  cases h with
  | denied asked =>
    rw [asked] at granted
    cases granted
  | wrapped _ long => exact absurd short (Nat.not_lt_of_le long)
  | uncounted _ _ negative => exact absurd counted (Int.not_le_of_gt negative)
  | made asked _ _ hbuffer =>
    rw [asked] at granted
    cases granted
    exact ⟨_, rfl, hbuffer⟩

theorem unmade_of_refused {host : Host} {charset : Charset} {clock : Clock} {timeout : Int}
    (h : (create s host name valuesLength charset (some clock) timeout m).result = .error e) :
    s.Unmade (create s host name valuesLength charset (some clock) timeout m).space name := by
  by_cases hinvalid : valuesLength = 0 ∨ valuesLength % 128 ≠ 0
  · have hmade : create s host name valuesLength charset (some clock) timeout m =
        ⟨s, [], .error (.valuesLengthNotMultiple 128 valuesLength)⟩ := if_pos hinvalid
    rw [hmade]
    exact .refl s name
  · obtain ⟨hpos, hmultiple⟩ := not_or.1 hinvalid
    exact (create_outcome (Nat.pos_of_ne_zero hpos) (Decidable.of_not_not hmultiple) host charset
      clock timeout m).unmade h

/-- A creation, whatever comes of it, writes into no segment that could be attached to before. -/
theorem bytes_create (host : Host) (valuesLength : Nat) (charset : Charset) (clock : Option Clock)
    (timeout : Int) (m : Memory) {other : Text} {p : Mapping} (hp : s.attach other = .ok p) :
    p.view.bytes
        (m.storeAll (create s host name valuesLength charset clock timeout m).writes) =
      p.view.bytes m := by
  obtain ⟨v, hv, hwrites⟩ := (create_ready s host name valuesLength charset clock timeout m).1
  have hlt := Namespace.region_lt_of_attach hp
  have happart : v.Apart p.view := .inl (by rw [hv]; exact Nat.ne_of_gt hlt)
  exact View.bytes_storeAll hwrites happart m

/-- Creating a board of any length. A length that is no positive multiple of 128 is refused as that.
Otherwise the board has exactly the records and slots that were asked for, or the system refuses the
segment; only a board that is longer than an unsigned word can say, and one whose slots cannot be
counted by ids of four bytes, is refused otherwise, after its segment was granted. Whenever a creation
is refused, nothing is left of it: the names are what they were, less its own at most, and so is all
that could be attached to. -/
theorem create_lengths (s : Namespace) (host : Host) (name : Text) (valuesLength : Nat)
    (charset : Charset) (clock : Clock) (timeout : Int) (m : Memory) :
    let made := create s host name valuesLength charset (some clock) timeout m
    (valuesLength = 0 ∨ valuesLength % 128 ≠ 0 →
      ∃ e, made.result = .error e ∧ e = .valuesLengthNotMultiple 128 valuesLength ∧
        e.kind = .invalidArgument) ∧
    (¬ (valuesLength = 0 ∨ valuesLength % 128 ≠ 0) → ∀ e, made.result = .error e →
      Refusal s name valuesLength e) ∧
    (∀ b, made.result = .ok b → b.Exact valuesLength (m.storeAll made.writes)) ∧
    ∀ e, made.result = .error e → s.Unmade made.space name ∧
      (s.Placed → ∀ other, made.space.attach other = s.attach other ∨
        segmentName other = segmentName name ∧
          made.space.attach other = .error .noEntry) ∧
      ∀ other p, s.attach other = .ok p →
        p.view.bytes (m.storeAll made.writes) = p.view.bytes m := by
  intro made
  have hleft (e : Fault) (he : made.result = .error e) : s.Unmade made.space name ∧
      (s.Placed → ∀ other, made.space.attach other = s.attach other ∨
        segmentName other = segmentName name ∧ made.space.attach other = .error .noEntry) ∧
      ∀ other p, s.attach other = .ok p →
        p.view.bytes (m.storeAll made.writes) = p.view.bytes m := by
    have hunmade := unmade_of_refused he
    exact ⟨hunmade, hunmade.attach_eq, fun other p hp => bytes_create host _ _ _ _ m hp⟩
  by_cases hinvalid : valuesLength = 0 ∨ valuesLength % 128 ≠ 0
  · have hmade : made = ⟨s, [], .error (.valuesLengthNotMultiple 128 valuesLength)⟩ :=
      if_pos hinvalid
    refine ⟨fun _ => ⟨_, by rw [hmade], rfl, rfl⟩, fun h => absurd hinvalid h, fun b hb => ?_, hleft⟩
    rw [hmade] at hb
    nomatch hb
  · obtain ⟨hpos, hmultiple⟩ := not_or.1 hinvalid
    have houtcome : Outcome s name valuesLength m made :=
      create_outcome (Nat.pos_of_ne_zero hpos) (Decidable.of_not_not hmultiple) host charset clock timeout m
    exact ⟨fun h => absurd h hinvalid, fun _ e he => houtcome.refusal he,
      fun b hb => houtcome.exact hb, hleft⟩

end Created

open scoped Platform

/-- A length of which five times and 128 are 256 as a word: a segment of 256 bytes is granted, and then
the records do not fit. -/
theorem create_wrapped_granted :
    let made := create .empty ⟨1, 0, fun _ => true⟩ [97] 0x6666666666666680 .utf8
      (some (.manual 5)) 0 .zero
    0x6666666666666680 % 128 = 0 ∧
      (Buffer.create .empty [97] (requested 0x6666666666666680)).2 =
        .ok ⟨[97], some ⟨0, 256⟩, true⟩ ∧
      made.result = .error (.outOfBounds 128 0x9999999999999a00 256) ∧
      Fault.kind (.outOfBounds 128 0x9999999999999a00 256) ≠ .system :=
  ⟨rfl, rfl, rfl, by decide⟩

end Board

namespace World

/-- Whatever was done before, nothing that can be attached to is lost by a board that is refused,
except what had its name. -/
theorem run_board_refused [Platform] {host : Host} {m₀ m : Memory} {before : List Command}
    {w : World} (hrun : empty.run host m₀ before = (w, m)) {b valuesLength : Nat} {name : Text}
    {charset : Charset} {clock : Clock} {timeout : Int} {e : Fault}
    (h : (w.step host m (.createBoard b name valuesLength charset (some clock) timeout)).answer =
      .error e) (other : Text) :
    let after := (w.step host m
      (.createBoard b name valuesLength charset (some clock) timeout)).world.space
    after.attach other = w.space.attach other ∨
      segmentName other = segmentName name ∧ after.attach other = .error .noEntry := by
  have hplaced : w.space.Placed := by
    have := run_placed host m₀ before
    rwa [hrun] at this
  simp only [step, placeBoard] at h ⊢
  split at h
  · next e' he =>
    exact (Board.unmade_of_refused he).attach_eq hplaced other
  · cases h

end World

end Telemetry.Shared
