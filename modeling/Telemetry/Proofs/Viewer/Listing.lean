import Telemetry.Proofs.Counters.Glimpse
import Telemetry.Proofs.Shared.Agreement
import Telemetry.Proofs.Viewer.Options

namespace Telemetry

theorem View.word_four_lt (v : View) (i : Nat) (m : Memory) : v.word 4 i m < 0x80000000 := by
  rw [word, Word.signed, length_bytes, slice_capacity]
  exact Word.wrap_four_lt _

open Counters Shared

theorem Counters.Monitor.type_lt {w : Monitor} {m : Memory} {id t : Int}
    (h : w.type id m = .ok t) : t < 0x80000000 := by
  obtain ⟨_, -, hget⟩ := Except.bind_eq_ok_iff.1 h
  by_cases hroom : Record.offset id + Record.typeOffset + 4 ≤ w.metadata.capacity
  · have hword := View.get_of_le hroom m
    rw [← Except.ok.inj (hword.symm.trans hget)]
    exact View.word_four_lt _ _ m
  · cases (View.get_of_lt (Nat.lt_of_not_le hroom) m).symm.trans hget

theorem Counters.Session.Attains.reaches {s t : Session} {m m' : Memory} (h : s.Attains m t m') :
    s.Reaches m t m' := by
  induction h with
  | start => exact .start
  | step wallTime c _ _ ih => exact .step wallTime c ih

namespace Viewer

structure Line where
  id : Int
  value : Int
  label : Text
  deriving DecidableEq, Repr

def Line.text (l : Line) : Text := row l.id l.value l.label

/-- One line for every counter in use, or for every one of a type, in the order of the ids, with
what is answered about its value and its label. -/
structure Lists (w : Monitor) (m : Memory) (type : Option Int) (lines : List Line) : Prop where
  increasing : (lines.map Line.id).Pairwise (· < ·)
  complete : ∀ id, id ∈ lines.map Line.id ↔
    w.state id m = .ok Record.allocated ∧ ∀ t, type = some t → w.type id m = .ok t
  agrees : ∀ l ∈ lines, w.value l.id m = .ok l.value ∧ w.label l.id m = .ok l.label

/-- A type is a word of four bytes, so that no counter is of a type beyond. -/
theorem Lists.eq_nil {w : Monitor} {m : Memory} {n : Int} {lines : List Line}
    (h : Lists w m (some n) lines) (hn : 0x80000000 ≤ n) : lines = [] := by
  apply List.eq_nil_iff_forall_not_mem.2
  intro l hl
  have htype : w.type l.id m = .ok n := ((h.complete l.id).1 (List.mem_map_of_mem hl)).2 n rfl
  have hlt := Monitor.type_lt htype
  omega

section Rows

variable {w : Monitor} {m : Memory} {type : Option Int}

def shows (type : Option Int) (r : Monitor.RecordRow) : Bool := type.all (· == r.type)

def lineOf (w : Monitor) (m : Memory) (r : Monitor.RecordRow) : Line :=
  ⟨r.id, w.slotWordOf 0 r.id m, r.label⟩

theorem shows_eq_true_iff {r : Monitor.RecordRow} :
    shows type r = true ↔ ∀ t, type = some t → t = r.type := by
  cases type with
  | none => simp [shows]
  | some t => simp [shows]

theorem elim_eq_not_shows (type : Option Int) (r : Monitor.RecordRow) :
    type.elim false (· != r.type) = !shows type r := by
  cases type with
  | none => rfl
  | some t => rfl

theorem rows_eq {rs : List Monitor.RecordRow} (h : ∀ r ∈ rs, w.Placed r.id) :
    rows w type m rs =
      .ok (((rs.filter (shows type)).map (lineOf w m)).map Line.text).flatten := by
  induction rs with
  | nil => rfl
  | cons r rest ih =>
    obtain ⟨hr, hrest⟩ := List.forall_mem_cons.1 h
    have hvalue := hr.value_eq m
    rw [rows, ih hrest, elim_eq_not_shows]
    by_cases hshown : shows type r = true
    · rw [List.filter_cons_of_pos hshown, hshown]
      change (w.value r.id m >>= fun value => _) = _
      rw [hvalue]
      rfl
    · rw [List.filter_cons_of_neg hshown, eq_false_of_ne_true hshown]
      rfl

theorem lists_of_scan {rs : List Monitor.RecordRow} {P : Int → Prop}
    (hall : ∀ id, P id ↔ w.state id m = .ok Record.allocated) (hplaced : ∀ id, P id → w.Placed id)
    (h : Monitor.Lists rs Monitor.RecordRow.id P fun r =>
      w.type r.id m = .ok r.type ∧ w.key r.id m = .ok r.key ∧ w.label r.id m = .ok r.label) :
    Lists w m type ((rs.filter (shows type)).map (lineOf w m)) := by
  obtain ⟨⟨hincreasing, hcomplete⟩, hrows⟩ := h
  have hids : ((rs.filter (shows type)).map (lineOf w m)).map Line.id =
      (rs.filter (shows type)).map Monitor.RecordRow.id := by
    rw [List.map_map]
    rfl
  refine ⟨?_, fun id => ?_, fun l hl => ?_⟩
  · rw [hids]
    exact hincreasing.sublist (List.filter_sublist.map _)
  · rw [hids, List.mem_map]
    constructor
    · rintro ⟨r, hr, rfl⟩
      obtain ⟨hmem, hshown⟩ := List.mem_filter.1 hr
      refine ⟨(hall _).1 ((hcomplete _).1 (List.mem_map_of_mem hmem)), fun t ht => ?_⟩
      rw [shows_eq_true_iff.1 hshown t ht]
      exact (hrows r hmem).1
    · rintro ⟨hinUse, htype⟩
      obtain ⟨r, hmem, rfl⟩ := List.mem_map.1 ((hcomplete id).2 ((hall id).2 hinUse))
      refine ⟨r, List.mem_filter.2 ⟨hmem, shows_eq_true_iff.2 fun t ht => ?_⟩, rfl⟩
      exact Except.ok.inj ((htype t ht).symm.trans (hrows r hmem).1)
  · obtain ⟨r, hr, rfl⟩ := List.mem_map.1 hl
    have hmem := (List.mem_filter.1 hr).1
    have hid := hplaced r.id ((hcomplete _).1 (List.mem_map_of_mem hmem))
    exact ⟨hid.value_eq m, (hrows r hmem).2.2⟩

end Rows

section Boards

variable {w : Monitor} {m : Memory} {type : Option Int} {b : Board} {c id : Int}

theorem inScan_of_records (h : w.records = w.slots) (hid : 0 ≤ id ∧ id ≤ w.maxId) :
    w.InScan id := by
  have hiterable : w.iterable = (min w.maxId (Word.wrap 4 w.records - 1) + 1).toNat := rfl
  have hmax : w.maxId = Word.wrap 4 w.slots - 1 := rfl
  rw [h, ← hmax, Int.min_self] at hiterable
  exact ⟨hid.1, by omega⟩

theorem ask_both {α β γ : Type} {p : Query α} {q : Query β} {x : α} {y : β} (hp : p m = .ok x)
    (hq : q m = .ok y) (f : α → β → γ) : (do return f (← p) (← q) : Query γ) m = .ok (f x y) :=
  (Query.bind_ok _ hp).trans (Query.bind_ok _ hq)

theorem print_of_head {host : Host} {style : Style} {head body : Text}
    (hhead : (do return banner style (← b.creator) (← b.isCreatorRunning host) b.buffer.name :
      Query Text) m = .ok head)
    (hrows : rows b.session.monitor type m (b.session.monitor.walkRecords Consumer.all m).seen =
      .ok body) :
    print b host style type m =
      (head ++ body, (b.session.monitor.walkRecords Consumer.all m).fault) := by
  unfold print
  dsimp only
  rw [hhead, hrows]

theorem print_eq (hcreator : b.creator m = .ok c) (hreports : b.session.monitor.Reports m)
    (hrecords : b.session.monitor.records = b.session.monitor.slots) (host : Host) (style : Style)
    (type : Option Int) : ∃ lines, Lists b.session.monitor m type lines ∧
      print b host style type m =
        (banner style c (decide (0 < c) && host.isRunning c.toNat) b.buffer.name ++
          (lines.map Line.text).flatten, none) := by
  have hrunning : b.isCreatorRunning host m = .ok (decide (0 < c) && host.isRunning c.toNat) :=
    Query.bind_ok _ hcreator
  have hhead := ask_both hcreator hrunning fun c running => banner style c running b.buffer.name
  obtain ⟨hfault, hlists⟩ := hreports.records
  have hplaced : ∀ r ∈ (b.session.monitor.walkRecords Consumer.all m).seen,
      b.session.monitor.Placed r.id := fun r hr =>
    ((hlists.ids.complete r.id).1 (List.mem_map_of_mem hr)).1.placed
  have hall (id : Int) : b.session.monitor.InScan id ∧
      b.session.monitor.state id m = .ok Record.allocated ↔
        b.session.monitor.state id m = .ok Record.allocated :=
    and_iff_right_of_imp fun hs => inScan_of_records hrecords (Monitor.inside_of_state hs)
  refine ⟨_, lists_of_scan hall (fun id h => h.1.placed) hlists, ?_⟩
  rw [print_of_head hhead (rows_eq hplaced), hfault]

theorem records_monitorOf (whole : View) (valuesLength : Nat) (charset : Charset) :
    (Board.monitorOf whole valuesLength charset).records =
      (Board.monitorOf whole valuesLength charset).slots := by
  change 4 * valuesLength / 512 = valuesLength / 128
  omega

variable [Platform]

theorem report_of_print {s : Namespace} {name out : Text} {host : Host} {style : Style}
    (hattach : Board.attach s name m = .ok b) (hprint : print b host style type m = (out, none)) :
    report s host style name type m = ⟨0, out, []⟩ := by
  rw [report, hattach]
  dsimp only
  rw [hprint]

theorem report_of_stamped {s : Namespace} {name : Text} {valuesLength : Nat} {p : Mapping}
    (hname : s.attach name = .ok p) (hfits : Board.Fits p.view (4 * valuesLength) valuesLength)
    (hstamped : Board.Stamped p.view (4 * valuesLength) valuesLength m)
    (hreports : (Board.monitorOf p.view valuesLength .utf8).Reports m) (host : Host) (style : Style)
    (type : Option Int) : ∃ lines, Lists (Board.monitorOf p.view valuesLength .utf8) m type lines ∧
      ∃ process running, report s host style name type m =
        ⟨0, banner style process running name ++ (lines.map Line.text).flatten, []⟩ := by
  have hattach := Board.attach_of_stamped hname hfits hstamped
  let a : Board :=
    ⟨⟨name, some p, false⟩, Session.create (Board.monitorOf p.view valuesLength .utf8) none .wall⟩
  have hcreator : a.creator m = .ok ((Board.headerOf p.view).word 8 Board.processOffset m) :=
    Board.headerWord_eq (b := a) hfits (by decide) m
  obtain ⟨lines, hlists, hprint⟩ :=
    print_eq hcreator hreports (records_monitorOf p.view valuesLength .utf8) host style type
  exact ⟨lines, hlists, _, _, report_of_print hattach hprint⟩

end Boards

theorem lists_withCharset {w : Monitor} {c : Charset} {m : Memory} {type : Option Int}
    {lines : List Line} (h : Lists (w.withCharset c) m type lines) : Lists w m type lines :=
  ⟨h.increasing, h.complete, h.agrees⟩

section Granted

variable [Platform]

variable {s : Namespace} {name : Text} {valuesLength : Nat} {buffer : Buffer} {m : Memory}
  (granted : (Buffer.create s name (128 + 5 * valuesLength)).2 = .ok buffer)
  (positive : 0 < valuesLength) (multiple : valuesLength % 128 = 0)
  (zeroed : buffer.view.bytes m = List.replicate buffer.view.capacity 0)
include granted positive multiple zeroed

/-- The creator of a board writes to its header only, so the records are as blank as the segment. -/
theorem blank_of_create (host : Host) (charset : Charset) (clock : Clock) (timeout : Int) :
    (Board.recordsOf buffer.view (4 * valuesLength)).bytes (m.storeAll
        (Board.create s host name valuesLength charset (some clock) timeout m).writes) =
      List.replicate (4 * valuesLength) 0 := by
  have hcapacity := (Board.fits_of_granted granted).capacity
  have hwrites :=
    Board.create_writes_header granted positive multiple host charset clock timeout m
  have happart :
      (Board.headerOf buffer.view).Apart (Board.recordsOf buffer.view (4 * valuesLength)) :=
    View.apart_slice (.inl (Nat.le_refl _))
  rw [View.bytes_storeAll hwrites happart]
  exact View.bytes_of_zero zeroed (View.slice_inside (by omega))

variable (counted : 0 ≤ Word.wrap 4 (valuesLength / 128 : Nat))
include counted

/-- The segment of a board, after whatever its creator's session was asked for: it is stamped, and a
viewer's monitor reports the counters in use. -/
theorem attained_of_create (host : Host) (charset : Charset) (clock : Clock) (timeout : Int) :
    let made := Board.create s host name valuesLength charset (some clock) timeout m
    ∃ b p, made.result = .ok b ∧ made.space.attach name = .ok p ∧ p.view = buffer.view ∧
      ∀ t m', b.session.Attains (m.storeAll made.writes) t m' →
        t.monitor = Board.monitorOf buffer.view valuesLength charset ∧
        Board.Stamped buffer.view (4 * valuesLength) valuesLength m' ∧
        (Board.monitorOf buffer.view valuesLength .utf8).Reports m' := by
  have hblank := blank_of_create granted positive multiple zeroed host charset clock timeout
  obtain ⟨writes, hmade, hstamped⟩ :=
    Board.create_ok granted positive multiple host charset clock timeout m counted
  obtain ⟨-, -, hbuffer, hattach⟩ := Buffer.create_eq_ok granted
  let r : Registry := ⟨Board.monitorOf buffer.view valuesLength charset, timeout, 0, []⟩
  have hr : r.Made :=
    ⟨Board.registry_create_ok granted multiple charset timeout counted,
      View.apart_slice (.inl (Nat.le_refl _))⟩
  rw [hmade] at hblank ⊢
  refine ⟨_, _, rfl, hattach, by rw [hbuffer]; rfl, fun t m' ht => ?_⟩
  have hattains : (Session.create r.monitor (some r) clock).Attains (m.storeAll writes) t m' := ht
  obtain ⟨hmonitor, hreports⟩ := hattains.reports hr hblank
  have hheader : (Board.headerOf buffer.view).bytes m' =
      (Board.headerOf buffer.view).bytes (m.storeAll writes) :=
    hattains.reaches.confines (Session.on_create r clock) Board.monitorOf_enclosed _
      Board.body_apart_header
  exact ⟨hmonitor, hstamped.congr hheader, hreports .utf8⟩

/-- The viewer prints what its arguments ask for: its banner, and one line for every counter in use
or for every one of the type that is looked for, in the order of the ids, with what the creator of
the board answers about its value and its label. The type is the number that was asked for if that
fits a word of four bytes. -/
theorem run_lists (host : Host) (charset : Charset) (clock : Clock) (timeout : Int) :
    let made := Board.create s host name valuesLength charset (some clock) timeout m
    ∃ b, made.result = .ok b ∧
      ∀ t m', b.session.Attains (m.storeAll made.writes) t m' →
      ∀ later viewed, later.attach viewed = made.space.attach name →
      ∀ parser program arguments env files o,
        prepare parser program arguments env files = .ok (o, viewed) →
      (∃ wanted, Asks (arguments.map Text.beforeNul) wanted) ∧
      ∀ wanted, Asks (arguments.map Text.beforeNul) wanted → ∀ viewer style, ∃ lines,
        Lists t.monitor m' (wanted.map lookedFor) lines ∧
        ((∀ n, wanted = some n → n < 0x80000000) → Lists t.monitor m' wanted lines) ∧
        ∃ process running, run parser program arguments env files later viewer style m' =
          ⟨0, banner style process running viewed ++ (lines.map Line.text).flatten, []⟩ := by
  obtain ⟨b, p, hmade, hattach, hview, hattained⟩ :=
    attained_of_create granted positive multiple zeroed counted host charset clock timeout
  refine ⟨b, hmade, fun t m' ht later viewed hlater parser program arguments env files o
    hprepare => ?_⟩
  have hfits := Board.fits_of_granted granted
  obtain ⟨hmonitor, hstamped, hreports⟩ := hattained t m' ht
  rw [← hview] at hfits hmonitor hstamped hreports
  obtain ⟨asked, hasked, htype⟩ := asks_of_prepare hprepare
  refine ⟨⟨asked, hasked⟩, fun wanted hasks viewer style => ?_⟩
  rw [hasked.unique hasks] at htype
  obtain ⟨lines, hlists, process, running, hreport⟩ :=
    report_of_stamped (hlater.trans hattach) hfits hstamped hreports viewer style o.type
  have hcreator : Lists t.monitor m' (wanted.map lookedFor) lines := by
    rw [hmonitor, ← htype]
    exact lists_withCharset (c := .utf8) hlists
  refine ⟨lines, hcreator, fun hsmall => ?_, process, running, ?_⟩
  · rwa [hasks.map_lookedFor hsmall] at hcreator
  · rw [run, hprepare]
    exact hreport

end Granted

open scoped Shared.Platform

def twoSlots : Board.Creation :=
  Board.create .empty ⟨1, 0, fun _ => true⟩ (ascii "/c") 256 .utf8 (some (.manual 5)) 0 .zero

def twoTypes : List Call :=
  [.command (.allocate (.labelled 3 (ascii "a"))), .command (.allocate (.labelled 4 (ascii "b")))]

def ofType (number : Text) : List Text := [ascii "--name", ascii "/c", ascii "--type", number]

theorem run_lists_typed :
    (Buffer.create .empty (ascii "/c") (128 + 5 * 256)).2 =
        .ok ⟨ascii "/c", some ⟨0, 1408⟩, true⟩ ∧
      0 < 256 ∧ 256 % 128 = 0 ∧ View.bytes ⟨0, 0, 1408⟩ .zero = List.replicate 1408 0 ∧
      0 ≤ Word.wrap 4 (256 / 128 : Nat) ∧
      ∃ b, twoSlots.result = .ok b ∧ ∃ t m',
        b.session.run 7 (Memory.zero.storeAll twoSlots.writes) twoTypes = (t, m') ∧
        ∃ lines, Lists t.monitor m' (some 3) lines ∧ ∃ process running,
          run Document.parse [] (ofType (ascii "3")) [] (fun _ => .unopened) twoSlots.space
              ⟨2, 0, fun _ => true⟩ (.at 0) m' =
            ⟨0, banner (.at 0) process running (ascii "/c") ++ (lines.map Line.text).flatten,
              []⟩ := by
  have granted : (Buffer.create .empty (ascii "/c") (128 + 5 * 256)).2 =
      .ok ⟨ascii "/c", some ⟨0, 1408⟩, true⟩ := by decide +kernel
  have zeroed : View.bytes ⟨0, 0, 1408⟩ .zero = List.replicate 1408 0 := View.bytes_zero _
  have counted : 0 ≤ Word.wrap 4 (256 / 128 : Nat) := by decide
  have hprepare : prepare Document.parse [] (ofType (ascii "3")) [] (fun _ => .unopened) =
      .ok (⟨[], ascii "/c", 0, some 3⟩, ascii "/c") := by decide +kernel
  have hasks : Asks ((ofType (ascii "3")).map Text.beforeNul) (some 3) := by
    apply Asks.type (v := ascii "3")
    · decide +kernel
    · exact spells_digits (by decide) (by decide)
    · decide
  obtain ⟨b, hmade, hruns⟩ := run_lists granted (by decide) (by decide) zeroed counted
    ⟨1, 0, fun _ => true⟩ .utf8 (.manual 5) 0
  have hattains := Session.Attains.run b.session 7 (Memory.zero.storeAll twoSlots.writes) twoTypes
    (by decide)
  obtain ⟨-, hlists⟩ := hruns _ _ hattains _ _ rfl _ _ _ _ _ _ hprepare
  obtain ⟨lines, -, hsmall, hrun⟩ := hlists _ hasks ⟨2, 0, fun _ => true⟩ (.at 0)
  exact ⟨granted, by decide, by decide, zeroed, counted, b, hmade, _, _, rfl, lines,
    hsmall (by decide), hrun⟩

/-- A number that does not fit a word of four bytes is looked for as what is left of it: asked for
the type `4294967299`, of which there is no counter, the viewer prints one of type 3. -/
theorem run_wrapped_type :
    ∃ b t m', twoSlots.result = .ok b ∧
      b.session.run 7 (Memory.zero.storeAll twoSlots.writes) twoTypes = (t, m') ∧
      Asks ((ofType (ascii "4294967299")).map Text.beforeNul) (some 4294967299) ∧
      (∀ lines, Lists t.monitor m' (some 4294967299) lines → lines = []) ∧
      run Document.parse [] (ofType (ascii "4294967299")) [] (fun _ => .unopened) twoSlots.space
          ⟨2, 0, fun _ => true⟩ (.at 0) m' =
        ⟨0, banner (.at 0) 1 true (ascii "/c") ++ row 0 0 (ascii "a"), []⟩ := by
  refine ⟨_, _, _, rfl, rfl, ?_, fun lines h => h.eq_nil (by decide), by decide +kernel⟩
  apply Asks.type (v := ascii "4294967299")
  · decide +kernel
  · exact spells_digits (by decide) (by decide)
  · decide

end Viewer

end Telemetry
