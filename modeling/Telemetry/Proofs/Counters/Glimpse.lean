import Telemetry.Proofs.Counters.Isolation
import Telemetry.Proofs.Counters.Rollback
import Telemetry.Proofs.Counters.Scan
import Telemetry.Proofs.Memory.Passage

namespace Telemetry.Counters

structure Account where
  state : Except Fault Int
  type : Except Fault Int
  deadline : Except Fault Int
  key : Except Fault (List Byte)
  label : Except Fault Text
  value : Except Fault Int
  registration : Except Fault Int
  owner : Except Fault Int

namespace Monitor

variable {w : Monitor} {m m' : Memory} {id : Int} {n : Nat}

def account (w : Monitor) (id : Int) (m : Memory) : Account :=
  ⟨w.state id m, w.type id m, w.deadline id m, w.key id m, w.label id m, w.value id m,
    w.registration id m, w.owner id m⟩

theorem account_congr (hid : w.Placed id) (hrecord : (w.record id).bytes m = (w.record id).bytes m')
    (hslot : (w.slot id).bytes m = (w.slot id).bytes m') : w.account id m = w.account id m' := by
  have hword {n field : Nat} (hf : field + n ≤ 512) :
      w.recordWord n field id m = w.recordWord n field id m' := by
    rw [hid.recordWord_eq hf, hid.recordWord_eq hf, recordWordOf_congr hf hrecord]
  have hslotWord {field : Nat} (hf : field + 8 ≤ 128) :
      w.slotWord field id m = w.slotWord field id m' := by
    rw [hid.slotWord_eq hf, hid.slotWord_eq hf, slotWordOf_congr hf hslot]
  have hkey : w.key id m = w.key id m' := by
    rw [hid.key_eq, hid.key_eq, View.bytes_mono keyOf_inside hrecord]
  rw [account, account, Account.mk.injEq]
  exact ⟨hword (by decide), hword (by decide), hword (by decide), hkey, hid.label_congr hrecord,
    hslotWord (by decide), hslotWord (by decide), hslotWord (by decide)⟩

theorem account_of_invalid {e : Fault} (he : w.validate id = .error e) (m m' : Memory) :
    w.account id m = w.account id m' := by
  have hrefused {α : Type} (q : Query α) (m : Memory) :
      (liftM (w.validate id) >>= fun _ => q : Query α) m = .error e := by
    change (w.validate id >>= fun _ => q m) = _
    rw [he]
    rfl
  have hkey (m : Memory) : w.key id m = .error e := by
    change (w.keyView id >>= fun v => v.load 0 Record.keyLength m) = _
    rw [keyView, he]
    rfl
  rw [account, account, Account.mk.injEq]
  exact ⟨(hrefused _ m).trans (hrefused _ m').symm, (hrefused _ m).trans (hrefused _ m').symm,
    (hrefused _ m).trans (hrefused _ m').symm, (hkey m).trans (hkey m').symm,
    (hrefused _ m).trans (hrefused _ m').symm, (hrefused _ m).trans (hrefused _ m').symm,
    (hrefused _ m).trans (hrefused _ m').symm, (hrefused _ m).trans (hrefused _ m').symm⟩

theorem inside_of_state {x : Int} (hs : w.state id m = .ok x) : 0 ≤ id ∧ id ≤ w.maxId := by
  by_contra hno
  change (w.validate id >>= fun _ => w.metadata.get 4 (Record.offset id + 0) m) = _ at hs
  rw [validate_of_outside (by omega)] at hs
  cases hs

/-- What a monitor reports of a memory: each scan finishes with a row for every id in use that it
may come to, in increasing order and as the monitor answers for that id, and a search answers the
least of these that matches. -/
structure Reports (w : Monitor) (m : Memory) : Prop where
  labels : (w.walkLabels Consumer.all m).fault = none ∧
    Lists (w.walkLabels Consumer.all m).seen LabelRow.id
      (fun id => w.InScan id ∧ w.state id m = .ok Record.allocated) fun row =>
        w.label row.id m = .ok row.label
  values : (w.walkValues Consumer.all m).fault = none ∧
    Lists (w.walkValues Consumer.all m).seen ValueRow.id
      (fun id => w.InScan id ∧ w.state id m = .ok Record.allocated) fun row =>
        w.value row.id m = .ok row.value
  records : (w.walkRecords Consumer.all m).fault = none ∧
    Lists (w.walkRecords Consumer.all m).seen RecordRow.id
      (fun id => w.InScan id ∧ w.state id m = .ok Record.allocated) fun row =>
        w.type row.id m = .ok row.type ∧ w.key row.id m = .ok row.key ∧
          w.label row.id m = .ok row.label
  found : ∀ type registration,
    (∃ id, w.find type registration m = .ok id ∧ w.InScan id ∧ w.Matches m type registration id ∧
      ∀ j, w.InScan j → w.Matches m type registration j → id ≤ j) ∨
    w.find type registration m = .ok Record.noCounter ∧
      ∀ j, w.InScan j → ¬ w.Matches m type registration j

theorem reports_of_visible
    (hvisible : ∀ id, w.Visible m id ↔ w.InScan id ∧ w.state id m = .ok Record.allocated)
    (hfits : ∀ id, w.Visible m id → w.LabelFits id m) : w.Reports m := by
  obtain ⟨values, labels, records, found⟩ := w.surveys m
  have hsame : w.Visible m = fun id => w.InScan id ∧ w.state id m = .ok Record.allocated :=
    funext fun id => propext (hvisible id)
  have hmatches (type registration j : Int) (hj : w.InScan j) :
      w.Matches m type registration j ↔ w.Visible m j ∧ w.Bears m type registration j := by
    rw [hvisible, Matches, hj.placed.type_eq, Monitor.registration,
      hj.placed.slotWord_eq (by decide), Except.ok.injEq, Except.ok.injEq, Bears, and_iff_right hj]
  refine ⟨hsame ▸ labels.of_fits hfits, hsame ▸ values, hsame ▸ records.of_fits hfits,
    fun type registration => ?_⟩
  rcases found type registration with ⟨id, hfind, hv, hbears, hleast⟩ | ⟨hfind, hnone⟩
  · have hm := (hmatches type registration id hv.inScan).2 ⟨hv, hbears⟩
    refine .inl ⟨id, hfind, hv.inScan, hm, fun j hj hm => ?_⟩
    obtain ⟨hjv, hjbears⟩ := (hmatches _ _ j hj).1 hm
    exact hleast j hjv hjbears
  · refine .inr ⟨hfind, fun j hj hm => ?_⟩
    obtain ⟨hjv, hjbears⟩ := (hmatches _ _ j hj).1 hm
    exact hnone j hjv hjbears

/-- What a monitor sees of a memory `m'` that is met on the way from `m`, when an id is written to.
If the id is in use there then all that is answered about it is what is known of it; what is
answered about any other id stays. -/
structure Glimpse (w : Monitor) (m known m' : Memory) (id : Int) : Prop where
  reports : w.Reports m'
  whole : w.state id m' = .ok Record.allocated → w.account id m' = w.account id known
  others : ∀ j, j ≠ id → w.account j m' = w.account j m

end Monitor

namespace Registry

open Telemetry.Action Monitor View

variable {r r' : Registry} {m m₁ m' known : Memory} {id now : Int} {n : Nat}

/-- What holds of a memory on the way, over views with a slot for every id. -/
structure Moment (r : Registry) (m known m' : Memory) (id : Int) : Prop where
  coherent : ∃ r' : Registry, r'.monitor = r.monitor ∧ r'.Coherent m'
  legible : ∀ j, r.monitor.HasId j → r.monitor.stateOf j m' = Record.allocated →
    r.monitor.LabelFits j m'
  whole : r.monitor.stateOf id m' = Record.allocated → m' = known
  others : ∀ j, r.monitor.HasId j → j ≠ id →
    (r.monitor.record j).bytes m' = (r.monitor.record j).bytes m ∧
      (r.monitor.slot j).bytes m' = (r.monitor.slot j).bytes m

section Body

variable {offset : Nat}

/-- On the way through an operation that ends by putting the state of a record, only the rest of the
record is written before the end. -/
theorem cases_putState {x : Action Unit} {s : Int} (hx : x.Within (r.body offset))
    (hend : offset + 512 ≤ r.monitor.metadata.capacity)
    (h : (x >>= fun _ => r.putState offset s).Meets m m') :
    (r.body offset).Confines m m' ∨
      ((x >>= fun _ => r.putState offset s).run m) = (m', .ok ()) := by
  rcases h.cases_bind with hfirst | ⟨_, m₁, hrun, hstate⟩
  · exact .inl (hx.confines_of_meets hfirst)
  · rcases View.store_meets hstate with rfl | rfl
    · exact .inl (hx.confines_of_run hrun)
    · refine .inr ?_
      rw [run_bind_ok _ hrun]
      exact Prod.ext rfl (by rw [run_putState hend])

theorem body_of_error {x : Action Unit} {s : Int} {e : Fault} (hx : x.Within (r.body offset))
    (hend : offset + 512 ≤ r.monitor.metadata.capacity)
    (h : (x >>= fun _ => r.putState offset s).run m = (m', .error e)) :
    (r.body offset).Confines m m' := by
  rcases hrun : x.run m with ⟨m₁, e' | _⟩
  · rw [run_bind_error _ hrun] at h
    cases h
    exact hx.confines_of_run hrun
  · rw [run_bind_ok _ hrun, run_putState hend] at h
    cases h

end Body

theorem stateOf_of_body (hc : (r.body (Record.offset id)).Confines m m') :
    r.monitor.stateOf id m' = r.monitor.stateOf id m :=
  hc.word (apart_slice (.inr (Nat.add_le_add_left (by decide) _)))

theorem withdraw_eq (r : Registry) (offset : Nat) :
    r.withdraw offset = (r.clearKey offset >>= fun _ => r.putDeadline offset 0) >>= fun _ =>
      r.putState offset Record.reclaimed := by
  rw [withdraw, bind_assoc]

/-- On the way through an allocation an id is taken, or its record is published, or that has failed
and it is withdrawn. -/
theorem cases_allocate {q : Request} (htake : (r.takeId now).run m = (m₁, .ok (r', id)))
    (h : m.Meets (r.allocate now q m).writes m') :
    (r.takeId now).Meets m m' ∨ (r'.publish (Record.offset id) q).Meets m₁ m' ∨
      ∃ m₂ e, (r'.publish (Record.offset id) q).run m₁ = (m₂, .error e) ∧
        (r'.withdraw (Record.offset id)).Meets m₂ m' := by
  obtain ⟨hm, htaken⟩ := Prod.mk.inj htake
  subst hm
  simp only [allocate, htaken] at h
  split at h
  · rcases h.cases_append with h | h
    · exact .inl h
    · exact .inr (.inl h)
  · next e hfailed =>
    rcases h.cases_append with h | h
    · rcases h.cases_append with h | h
      · exact .inl h
      · exact .inr (.inl h)
    · rw [Memory.storeAll_append] at h
      exact .inr (.inr ⟨_, e, Prod.ext rfl hfailed, h⟩)

/-- Every memory on the way of an allocation differs in the slot of the id and in its record only,
and the state of the id is what it was until the last write. -/
theorem allocate_meets (hp : r.monitor.Paired) (hfreed : ∀ id ∈ r.freed, r.monitor.HasId id)
    {q : Request} (htake : (r.takeId now m).result = .ok (r', id))
    (h : m.Meets (r.allocate now q m).writes m') :
    ∃ m₂, (r.monitor.slot id).Confines m m₂ ∧ (r.monitor.record id).Confines m₂ m' ∧
      (r.monitor.stateOf id m' = r.monitor.stateOf id m ∨ m' = (r.allocate now q m).memory m) := by
  obtain ⟨m₁, hrun, htaken⟩ := taken_of_takeId hp hfreed htake
  have hmon := htaken.monitor_eq
  have hid := htaken.hasId hfreed
  have hend : Record.offset id + 512 ≤ r'.monitor.metadata.capacity := hmon ▸ hid.record_le hp
  have hstate {m' : Memory} (h : (r.monitor.slot id).Confines m m') :
      r.monitor.stateOf id m' = r.monitor.stateOf id m :=
    recordWordOf_congr (by decide) (record_of_slot hp (hid.hasSlot hp) hid h)
  -- until its state is put the record differs in the rest only
  have hbody (h : (r'.body (Record.offset id)).Confines m₁ m') :
      (r.monitor.record id).Confines m₁ m' ∧ r.monitor.stateOf id m' = r.monitor.stateOf id m := by
    have hkept := stateOf_of_body h
    have hrecord := h.mono body_inside
    rw [hmon] at hkept hrecord
    exact ⟨hrecord, hkept.trans (hstate htaken.slot_confines)⟩
  rcases cases_allocate hrun h with hslot | hfill | ⟨m₂, e, hfailed, hundo⟩
  · have hslot' : (r.monitor.slot id).Confines m m' :=
      hslot.confines fun w hw => (takeId_writes htake w hw).mono
        (slice_inside_slice (Nat.le_refl _) (Nat.add_le_add_left (by decide) _))
    exact ⟨m', hslot', .refl _ _, .inl (hstate hslot')⟩
  · rw [publish_eq] at hfill
    rcases cases_putState (describe_within _ q) hend hfill with hrest | hrun'
    · obtain ⟨hrecord, hsame⟩ := hbody hrest
      exact ⟨m₁, htaken.slot_confines, hrecord, .inl hsame⟩
    · rw [← publish_eq] at hrun'
      have hrecord := (publish_within (r := r') (Record.offset id) q).confines_of_run hrun'
      rw [hmon] at hrecord
      exact ⟨m₁, htaken.slot_confines, hrecord, .inr (allocate_of_publish hrun hrun').2.1.symm⟩
  · rw [publish_eq] at hfailed
    have hfirst := body_of_error (describe_within _ q) hend hfailed
    rw [← publish_eq] at hfailed
    rw [withdraw_eq] at hundo
    have hrest : (r'.clearKey (Record.offset id) >>= fun _ =>
        r'.putDeadline (Record.offset id) 0).Within (r'.body (Record.offset id)) :=
      ((clearKey_within _).mono keyPart_inside).bind fun _ => putDeadline_within _ _
    rcases cases_putState hrest hend hundo with hundo' | hrun'
    · obtain ⟨hrecord, hsame⟩ := hbody (hfirst.trans hundo')
      exact ⟨m₁, htaken.slot_confines, hrecord, .inl hsame⟩
    · rw [← withdraw_eq] at hrun'
      have hrecord := (hfirst.mono body_inside).trans
        ((withdraw_within (r := r') (Record.offset id)).confines_of_run hrun')
      rw [hmon] at hrecord
      exact ⟨m₁, htaken.slot_confines, hrecord,
        .inr (allocate_of_withdraw hrun hfailed hrun').2.1.symm⟩

theorem reclaim_meets (hp : r.monitor.Paired) (hid : r.monitor.HasId id)
    (hinUse : r.monitor.stateOf id m = Record.allocated) (h : (r.reclaim now id).Meets m m') :
    m' = m ∨ (r.monitor.record id).Confines m m' ∧ r.monitor.stateOf id m' = Record.reclaimed := by
  have hend := hid.record_le hp
  have hget : r.monitor.metadata.get 4 (Record.offset id) m = .ok Record.allocated :=
    (View.get_of_le (Record.field_le (by decide : 0 + 4 ≤ 512) hend) m).trans
      (congrArg Except.ok hinUse)
  have hplan : r.reclaim now id m = (r.putState (Record.offset id) Record.reclaimed >>= fun _ =>
      r.clearKey (Record.offset id) >>= fun _ =>
        r.putDeadline (Record.offset id) (now + r.timeout)) m := by
    rw [reclaim, validate_of_hasId hp hid]
    exact (ofQuery_bind_ok _ hget).trans (by rw [if_pos rfl])
  have hrest : (r.clearKey (Record.offset id) >>= fun _ =>
      r.putDeadline (Record.offset id) (now + r.timeout)).Within (r.body (Record.offset id)) :=
    ((clearKey_within _).mono keyPart_inside).bind fun _ => putDeadline_within _ _
  have hmarked {m₁ : Memory} {a : Except Fault Unit}
      (hrun : (r.putState (Record.offset id) Record.reclaimed).run m = (m₁, a)) :
      (r.monitor.record id).Confines m m₁ ∧ r.monitor.stateOf id m₁ = Record.reclaimed := by
    refine ⟨((putState_within _ _).mono (slice_inside_slice (Nat.le_refl _)
      (Nat.add_le_add_left (by decide) _))).confines_of_run hrun, ?_⟩
    rw [run_putState hend] at hrun
    obtain ⟨rfl, -⟩ := Prod.mk.inj hrun
    exact recordWordOf_store_self _
  rw [Meets, hplan] at h
  rcases Meets.cases_bind h with hput | ⟨_, m₁, hrun, htail⟩
  · rcases View.store_meets hput with rfl | rfl
    · exact .inl rfl
    · exact .inr (hmarked rfl)
  · obtain ⟨hrecord, hstate⟩ := hmarked hrun
    have hbody := hrest.confines_of_meets htail
    exact .inr ⟨hrecord.trans (hbody.mono body_inside), (stateOf_of_body hbody).trans hstate⟩

theorem others_of_confines {m₂ : Memory} (hp : r.monitor.Paired) (hid : r.monitor.HasId id)
    (hslot : (r.monitor.slot id).Confines m m₂) (hrecord : (r.monitor.record id).Confines m₂ m')
    (j : Int) (hj : r.monitor.HasId j) (hne : j ≠ id) :
    (r.monitor.record j).bytes m' = (r.monitor.record j).bytes m ∧
      (r.monitor.slot j).bytes m' = (r.monitor.slot j).bytes m := by
  constructor
  · calc (r.monitor.record j).bytes m' = (r.monitor.record j).bytes m₂ :=
        record_of_record hp hid hj (Ne.symm hne) hrecord
      _ = (r.monitor.record j).bytes m := record_of_slot hp (hid.hasSlot hp) hj hslot
  · calc (r.monitor.slot j).bytes m' = (r.monitor.slot j).bytes m₂ :=
        slot_of_record hp hid (hj.hasSlot hp) hrecord
      _ = (r.monitor.slot j).bytes m := hslot _ (slot_apart hp hid hj (Ne.symm hne))

theorem fits_of_labelled (hl : r.monitor.Labelled m) {j : Int} (hj : r.monitor.HasId j)
    (hsame : (r.monitor.record j).bytes m' = (r.monitor.record j).bytes m) :
    r.monitor.LabelFits j m' := by
  rw [LabelFits, labelLengthOf, recordWordOf_congr (by decide) hsame]
  exact hl j hj

section Moments

variable (hp : r.monitor.Paired) (hco : r.Coherent m) (hl : r.monitor.Labelled m)
include hco hl

theorem moment_refl (id : Int) : r.Moment m m m id :=
  ⟨⟨r, rfl, hco⟩, fun j hj _ => hl j hj, fun _ => rfl, fun _ _ _ => ⟨rfl, rfl⟩⟩

include hp

/-- On the way of an allocation the id is in use at the end only, and only if it succeeds. -/
theorem allocate_moment {q : Request} (htake : (r.takeId now m).result = .ok (r', id))
    (h : m.Meets (r.allocate now q m).writes m') :
    r.Moment m ((r.allocate now q m).memory m) m' id ∧
      ∀ e, (r.allocate now q m).result = .error e →
        r.monitor.stateOf id m' ≠ Record.allocated := by
  obtain ⟨m₁, -, htaken⟩ := taken_of_takeId hp hco.hasId htake
  obtain ⟨m₂, hslot, hrecord, hstate⟩ := allocate_meets hp hco.hasId htake h
  have hid := htaken.hasId hco.hasId
  have hidle := hco.not_inUse_of_taken htaken
  have hothers := others_of_confines hp hid hslot hrecord
  have hchange := allocate_change hp hco.hasId now q m
  have hlabels := hchange.labelled hp hco hl
  have hmon := hchange.monitor_eq
  rw [hmon] at hlabels
  refine ⟨⟨?coherent, ?legible, ?whole, hothers⟩, ?failed⟩
  case coherent =>
    rcases hstate with hsame | rfl
    · refine ⟨r, rfl, hco.congr fun j hj => ?_⟩
      by_cases hne : j = id
      · rw [hne, hsame]
      · exact recordWordOf_congr (by decide) (hothers j hj hne).1
    · exact ⟨_, hmon, hchange.coherent hp hco⟩
  case legible =>
    intro j hj hinUse
    by_cases hne : j = id
    · subst hne
      rcases hstate with hsame | rfl
      · exact absurd (hsame.symm.trans hinUse) hidle
      · exact hlabels j hj
    · exact fits_of_labelled hl hj (hothers j hj hne).1
  case whole =>
    intro hinUse
    rcases hstate with hsame | rfl
    · exact absurd (hsame.symm.trans hinUse) hidle
    · rfl
  case failed =>
    intro e he
    rcases hstate with hsame | rfl
    · rwa [hsame]
    · obtain ⟨_, hwithdrawn⟩ := withdraws_of_error hp hco.bounded htake he
      rw [hwithdrawn.released.state]
      exact Record.allocated_ne_reclaimed.symm

theorem free_moment (h : m.Meets (r.free now id m).writes m') : r.Moment m m m' id := by
  rw [free_writes] at h
  by_cases huse : r.monitor.HasId id ∧ r.monitor.stateOf id m = Record.allocated
  · obtain ⟨hid, hinUse⟩ := huse
    rcases reclaim_meets hp hid hinUse h with rfl | ⟨hrecord, hreleased⟩
    · exact moment_refl hco hl id
    · have hothers := others_of_confines hp hid (.refl _ _) hrecord
      have hdone : r.monitor.stateOf id m' ≠ Record.allocated := by
        rw [hreleased]
        exact Record.allocated_ne_reclaimed.symm
      refine ⟨⟨{ r with freed := r.freed ++ [id] }, rfl,
        (hco.limbo hid hinUse).release hp hrecord hreleased⟩, ?legible,
        fun hs => absurd hs hdone, hothers⟩
      case legible =>
        intro j hj hs
        by_cases hne : j = id
        · exact absurd (hne ▸ hs) hdone
        · exact fits_of_labelled hl hj (hothers j hj hne).1
  · obtain ⟨e, he⟩ := reclaim_refused hp huse now
    rw [he] at h
    rw [h.eq_of_nil]
    exact moment_refl hco hl id

end Moments

end Registry

namespace Monitor

variable {w : Monitor} {id : Int} {n : Nat}

theorem Spans.placed (h : w.Spans n) (hid : 0 ≤ id ∧ id ≤ w.maxId) : w.Placed id := by
  have hid' : (w.cut n).HasId id := h.hasId_iff.2 hid
  have hslot : Slot.offset id + 128 ≤ n := hid'.hasSlot h.paired
  have hle := h.span_le
  refine ⟨validate_of_inside hid, hid'.record_le h.paired, ?_⟩
  change Slot.offset id + 128 ≤ w.values.capacity
  omega

theorem Spans.recharset (h : w.Spans n) (c : Charset) :
    ({ w with charset := c } : Monitor).Spans n := ⟨h.apart, h.room, h.counted, h.span⟩

theorem Spans.inScan (h : w.Spans n) (hrecords : w.records < 0x80000000)
    (hid : 0 ≤ id ∧ id ≤ w.maxId) : w.InScan id := by
  have hroom : n * 4 ≤ w.metadata.capacity := h.paired.room
  have hfew : (w.maxId + 1).toNat ≤ w.records := by
    rw [h.span, Nat.mul_assoc] at hroom
    exact (Nat.le_div_iff_mul_le (by decide)).2 hroom
  have hcount : w.iterable = (min w.maxId (Word.wrap 4 w.records - 1) + 1).toNat := rfl
  rw [Word.wrap_natCast hrecords] at hcount
  exact ⟨hid.1, by omega⟩

end Monitor

namespace Registry

open Monitor

variable {r r' : Registry} {m m' known : Memory} {id now : Int} {n : Nat}

theorem Moment.glimpse {w : Monitor} (h : w.Spans n) (hmon : r.monitor = w.cut n)
    (hm : r.Moment m known m' id) (c : Charset) :
    ({ w with charset := c } : Monitor).Glimpse m known m' id := by
  have hspans := h.recharset c
  have hhasId {j : Int} (hj : 0 ≤ j ∧ j ≤ w.maxId) : (w.cut n).HasId j := h.hasId_iff.2 hj
  obtain ⟨⟨r', hmon', hco⟩, hlegible, hwhole, hothers⟩ := hm
  rw [hmon] at hmon' hlegible hwhole hothers
  refine ⟨reports_of_visible (fun j => ⟨fun hv => ?_, fun ⟨hin, hs⟩ => ?_⟩) fun j hv => ?_,
    fun hs => ?_, fun j hne => ?_⟩
  · exact ⟨hv.inScan, (hv.inScan.placed.state_eq m').trans (congrArg Except.ok hv.inUse)⟩
  · rw [hin.placed.state_eq, Except.ok.injEq] at hs
    have hj : r'.monitor.HasId j := hmon' ▸ hhasId ⟨hin.1, hin.bounds.1⟩
    have hissued := (hco.of_inUse hj (hmon' ▸ hs)).1
    refine ⟨hin, hs, fun i hi hlt => ?_⟩
    have hused := hco.used hi (Int.lt_trans hlt hissued.2)
    rwa [hmon'] at hused
  · exact hlegible j (hhasId ⟨hv.inScan.1, hv.inScan.bounds.1⟩) hv.inUse
  · rw [(hspans.placed (inside_of_state hs)).state_eq, Except.ok.injEq] at hs
    rw [hwhole hs]
  · by_cases hj : 0 ≤ j ∧ j ≤ w.maxId
    · obtain ⟨hrecord, hslot⟩ := hothers j (hhasId hj) hne
      exact account_congr (hspans.placed hj) hrecord hslot
    · exact account_of_invalid (validate_of_outside (by change _ ∨ w.maxId < _; omega)) m' m

/-- What a monitor sees in the course of every allocation and of every giving back, after each of
the writes. An allocation that finds no id writes nothing. Any other writes to the id that it takes;
on the way that id is in use only as it is at the end, and never if the allocation fails. An id that
is given back is in use only as it was before. -/
structure Gradual (r : Registry) (w : Monitor) (m : Memory) : Prop where
  full : ∀ now q e, (r.takeId now m).result = .error e → (r.allocate now q m).writes = []
  answers : ∀ now q r' id j, (r.takeId now m).result = .ok (r', id) →
    (r.allocate now q m).result = .ok j → j = id
  allocate : ∀ now q r' id ws, (r.takeId now m).result = .ok (r', id) →
    ws <+: (r.allocate now q m).writes →
      w.Glimpse m ((r.allocate now q m).memory m) (m.storeAll ws) id
  failed : ∀ now q r' id e ws, (r.takeId now m).result = .ok (r', id) →
    (r.allocate now q m).result = .error e → ws <+: (r.allocate now q m).writes →
      w.state id (m.storeAll ws) ≠ .ok Record.allocated
  free : ∀ now id ws, ws <+: (r.free now id m).writes → w.Glimpse m m (m.storeAll ws) id

theorem gradual_of_coherent (h : r.monitor.Spans n) (hco : (r.cut n).Coherent m)
    (hl : (r.cut n).monitor.Labelled m) (c : Charset) :
    r.Gradual { r.monitor with charset := c } m := by
  have htaken {now : Int} {r' : Registry} {id : Int}
      (htake : (r.takeId now m).result = .ok (r', id)) :
      ((r.cut n).takeId now m).result = .ok (r'.cut n, id) := by
    rw [takeId_cut h hco.hasId, htake]
    rfl
  have hmoment {now : Int} {q : Request} {r' : Registry} {id : Int} {ws : List Write}
      (htake : (r.takeId now m).result = .ok (r', id))
      (hws : ws <+: (r.allocate now q m).writes) :
      (r.cut n).Moment m ((r.allocate now q m).memory m) (m.storeAll ws) id ∧
        ∀ e, (r.allocate now q m).result = .error e →
          (r.cut n).monitor.stateOf id (m.storeAll ws) ≠ Record.allocated := by
    have hmeets : m.Meets ((r.cut n).allocate now q m).writes (m.storeAll ws) := by
      rw [allocate_cut h hco.hasId]
      exact .first hws
    have hall := allocate_moment h.paired hco hl (htaken htake) hmeets
    rwa [allocate_cut h hco.hasId] at hall
  refine ⟨?full, ?answers, ?allocate, ?failed, ?free⟩
  case full =>
    intro now q e he
    have he' : ((r.cut n).takeId now m).result = .error e := by
      rw [takeId_cut h hco.hasId, he]
      rfl
    have hfull := takeId_of_error h.paired hco.hasId he'
    rw [takeId_cut h hco.hasId] at hfull
    simp only [allocate, he]
    exact (Plan.mk.inj hfull).1
  case answers =>
    intro now q r' id j htake hok
    simp only [allocate, htake] at hok
    split at hok
    · exact (Except.ok.inj hok).symm
    · cases hok
  case allocate =>
    intro now q r' id ws htake hws
    exact (hmoment htake hws).1.glimpse h rfl c
  case failed =>
    intro now q r' id e ws htake he hws hs
    rw [((h.recharset c).placed (inside_of_state hs)).state_eq, Except.ok.injEq] at hs
    exact (hmoment htake hws).2 e he hs
  case free =>
    intro now id ws hws
    have hmeets : m.Meets ((r.cut n).free now id m).writes (m.storeAll ws) := by
      rw [free_cut h]
      exact .first hws
    exact (free_moment h.paired hco hl hmeets).glimpse h rfl c

theorem labelled_of_blank (h : r.monitor.Spans n)
    (blank : r.monitor.metadata.bytes m = List.replicate r.monitor.metadata.capacity 0) :
    (r.cut n).monitor.Labelled m := by
  intro id hid
  have hzero : (r.cut n).monitor.labelLengthOf id m = 0 :=
    View.word_of_zero blank ((field_inside (by decide)).trans (record_inside h.paired hid))
  rw [LabelFits, hzero]
  exact ⟨Int.le_refl 0, Int.natCast_nonneg _⟩

end Registry

namespace Session

open Registry

variable {r₀ : Registry} {m₀ : Memory}

theorem Attains.legible {t : Session} {m : Memory} (made : r₀.Made) {n : Nat}
    (h : r₀.monitor.Spans n)
    (blank : r₀.monitor.metadata.bytes m₀ = List.replicate r₀.monitor.metadata.capacity 0)
    {clock : Clock} (ht : (create r₀.monitor (some r₀) clock).Attains m₀ t m) :
    ∃ r, t.On r ∧ r.monitor = r₀.monitor ∧ (r.cut n).Coherent m ∧ (r.cut n).monitor.Labelled m := by
  refine ht.drifts (P := fun r m => r.Coherent m ∧ r.monitor.Labelled m) h (on_create r₀ clock)
    ⟨made.coherent h blank, labelled_of_blank h blank⟩ (fun _ _ hP => hP.1.hasId)
    (fun _ _ _ _ _ _ _ hp hP hchange =>
      ⟨hchange.coherent hp hP.1, hchange.labelled hp hP.1 hP.2⟩)
    (fun r m m' h hP hvalues => ?_)
  -- the values share no byte with the records
  have hrecord (id : Int) (hid : (r.cut n).monitor.HasId id) :
      ((r.cut n).monitor.record id).bytes m' = ((r.cut n).monitor.record id).bytes m :=
    hvalues _ (h.apart.symm.mono (View.Inside.refl _) (Monitor.record_inside h.paired hid))
  exact ⟨hP.1.congr fun id hid => Monitor.recordWordOf_congr (by decide) (hrecord id hid),
    fun id hid => fits_of_labelled hP.2 hid (hrecord id hid)⟩

theorem Attains.reports {t : Session} {m : Memory} (made : r₀.Made)
    (blank : r₀.monitor.metadata.bytes m₀ = List.replicate r₀.monitor.metadata.capacity 0)
    {clock : Clock} (ht : (create r₀.monitor (some r₀) clock).Attains m₀ t m) :
    t.monitor = r₀.monitor ∧ ∀ c, ({ r₀.monitor with charset := c } : Monitor).Reports m := by
  obtain ⟨n, h⟩ := made.spans
  obtain ⟨r, hon, hmon, hco, hl⟩ := ht.legible made h blank
  refine ⟨hon.monitor.symm.trans hmon, fun c => ?_⟩
  have hspans : r.monitor.Spans n := hmon ▸ h
  have hglimpse := (moment_refl hco hl 0).glimpse hspans rfl c
  rw [hmon] at hglimpse
  exact hglimpse.reports

/-- After every run over metadata of zeros, whatever is allocated or given back next and whenever a
monitor looks, it meets no record that is half written. -/
theorem run_gradual (made : r₀.Made)
    (blank : r₀.monitor.metadata.bytes m₀ = List.replicate r₀.monitor.metadata.capacity 0)
    (clock : Clock) (wallTime : Int) (calls : List Call) (regular : ∀ c ∈ calls, c.Regular) :
    ∃ s r m, (create r₀.monitor (some r₀) clock).run wallTime m₀ calls = (s, m) ∧
      s.registry = some r ∧
      (∀ c, r.Gradual { r₀.monitor with charset := c } m) ∧
      (r₀.monitor.records < 0x80000000 → ∀ c id, 0 ≤ id → id ≤ r₀.monitor.maxId →
        ({ r₀.monitor with charset := c } : Monitor).InScan id) := by
  obtain ⟨n, h⟩ := made.spans
  have hattains := Attains.run (create r₀.monitor (some r₀) clock) wallTime m₀ calls regular
  obtain ⟨r, hon, hmon, hco, hl⟩ := hattains.legible made h blank
  refine ⟨_, r, _, rfl, hon.registry, fun c => ?_, fun hrecords c id h₀ h₁ => ?_⟩
  · have hspans : r.monitor.Spans n := hmon ▸ h
    have hall := gradual_of_coherent hspans hco hl c
    rwa [hmon] at hall
  · exact (h.recharset c).inScan hrecords ⟨h₀, h₁⟩

/-- A run that frees, fails and allocates again; and, in a registry with room for one counter, the
state of the record after each write of an allocation, and of one that fails. -/
theorem run_gradual_small : small.Made ∧
    small.monitor.metadata.bytes Memory.zero = List.replicate small.monitor.metadata.capacity 0 ∧
    (∀ c ∈ mixed, c.Regular) ∧
    (∃ s r m, (create small.monitor (some small) (.manual 0)).run 0 Memory.zero mixed = (s, m) ∧
      s.registry = some r ∧
      (∀ c, r.Gradual { small.monitor with charset := c } m) ∧
      (small.monitor.records < 0x80000000 → ∀ c id, 0 ≤ id → id ≤ small.monitor.maxId →
        ({ small.monitor with charset := c } : Monitor).InScan id)) ∧
    (single.allocate 0 (.labelled 1 [97]) Memory.zero).writes.inits.map
      (fun ws => single.monitor.stateOf 0 (Memory.zero.storeAll ws)) = [0, 0, 0, 0, 0, 1] ∧
    (single.allocate 0 .doomed Memory.zero).writes.inits.map
      (fun ws => single.monitor.stateOf 0 (Memory.zero.storeAll ws)) = [0, 0, 0, 0, 0, -1] :=
  ⟨small_made, View.bytes_zero _, by decide,
    run_gradual small_made (View.bytes_zero _) (.manual 0) 0 mixed
      (by decide), by decide +kernel⟩

end Session

end Telemetry.Counters
