import Telemetry.Proofs.Counters.Glimpse
import Telemetry.Proofs.Counters.Publish

namespace Telemetry.Counters

/-- What is done to the text of a label, in the bytes that are stored. The text is lost when an
allocation fails over it. -/
inductive Wording
  | kept
  | begun (t : Text)
  | added (t : Text)
  | lost

def Wording.apply : Wording → Option Text → Option Text
  | kept, x => x
  | begun t, _ => some t
  | added t, x => x.map (· ++ t)
  | lost, _ => none

/-- The text that a request asks for as a label, in the bytes that are stored. -/
def Request.letters (c : Charset) : Request → Text
  | labelled _ label | keyed _ label _ => c.encode label
  | copied _ _ label => (label.bytes.drop label.offset).take label.length

theorem Charset.encode_append (c : Charset) (t u : Text) :
    c.encode (t ++ u) = c.encode t ++ c.encode u := by
  cases c
  · exact List.map_append
  · rfl

theorem Request.storedLabel_eq (c : Charset) (q : Request) :
    q.storedLabel c = (q.letters c).take Record.maxLabelLength := by
  cases q with
  | copied type key label =>
    rw [storedLabel, letters, Source.cut, List.take_take, Nat.min_comm]
  | _ => rfl

def HandleUse.wording (c : Charset) : HandleUse → Wording
  | setLabel t => .begun (c.encode t)
  | appendLabel t => .added (c.encode t)
  | _ => .kept

/-- What a handle does to the text of the label of an id, if it reaches it. -/
def Handle.wording (x : Handle) (registry : Option Registry) (id : Int) (u : HandleUse) : Wording :=
  match x.manager registry with
  | .ok r => if x.id = id then u.wording r.monitor.charset else .kept
  | .error _ => .kept

def Registry.wording (r : Registry) (now : Int) (m : Memory) (id : Int) : Command → Wording
  | .allocate q | .openHandle q =>
    match (r.takeId now m).result, (r.allocate now q m).result with
    | .ok (_, j), .ok _ => if j = id then .begun (q.letters r.monitor.charset) else .kept
    | .ok (_, j), .error _ => if j = id then .lost else .kept
    | .error _, _ => .kept
  | .setLabel j t => if j = id then .begun (r.monitor.charset.encode t) else .kept
  | .appendLabel j t => if j = id then .added (r.monitor.charset.encode t) else .kept
  | _ => .kept

namespace Session

/-- What a call does to the text of the label of an id, by a command or through a handle. -/
def wording (s : Session) (wallTime : Int) (m : Memory) (id : Int) : Call → Wording
  | .command k =>
    match s.registry with
    | some r => r.wording (s.clock.read wallTime) m id k
    | none => .kept
  | .handle (.use h u) =>
    match s.handle? h with
    | some x => x.wording s.registry id u
    | none => .kept
  | _ => .kept

/-- The text of the label of an id after a sequence of calls, if it is known. -/
def letters (s : Session) (wallTime : Int) (id : Int) (m : Memory) (x : Option Text) :
    List Call → Option Text
  | [] => x
  | c :: rest =>
    let y := s.step wallTime m c
    y.session.letters wallTime id (m.storeAll y.writes) ((s.wording wallTime m id c).apply x) rest

end Session

namespace Monitor

/-- The label of an id holds the first bytes of a text, if that is known. -/
def Spelled (w : Monitor) (id : Int) (x : Option Text) (m : Memory) : Prop :=
  ∀ t, x = some t → w.LabelIs id (t.take Record.maxLabelLength) m

theorem spelled_none {w : Monitor} {id : Int} {m : Memory} : w.Spelled id none m :=
  fun _ h => nomatch h

end Monitor

def Wording.Tells (x : Wording) (w : Monitor) (id : Int) (m m' : Memory) : Prop :=
  ∀ y, w.Spelled id y m → w.Spelled id (x.apply y) m'

namespace Registry

open Telemetry.Action Monitor View

variable {r r' : Registry} {m m' : Memory} {id j now : Int} {t u : Text} {n : Nat}

def front (r : Registry) (offset : Nat) : View := r.monitor.metadata.slice offset Record.labelOffset

theorem keyPart_inside_front {offset : Nat} : (r.keyPart offset).Inside (r.front offset) :=
  slice_inside_slice (Nat.le_add_right ..) (Nat.le_of_eq (Nat.add_assoc ..))

theorem labelPart_inside_record : (r.labelPart (Record.offset id)).Inside (r.monitor.record id) :=
  field_inside (by decide)

theorem labelIs_congr (h : r.monitor.LabelIs id t m)
    (hsame : (r.labelPart (Record.offset id)).bytes m' =
      (r.labelPart (Record.offset id)).bytes m) : r.monitor.LabelIs id t m' := by
  have hfits := h.fits
  refine ⟨hfits, ?length, ?text⟩
  case length =>
    exact (word_congr hsame (slice_inside_slice (Nat.le_refl _)
      (Nat.add_le_add_left (by decide) _))).trans h.length
  case text =>
    refine (bytes_mono (slice_inside_slice ?_ ?_) hsame).trans h.text <;>
      simp only [Record.labelTextOffset, Record.labelOffset, Record.length,
        Record.maxLabelLength] at hfits ⊢ <;> omega

theorem tells_kept (hsame : (r.labelPart (Record.offset id)).bytes m' =
    (r.labelPart (Record.offset id)).bytes m) : Wording.kept.Tells r.monitor id m m' :=
  fun _ hy t ht => labelIs_congr (hy t ht) hsame

theorem tells_refl : Wording.kept.Tells r.monitor id m m := tells_kept rfl

theorem tells_begun (h : r.monitor.LabelIs id (t.take Record.maxLabelLength) m') :
    (Wording.begun t).Tells r.monitor id m m' := by
  intro _ _ u hu
  cases hu
  exact h

theorem tells_lost : Wording.lost.Tells r.monitor id m m' := fun _ _ _ h => nomatch h

theorem reclaim_within_front (now id : Int) :
    (r.reclaim now id).Within (r.front (Record.offset id)) := by
  refine (within_ofExcept _).bind fun _ => (within_ofQuery _).bind fun s => ?_
  split
  · refine Within.bind ((putState_within _ _).mono ?_) fun _ =>
      Within.bind ((clearKey_within _).mono keyPart_inside_front) fun _ =>
        (put_within _ _ _ _).mono ?_
    · exact slice_inside_slice (Nat.le_refl _) (Nat.add_le_add_left (by decide) _)
    · exact slice_inside_slice (Nat.le_add_right ..)
        (Nat.le_trans (Nat.le_of_eq (Nat.add_assoc ..)) (Nat.add_le_add_left (by decide) _))
  · exact within_refuse _

section Paired

variable (hp : r.monitor.Paired) (hid : r.monitor.HasId id)
include hp hid

/-- An operation on a record leaves the labels of the others alone, and the label of its own if it
stays before it. -/
theorem tells_kept_of_within {α : Type} {x : Action α} (hx : x.Within (r.monitor.record j))
    (hfront : j = id → x.Within (r.front (Record.offset id)))
    (hrefused : ¬ r.monitor.HasId j → (x.run m).1 = m) :
    Wording.kept.Tells r.monitor id m (x.run m).1 := by
  by_cases hj : r.monitor.HasId j
  · apply tells_kept
    by_cases hne : j = id
    · exact (hfront hne).confines m _ (apart_slice (.inl (Nat.le_refl _)))
    · exact bytes_mono labelPart_inside_record
        (record_of_record hp hj hid hne (hx.confines m))
  · rw [hrefused hj]
    exact tells_refl

theorem setLabel_tells (j : Int) (t : Text) (m : Memory) :
    (if j = id then Wording.begun (r.monitor.charset.encode t) else .kept).Tells r.monitor id m
      ((r.setLabel j t).run m).1 := by
  by_cases hj : j = id
  · subst hj
    have hrun : (r.setLabel j t).run m = (r.putLabel (Record.offset j) t).run m := by
      rw [setLabel, validate_of_hasId hp hid]
      rfl
    rw [if_pos rfl, hrun]
    refine tells_begun (labelIs_of_putLabel hp hid (m := m) (t := t) ?_)
    rw [run_putLabel (hid.record_le hp)]
  · rw [if_neg hj]
    exact tells_kept_of_within hp hid ((setLabel_within j t).mono labelPart_inside_record)
      (fun h => absurd h hj) (fun hno => run_validate_bind hp hno _ m)

theorem run_addLabel (h : r.monitor.LabelIs id t m) (u : Text) :
    (r.addLabel (Record.offset id) u).run m =
      ((m.store (r.monitor.metadata.writeAt (Record.offset id + Record.labelTextOffset + t.length)
        (r.suffixBytes t.length u))).store (r.monitor.metadata.writeAt
          (Record.offset id + Record.labelOffset)
            (Word.encode 4 (t.length + (r.suffixBytes t.length u).length))), .ok ()) := by
  have hend := hid.record_le hp
  have hfits := h.fits
  have hlen := r.length_suffixBytes t.length u
  rw [Int.toNat_natCast] at hlen
  have hroom : Record.labelTextOffset + t.length + (r.suffixBytes t.length u).length ≤ 512 := by
    simp only [Record.labelTextOffset, Record.labelOffset, Record.maxLabelLength,
      Record.length] at hfits hlen ⊢
    omega
  have hget : (liftM (r.monitor.metadata.get 4 (Record.offset id + Record.labelOffset)) :
      Action Int).run m = (m, .ok t.length) := by
    rw [run_ofQuery, get_of_le (Record.field_le (by decide) hend)]
    exact congrArg (fun x => (m, Except.ok x)) h.length
  have hstore : (r.monitor.metadata.store (Record.offset id + Record.labelTextOffset + t.length)
      (r.suffixBytes t.length u)).run m = (m.store (r.monitor.metadata.writeAt
        (Record.offset id + Record.labelTextOffset + t.length) (r.suffixBytes t.length u)),
          .ok ()) := run_store (by omega) m
  have hnot : ¬ ((t.length : Int) < 0 ∨ (Record.maxLabelLength : Int) < t.length) := by omega
  rw [addLabel, run_bind_ok _ hget, if_neg hnot]
  exact (run_bind_ok _ hstore).trans (run_put (Record.field_le (by decide) hend) _ _)

theorem labelIs_of_addLabel (h : r.monitor.LabelIs id t m) (u : Text) :
    r.monitor.LabelIs id (t ++ r.suffixBytes t.length u)
      ((r.addLabel (Record.offset id) u).run m).1 := by
  have hfits := h.fits
  have hlen := r.length_suffixBytes t.length u
  rw [Int.toNat_natCast] at hlen
  rw [run_addLabel hp hid h]
  apply labelIs_of_store
  · rw [List.length_append]
    omega
  · have hword : (Word.encode 4 (t.length + (r.suffixBytes t.length u).length)).length = 4 :=
      Word.length_encode ..
    rw [List.length_append, bytes_slice_append]
    congr 1
    · rw [bytes_slice_store_of_apart (.inl (by rw [hword]; exact Nat.le_refl _)),
        bytes_slice_store_of_apart (.inr (Nat.le_refl _))]
      exact h.text
    · rw [bytes_slice_store_of_apart (.inl (by rw [hword]; exact Nat.le_add_right _ _))]
      exact bytes_slice_store_self ..
  · rw [List.length_append, Int.natCast_add]
    exact recordWordOf_store_self _

omit hp hid in
/-- Cutting what is appended to the room that is left is cutting the whole. -/
theorem take_append_suffixBytes (t u : Text) :
    t.take Record.maxLabelLength ++ r.suffixBytes (t.take Record.maxLabelLength).length u =
      (t ++ r.monitor.charset.encode u).take Record.maxLabelLength := by
  have hroom : Record.maxLabelLength - (t.take Record.maxLabelLength).length =
      Record.maxLabelLength - t.length := by
    rw [List.length_take]
    omega
  rw [suffixBytes, Int.toNat_natCast, hroom, Charset.encode_take, List.take_append]

theorem appendLabel_tells (j : Int) (u : Text) (m : Memory) :
    (if j = id then Wording.added (r.monitor.charset.encode u) else .kept).Tells r.monitor id m
      ((r.appendLabel j u).run m).1 := by
  by_cases hj : j = id
  · subst hj
    have hrun : (r.appendLabel j u).run m = (r.addLabel (Record.offset j) u).run m := by
      rw [appendLabel, validate_of_hasId hp hid]
      rfl
    rw [if_pos rfl, hrun]
    intro x hx v hv
    obtain ⟨t, rfl, rfl⟩ := Option.map_eq_some_iff.1 hv
    have hgrown := labelIs_of_addLabel hp hid (hx t rfl) u
    rwa [take_append_suffixBytes] at hgrown
  · rw [if_neg hj]
    exact tells_kept_of_within hp hid ((appendLabel_within j u).mono labelPart_inside_record)
      (fun h => absurd h hj) (fun hno => run_validate_bind hp hno _ m)

theorem setKey_tells (j : Int) (k : Source) (m : Memory) :
    Wording.kept.Tells r.monitor id m ((r.setKey j k).run m).1 :=
  tells_kept_of_within hp hid ((setKey_within j k).mono keyOf_inside)
    (fun h => h ▸ (setKey_within j k).mono keyPart_inside_front)
    (fun hno => run_validate_bind hp hno _ m)

theorem writeKey_tells (j : Int) (k : Script) (m : Memory) :
    Wording.kept.Tells r.monitor id m ((r.writeKey j k).run m).1 := by
  refine tells_kept_of_within hp hid ((writeKey_within j k).mono keyOf_inside)
    (fun h => h ▸ (writeKey_within j k).mono keyPart_inside_front) (fun hno => ?_)
  rw [writeKey, keyView, validate_of_not_hasId hp hno]
  rfl

theorem free_tells (now j : Int) (m : Memory) :
    Wording.kept.Tells r.monitor id m (m.storeAll (r.free now j m).writes) := by
  rw [free_writes]
  exact tells_kept_of_within hp hid (reclaim_within now j)
    (fun h => h ▸ reclaim_within_front now j) (fun hno => run_validate_bind hp hno _ m)

theorem labelIs_of_describe {q : Request}
    (hrun : (r.describe (Record.offset id) q).run m = (m', .ok ())) :
    r.monitor.LabelIs id (q.storedLabel r.monitor.charset) m' := by
  -- the label is written last
  cases q with
  | labelled type label =>
    obtain ⟨_, _, _, hrun⟩ := run_bind_eq_ok hrun
    obtain ⟨_, _, _, hlabel⟩ := run_bind_eq_ok hrun
    exact labelIs_of_putLabel hp hid hlabel
  | keyed type label key =>
    obtain ⟨_, _, _, hrun⟩ := run_bind_eq_ok hrun
    obtain ⟨_, _, _, hrun⟩ := run_bind_eq_ok hrun
    obtain ⟨_, _, _, hlabel⟩ := run_bind_eq_ok hrun
    exact labelIs_of_putLabel hp hid hlabel
  | copied type key label =>
    obtain ⟨_, _, _, hrun⟩ := run_bind_eq_ok hrun
    obtain ⟨_, _, _, hrun⟩ := run_bind_eq_ok hrun
    obtain ⟨_, _, _, hlabel⟩ := run_bind_eq_ok hrun
    exact labelIs_of_copyLabel hp hid hlabel

theorem labelIs_of_publish {q : Request}
    (hrun : (r.publish (Record.offset id) q).run m = (m', .ok ())) :
    r.monitor.LabelIs id (q.storedLabel r.monitor.charset) m' := by
  rw [publish_eq] at hrun
  obtain ⟨_, m₁, hdescribe, hput⟩ := run_bind_eq_ok hrun
  refine labelIs_congr (labelIs_of_describe hp hid hdescribe) ?_
  exact (putState_within _ _).confines_of_run hput _
    (apart_slice (.inl (Nat.add_le_add_left (by decide) _)))

theorem allocate_tells (hfreed : ∀ id ∈ r.freed, r.monitor.HasId id) (now : Int) (q : Request)
    (m : Memory) : (r.wording now m id (.allocate q)).Tells r.monitor id m
      (m.storeAll (r.allocate now q m).writes) := by
  rw [wording]
  cases htake : (r.takeId now m).result with
  | error e =>
    rw [allocate_of_refused (takeId_of_error hp hfreed htake)]
    exact tells_refl
  | ok p =>
    obtain ⟨r', j⟩ := p
    obtain ⟨m₁, hrun, htaken⟩ := taken_of_takeId hp hfreed htake
    by_cases hj : j = id
    · subst hj
      have hmon := htaken.monitor_eq
      rcases hpub : (r'.publish (Record.offset j) q).run m₁ with ⟨m₂, e | _⟩
      · obtain ⟨-, -, hresult⟩ := allocate_of_withdraw hrun hpub rfl
        simp only [hresult, if_pos]
        exact tells_lost
      · obtain ⟨-, hm, hresult⟩ := allocate_of_publish hrun hpub
        have hlabel := labelIs_of_publish (r := r') (hmon ▸ hp) (hmon ▸ hid) hpub
        rw [Request.storedLabel_eq, hmon] at hlabel
        simp only [hresult, if_pos]
        rw [← hm] at hlabel
        exact tells_begun hlabel
    · obtain ⟨m₂, hslot, hrecord, -⟩ := allocate_meets hp hfreed htake (.first (List.prefix_refl _))
      have hrecord' := (others_of_confines hp (htaken.hasId hfreed) hslot hrecord id hid
        (Ne.symm hj)).1
      have hkept : Wording.kept.Tells r.monitor id m (m.storeAll (r.allocate now q m).writes) :=
        tells_kept (bytes_mono labelPart_inside_record hrecord')
      cases hresult : (r.allocate now q m).result <;> simpa only [hresult, if_neg hj] using hkept

end Paired

theorem allocate_wording_cut (h : r.monitor.Spans n)
    (hfreed : ∀ id ∈ r.freed, (r.cut n).monitor.HasId id) (now : Int) (m : Memory) (id : Int)
    (q : Request) :
    (r.cut n).wording now m id (.allocate q) = r.wording now m id (.allocate q) := by
  rw [wording, wording, takeId_cut h hfreed, allocate_cut h hfreed]
  cases (r.takeId now m).result with
  | error e => rfl
  | ok p =>
    simp only [Except.map]
    cases hresult : (r.allocate now q m).result <;>
      simp only [Outcome.cut, hresult, cut, Monitor.cut]

/-- A label is not among the values, so that it does not matter how far these go. -/
theorem tells_of_cut {x : Wording} {w : Monitor} (h : x.Tells (w.cut n) id m m') :
    x.Tells w id m m' := by
  intro y hy t ht
  have hcut := h y (fun u hu => ⟨(hy u hu).fits, (hy u hu).length, (hy u hu).text⟩) t ht
  exact ⟨hcut.fits, hcut.length, hcut.text⟩

section Spans

variable (h : r.monitor.Spans n) (hid : (r.cut n).monitor.HasId id)
include h hid

theorem free_tells_of_spans (now j : Int) (m : Memory) :
    Wording.kept.Tells r.monitor id m (m.storeAll (r.free now j m).writes) := by
  have htells := free_tells h.paired hid now j m
  rw [free_cut h] at htells
  exact tells_of_cut htells

theorem setLabel_tells_of_spans (j : Int) (t : Text) (m : Memory) :
    (if j = id then Wording.begun (r.monitor.charset.encode t) else .kept).Tells r.monitor id m
      ((r.setLabel j t).run m).1 := by
  have htells := setLabel_tells h.paired hid j t m
  rw [setLabel_cut h] at htells
  exact tells_of_cut htells

theorem appendLabel_tells_of_spans (j : Int) (t : Text) (m : Memory) :
    (if j = id then Wording.added (r.monitor.charset.encode t) else .kept).Tells r.monitor id m
      ((r.appendLabel j t).run m).1 := by
  have htells := appendLabel_tells h.paired hid j t m
  rw [appendLabel_cut h] at htells
  exact tells_of_cut htells

end Spans

end Registry

namespace Session

open Registry

variable {s : Session} {r : Registry} {m : Memory} {id now : Int} {n : Nat}

theorem tells_act {α : Type} {x : Wording} {w : Monitor} {y : Action α} {f : α → Reply}
    (hy : x.Tells w id m (y.run m).1) :
    x.Tells w id m (m.storeAll (s.act (do return f (← y)) m).writes) := by
  rw [← Action.run_map_fst y f m] at hy
  exact hy

theorem manager_tells {x : Handle} {u : HandleUse} {f : Registry → Action Unit}
    (hf : (if x.id = id then u.wording r.monitor.charset else .kept).Tells r.monitor id m
      ((f r).run m).1) :
    (x.wording (some r) id u).Tells r.monitor id m
      ((liftM (x.manager (some r)) >>= f : Action Unit).run m).1 := by
  rw [Handle.wording, Handle.manager]
  by_cases hmanaged : x.managed
  · simp only [if_pos hmanaged]
    exact hf
  · simp only [if_neg hmanaged]
    exact tells_refl

section Spans

variable (h : r.monitor.Spans n) (hid : (r.cut n).monitor.HasId id)
include h hid

theorem tells_values {α : Type} {y : Action α} {f : α → Reply} (hy : y.Within r.monitor.values) :
    Wording.kept.Tells r.monitor id m (m.storeAll (s.act (do return f (← y)) m).writes) := by
  have hinside : ((r.cut n).labelPart (Record.offset id)).Inside (r.cut n).monitor.metadata :=
    labelPart_inside_record.trans (Monitor.record_inside h.paired hid)
  exact tells_act (tells_kept (hy.confines m _ (h.apart.symm.mono (View.Inside.refl _) hinside)))

theorem giveBack_tells (hs : s.registry = some r) (now : Int) (x : Handle) (m : Memory) :
    Wording.kept.Tells r.monitor id m (m.storeAll (s.giveBack now x m).writes) := by
  unfold giveBack
  rw [hs]
  by_cases howns : x.owns
  · simp only [if_pos howns]
    exact free_tells_of_spans h hid now x.id m
  · simp only [if_neg howns]
    exact tells_refl

theorem command_tells (hfreed : ∀ id ∈ r.freed, (r.cut n).monitor.HasId id) (k : Command) :
    (r.wording now m id k).Tells r.monitor id m (m.storeAll (s.command r now m k).writes) := by
  have hslot (field : Nat) (j x : Int) : (r.putSlotWord field j x).Within r.monitor.values :=
    (Action.within_ofExcept _).bind fun _ => View.put_within_self _ _ _ x
  have hallocate (q : Request) := allocate_tells h.paired hid hfreed now q m
  simp only [allocate_cut h hfreed, allocate_wording_cut h hfreed] at hallocate
  cases k with
  | allocate q => exact tells_of_cut (hallocate q)
  | openHandle q => exact tells_of_cut (hallocate q)
  | free j => exact free_tells_of_spans h hid now j m
  | setValue j x => exact tells_values h hid (hslot 0 j x)
  | setRegistration j x => exact tells_values h hid (hslot _ j x)
  | setOwner j x => exact tells_values h hid (hslot _ j x)
  | setLabel j t => exact tells_act (setLabel_tells_of_spans h hid j t m)
  | appendLabel j t => exact tells_act (appendLabel_tells_of_spans h hid j t m)
  | setKey j k =>
    have htells := setKey_tells h.paired hid j k m
    rw [setKey_cut h] at htells
    exact tells_act (tells_of_cut htells)
  | writeKey j k =>
    have htells := writeKey_tells h.paired hid j k m
    rw [writeKey_cut h] at htells
    exact tells_act (tells_of_cut htells)
  | _ => exact tells_refl

theorem use_tells (hs : s.On r) {k : Nat} {x : Handle} (hx : some x ∈ s.handles) (u : HandleUse) :
    (x.wording s.registry id u).Tells r.monitor id m (m.storeAll (s.use now k x m u).writes) := by
  have hput (v : Int) : (x.values.put 8 x.offset v).Within r.monitor.values := by
    rw [(hs.handles x hx).values, ← hs.monitor]
    exact View.put_within_self _ _ _ v
  have hkept {u : HandleUse} {m' : Memory} (hu : ∀ c, u.wording c = .kept)
      (htells : Wording.kept.Tells r.monitor id m m') :
      (x.wording s.registry id u).Tells r.monitor id m m' := by
    rw [Handle.wording]
    split
    · rwa [hu, ite_self]
    · exact htells
  cases u with
  | set v => exact hkept (fun _ => rfl) (tells_values h hid (hput v))
  | getAndAdd v => exact hkept (fun _ => rfl) (tells_values h hid (View.getAndAdd_within hput v))
  | getAndSet v => exact hkept (fun _ => rfl) (tells_values h hid (View.getAndSet_within hput v))
  | compareAndSet e v =>
    exact hkept (fun _ => rfl) (tells_values h hid (View.compareAndSet_within hput e v))
  | raiseTo v =>
    refine hkept (fun _ => rfl) (tells_values h hid ((Action.within_ofQuery _).bind fun old => ?_))
    split
    · exact (hput v).bind fun _ => Action.within_pure _
    · exact Action.within_pure _
  | setLabel t =>
    refine tells_act ?_
    rw [Handle.setLabel, hs.registry]
    exact manager_tells (setLabel_tells_of_spans h hid x.id t m)
  | appendLabel t =>
    refine tells_act ?_
    rw [Handle.appendLabel, hs.registry]
    exact manager_tells (appendLabel_tells_of_spans h hid x.id t m)
  | close => exact hkept (fun _ => rfl) (giveBack_tells h hid hs.registry now x m)
  | _ => exact hkept (fun _ => rfl) tells_refl

theorem handle_tells (hs : s.On r) (k : HandleCommand) (wallTime : Int) (m : Memory) :
    (s.wording wallTime m id (.handle k)).Tells r.monitor id m
      (m.storeAll (s.handle (s.clock.read wallTime) m k).writes) := by
  have hhandled := s.handled (s.clock.read wallTime) m k
  cases k with
  | use k u =>
    cases hx : s.handle? k with
    | none =>
      simp only [wording, Session.handle, hx]
      exact tells_refl
    | some x =>
      simp only [wording, Session.handle, hx]
      exact use_tells h hid hs (mem_of_handle? hx) u
  | _ =>
    generalize s.deed (.handle _) = d, s.handle (s.clock.read wallTime) m _ = y at hhandled ⊢
    cases hhandled <;> first | exact tells_refl | exact giveBack_tells h hid hs.registry _ _ m

theorem step_tells (hs : s.On r) (hfreed : ∀ id ∈ r.freed, (r.cut n).monitor.HasId id) {c : Call}
    (hc : c.Regular) (wallTime : Int) (m : Memory) :
    (s.wording wallTime m id c).Tells r.monitor id m
      (m.storeAll (s.step wallTime m c).writes) := by
  cases c with
  | look q => cases q <;> exact tells_refl
  | metadata a => exact hc.elim
  | values a => exact hc.elim
  | command k =>
    simp only [wording, step, hs.registry]
    exact command_tells h hid hfreed k
  | handle k => exact handle_tells h hid hs k wallTime m
  | _ => exact tells_refl

end Spans

theorem run_spelled (h : r.monitor.Spans n) (hid : (r.cut n).monitor.HasId id) (hs : s.On r)
    (hb : (r.cut n).Bounded) {x : Option Text} (hx : r.monitor.Spelled id x m) (wallTime : Int)
    (calls : List Call) (regular : ∀ c ∈ calls, c.Regular) :
    r.monitor.Spelled id (s.letters wallTime id m x calls) (s.run wallTime m calls).2 := by
  induction calls generalizing s r m x with
  | nil => exact hx
  | cons c rest ih =>
    obtain ⟨hc, hrest⟩ := List.forall_mem_cons.1 regular
    obtain ⟨r₁, hon, hmon, hb₁⟩ := step_bounded h hs hb wallTime m c
    have hnext := step_tells h hid hs hb.hasId hc wallTime m x hx
    rw [← hmon] at h hnext ⊢
    have hid₁ : (r₁.cut n).monitor.HasId id := by rwa [cut, hmon]
    exact ih h hid₁ hon hb₁ hnext hrest

end Session

/-- The label of an id as monitors of every charset read it, and its stored length. -/
structure Monitor.LabelReads (w : Monitor) (id : Int) (t : Text) (m : Memory) : Prop where
  label : ∀ c, ({ w with charset := c } : Monitor).label id m = .ok t
  length : w.labelLengthOf id m = t.length

theorem Monitor.LabelIs.reads {w : Monitor} {id : Int} {t : Text} {m : Memory}
    (h : w.LabelIs id t m) (hid : w.Placed id) : w.LabelReads id t m := by
  refine ⟨fun c => ?_, h.length⟩
  have hlabel := hid.label_eq h.labelFits
  rw [h.labelOf_eq] at hlabel
  exact hlabel

namespace Session

open Registry

def appends (id : Int) (ts : List Text) : List Call := ts.map fun t => .command (.appendLabel id t)

variable {s : Session} {r : Registry} {m : Memory} {id : Int} {n : Nat}

theorem appends_regular (id : Int) (ts : List Text) : ∀ c ∈ appends id ts, c.Regular := by
  intro c hc
  obtain ⟨t, -, rfl⟩ := List.mem_map.1 hc
  trivial

theorem letters_appends (hs : s.registry = some r) (wallTime : Int) (m : Memory) (t : Text)
    (ts : List Text) : s.letters wallTime id m (some t) (appends id ts) =
      some (t ++ (ts.map r.monitor.charset.encode).flatten) := by
  induction ts generalizing m t with
  | nil => simp only [appends, List.map_nil, letters, List.flatten_nil, List.append_nil]
  | cons u rest ih =>
    have hsession (m : Memory) :
        (s.step wallTime m (.command (.appendLabel id u))).session = s := by
      simp only [step, hs, command, act]
    have hwording (m : Memory) : s.wording wallTime m id (.command (.appendLabel id u)) =
        .added (r.monitor.charset.encode u) := by
      simp only [wording, hs, Registry.wording, if_pos]
    have happly : (Wording.added (r.monitor.charset.encode u)).apply (some t) =
        some (t ++ r.monitor.charset.encode u) := rfl
    change letters _ _ _ _ _ (appends id rest) = _
    rw [hsession, hwording, happly, ih, List.append_assoc]
    rfl

theorem letters_set (hs : s.registry = some r) (wallTime : Int) (m : Memory) (x : Option Text)
    (t : Text) (ts : List Text) :
    s.letters wallTime id m x (.command (.setLabel id t) :: appends id ts) =
      some (((t :: ts).map r.monitor.charset.encode).flatten) := by
  have hsession : (s.step wallTime m (.command (.setLabel id t))).session = s := by
    simp only [step, hs, command, act]
  have hwording : s.wording wallTime m id (.command (.setLabel id t)) =
      .begun (r.monitor.charset.encode t) := by
    simp only [wording, hs, Registry.wording, if_pos]
  rw [letters, hsession, hwording]
  exact letters_appends hs wallTime _ _ ts

/-- What a label with a text says from here on: its first bytes, as many as there is room for, to
every monitor; and after appending, which always succeeds, those of the longer text. -/
structure Lettered (s : Session) (w : Monitor) (wallTime : Int) (id : Int) (t : Text) (m : Memory) :
    Prop where
  reads : w.LabelReads id (t.take Record.maxLabelLength) m
  answers : ∀ u, (s.step wallTime m (.command (.appendLabel id u))).reply = .ok .unit
  appended : ∀ ts, w.LabelReads id
    ((t ++ (ts.map w.charset.encode).flatten).take Record.maxLabelLength)
    (s.run wallTime m (appends id ts)).2
  joined : ∀ u v c, ({ w with charset := c } : Monitor).label id
      (s.run wallTime m (appends id [u ++ v])).2 =
    ({ w with charset := c } : Monitor).label id (s.run wallTime m (appends id [u, v])).2
  full : Record.maxLabelLength ≤ t.length → ∀ ts, w.LabelReads id (t.take Record.maxLabelLength)
    (s.run wallTime m (appends id ts)).2

section Spans

variable (h : r.monitor.Spans n) (hid : (r.cut n).monitor.HasId id) (hs : s.On r)
include h hid hs

theorem labelReads_of_letters (hb : (r.cut n).Bounded) {x : Option Text}
    (hx : r.monitor.Spelled id x m) {wallTime : Int} {calls : List Call}
    (regular : ∀ c ∈ calls, c.Regular) {t : Text}
    (ht : s.letters wallTime id m x calls = some t) :
    r.monitor.LabelReads id (t.take Record.maxLabelLength) (s.run wallTime m calls).2 :=
  (run_spelled h hid hs hb hx wallTime calls regular t ht).reads (h.placed (h.hasId_iff.1 hid))

theorem reply_appendLabel {t : Text} (ht : r.monitor.LabelIs id t m) (wallTime : Int) (u : Text) :
    (s.step wallTime m (.command (.appendLabel id u))).reply = .ok .unit := by
  have ht' : (r.cut n).monitor.LabelIs id t m := ⟨ht.fits, ht.length, ht.text⟩
  have hadd : ((r.addLabel (Record.offset id) u).run m).2 = .ok () :=
    congrArg Prod.snd (run_addLabel h.paired hid ht' u)
  have hrun : ((r.appendLabel id u).run m).2 = .ok () := by
    rw [appendLabel, Monitor.validate_of_inside (h.hasId_iff.1 hid)]
    exact hadd
  simp only [step, hs.registry, command, act, done]
  rw [Action.map_plan (r.appendLabel id u) (fun _ => Reply.unit) m]
  change (((r.appendLabel id u).run m).2).map _ = _
  rw [hrun]
  rfl

theorem lettered_of_spelled (hb : (r.cut n).Bounded) {t : Text}
    (ht : r.monitor.Spelled id (some t) m) (wallTime : Int) :
    s.Lettered r.monitor wallTime id t m := by
  have happended (ts : List Text) : r.monitor.LabelReads id
      ((t ++ (ts.map r.monitor.charset.encode).flatten).take Record.maxLabelLength)
      (s.run wallTime m (appends id ts)).2 :=
    labelReads_of_letters h hid hs hb ht (appends_regular id ts)
      (letters_appends hs.registry wallTime m t ts)
  have hspelled := ht t rfl
  refine ⟨hspelled.reads (h.placed (h.hasId_iff.1 hid)), reply_appendLabel h hid hs hspelled wallTime,
    happended, fun u v c => ?joined, fun hfull ts => ?full⟩
  case joined =>
    have hsame : ([u ++ v].map r.monitor.charset.encode).flatten =
        ([u, v].map r.monitor.charset.encode).flatten := by
      simp only [List.map_cons, List.map_nil, List.flatten_cons, List.flatten_nil, List.append_nil,
        Charset.encode_append]
    rw [(happended [u ++ v]).label c, (happended [u, v]).label c, hsame]
  case full =>
    have hreads := happended ts
    rwa [List.take_append_of_le_length hfull] at hreads

end Spans

variable {r₀ : Registry}

/-- After every run, wherever it started: a label whose text is known reads as the first bytes of
that text, and so does one that is set now and then appended to. -/
theorem run_lettered (made : r₀.Made) (clock : Clock) (wallTime : Int) (m₀ : Memory)
    (calls : List Call) (regular : ∀ c ∈ calls, c.Regular) (id : Int) (nonneg : 0 ≤ id)
    (inside : id ≤ r₀.monitor.maxId) :
    ∃ s m, (create r₀.monitor (some r₀) clock).run wallTime m₀ calls = (s, m) ∧
      (∀ t, (create r₀.monitor (some r₀) clock).letters wallTime id m₀ none calls = some t →
        s.Lettered r₀.monitor wallTime id t m) ∧
      ∀ t ts, r₀.monitor.LabelReads id
        (((t :: ts).map r₀.monitor.charset.encode).flatten.take Record.maxLabelLength)
        (s.run wallTime m (.command (.setLabel id t) :: appends id ts)).2 := by
  obtain ⟨n, h⟩ := made.spans
  have hid : (r₀.cut n).monitor.HasId id := h.hasId_iff.2 ⟨nonneg, inside⟩
  have hon := on_create r₀ clock
  obtain ⟨r, hs, hmon, hb⟩ := run_bounded h hon (made.bounded n) wallTime m₀ calls
  have hspelled := run_spelled (m := m₀) h hid hon (made.bounded n) Monitor.spelled_none wallTime
    calls regular
  have hspans : r.monitor.Spans n := hmon ▸ h
  have hid' : (r.cut n).monitor.HasId id := by rwa [cut, hmon]
  generalize (create r₀.monitor (some r₀) clock).run wallTime m₀ calls = p at hs hspelled ⊢
  obtain ⟨s, m⟩ := p
  refine ⟨s, m, rfl, fun t ht => ?known, fun t ts => ?set⟩
  case known =>
    rw [ht] at hspelled
    rw [← hmon] at hspelled ⊢
    exact lettered_of_spelled hspans hid' hs hb hspelled wallTime
  case set =>
    have hregular : ∀ c ∈ Call.command (.setLabel id t) :: appends id ts, c.Regular :=
      List.forall_mem_cons.2 ⟨trivial, appends_regular id ts⟩
    rw [← hmon]
    exact labelReads_of_letters hspans hid' hs hb Monitor.spelled_none hregular
      (letters_set hs.registry wallTime m none t ts)

/-- A label that grows through its handle and without it, past the room there is, while another
counter is allocated and labelled. -/
def growing : List Call :=
  [.command (.openHandle (.labelled 1 [97])),
    .command (.allocate (.copied 2 none ⟨[66, 67], 0, 2⟩)),
    .handle (.use 0 (.appendLabel [200])),
    .command (.setLabel 1 [98]),
    .handle (.use 0 .close),
    .command (.appendLabel 0 (List.replicate 400 99)),
    .command (.appendLabel 1 [255])]

theorem run_lettered_growing : small.Made ∧ (∀ c ∈ growing, c.Regular) ∧
    (0 : Int) ≤ 0 ∧ 0 ≤ small.monitor.maxId ∧
    (create small.monitor (some small) (.manual 0)).letters 0 0 Memory.zero none growing =
      some ([97, 63] ++ List.replicate 400 99) ∧
    ∃ s m, (create small.monitor (some small) (.manual 0)).run 0 Memory.zero growing = (s, m) ∧
      (∀ t, (create small.monitor (some small) (.manual 0)).letters 0 0 Memory.zero none growing =
        some t → s.Lettered small.monitor 0 0 t m) ∧
      ∀ t ts, small.monitor.LabelReads 0
        (((t :: ts).map small.monitor.charset.encode).flatten.take Record.maxLabelLength)
        (s.run 0 m (.command (.setLabel 0 t) :: appends 0 ts)).2 :=
  ⟨small_made, by decide, by decide, by decide, by decide +kernel,
    run_lettered small_made (.manual 0) 0 Memory.zero growing
      (by decide) 0 (by decide) (by decide)⟩

end Session

end Telemetry.Counters
