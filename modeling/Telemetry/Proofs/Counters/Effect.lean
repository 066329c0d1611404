import Telemetry.Proofs.Counters.Layout

namespace Telemetry.Counters

theorem Charset.length_encode (c : Charset) (t : Text) : (c.encode t).length = t.length := by
  cases c
  · exact List.length_map ..
  · rfl

namespace Registry

variable {r : Registry} {m m' : Memory} {offset : Nat} {id now : Int}

def copyKey (r : Registry) (offset : Nat) : Option Source → Action Unit
  | some k => r.copySource (offset + Record.keyOffset) Record.keyLength k
  | none => pure ()

def runKey (r : Registry) (offset : Nat) (k : Script) : Action Unit := do
  k.run (← r.monitor.metadata.sub (offset + Record.keyOffset) Record.keyLength)

def describe (r : Registry) (offset : Nat) : Request → Action Unit
  | .labelled type label => do
    r.putType offset type
    r.putDeadline offset Record.neverReusable
    r.putLabel offset label
  | .keyed type label key => do
    r.putType offset type
    r.runKey offset key
    r.putDeadline offset Record.neverReusable
    r.putLabel offset label
  | .copied type key label => do
    r.putType offset type
    r.putDeadline offset Record.neverReusable
    r.copyKey offset key
    r.monitor.metadata.put 4 (offset + Record.labelOffset) (min label.length Record.maxLabelLength)
    r.copySource (offset + Record.labelTextOffset) Record.maxLabelLength label

/-- A record is published by its last write, that of the state. -/
theorem publish_eq (r : Registry) (offset : Nat) (q : Request) :
    r.publish offset q = r.describe offset q >>= fun _ => r.putState offset Record.allocated := by
  rcases q with ⟨type, label⟩ | ⟨type, label, key⟩ | ⟨type, _ | k, label⟩ <;>
    simp only [publish, describe, copyKey, runKey, Action.bind_assoc, Action.pure_bind]

def labelBytes (r : Registry) (t : Text) : Text :=
  r.monitor.charset.encode (t.take Record.maxLabelLength)

def suffixBytes (r : Registry) (n : Int) (t : Text) : Text :=
  r.monitor.charset.encode (t.take (Record.maxLabelLength - n.toNat))

theorem length_labelBytes (r : Registry) (t : Text) :
    (r.labelBytes t).length = min Record.maxLabelLength t.length := by
  rw [labelBytes, Charset.length_encode, List.length_take]

theorem length_suffixBytes (r : Registry) (n : Int) (t : Text) :
    (r.suffixBytes n t).length = min (Record.maxLabelLength - n.toNat) t.length := by
  rw [suffixBytes, Charset.length_encode, List.length_take]

section Confinement

open Telemetry.Action View

def labelPart (r : Registry) (offset : Nat) : View :=
  r.monitor.metadata.slice (offset + Record.labelOffset) (Record.length - Record.labelOffset)

def body (r : Registry) (offset : Nat) : View :=
  r.monitor.metadata.slice (offset + Record.typeOffset) (Record.length - Record.typeOffset)

theorem labelPart_inside : (r.labelPart offset).Inside (r.body offset) :=
  slice_inside_slice (by simp only [Record.typeOffset, Record.labelOffset]; omega)
    (by simp only [Record.typeOffset, Record.labelOffset, Record.length]; omega)

theorem body_inside : (r.body offset).Inside (r.monitor.metadata.slice offset Record.length) :=
  slice_inside_slice (Nat.le_add_right ..)
    (by simp only [Record.typeOffset, Record.length]; omega)

theorem putLabel_within (offset : Nat) (t : Text) :
    (r.putLabel offset t).Within (r.labelPart offset) := by
  have hlen := r.length_labelBytes t
  refine Within.bind ((store_within _ _ _).mono ?_) fun _ => (put_within _ _ _ _).mono ?_
  · change (View.slice _ _ (r.labelBytes t).length).Inside _
    refine slice_inside_slice ?_ ?_ <;>
      simp only [Record.labelTextOffset, Record.labelOffset, Record.length, hlen,
        Record.maxLabelLength] <;> omega
  · exact slice_inside_slice (Nat.le_refl _)
      (by simp only [Record.labelOffset, Record.length]; omega)

theorem addLabel_within (offset : Nat) (t : Text) :
    (r.addLabel offset t).Within (r.labelPart offset) := by
  refine (within_ofQuery _).bind fun n => ?_
  split
  · exact within_refuse _
  · next hn =>
    have hlen := r.length_suffixBytes n t
    refine Within.bind ((store_within _ _ _).mono ?_) fun _ => (put_within _ _ _ _).mono ?_
    · change (View.slice _ _ (r.suffixBytes n t).length).Inside _
      simp only [Record.maxLabelLength, Record.labelTextOffset, Record.labelOffset,
        Record.length] at hn hlen
      refine slice_inside_slice ?_ ?_ <;>
        simp only [Record.labelTextOffset, Record.labelOffset, Record.length] <;> omega
    · exact slice_inside_slice (Nat.le_refl _)
        (by simp only [Record.labelOffset, Record.length]; omega)

theorem putType_within (offset : Nat) (x : Int) :
    (r.putType offset x).Within (r.body offset) :=
  (put_within _ _ _ _).mono (slice_inside_slice (Nat.le_refl _)
    (by simp only [Record.typeOffset, Record.length]; omega))

theorem putDeadline_within (offset : Nat) (x : Int) :
    (r.putDeadline offset x).Within (r.body offset) :=
  (put_within _ _ _ _).mono (slice_inside_slice
    (by simp only [Record.typeOffset, Record.deadlineOffset]; omega)
    (by simp only [Record.typeOffset, Record.deadlineOffset, Record.length]; omega))

def keyPart (r : Registry) (offset : Nat) : View :=
  r.monitor.metadata.slice (offset + Record.keyOffset) Record.keyLength

theorem keyPart_inside : (r.keyPart offset).Inside (r.body offset) :=
  slice_inside_slice (by simp only [Record.typeOffset, Record.keyOffset]; omega)
    (by simp only [Record.typeOffset, Record.keyLength, Record.labelOffset, Record.keyOffset,
      Record.length]; omega)

theorem clearKey_within (offset : Nat) : (r.clearKey offset).Within (r.keyPart offset) :=
  fill_within _ _ _ _

/-- A script for a key writes into the key only, whether or not there is a record. -/
theorem runKey_within (offset : Nat) (k : Script) :
    (r.runKey offset k).Within (r.keyPart offset) := by
  unfold runKey
  by_cases h : offset + Record.keyOffset + Record.keyLength ≤ r.monitor.metadata.capacity
  · rw [sub_of_le h]
    exact k.run_within (r.keyPart offset)
  · rw [View.sub, check_of_lt (Nat.lt_of_not_le h)]
    exact within_error_bind _ _

theorem copySource_within (index limit : Nat) (s : Source) :
    (r.copySource index limit s).Within (r.monitor.metadata.slice index limit) :=
  (copyBytes_within _ _ _ _ _).mono (slice_inside_slice (Nat.le_refl _)
    (Nat.add_le_add_left (Nat.min_le_right ..) _))

theorem copyKey_within (offset : Nat) (key : Option Source) :
    (r.copyKey offset key).Within (r.keyPart offset) := by
  cases key with
  | none => exact within_pure _
  | some k => exact copySource_within _ _ k

theorem copyLabel_within (offset : Nat) (s : Source) :
    (do
      r.monitor.metadata.put 4 (offset + Record.labelOffset) (min s.length Record.maxLabelLength)
      r.copySource (offset + Record.labelTextOffset) Record.maxLabelLength s).Within
      (r.labelPart offset) := by
  refine Within.bind ((put_within _ _ _ _).mono ?_) fun _ => (copySource_within _ _ s).mono ?_
  all_goals
    refine slice_inside_slice ?_ ?_ <;>
      simp only [Record.labelTextOffset, Record.labelOffset, Record.length,
        Record.maxLabelLength] <;> omega

theorem describe_within (offset : Nat) (q : Request) :
    (r.describe offset q).Within (r.body offset) := by
  cases q with
  | labelled type label =>
    exact (putType_within offset type).bind fun _ => (putDeadline_within offset _).bind fun _ =>
      (putLabel_within offset label).mono labelPart_inside
  | keyed type label key =>
    exact (putType_within offset type).bind fun _ =>
      ((runKey_within offset key).mono keyPart_inside).bind fun _ =>
        (putDeadline_within offset _).bind fun _ =>
          (putLabel_within offset label).mono labelPart_inside
  | copied type key label =>
    exact (putType_within offset type).bind fun _ => (putDeadline_within offset _).bind fun _ =>
      ((copyKey_within offset key).mono keyPart_inside).bind fun _ =>
        (copyLabel_within offset label).mono labelPart_inside

theorem putState_within (offset : Nat) (x : Int) :
    (r.putState offset x).Within (r.monitor.metadata.slice offset 4) := put_within _ _ _ _

theorem publish_within (offset : Nat) (q : Request) :
    (r.publish offset q).Within (r.monitor.metadata.slice offset Record.length) := by
  rw [publish_eq]
  exact ((describe_within offset q).mono body_inside).bind fun _ =>
    (putState_within offset _).mono (slice_inside_slice (Nat.le_refl _)
      (by simp only [Record.length]; omega))

theorem withdraw_within (offset : Nat) :
    (r.withdraw offset).Within (r.monitor.metadata.slice offset Record.length) :=
  ((clearKey_within offset).mono (keyPart_inside.trans body_inside)).bind fun _ =>
    ((putDeadline_within offset _).mono body_inside).bind fun _ =>
      (putState_within offset _).mono (slice_inside_slice (Nat.le_refl _)
        (by simp only [Record.length]; omega))

theorem reclaim_within (now id : Int) : (r.reclaim now id).Within (r.monitor.record id) := by
  refine (within_ofExcept _).bind fun _ => (within_ofQuery _).bind fun s => ?_
  split
  · exact ((putState_within _ _).mono (slice_inside_slice (Nat.le_refl _)
      (by simp only [Record.length]; omega))).bind fun _ =>
      ((clearKey_within _).mono (keyPart_inside.trans body_inside)).bind fun _ =>
        (putDeadline_within _ _).mono body_inside
  · exact within_refuse _

theorem resetSlot_within (id : Int) : (r.resetSlot id).Within (r.monitor.slot id) :=
  ((put_within _ _ _ _).mono (Monitor.slotField_inside (by decide))).bind fun _ =>
    ((put_within _ _ _ _).mono (Monitor.slotField_inside (by decide))).bind fun _ =>
      (put_within _ _ _ _).mono (Monitor.slotField_inside (by decide : 0 + 8 ≤ 128))

theorem putSlotWord_within (field : Nat) (id x : Int) :
    (r.putSlotWord field id x).Within (r.monitor.values.slice (Slot.offset id + field) 8) :=
  (within_ofExcept _).bind fun _ => put_within _ _ _ _

theorem setLabel_within (id : Int) (t : Text) :
    (r.setLabel id t).Within (r.labelPart (Record.offset id)) :=
  (within_ofExcept _).bind fun _ => putLabel_within _ t

theorem appendLabel_within (id : Int) (t : Text) :
    (r.appendLabel id t).Within (r.labelPart (Record.offset id)) :=
  (within_ofExcept _).bind fun _ => addLabel_within _ t

theorem setKey_within (id : Int) (s : Source) :
    (r.setKey id s).Within (r.keyPart (Record.offset id)) := by
  refine (within_ofExcept _).bind fun _ => ?_
  split
  · exact within_refuse _
  · next h =>
    exact (copyBytes_within _ _ _ _ _).mono (slice_inside_slice (Nat.le_refl _)
      (Nat.add_le_add_left (Nat.le_of_not_lt h) _))

theorem writeKey_within (id : Int) (k : Script) :
    (r.writeKey id k).Within (r.keyPart (Record.offset id)) := by
  unfold writeKey Monitor.keyView
  cases r.monitor.validate id with
  | error e => exact within_error_bind _ _
  | ok _ => exact runKey_within (Record.offset id) k

end Confinement

end Registry

/-- The record of an id that was given back: its key is cleared and the id rests until a time. -/
structure Monitor.Released (w : Monitor) (id deadline : Int) (m : Memory) : Prop where
  state : w.stateOf id m = Record.reclaimed
  deadline : w.deadlineOf id m = deadline
  key : (w.keyOf id).bytes m = List.replicate Record.keyLength 0

structure Monitor.SlotBlank (w : Monitor) (id : Int) (m : Memory) : Prop where
  value : w.slotWordOf 0 id m = 0
  registration : w.slotWordOf Slot.registrationOffset id m = 0
  owner : w.slotWordOf Slot.ownerOffset id m = 0

def Outcome.memory (o : Outcome α) (m : Memory) : Memory := m.storeAll o.writes

namespace Registry

variable {r : Registry} {m m' : Memory} {offset : Nat} {id now : Int}

section Run

open Telemetry.Action View

variable (h : offset + 512 ≤ r.monitor.metadata.capacity) (m : Memory)
include h

theorem run_putState (x : Int) : (r.putState offset x).run m =
    (m.store (r.monitor.metadata.writeAt (offset + 0) (Word.encode 4 x)), .ok ()) :=
  run_put (Record.field_le (by decide : 0 + 4 ≤ 512) h) x m

theorem run_putType (x : Int) : (r.putType offset x).run m =
    (m.store (r.monitor.metadata.writeAt (offset + Record.typeOffset) (Word.encode 4 x)),
      .ok ()) :=
  run_put (Record.field_le (by decide) h) x m

theorem run_putDeadline (x : Int) : (r.putDeadline offset x).run m =
    (m.store (r.monitor.metadata.writeAt (offset + Record.deadlineOffset) (Word.encode 8 x)),
      .ok ()) :=
  run_put (Record.field_le (by decide) h) x m

theorem run_clearKey : (r.clearKey offset).run m =
    (m.store (r.monitor.metadata.writeAt (offset + Record.keyOffset)
      (List.replicate Record.keyLength 0)), .ok ()) :=
  run_fill (Record.field_le (by decide) h) 0 m

theorem run_putLabel (t : Text) : (r.putLabel offset t).run m =
    ((m.store (r.monitor.metadata.writeAt (offset + Record.labelTextOffset)
      (r.labelBytes t))).store (r.monitor.metadata.writeAt (offset + Record.labelOffset)
        (Word.encode 4 (r.labelBytes t).length)), .ok ()) := by
  have hlen : Record.labelTextOffset + (r.labelBytes t).length ≤ 512 := by
    rw [length_labelBytes]
    exact Nat.add_le_add_left (Nat.min_le_left ..) _
  exact (run_bind_ok _ (run_store (Record.field_le hlen h) m)).trans
    (run_put (Record.field_le (by decide) h) _ _)

end Run

section Fitting

open Telemetry.Action Monitor View

def lengthPart (r : Registry) (offset : Nat) : View :=
  r.monitor.metadata.slice (offset + Record.labelOffset) 4

theorem Within.keeps_fits {α : Type} {x : Action α} {v : View} (hx : x.Within v)
    (ha : v.Apart (r.lengthPart (Record.offset id))) : x.Keeps (r.monitor.LabelFits id) := by
  intro m hm
  have hlen : r.monitor.labelLengthOf id (x.run m).1 = r.monitor.labelLengthOf id m :=
    (hx.confines m).word ha
  rwa [LabelFits, hlen]

theorem labelFits_of_store {x : Int} (h₀ : 0 ≤ x) (h₁ : x ≤ Record.maxLabelLength) (m : Memory) :
    r.monitor.LabelFits id (m.store (r.monitor.metadata.writeAt
      (Record.offset id + Record.labelOffset) (Word.encode 4 x))) := by
  have hm : (Word.modulus 4 : Int) = 4294967296 := rfl
  have hmax : (Record.maxLabelLength : Int) = 380 := rfl
  rw [LabelFits, labelLengthOf, recordWordOf_store_self,
    Word.wrap_of_fits (by omega) (by omega)]
  exact ⟨h₀, h₁⟩

theorem length_labelBytes_le (r : Registry) (t : Text) :
    ((r.labelBytes t).length : Int) ≤ Record.maxLabelLength := by
  rw [length_labelBytes]
  exact Int.ofNat_le.2 (Nat.min_le_left ..)

variable (h : r.monitor.Paired) (hid : r.monitor.HasId id)
include h hid

theorem putLabel_keeps_fits (t : Text) :
    (r.putLabel (Record.offset id) t).Keeps (r.monitor.LabelFits id) := by
  intro m _
  rw [run_putLabel (hid.record_le h)]
  exact labelFits_of_store (Int.natCast_nonneg _) (r.length_labelBytes_le t) _

theorem addLabel_keeps_fits (t : Text) :
    (r.addLabel (Record.offset id) t).Keeps (r.monitor.LabelFits id) := by
  refine (keeps_ofQuery _).bind fun n => ?_
  split
  · exact keeps_refuse _
  · next hn =>
    have hlen := r.length_suffixBytes n t
    refine Keeps.bind (Within.keeps_fits (store_within _ _ _) ?_) fun _ m _ => ?_
    · exact apart_slice (.inr (by
        simp only [Record.labelTextOffset]
        omega))
    · rw [run_put (Record.field_le (by decide) (hid.record_le h))]
      have hle : n + ((r.suffixBytes n t).length : Int) ≤ Record.maxLabelLength := by omega
      exact labelFits_of_store (by omega) hle m

theorem copyLabel_keeps_fits (s : Source) :
    (do
      r.monitor.metadata.put 4 (Record.offset id + Record.labelOffset)
        (min s.length Record.maxLabelLength)
      r.copySource (Record.offset id + Record.labelTextOffset) Record.maxLabelLength s).Keeps
      (r.monitor.LabelFits id) := by
  refine Keeps.bind (fun m _ => ?_) fun _ => Within.keeps_fits (copySource_within _ _ s) ?_
  · rw [run_put (Record.field_le (by decide) (hid.record_le h))]
    exact labelFits_of_store (by omega) (Int.min_le_right ..) m
  · exact apart_field (by decide)

theorem describe_keeps_fits (q : Request) :
    (r.describe (Record.offset id) q).Keeps (r.monitor.LabelFits id) := by
  have htype (x : Int) : (r.putType (Record.offset id) x).Keeps (r.monitor.LabelFits id) :=
    Within.keeps_fits (put_within _ _ _ _) (apart_field (by decide))
  have hdeadline (x : Int) : (r.putDeadline (Record.offset id) x).Keeps (r.monitor.LabelFits id) :=
    Within.keeps_fits (put_within _ _ _ _) (apart_field (by decide))
  have hkey : (r.keyPart (Record.offset id)).Apart (r.lengthPart (Record.offset id)) :=
    apart_field (by decide)
  cases q with
  | labelled type label =>
    exact (htype type).bind fun _ => (hdeadline _).bind fun _ => putLabel_keeps_fits h hid label
  | keyed type label key =>
    exact (htype type).bind fun _ => (Within.keeps_fits (runKey_within _ key) hkey).bind fun _ =>
      (hdeadline _).bind fun _ => putLabel_keeps_fits h hid label
  | copied type key label =>
    exact (htype type).bind fun _ => (hdeadline _).bind fun _ =>
      (Within.keeps_fits (copyKey_within _ key) hkey).bind fun _ =>
        copyLabel_keeps_fits h hid label

theorem publish_keeps_fits (q : Request) :
    (r.publish (Record.offset id) q).Keeps (r.monitor.LabelFits id) := by
  rw [publish_eq]
  exact (describe_keeps_fits h hid q).bind fun _ =>
    Within.keeps_fits (putState_within _ _) (apart_slice (.inl (Nat.add_le_add_left (by decide) _)))

theorem stateOf_of_publish {q : Request}
    (hrun : (r.publish (Record.offset id) q).run m = (m', .ok ())) :
    r.monitor.stateOf id m' = Record.allocated := by
  rw [publish_eq] at hrun
  obtain ⟨_, m₁, _, hstate⟩ := run_bind_eq_ok hrun
  rw [run_putState (hid.record_le h)] at hstate
  obtain ⟨rfl, _⟩ := Prod.mk.inj hstate
  exact recordWordOf_store_self _

end Fitting

section Release

open Telemetry.Action Monitor

variable (h : r.monitor.Paired) (hid : r.monitor.HasId id)
include h hid

theorem run_withdraw (m : Memory) : ∃ m', (r.withdraw (Record.offset id)).run m = (m', .ok ()) ∧
    r.monitor.Released id 0 m' ∧
    r.monitor.labelLengthOf id m' = r.monitor.labelLengthOf id m := by
  have hend := hid.record_le h
  refine ⟨?memory, ?run, ⟨?state, ?deadline, ?key⟩, ?label⟩
  case run =>
    rw [withdraw, run_bind_ok _ (run_clearKey hend m), run_bind_ok _ (run_putDeadline hend _ _),
      run_putState hend]
  case state => exact recordWordOf_store_self _
  case deadline =>
    rw [deadlineOf, recordWordOf_store_of_apart (Word.length_encode ..) (by decide)]
    exact recordWordOf_store_self 0
  case key =>
    rw [keyOf_store_of_apart (Word.length_encode ..) (by decide),
      keyOf_store_of_apart (Word.length_encode ..) (by decide)]
    exact View.bytes_slice_store_self r.monitor.metadata _ (List.replicate Record.keyLength 0) m
  case label =>
    rw [labelLengthOf, recordWordOf_store_of_apart (Word.length_encode ..) (by decide),
      recordWordOf_store_of_apart (Word.length_encode ..) (by decide),
      recordWordOf_store_of_apart List.length_replicate (by decide)]

theorem run_reclaim (hs : r.monitor.stateOf id m = Record.allocated) (now : Int) :
    ∃ m', (r.reclaim now id).run m = (m', .ok ()) ∧
      r.monitor.Released id (Word.wrap 8 (now + r.timeout)) m' ∧
      r.monitor.labelLengthOf id m' = r.monitor.labelLengthOf id m := by
  have hend := hid.record_le h
  have hget : r.monitor.metadata.get 4 (Record.offset id) m = .ok Record.allocated :=
    (View.get_of_le (Record.field_le (by decide : 0 + 4 ≤ 512) hend) m).trans
      (congrArg Except.ok hs)
  refine ⟨?memory, ?run, ⟨?state, ?deadline, ?key⟩, ?label⟩
  case run =>
    rw [reclaim, validate_of_hasId h hid, run_bind_ok _ (run_ofExcept _ m),
      run_bind_ok _ ((run_ofQuery _ m).trans (by rw [hget])), if_pos rfl,
      run_bind_ok _ (run_putState hend m _), run_bind_ok _ (run_clearKey hend _),
      run_putDeadline hend]
  case state =>
    rw [stateOf, recordWordOf_store_of_apart (Word.length_encode ..) (by decide),
      recordWordOf_store_of_apart List.length_replicate (by decide)]
    exact recordWordOf_store_self _
  case deadline => exact recordWordOf_store_self _
  case key =>
    rw [keyOf_store_of_apart (Word.length_encode ..) (by decide)]
    exact View.bytes_slice_store_self r.monitor.metadata _ (List.replicate Record.keyLength 0) _
  case label =>
    rw [labelLengthOf, recordWordOf_store_of_apart (Word.length_encode ..) (by decide),
      recordWordOf_store_of_apart List.length_replicate (by decide),
      recordWordOf_store_of_apart (Word.length_encode ..) (by decide)]

theorem run_resetSlot (m : Memory) :
    ∃ m', (r.resetSlot id).run m = (m', .ok ()) ∧ r.monitor.SlotBlank id m' := by
  have hend := hid.hasSlot h
  refine ⟨?memory, ?run, ⟨?value, ?registration, ?owner⟩⟩
  case run =>
    rw [resetSlot, run_bind_ok _ (View.run_put (Slot.field_le (by decide) hend) _ m),
      run_bind_ok _ (View.run_put (Slot.field_le (by decide) hend) _ _)]
    exact View.run_put (Slot.field_le (by decide : 0 + 8 ≤ 128) hend) 0 _
  case value => exact slotWordOf_store_self 0
  case registration =>
    exact (slotWordOf_store_of_apart _ (by decide)).trans
      ((slotWordOf_store_of_apart _ (by decide)).trans (slotWordOf_store_self 0))
  case owner => exact (slotWordOf_store_of_apart _ (by decide)).trans (slotWordOf_store_self 0)

end Release

end Registry

end Telemetry.Counters
