import Telemetry.Proofs.Counters.Handles
import Telemetry.Proofs.Memory.Refusal

namespace Telemetry.Counters

/-- What a request copies from, with the number of bytes that it takes at most. -/
def Request.sources : Request → List (Source × Nat)
  | .copied _ key label => key.toList.map (·, 112) ++ [(label, 380)]
  | _ => []

def Request.scripts : Request → List Script
  | .keyed _ _ key => [key]
  | _ => []

def Call.sources : Call → List (Source × Nat)
  | .command (.allocate q) | .command (.openHandle q) => q.sources
  | .command (.setKey _ k) => [(k, 112)]
  | _ => []

def Call.scripts : Call → List Script
  | .command (.allocate q) | .command (.openHandle q) => q.scripts
  | .command (.writeKey _ k) => [k]
  | _ => []

/-- A source ends before the range that is taken from it. -/
structure Source.Short (k : Source) (limit : Nat) (e : Fault) : Prop where
  short : k.bytes.length < k.offset + min k.length limit
  fault : e = .outOfBounds k.offset (min k.length limit) k.bytes.length

/-- A script for the key of an id leaves the key. -/
structure Monitor.KeyLeft (w : Monitor) (k : Script) (e : Fault) : Prop where
  ended : ∃ id m, w.HasId id ∧ (k.run (w.keyOf id) m).result = .error e
  range : ∃ i n, e = .outOfBounds i n 112 ∧ 112 < i + n

/-- What a caller handed over is to blame for a fault. -/
inductive Call.Blamed (c : Call) (w : Monitor) (e : Fault) : Prop
  | source (k : Source) (limit : Nat) (given : (k, limit) ∈ c.sources) (short : k.Short limit e)
  | script (k : Script) (given : k ∈ c.scripts) (left : w.KeyLeft k e)
  | raw (id : Int) (managed : Bool) (call : c = .handle (.raw id managed)) (none : ¬ w.HasId id)

/-- If a fault tells of a range then the caller is to blame. -/
def Call.Excuses (c : Call) (w : Monitor) (e : Fault) : Prop :=
  e.kind = .outOfRange → c.Blamed w e

theorem Call.excuses_of_noRange {w : Monitor} {c : Call} {e : Fault} (h : e.NoRange) :
    c.Excuses w e := fun hkind => absurd hkind h

namespace Monitor

variable {w : Monitor} {id : Int} {m : Memory} {n field : Nat} {P : Fault → Prop}

theorem faults_of_validate {α : Type} (w : Monitor) (id : Int) {q : Query α}
    (hno : ¬ w.HasId id → ∀ m, q m = .error (.counterIdOutOfRange id w.maxId))
    (hq : w.HasId id → q.Faults Fault.NoRange) : q.Faults Fault.NoRange := by
  by_cases hid : w.HasId id
  · exact hq hid
  · intro m e he
    rw [hno hid m] at he
    cases he
    exact Fault.noRange_of_kind rfl

theorem handOver_fault {α : Type} {row : Int → Query α} {consumer : Consumer α} (ids : List Int)
    (hrow : ∀ id ∈ ids, (row id).Faults P)
    (hconsumer : ∀ taken x e, consumer taken x = some e → P e) (m : Memory) (taken : Nat)
    (e : Fault) (he : (handOver row consumer m taken ids).fault = some e) : P e := by
  induction ids generalizing taken with
  | nil => cases he
  | cons id rest ih =>
    obtain ⟨hhere, hrest⟩ := List.forall_mem_cons.1 hrow
    unfold handOver at he
    cases hx : row id m with
    | error e' =>
      simp only [hx, Option.some.injEq] at he
      exact he ▸ hhere m e' hx
    | ok x =>
      cases hc : consumer taken x with
      | some e' =>
        simp only [hx, hc, Option.some.injEq] at he
        exact he ▸ hconsumer taken x e' hc
      | none =>
        simp only [hx, hc] at he
        exact ih hrest (taken + 1) he

section Records

variable (h : w.Paired)
include h

theorem faults_validate_bind {α : Type} {f : Unit → Action α}
    (hP : P (.counterIdOutOfRange id w.maxId)) (hf : w.HasId id → (f ()).Faults P) :
    (liftM (w.validate id) >>= f : Action α).Faults P := by
  by_cases hid : w.HasId id
  · rw [validate_of_hasId h hid]
    exact hf hid
  · rw [validate_of_not_hasId h hid]
    intro m e he
    cases he
    exact hP

theorem recordWord_faults (hf : field + n ≤ 512) (id : Int) :
    (w.recordWord n field id).Faults Fault.NoRange :=
  faults_of_validate w id (fun hid m => recordWord_of_not_hasId h hid m) fun hid =>
    Query.faults_of_ok fun m => ⟨_, recordWord_eq h hid hf m⟩

theorem slotWord_faults (hf : field + 8 ≤ 128) (id : Int) :
    (w.slotWord field id).Faults Fault.NoRange := by
  refine faults_of_validate w id (fun hid m => ?_) fun hid =>
    Query.faults_of_ok fun m => ⟨_, slotWord_eq h hid hf m⟩
  change (w.validate id >>= fun _ => w.values.get 8 (Slot.offset id + field) m) = _
  rw [validate_of_not_hasId h hid]
  rfl

theorem labelAt_faults (hid : w.HasId id) :
    (w.labelAt (Record.offset id)).Faults Fault.NoRange := by
  have hend := hid.record_le h
  refine Query.Faults.bind (View.get_faults (Record.field_le (by decide) hend)) fun n => ?_
  split
  · exact Query.faults_throw (Fault.noRange_of_kind rfl)
  · next hn =>
    have hmax : (Record.maxLabelLength : Int) = 380 := rfl
    have htext : Record.labelTextOffset + n.toNat ≤ 512 := by
      simp only [Record.labelTextOffset, Record.labelOffset]
      omega
    exact View.load_faults (Record.field_le htext hend)

theorem label_faults (id : Int) : (w.label id).Faults Fault.NoRange := by
  refine faults_of_validate w id (fun hid m => ?_) fun hid m e he => ?_
  · change (w.validate id >>= fun _ => w.labelAt (Record.offset id) m) = _
    rw [validate_of_not_hasId h hid]
    rfl
  · change (w.validate id >>= fun _ => w.labelAt (Record.offset id) m) = _ at he
    rw [validate_of_hasId h hid] at he
    exact labelAt_faults h hid m e he

theorem labelRow_faults (hid : w.HasId id) : (w.labelRow id).Faults Fault.NoRange :=
  (labelAt_faults h hid).bind fun _ => Query.faults_pure _

theorem valueRow_faults (hid : w.HasId id) : (w.valueRow id).Faults Fault.NoRange :=
  (View.get_faults (Slot.field_le (by decide : 0 + 8 ≤ 128) (hid.hasSlot h))).bind fun _ =>
    Query.faults_pure _

theorem recordRow_faults (hid : w.HasId id) : (w.recordRow id).Faults Fault.NoRange := by
  have hend := hid.record_le h
  exact (View.get_faults (Record.field_le (by decide) hend)).bind fun _ =>
    (View.load_faults (Record.field_le (by decide) hend)).bind fun _ =>
      (labelAt_faults h hid).bind fun _ => Query.faults_pure _

theorem key_faults (id : Int) : (w.key id).Faults Fault.NoRange := by
  refine faults_of_validate w id (fun hid m => ?_) fun hid =>
    Query.faults_of_ok fun m => ⟨_, key_eq h hid m⟩
  rw [key, keyView, validate_of_not_hasId h hid]
  rfl

theorem allocatedFrom_ok (m : Memory) : ∀ (count k : Nat), k + count ≤ w.slots →
    ∃ ids, w.allocatedFrom count k m = .ok ids ∧ ∀ id ∈ ids, w.HasId id
  | 0, _, _ => ⟨[], rfl, List.forall_mem_nil _⟩
  | count + 1, k, hk => by
    have hid : w.HasId k := ⟨Int.natCast_nonneg k, by omega⟩
    have hget : w.metadata.get 4 (Record.offset k) m = .ok (w.stateOf k m) :=
      View.get_of_le (Record.field_le (by decide : 0 + 4 ≤ 512) (hid.record_le h)) m
    obtain ⟨ids, hids, hall⟩ := allocatedFrom_ok m count (k + 1) (by omega)
    replace hids : w.allocatedFrom count ((k : Int) + 1) m = .ok ids := hids
    rw [allocatedFrom, Query.bind_ok _ hget]
    by_cases hallocated : w.stateOf k m = Record.allocated
    · rw [if_pos hallocated, Query.bind_ok _ hids]
      exact ⟨k :: ids, rfl, List.forall_mem_cons.2 ⟨hid, hall⟩⟩
    · rw [if_neg hallocated]
      split
      · exact ⟨[], rfl, List.forall_mem_nil _⟩
      · exact ⟨ids, hids, hall⟩

theorem allocatedIds_ok (m : Memory) :
    ∃ ids, w.allocatedIds m = .ok ids ∧ ∀ id ∈ ids, w.HasId id := by
  have hmax := h.maxId_eq
  have hle : 0 + w.iterable ≤ w.slots := by
    unfold iterable
    omega
  exact allocatedFrom_ok h m w.iterable 0 hle

theorem findIn_faults (type registration : Int) (ids : List Int) (hids : ∀ id ∈ ids, w.HasId id) :
    (w.findIn type registration ids).Faults Fault.NoRange := by
  induction ids with
  | nil => exact Query.faults_pure _
  | cons id rest ih =>
    obtain ⟨hid, hrest⟩ := List.forall_mem_cons.1 hids
    have hhere : (w.hasTypeAndRegistration type registration id).Faults Fault.NoRange := by
      refine Query.Faults.bind (View.get_faults (Record.field_le (by decide) (hid.record_le h)))
        fun t => ?_
      split
      · exact (View.get_faults (Slot.field_le (by decide) (hid.hasSlot h))).bind fun _ =>
          Query.faults_pure _
      · exact Query.faults_pure _
    refine hhere.bind fun found => ?_
    split
    · exact Query.faults_pure _
    · exact ih hrest

theorem find_faults (type registration : Int) :
    (w.find type registration).Faults Fault.NoRange := by
  intro m e he
  obtain ⟨ids, hids, hall⟩ := allocatedIds_ok h m
  rw [find, Query.bind_ok _ hids] at he
  exact findIn_faults h type registration ids hall m e he

theorem walk_fault {α : Type} {row : Int → Query α} {consumer : Consumer α}
    (hrow : ∀ id, w.HasId id → (row id).Faults P)
    (hconsumer : ∀ taken x e, consumer taken x = some e → P e) (m : Memory) (e : Fault)
    (he : (w.walk row consumer m).fault = some e) : P e := by
  obtain ⟨ids, hids, hall⟩ := allocatedIds_ok h m
  rw [walk, hids] at he
  exact handOver_fault ids (fun id hid => hrow id (hall id hid)) hconsumer m 0 e he

end Records

end Monitor

namespace Registry

open Telemetry.Action

variable {r : Registry} {m : Memory} {offset : Nat} {id now : Int} {c : Call} {P : Fault → Prop}

section Filling

variable (h : offset + 512 ≤ r.monitor.metadata.capacity)
include h

theorem putState_faults (x : Int) : (r.putState offset x).Faults P :=
  faults_of_run fun m => ⟨_, _, run_putState h m x⟩

theorem putType_faults (x : Int) : (r.putType offset x).Faults P :=
  faults_of_run fun m => ⟨_, _, run_putType h m x⟩

theorem putDeadline_faults (x : Int) : (r.putDeadline offset x).Faults P :=
  faults_of_run fun m => ⟨_, _, run_putDeadline h m x⟩

theorem clearKey_faults : (r.clearKey offset).Faults P :=
  faults_of_run fun m => ⟨_, _, run_clearKey h m⟩

theorem putLabel_faults (t : Text) : (r.putLabel offset t).Faults P :=
  faults_of_run fun m => ⟨_, _, run_putLabel h m t⟩

theorem lengthen_faults (t : Text) {n : Int}
    (hn : ¬ (n < 0 ∨ (Record.maxLabelLength : Int) < n)) :
    (do
      r.monitor.metadata.store (offset + Record.labelTextOffset + n.toNat) (r.suffixBytes n t)
      r.monitor.metadata.put 4 (offset + Record.labelOffset)
        (n + (r.suffixBytes n t).length)).Faults P := by
  have hlen := r.length_suffixBytes n t
  have htext : Record.labelTextOffset + n.toNat + (r.suffixBytes n t).length ≤ 512 := by
    simp only [Record.maxLabelLength, Record.length, Record.labelTextOffset,
      Record.labelOffset] at hlen hn ⊢
    omega
  exact (View.store_faults (by omega)).bind fun _ =>
    View.put_faults (Record.field_le (by decide) h) _

theorem addLabel_faults (t : Text) : (r.addLabel offset t).Faults Fault.NoRange := by
  refine (faults_ofQuery (View.get_faults (Record.field_le (by decide) h))).bind fun n => ?_
  split
  · exact faults_refuse (Fault.noRange_of_kind rfl)
  · next hn => exact lengthen_faults h t hn

theorem copySource_faults {field limit : Nat} (hfield : field + limit ≤ 512) (k : Source)
    (hP : ∀ e, k.Short limit e → P e) : (r.copySource (offset + field) limit k).Faults P := by
  have hlimit := Nat.min_le_right k.length limit
  exact View.copyBytes_faults (by omega) fun hshort => hP _ ⟨hshort, rfl⟩

end Filling

theorem script_faults (hid : r.monitor.HasId id) (k : Script)
    (hP : ∀ e, (e.kind = .outOfRange → r.monitor.KeyLeft k e) → P e) :
    (k.run (r.monitor.keyOf id)).Faults P := fun m e he =>
  hP e fun hkind => ⟨⟨id, m, hid, he⟩, k.run_leaves (r.monitor.keyOf id) m e he hkind⟩

section Ids

variable (h : r.monitor.Paired)
include h

theorem runKey_faults (hid : r.monitor.HasId id) (k : Script)
    (hk : (k.run (r.monitor.keyOf id)).Faults P) : (r.runKey (Record.offset id) k).Faults P := by
  unfold runKey
  have hsub : r.monitor.metadata.sub (Record.offset id + Record.keyOffset) Record.keyLength =
      .ok (r.monitor.keyOf id) := View.sub_of_le (Record.field_le (by decide) (hid.record_le h))
  rw [hsub]
  exact hk

theorem describe_faults (hid : r.monitor.HasId id) (q : Request)
    (hsource : ∀ k limit, (k, limit) ∈ q.sources → ∀ e, k.Short limit e → P e)
    (hscript : ∀ k ∈ q.scripts, (k.run (r.monitor.keyOf id)).Faults P) :
    (r.describe (Record.offset id) q).Faults P := by
  have hend := hid.record_le h
  cases q with
  | labelled type label =>
    exact (putType_faults hend type).bind fun _ => (putDeadline_faults hend _).bind fun _ =>
      putLabel_faults hend label
  | keyed type label key =>
    exact (putType_faults hend type).bind fun _ =>
      (runKey_faults h hid key (hscript key List.mem_cons_self)).bind fun _ =>
        (putDeadline_faults hend _).bind fun _ => putLabel_faults hend label
  | copied type key label =>
    have hlabel : (label, 380) ∈ (Request.copied type key label).sources :=
      List.mem_append_right _ List.mem_cons_self
    have hkey : (r.copyKey (Record.offset id) key).Faults P := by
      cases key with
      | none => exact faults_pure _
      | some k =>
        exact copySource_faults hend (by decide) k
          (hsource k 112 (List.mem_append_left _ List.mem_cons_self))
    exact (putType_faults hend type).bind fun _ => (putDeadline_faults hend _).bind fun _ =>
      hkey.bind fun _ => (View.put_faults (Record.field_le (by decide) hend) _).bind fun _ =>
        copySource_faults hend (by decide) label (hsource label 380 hlabel)

theorem publish_faults (hid : r.monitor.HasId id) (q : Request)
    (hsource : ∀ k limit, (k, limit) ∈ q.sources → ∀ e, k.Short limit e → P e)
    (hscript : ∀ k ∈ q.scripts, (k.run (r.monitor.keyOf id)).Faults P) :
    (r.publish (Record.offset id) q).Faults P := by
  rw [publish_eq]
  exact (describe_faults h hid q hsource hscript).bind fun _ =>
    putState_faults (hid.record_le h) _

theorem allocate_fault (hfreed : ∀ id ∈ r.freed, r.monitor.HasId id) (q : Request)
    (hfull : P (.registryFull r.monitor.maxId))
    (hsource : ∀ k limit, (k, limit) ∈ q.sources → ∀ e, k.Short limit e → P e)
    (hscript : ∀ k, k ∈ q.scripts → ∀ e, (e.kind = .outOfRange → r.monitor.KeyLeft k e) → P e)
    (e : Fault) (he : (r.allocate now q m).result = .error e) : P e := by
  rcases takeId_cases h hfreed now m with ⟨r', id, m₁, htake, htaken⟩ | ⟨-, -, hrefused⟩
  · have hmon := htaken.monitor_eq
    have hid' : r'.monitor.HasId id := hmon ▸ htaken.hasId hfreed
    rcases hpub : (r'.publish (Record.offset id) q).run m₁ with ⟨m₂, e' | _⟩
    · have herror := (allocate_of_withdraw htake hpub rfl).2.2
      rw [he] at herror
      cases herror
      have hfaults : (r'.publish (Record.offset id) q).Faults P :=
        publish_faults (hmon ▸ h) hid' q hsource fun k hk =>
          script_faults hid' k (hmon ▸ hscript k hk)
      exact hfaults m₁ e (Prod.mk.inj hpub).2
    · have hok := (allocate_of_publish htake hpub).2.2
      rw [he] at hok
      cases hok
  · rw [allocate_of_refused hrefused] at he
    cases he
    exact hfull

theorem reclaim_faults (now id : Int) : (r.reclaim now id).Faults Fault.NoRange := by
  refine Monitor.faults_validate_bind h (Fault.noRange_of_kind rfl) fun hid => ?_
  have hend := hid.record_le h
  refine (faults_ofQuery (View.get_faults (Record.field_le (by decide : 0 + 4 ≤ 512) hend))).bind
    fun s => ?_
  split
  · exact (putState_faults hend _).bind fun _ => (clearKey_faults hend).bind fun _ =>
      putDeadline_faults hend _
  · exact faults_refuse (Fault.noRange_of_kind rfl)

theorem free_fault (e : Fault) (he : (r.free now id m).result = .error e) : e.NoRange := by
  apply reclaim_faults h now id m
  unfold free at he
  dsimp only at he
  split at he
  · cases he
  · next hreclaim =>
    cases he
    exact hreclaim

theorem putSlotWord_faults {field : Nat} (hf : field + 8 ≤ 128) (id x : Int) :
    (r.putSlotWord field id x).Faults Fault.NoRange :=
  Monitor.faults_validate_bind h (Fault.noRange_of_kind rfl) fun hid =>
    View.put_faults (Slot.field_le hf (hid.hasSlot h)) x

theorem setLabel_faults (id : Int) (t : Text) : (r.setLabel id t).Faults Fault.NoRange :=
  Monitor.faults_validate_bind h (Fault.noRange_of_kind rfl) fun hid =>
    putLabel_faults (hid.record_le h) t

theorem appendLabel_faults (id : Int) (t : Text) : (r.appendLabel id t).Faults Fault.NoRange :=
  Monitor.faults_validate_bind h (Fault.noRange_of_kind rfl) fun hid =>
    addLabel_faults (hid.record_le h) t

theorem setKey_faults (id : Int) (k : Source) (hP : ∀ e, e.NoRange ∨ k.Short 112 e → P e) :
    (r.setKey id k).Faults P := by
  refine Monitor.faults_validate_bind h (hP _ (.inl (Fault.noRange_of_kind rfl))) fun hid => ?_
  have hend := hid.record_le h
  split
  · exact faults_refuse (hP _ (.inl (Fault.noRange_of_kind rfl)))
  · next hlen =>
    have hle : k.length ≤ 112 := Nat.le_of_not_lt hlen
    have hmin : min k.length 112 = k.length := Nat.min_eq_left hle
    refine View.copyBytes_faults (Record.field_le (by simp only [Record.keyOffset]; omega) hend)
      fun hshort => hP _ (.inr ⟨?_, ?_⟩)
    · rwa [hmin]
    · rw [hmin]

theorem writeKey_faults (id : Int) (k : Script)
    (hP : ∀ e, (e.kind = .outOfRange → r.monitor.KeyLeft k e) → P e) :
    (r.writeKey id k).Faults P := by
  unfold writeKey Monitor.keyView
  by_cases hid : r.monitor.HasId id
  · rw [Monitor.validate_of_hasId h hid]
    exact runKey_faults h hid k (script_faults hid k hP)
  · rw [Monitor.validate_of_not_hasId h hid]
    intro m e he
    cases he
    exact hP _ fun hkind => absurd hkind (Fault.noRange_of_kind rfl)

theorem countReusable_ok (now : Int) (m : Memory) (ids : List Int)
    (hids : ∀ id ∈ ids, r.monitor.HasId id) : ∃ n, r.countReusable now ids m = .ok n := by
  induction ids with
  | nil => exact ⟨0, rfl⟩
  | cons id rest ih =>
    obtain ⟨hid, hrest⟩ := List.forall_mem_cons.1 hids
    obtain ⟨n, hn⟩ := ih hrest
    rw [countReusable, Query.bind_ok _ (isReusable_eq h hid now m), Query.bind_ok _ hn]
    exact ⟨_, rfl⟩

end Ids

end Registry

namespace Session

open Telemetry.Action Registry

variable {s : Session} {r : Registry} {m : Memory} {now wallTime : Int} {x : Handle} {e : Fault}

theorem act_fault {P : Fault → Prop} {α : Type} {y : Action α} {f : α → Reply} (hy : y.Faults P)
    (he : (s.act (do return f (← y)) m).reply = .error e) : P e :=
  (hy.bind fun _ => faults_pure _) m e he

theorem answer_fault {P : Fault → Prop} {α : Type} {y : Query α} {f : α → Reply} (hy : y.Faults P)
    (he : (s.answer (do return f (← y)) m).reply = .error e) : P e :=
  (hy.bind fun _ => Query.faults_pure _) m e he

theorem walked_fault {α : Type} {row : α → Row} {w : Walk α}
    (he : (s.walked row w).reply = .error e) : w.fault = some e := by
  unfold walked at he
  cases hw : w.fault with
  | none => simp [hw] at he
  | some e' => simpa [hw] using he

theorem upTo_fault {α : Type} {n : Option Nat} {taken : Nat} {x : α}
    (h : Consumer.upTo n consumerFailed taken x = some e) : e.NoRange := by
  unfold Consumer.upTo at h
  split at h
  · cases h
    exact Fault.noRange_of_kind rfl
  · cases h

theorem scan_fault {α : Type} (hp : s.monitor.Paired) (name : α → Row) {row : Int → Query α}
    (hrow : ∀ id, s.monitor.HasId id → (row id).Faults Fault.NoRange) (n : Option Nat)
    (he : (s.walked name (s.monitor.walk row (Consumer.upTo n consumerFailed) m)).reply =
      .error e) : e.NoRange :=
  Monitor.walk_fault hp hrow (fun _ _ _ h => upTo_fault h) m e (walked_fault he)

theorem look_fault (hp : s.monitor.Paired) (q : Lookup) (he : (s.look m q).reply = .error e) :
    e.NoRange := by
  cases q with
  | maxId => cases he
  | charset => cases he
  | value id => exact answer_fault (Monitor.slotWord_faults hp (by decide) id) he
  | registration id => exact answer_fault (Monitor.slotWord_faults hp (by decide) id) he
  | owner id => exact answer_fault (Monitor.slotWord_faults hp (by decide) id) he
  | state id => exact answer_fault (Monitor.recordWord_faults hp (by decide) id) he
  | type id => exact answer_fault (Monitor.recordWord_faults hp (by decide) id) he
  | deadline id => exact answer_fault (Monitor.recordWord_faults hp (by decide) id) he
  | label id => exact answer_fault (Monitor.label_faults hp id) he
  | key id => exact answer_fault (Monitor.key_faults hp id) he
  | validate id =>
    by_cases hid : s.monitor.HasId id
    · simp only [look, answer, Monitor.validate_of_hasId hp hid] at he
      cases he
    · simp only [look, answer, Monitor.validate_of_not_hasId hp hid] at he
      cases he
      exact Fault.noRange_of_kind rfl
  | find type registration => exact answer_fault (Monitor.find_faults hp type registration) he
  | labels n =>
    change (s.walked .label (s.monitor.walkLabels (.upTo n consumerFailed) m)).reply = _ at he
    exact scan_fault hp .label (fun _ hid => Monitor.labelRow_faults hp hid) n he
  | valuesOf n =>
    change (s.walked .value (s.monitor.walkValues (.upTo n consumerFailed) m)).reply = _ at he
    exact scan_fault hp .value (fun _ hid => Monitor.valueRow_faults hp hid) n he
  | records n =>
    change (s.walked .record (s.monitor.walkRecords (.upTo n consumerFailed) m)).reply = _ at he
    exact scan_fault hp .record (fun _ hid => Monitor.recordRow_faults hp hid) n he

theorem On.word_le (hs : s.On r) (hx : some x ∈ s.handles) : x.offset + 8 ≤ x.values.capacity := by
  have hlies := hs.handles x hx
  have hslot : Slot.offset x.id + 128 ≤ s.monitor.values.capacity := hlies.hasSlot
  rw [hlies.values, Handle.offset]
  omega

theorem manager_fault {α : Type} {P : Fault → Prop} {f : Registry → Action α}
    (hdetached : P (.detachedHandle x.id)) (hf : (f r).Faults P) :
    (liftM (x.manager (some r)) >>= f : Action α).Faults P := by
  simp only [Handle.manager]
  split
  · exact hf
  · intro m e he
    cases he
    exact hdetached

theorem map_eq_error {α β : Type} {f : α → β} {y : Except Fault α} (h : y.map f = .error e) :
    y = .error e := by
  cases y with
  | error e' =>
    cases h
    rfl
  | ok a => cases h

theorem giveBack_fault (hs : s.On r) (hp : r.monitor.Paired)
    (he : (s.giveBack now x m).reply = .error e) : e.NoRange := by
  unfold giveBack at he
  rw [hs.registry] at he
  by_cases howns : x.owns
  · simp only [if_pos howns] at he
    exact free_fault hp e (map_eq_error he)
  · simp only [if_neg howns] at he
    cases he

theorem use_fault (hs : s.On r) (hp : r.monitor.Paired) {h : Nat} (hx : some x ∈ s.handles)
    (u : HandleUse) (he : (s.use now h x m u).reply = .error e) : e.NoRange := by
  have hle := hs.word_le hx
  have hget : x.get.Faults Fault.NoRange := View.get_faults hle
  have hput (v : Int) : (x.values.put 8 x.offset v).Faults Fault.NoRange := View.put_faults hle v
  have hold : (liftM (x.values.get 8 x.offset) : Action Int).Faults Fault.NoRange :=
    faults_ofQuery hget
  cases u with
  | get => exact answer_fault hget he
  | set v => exact act_fault (hput v) he
  | getAndAdd v =>
    exact act_fault (hold.bind fun _ => (hput _).bind fun _ => faults_pure _) he
  | getAndSet v =>
    exact act_fault (hold.bind fun _ => (hput _).bind fun _ => faults_pure _) he
  | compareAndSet expected v =>
    have hcas : (x.compareAndSet expected v).Faults Fault.NoRange := by
      refine hold.bind fun _ => ?_
      split
      · exact (hput v).bind fun _ => faults_pure _
      · exact faults_pure _
    exact act_fault hcas he
  | raiseTo v =>
    have hraise : (x.raiseTo v).Faults Fault.NoRange := by
      refine hold.bind fun _ => ?_
      split
      · exact (hput v).bind fun _ => faults_pure _
      · exact faults_pure _
    exact act_fault hraise he
  | label =>
    have hlabel : (x.label s.registry).Faults Fault.NoRange := by
      rw [Handle.label, hs.registry]
      simp only [Handle.manager]
      split
      · exact Monitor.label_faults hp x.id
      · intro m e he
        cases he
        exact Fault.noRange_of_kind rfl
    exact answer_fault hlabel he
  | setLabel t =>
    have hlabel : (x.setLabel s.registry t).Faults Fault.NoRange := by
      rw [Handle.setLabel, hs.registry]
      exact manager_fault (Fault.noRange_of_kind rfl) (setLabel_faults hp x.id t)
    exact act_fault hlabel he
  | appendLabel t =>
    have hlabel : (x.appendLabel s.registry t).Faults Fault.NoRange := by
      rw [Handle.appendLabel, hs.registry]
      exact manager_fault (Fault.noRange_of_kind rfl) (appendLabel_faults hp x.id t)
    exact act_fault hlabel he
  | close => exact giveBack_fault hs hp he
  | id => cases he
  | isClosed => cases he
  | disconnect => cases he

theorem handle_fault (hs : s.On r) (hp : r.monitor.Paired) (k : HandleCommand)
    (he : (s.handle now m k).reply = .error e) : (Call.handle k).Excuses r.monitor e := by
  have hhandled := s.handled now m k
  generalize s.deed (.handle k) = d, s.handle now m k = y at hhandled he
  cases hhandled with
  | raw id managed =>
    intro hkind
    refine .raw id managed rfl fun hid => ?_
    have hopened := map_eq_error (show Except.map _ _ = _ from he)
    rw [← hs.monitor, create_of_hasSlot (hid.hasSlot hp)] at hopened
    cases hopened
  | missing =>
    cases he
    exact Call.excuses_of_noRange (Fault.noRange_of_kind rfl)
  | moved | same | assigned | destroyed => cases he
  | used h x there u =>
    exact Call.excuses_of_noRange (use_fault hs hp (mem_of_handle? there) u he)

theorem command_fault (hs : s.Sound r) (hp : r.monitor.Paired) (k : Command)
    (he : (s.command r now m k).reply = .error e) : (Call.command k).Excuses r.monitor e := by
  have hplain {α : Type} {y : Action α} {f : α → Reply} (hy : y.Faults Fault.NoRange)
      (h : (s.act (do return f (← y)) m).reply = .error e) :
      (Call.command k).Excuses r.monitor e := Call.excuses_of_noRange (act_fault hy h)
  have hallocate (q : Request) (hq : (Call.command k).sources = q.sources)
      (hq' : (Call.command k).scripts = q.scripts)
      (h : (r.allocate now q m).result = .error e) : (Call.command k).Excuses r.monitor e := by
    refine allocate_fault (P := (Call.command k).Excuses r.monitor) hp hs.freed q
      (Call.excuses_of_noRange (Fault.noRange_of_kind rfl)) (fun src limit hsrc e' hshort _ => ?_)
      (fun script hscript e' hleft hkind => ?_) e h
    · exact .source src limit (hq ▸ hsrc) hshort
    · exact .script script (hq' ▸ hscript) (hleft hkind)
  cases k with
  | capacity => cases he
  | timeout => cases he
  | time => cases he
  | available =>
    obtain ⟨n, hn⟩ := countReusable_ok hp now m r.freed hs.freed
    have havailable : r.available now m = .ok (r.capacity - r.issued + n) := by
      rw [Registry.available, Query.bind_ok _ hn]
      rfl
    change (number (r.available now)) m = _ at he
    rw [number, Query.bind_ok _ havailable] at he
    cases he
  | allocate q => exact hallocate q rfl rfl (map_eq_error he)
  | openHandle q =>
    have hopened := map_eq_error (show Except.map _ _ = _ from he)
    cases hresult : (r.allocate now q m).result with
    | error e' =>
      rw [hresult] at hopened
      cases hopened
      exact hallocate q rfl rfl hresult
    | ok id =>
      obtain ⟨_, _, htaken, -⟩ := allocate_eq_ok hp hs.freed hresult
      have hid := htaken.hasId hs.freed
      rw [hresult] at hopened
      change Handle.create r.monitor.values id true = _ at hopened
      rw [create_of_hasSlot (hid.hasSlot hp)] at hopened
      cases hopened
  | free id => exact Call.excuses_of_noRange (free_fault hp e (map_eq_error he))
  | setValue id x => exact hplain (putSlotWord_faults hp (by decide) id x) he
  | setRegistration id x => exact hplain (putSlotWord_faults hp (by decide) id x) he
  | setOwner id x => exact hplain (putSlotWord_faults hp (by decide) id x) he
  | setLabel id t => exact hplain (setLabel_faults hp id t) he
  | appendLabel id t => exact hplain (appendLabel_faults hp id t) he
  | setKey id src =>
    refine act_fault (setKey_faults hp id src fun e' h => ?_) he
    rcases h with h | hshort
    · exact Call.excuses_of_noRange h
    · exact fun _ => .source src 112 List.mem_cons_self hshort
  | writeKey id script =>
    exact act_fault (writeKey_faults hp id script fun e' hleft hkind =>
      .script script List.mem_cons_self (hleft hkind)) he

theorem step_fault (hs : s.Sound r) (hp : r.monitor.Paired) {c : Call} (hc : c.Regular)
    (he : (s.step wallTime m c).reply = .error e) : c.Excuses r.monitor e := by
  cases c with
  | look q => exact Call.excuses_of_noRange (look_fault (hs.on.monitor ▸ hp) q he)
  | metadata a => exact hc.elim
  | values a => exact hc.elim
  | setClock t => cases he
  | advanceClock d => cases he
  | command k =>
    simp only [step, hs.on.registry] at he
    exact command_fault hs hp k he
  | handle k => exact handle_fault hs.on hp k he

end Session

end Telemetry.Counters
