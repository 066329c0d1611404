import Telemetry.Proofs.Counters.Isolation
import Telemetry.Proofs.Counters.Rollback
import Telemetry.Proofs.Memory.Atomicity

namespace Telemetry.Counters

theorem Monitor.hasId_of_validate {w : Monitor} {id : Int} (h : w.Paired)
    (hvalid : w.validate id = .ok ()) : w.HasId id := by
  by_contra hid
  rw [validate_of_not_hasId h hid] at hvalid
  cases hvalid

def Command.id? : Command → Option Int
  | .free id | .setValue id _ | .setRegistration id _ | .setOwner id _ | .setLabel id _
  | .appendLabel id _ | .setKey id _ | .writeKey id _ => some id
  | _ => none

/-- How a request can fail when it has an id with a key: a source is too short, or the script ends
with a fault. -/
inductive Request.Fails (q : Request) (key : View) (e : Fault) : Prop
  | source (k : Source) (limit : Nat) (given : (k, limit) ∈ q.sources) (short : k.Short limit e)
  | script (k : Script) (given : k ∈ q.scripts) (m : Memory)
      (ended : (k.run key m).result = .error e)

namespace Registry

open Telemetry.Action

variable {r r' : Registry} {m m' : Memory} {id now : Int} {q : Request} {e : Fault} {n : Nat}

theorem putSlotWord_atomic (r : Registry) (field : Nat) (id x : Int) :
    (r.putSlotWord field id x).Atomic :=
  atomic_ofExcept_bind fun _ _ => View.put_atomic _ _ _ x

theorem setKey_atomic (r : Registry) (id : Int) (k : Source) : (r.setKey id k).Atomic := by
  refine atomic_ofExcept_bind fun _ _ => ?_
  split
  · exact atomic_refuse _
  · exact View.copyBytes_atomic _ _ _ _ _

section Paired

variable (h : r.monitor.Paired)
include h

theorem setLabel_atomic (id : Int) (t : Text) : (r.setLabel id t).Atomic :=
  atomic_ofExcept_bind fun _ hvalid =>
    (putLabel_faults ((Monitor.hasId_of_validate h hvalid).record_le h) t).atomic

theorem appendLabel_atomic (id : Int) (t : Text) : (r.appendLabel id t).Atomic := by
  refine atomic_ofExcept_bind fun _ hvalid => atomic_ofQuery_bind fun n => ?_
  split
  · exact atomic_refuse _
  · next hn =>
    have hend := (Monitor.hasId_of_validate h hvalid).record_le h
    exact (lengthen_faults hend t hn).atomic

theorem reclaim_atomic (now id : Int) : (r.reclaim now id).Atomic := by
  refine atomic_ofExcept_bind fun _ hvalid => atomic_ofQuery_bind fun _ => ?_
  have hend := (Monitor.hasId_of_validate h hvalid).record_le h
  split
  · exact ((putState_faults hend _).bind fun _ => (clearKey_faults hend).bind fun _ =>
      putDeadline_faults hend _).atomic
  · exact atomic_refuse _

theorem publish_fails (hid : r.monitor.HasId id) (q : Request) :
    (r.publish (Record.offset id) q).Faults (q.Fails (r.monitor.keyOf id)) :=
  publish_faults h hid q (fun k limit hk _ hshort => .source k limit hk hshort)
    (fun k hk m _ he => .script k hk m he)

end Paired

/-- An allocation took an id and could not fill its record, and that is the fault that it ends with.
Of the memory only the record and the slot of the id may have changed; the key is cleared, the id is
marked as given back, and it is freed last. -/
structure Undone (r : Registry) (now : Int) (q : Request) (m : Memory) (id : Int) (e : Fault)
    (after : Registry) (m' : Memory) : Prop where
  taken : ∃ r', (r.takeId now m).result = .ok (r', id) ∧
    (r'.publish (Record.offset id) q (m.storeAll (r.takeId now m).writes)).result = .error e ∧
      after = { r' with freed := r'.freed ++ [id] }
  origin : q.Fails (r.monitor.keyOf id) e
  others : ∀ region i, ¬ (r.monitor.metadata.slice (512 * id.toNat) 512).Has region i →
    ¬ (r.monitor.values.slice (128 * id.toNat) 24).Has region i →
      m'.byte region i = m.byte region i
  key : r.monitor.key id m' = .ok (List.replicate 112 0)
  state : r.monitor.state id m' = .ok Record.reclaimed

/-- What cannot be asked of a registry, and the fault that says so: anything about an id without a
slot, to give back what is not in use, to set a key that is too long or whose source is too short,
to lengthen a label whose stored length no record has room for, or to allocate when no id is
available. -/
inductive Misuse (r : Registry) (now : Int) (m : Memory) : Command → Fault → Prop
  | noId {k : Command} {id : Int} (named : k.id? = some id)
      (outside : id < 0 ∨ r.monitor.maxId < id) :
      Misuse r now m k (.counterIdOutOfRange id r.monitor.maxId)
  | notInUse {id x : Int} (state : r.monitor.state id m = .ok x) (idle : x ≠ Record.allocated) :
      Misuse r now m (.free id) (.counterNotAllocated id)
  | longKey {id : Int} {k : Source} (inside : 0 ≤ id ∧ id ≤ r.monitor.maxId)
      (long : 112 < k.length) : Misuse r now m (.setKey id k) (.keyTooLong k.length 112)
  | shortSource {id : Int} {k : Source} (inside : 0 ≤ id ∧ id ≤ r.monitor.maxId)
      (fits : k.length ≤ 112) (short : k.bytes.length < k.offset + k.length) :
      Misuse r now m (.setKey id k) (.outOfBounds k.offset k.length k.bytes.length)
  | badLabel {id l : Int} {t : Text} (inside : 0 ≤ id ∧ id ≤ r.monitor.maxId)
      (stored : r.monitor.metadata.get 4 (512 * id.toNat + 128) m = .ok l)
      (bad : l < 0 ∨ 380 < l) :
      Misuse r now m (.appendLabel id t) (.labelLengthOutOfRange (512 * id.toNat) l)
  | full {k : Command} {q : Request} (request : k.deed = .allocate q)
      (exhausted : r.available now m = .ok 0) : Misuse r now m k (.registryFull r.monitor.maxId)

theorem setKey_of_inside (hinside : 0 ≤ id ∧ id ≤ r.monitor.maxId) (k : Source) : r.setKey id k =
    if Record.keyLength < k.length then refuse (.keyTooLong k.length Record.keyLength)
    else r.monitor.metadata.copyBytes (Record.offset id + Record.keyOffset) k.bytes k.offset
      k.length := by
  rw [setKey, Monitor.validate_of_inside hinside]
  rfl

theorem appendLabel_of_inside (hinside : 0 ≤ id ∧ id ≤ r.monitor.maxId) (t : Text) :
    r.appendLabel id t = r.addLabel (Record.offset id) t := by
  rw [appendLabel, Monitor.validate_of_inside hinside]
  rfl

theorem free_of_reclaim (hreclaim : r.reclaim now id m = ⟨[], .error e⟩) :
    r.free now id m = ⟨r, [], .error e⟩ := by simp only [free, hreclaim]

section Spans

variable (h : r.monitor.Spans n)
include h

theorem free_of_idle {x : Int} (hstate : r.monitor.state id m = .ok x)
    (hidle : x ≠ Record.allocated) (now : Int) :
    r.free now id m = ⟨r, [], .error (.counterNotAllocated id)⟩ := by
  rw [← h.state_eq] at hstate
  obtain ⟨hid, rfl⟩ := (Monitor.state_eq_ok_iff h.paired).1 hstate
  have hreclaim := reclaim_of_idle (r := r.cut n) h.paired hid hidle now
  rw [reclaim_cut h] at hreclaim
  exact free_of_reclaim hreclaim

theorem setKey_of_short {k : Source} (hinside : 0 ≤ id ∧ id ≤ r.monitor.maxId)
    (hfits : k.length ≤ 112) (hshort : k.bytes.length < k.offset + k.length) (m : Memory) :
    r.setKey id k m = ⟨[], .error (.outOfBounds k.offset k.length k.bytes.length)⟩ := by
  have hend := (h.hasId_iff.2 hinside).record_le h.paired
  rw [setKey_of_inside hinside]
  refine (congrFun (if_neg (Nat.not_lt.2 hfits)) m).trans ?_
  exact View.copyBytes_refused_source
    (Record.field_le (by simp only [Record.keyOffset]; omega) hend) hshort m

theorem appendLabel_of_bad {l : Int} (hinside : 0 ≤ id ∧ id ≤ r.monitor.maxId)
    (hstored : r.monitor.metadata.get 4 (512 * id.toNat + 128) m = .ok l)
    (hbad : l < 0 ∨ 380 < l) (t : Text) :
    r.appendLabel id t m = ⟨[], .error (.labelLengthOutOfRange (512 * id.toNat) l)⟩ := by
  have hplace := record_place (r := r.cut n) h.paired (h.hasId_iff.2 hinside)
  rw [appendLabel_of_inside hinside, hplace, addLabel]
  exact (ofQuery_bind_ok _ hstored).trans (congrFun (if_pos hbad) m)

theorem setLabel_atomic_of_spans (id : Int) (t : Text) : (r.setLabel id t).Atomic := by
  rw [← setLabel_cut h]
  exact setLabel_atomic h.paired id t

theorem appendLabel_atomic_of_spans (id : Int) (t : Text) : (r.appendLabel id t).Atomic := by
  rw [← appendLabel_cut h]
  exact appendLabel_atomic h.paired id t

theorem free_of_error (he : (r.free now id m).result = .error e) :
    r.free now id m = ⟨r, [], .error e⟩ := by
  have hreclaim : (r.reclaim now id m).result = .error e := by
    unfold free at he
    dsimp only at he
    split at he
    · cases he
    · next hresult =>
      cases he
      exact hresult
  have hatomic := reclaim_atomic (r := r.cut n) h.paired now id
  rw [reclaim_cut h] at hatomic
  exact free_of_reclaim (congrArg₂ Plan.mk (hatomic m e hreclaim) hreclaim)

variable (hb : (r.cut n).Bounded)
include hb

theorem undone_of_error (htake : (r.takeId now m).result = .ok (r', id))
    (he : (r.allocate now q m).result = .error e) :
    r.Undone now q m id e (r.allocate now q m).registry ((r.allocate now q m).memory m) := by
  have htakeCut := takeId_cut h hb.hasId now m
  obtain ⟨m₁, hwith⟩ := withdraws_cut_of_error h hb htake he
  have hp := h.paired
  have hid : (r.cut n).monitor.HasId id := hwith.taken.hasId hb.hasId
  have hfault : (r'.publish (Record.offset id) q (m.storeAll (r.takeId now m).writes)).result =
      .error e := by
    have hfilled := hwith.fault
    rwa [hwith.memory, htakeCut, publish_cut] at hfilled
  have hmon : (r'.cut n).monitor = (r.cut n).monitor := hwith.taken.monitor_eq
  have horigin := publish_fails (hmon ▸ hp) (hmon ▸ hid) q _ _ hwith.fault
  rw [hmon] at horigin
  -- what an allocation may write to depends on the id that it takes
  have hcover := allocate_cover hp hb.hasId now q m 0
  rw [allocate_cut h hb.hasId, reach, htakeCut, htake] at hcover
  have hkey := Monitor.key_eq hp hid ((r.allocate now q m).memory m)
  have hstate := Monitor.state_eq hp hid ((r.allocate now q m).memory m)
  refine ⟨⟨r', htake, hfault, ?_⟩, horigin, fun region i hrecord hslot => ?_, ?_, ?_⟩
  · simp only [allocate, htake, hfault]
  · refine hcover.byte_eq (fun v hv => ?_) m
    rcases List.mem_cons.1 hv with rfl | hv
    · exact hrecord
    · rw [List.mem_singleton.1 hv]
      exact hslot
  · rw [← h.key_eq, hkey]
    exact congrArg Except.ok hwith.released.key
  · rw [← h.state_eq, hstate]
    exact congrArg Except.ok hwith.released.state

theorem allocate_of_error (he : (r.allocate now q m).result = .error e) :
    r.allocate now q m = ⟨r, [], .error e⟩ ∨ ∃ id,
      r.Undone now q m id e (r.allocate now q m).registry ((r.allocate now q m).memory m) := by
  cases htake : (r.takeId now m).result with
  | ok p => exact .inr ⟨p.2, undone_of_error h hb htake he⟩
  | error e' =>
    refine .inl ?_
    by_cases hspare : (r.cut n).spare now m = 0
    · have hfull := allocate_of_no_spare h hb hspare q
      rw [hfull] at he
      cases he
      exact hfull
    · -- an id would have been taken
      obtain ⟨_, _, _, hrun, -⟩ := takeId_of_spare h.paired hb (Nat.pos_of_ne_zero hspare)
      have hresult := (Prod.mk.inj hrun).2
      rw [takeId_cut h hb.hasId, htake] at hresult
      cases hresult

theorem hasSlot_of_allocate (hok : (r.allocate now q m).result = .ok id) :
    r.monitor.HasSlot id := by
  have hok' : ((r.cut n).allocate now q m).result = .ok id := by
    rw [allocate_cut h hb.hasId]
    exact hok
  obtain ⟨_, _, htaken, -⟩ := allocate_eq_ok h.paired hb.hasId hok'
  have hslot : Slot.offset id + 128 ≤ n := (htaken.hasId hb.hasId).hasSlot h.paired
  exact Nat.le_trans hslot h.span_le

end Spans

end Registry

def Step.Traceless (x : Step) (r : Registry) : Prop :=
  x.writes = [] ∧ x.session.registry = some r

namespace Session

open Telemetry.Action Registry

variable {s : Session} {r : Registry} {m : Memory} {now wallTime : Int} {x : Handle} {e : Fault}
  {n : Nat}

/-- What becomes of a call that ends with a fault. Either it left no trace; or its writes and its
fault are those of the script that was to write a key; or it was an allocation that took an id and
was undone. -/
inductive Refused (s : Session) (r : Registry) (wallTime : Int) (m : Memory) (c : Call)
    (e : Fault) : Prop
  | traceless (trace : (s.step wallTime m c).Traceless r)
  | script (id : Int) (k : Script) (window : View) (call : c = .command (.writeKey id k))
      (key : r.monitor.keyView id = .ok window) (own : (k.run window m).result = .error e)
      (writes : (s.step wallTime m c).writes = (k.run window m).writes)
      (registry : (s.step wallTime m c).session.registry = some r)
  | undone (q : Request) (id : Int) (after : Registry) (deed : s.deed c = .allocate q)
      (registry : (s.step wallTime m c).session.registry = some after)
      (undone : r.Undone (s.clock.read wallTime) q m id e after
        (m.storeAll (s.step wallTime m c).writes))

theorem traceless_act {α : Type} {y : Action α} {f : α → Reply} (hr : s.registry = some r)
    (hy : y.Atomic) (he : (s.act (do return f (← y)) m).reply = .error e) :
    (s.act (do return f (← y)) m).Traceless r :=
  ⟨(hy.bind fun _ => faults_pure _) m e he, hr⟩

theorem act_refused {y : Action Unit} (hy : y m = ⟨[], .error e⟩) :
    s.act (done y) m = ⟨s, [], .error e, none⟩ := by
  have hdone := bind_refused (fun _ => pure Reply.unit) hy
  exact congrArg (fun p : Plan Reply => (⟨s, p.writes, p.result, none⟩ : Step)) hdone

theorem manager_eq_ok {r' : Registry} (h : x.manager (some r) = .ok r') : r' = r := by
  unfold Handle.manager at h
  split at h
  · next heq =>
    cases heq
    split at h
    · exact (Except.ok.inj h).symm
    · cases h
  · cases h

theorem refused_of_writeKey (hr : s.registry = some r) {id : Int} {k : Script}
    (he : (s.step wallTime m (.command (.writeKey id k))).reply = .error e) :
    s.Refused r wallTime m (.command (.writeKey id k)) e := by
  have hstep : s.step wallTime m (.command (.writeKey id k)) =
      s.act (done (r.writeKey id k)) m := by
    rw [step, hr]
    rfl
  cases hkey : r.monitor.keyView id with
  | error e' =>
    have hatomic : (r.writeKey id k).Atomic := by
      rw [writeKey, hkey]
      exact fun _ _ _ => rfl
    rw [hstep] at he
    have hnone : (s.act (done (r.writeKey id k)) m).Traceless r := traceless_act hr hatomic he
    rw [← hstep] at hnone
    exact .traceless hnone
  | ok window =>
    have hplan : s.step wallTime m (.command (.writeKey id k)) = ⟨s, (k.run window m).writes,
        (k.run window m).result.map fun _ => .unit, none⟩ := by
      rw [hstep, writeKey, hkey]
      have hmap := Action.map_plan (k.run window) (fun _ => Reply.unit) m
      exact congrArg (fun p : Plan Reply => (⟨s, p.writes, p.result, none⟩ : Step)) hmap
    rw [hplan] at he
    exact .script id k window rfl hkey (map_eq_error he) (by rw [hplan]) (by rw [hplan]; exact hr)

section Spans

variable (h : r.monitor.Spans n)
include h

theorem traceless_giveBack (hr : s.registry = some r)
    (he : (s.giveBack now x m).reply = .error e) : (s.giveBack now x m).Traceless r := by
  unfold giveBack at he ⊢
  rw [hr] at he ⊢
  by_cases howns : x.owns
  · simp only [if_pos howns] at he ⊢
    have hfree := free_of_error h (map_eq_error he)
    rw [hfree]
    exact ⟨rfl, rfl⟩
  · simp only [if_neg howns] at he
    cases he

theorem traceless_use (hr : s.registry = some r) {k : Nat} (u : HandleUse)
    (he : (s.use now k x m u).reply = .error e) : (s.use now k x m u).Traceless r := by
  have hmanager {f : Registry → Action Unit} (hf : (f r).Atomic) :
      (liftM (x.manager s.registry) >>= f : Action Unit).Atomic := by
    rw [hr]
    exact atomic_ofExcept_bind fun r' hr' => manager_eq_ok hr' ▸ hf
  cases u with
  | set v => exact ⟨Access.run_atomic x.values (.put 8 x.offset v) m e he, hr⟩
  | getAndAdd v => exact ⟨Access.run_atomic x.values (.getAndAdd 8 x.offset v) m e he, hr⟩
  | getAndSet v => exact ⟨Access.run_atomic x.values (.getAndSet 8 x.offset v) m e he, hr⟩
  | compareAndSet o v =>
    exact ⟨Access.run_atomic x.values (.compareAndSet 8 x.offset o v) m e he, hr⟩
  | raiseTo v =>
    have hraise : (x.raiseTo v).Atomic := by
      refine atomic_ofQuery_bind fun old => ?_
      split
      · exact (View.put_atomic _ _ _ v).bind fun _ => faults_pure _
      · exact atomic_pure _
    exact traceless_act hr hraise he
  | setLabel t => exact traceless_act hr (hmanager (setLabel_atomic_of_spans h x.id t)) he
  | appendLabel t => exact traceless_act hr (hmanager (appendLabel_atomic_of_spans h x.id t)) he
  | close => exact traceless_giveBack h hr he
  | disconnect => cases he
  | get | label | id | isClosed => exact ⟨rfl, hr⟩

theorem traceless_handle (hr : s.registry = some r) (k : HandleCommand)
    (he : (s.handle now m k).reply = .error e) : (s.handle now m k).Traceless r := by
  have hhandled := s.handled now m k
  generalize s.deed (.handle k) = d, s.handle now m k = y at hhandled he ⊢
  cases hhandled with
  | raw | missing => exact ⟨rfl, hr⟩
  | moved | same | assigned | destroyed => cases he
  | used j x there u => exact traceless_use h hr u he

variable (hb : (r.cut n).Bounded)
include hb

theorem command_refused (hr : s.registry = some r) (k : Command)
    (he : (s.step wallTime m (.command k)).reply = .error e) :
    s.Refused r wallTime m (.command k) e := by
  have hstep : s.step wallTime m (.command k) =
      s.command r (s.clock.read wallTime) m k := by rw [step, hr]
  -- an allocation is undone, or had no id to take
  have hallocate {q : Request} (hdeed : k.deed = .allocate q)
      (hwrites : (s.step wallTime m (.command k)).writes =
        (r.allocate (s.clock.read wallTime) q m).writes)
      (hregistry : (s.step wallTime m (.command k)).session.registry =
        some (r.allocate (s.clock.read wallTime) q m).registry)
      (hfault : (r.allocate (s.clock.read wallTime) q m).result = .error e) :
      s.Refused r wallTime m (.command k) e := by
    rcases allocate_of_error h hb hfault with hnone | ⟨id, hundone⟩
    · rw [hnone] at hwrites hregistry
      exact .traceless ⟨hwrites, hregistry⟩
    · refine .undone q id _ hdeed hregistry ?_
      rw [hwrites]
      exact hundone
  have hact {y : Action Unit} (hy : y.Atomic)
      (hk : s.command r (s.clock.read wallTime) m k = s.act (done y) m) :
      s.Refused r wallTime m (.command k) e := by
    rw [hstep, hk] at he
    have hnone : (s.act (done y) m).Traceless r := traceless_act hr hy he
    rw [← hk, ← hstep] at hnone
    exact .traceless hnone
  cases k with
  | allocate q =>
    rw [hstep] at he
    exact hallocate rfl (by rw [hstep]; rfl) (by rw [hstep]; rfl) (map_eq_error he)
  | openHandle q =>
    rw [hstep] at he
    have hopened := map_eq_error (show Except.map _ _ = _ from he)
    cases hresult : (r.allocate (s.clock.read wallTime) q m).result with
    | error e' =>
      rw [hresult] at hopened
      cases hopened
      exact hallocate rfl (by rw [hstep]; rfl) (by rw [hstep]; rfl) hresult
    | ok id =>
      -- a handle can be opened on the slot of every id that is answered
      rw [hresult] at hopened
      change Handle.create r.monitor.values id true = _ at hopened
      rw [create_of_hasSlot (hasSlot_of_allocate h hb hresult)] at hopened
      cases hopened
  | free id =>
    rw [hstep] at he
    have hfree := free_of_error h (map_eq_error he)
    refine .traceless ?_
    rw [hstep, Session.command, hfree]
    exact ⟨rfl, rfl⟩
  | setValue id x => exact hact (r.putSlotWord_atomic _ id x) rfl
  | setRegistration id x => exact hact (r.putSlotWord_atomic _ id x) rfl
  | setOwner id x => exact hact (r.putSlotWord_atomic _ id x) rfl
  | setLabel id t => exact hact (setLabel_atomic_of_spans h id t) rfl
  | appendLabel id t => exact hact (appendLabel_atomic_of_spans h id t) rfl
  | setKey id k => exact hact (r.setKey_atomic id k) rfl
  | writeKey id k => exact refused_of_writeKey hr he
  | capacity | available | timeout | time =>
    refine .traceless ?_
    rw [hstep]
    exact ⟨rfl, hr⟩

/-- Every call that ends with a fault was without effect, apart from a script's own writes and an
allocation that was undone. -/
theorem step_refused (hr : s.registry = some r) (c : Call)
    (he : (s.step wallTime m c).reply = .error e) : s.Refused r wallTime m c e := by
  cases c with
  | look q => exact .traceless (by cases q <;> exact ⟨rfl, hr⟩)
  | metadata a => exact .traceless ⟨a.run_atomic _ m e he, hr⟩
  | values a => exact .traceless ⟨a.run_atomic _ m e he, hr⟩
  | setClock t => cases he
  | advanceClock d => cases he
  | command k => exact command_refused h hb hr k he
  | handle k => exact .traceless (traceless_handle h hr k he)

theorem step_misuse (hr : s.registry = some r) {k : Command}
    (hmisuse : r.Misuse (s.clock.read wallTime) m k e) :
    s.step wallTime m (.command k) = ⟨s, [], .error e, none⟩ := by
  have hsame : ({ s with registry := some r } : Session) = s := by rw [← hr]
  have hstep : s.step wallTime m (.command k) =
      s.command r (s.clock.read wallTime) m k := by rw [step, hr]
  rw [hstep]
  cases hmisuse with
  | @noId _ id named outside =>
    have hrefused {f : Unit → Action Unit} : (liftM (r.monitor.validate id) >>= f : Action Unit) m =
        ⟨[], .error (.counterIdOutOfRange id r.monitor.maxId)⟩ := by
      rw [Monitor.validate_of_outside outside]
      rfl
    cases k with
    | free _ =>
      cases named
      rw [Session.command, free_of_reclaim hrefused, settle, hsame]
      rfl
    | writeKey _ k =>
      cases named
      refine act_refused ?_
      rw [writeKey, Monitor.keyView, Monitor.validate_of_outside outside]
      rfl
    | setValue | setRegistration | setOwner | setLabel | appendLabel | setKey =>
      cases named
      exact act_refused hrefused
    | _ => cases named
  | notInUse state idle =>
    rw [Session.command, free_of_idle h state idle, settle, hsame]
    rfl
  | longKey inside long =>
    refine act_refused ?_
    rw [setKey_of_inside inside]
    exact congrFun (if_pos long) m
  | shortSource inside fits short => exact act_refused (setKey_of_short h inside fits short m)
  | badLabel inside stored bad => exact act_refused (appendLabel_of_bad h inside stored bad _)
  | @full _ q request exhausted =>
    have hfull := allocate_of_none_available h hb exhausted q
    cases k with
    | allocate q' =>
      cases request
      rw [Session.command, hfull, settle, hsame]
      rfl
    | openHandle q' =>
      cases request
      rw [Session.command, hfull]
      change (⟨{ s with registry := some r, handles := s.handles ++ [] }, [], _, none⟩ : Step) = _
      rw [List.append_nil, hsame]
      rfl
    | _ => cases request

end Spans

/-- After every run, whatever the memory holds and whoever wrote to it: a call that ends with a
fault leaves no trace but for a script's own writes and an allocation that took an id, and what
cannot be asked is refused as such. -/
theorem run_harmless {r₀ : Registry} (made : r₀.Made) (clock : Clock) (wallTime : Int)
    (m₀ : Memory) (calls : List Call) :
    ∃ s r m, (create r₀.monitor (some r₀) clock).run wallTime m₀ calls = (s, m) ∧
      s.registry = some r ∧
        (∀ c e, (s.step wallTime m c).reply = .error e → s.Refused r wallTime m c e) ∧
          ∀ k e, r.Misuse (s.clock.read wallTime) m k e →
            s.step wallTime m (.command k) = ⟨s, [], .error e, none⟩ := by
  obtain ⟨n, h⟩ := made.spans
  obtain ⟨r, hon, hmon, hb⟩ :=
    run_bounded h (on_create r₀ clock) (made.bounded n) wallTime m₀ calls
  have hspans : r.monitor.Spans n := hmon ▸ h
  exact ⟨_, r, _, rfl, hon.registry, fun c _ he => step_refused hspans hb hon.registry c he,
    fun _ _ hmisuse => step_misuse hspans hb hon.registry hmisuse⟩

theorem run_harmless_uneven : Registry.uneven.Made ∧
    ∃ s r m, (create Registry.uneven.monitor (some Registry.uneven) .wall).run 7 ⟨fun _ _ => 255⟩
      mixed = (s, m) ∧ s.registry = some r ∧
        (∀ c e, (s.step 7 m c).reply = .error e → s.Refused r 7 m c e) ∧
          ∀ k e, r.Misuse (s.clock.read 7) m k e →
            s.step 7 m (.command k) = ⟨s, [], .error e, none⟩ :=
  ⟨⟨Registry.uneven_built.created, Registry.uneven_built.apart⟩,
    run_harmless ⟨Registry.uneven_built.created, Registry.uneven_built.apart⟩ .wall 7
      ⟨fun _ _ => 255⟩ mixed⟩

end Session

end Telemetry.Counters
