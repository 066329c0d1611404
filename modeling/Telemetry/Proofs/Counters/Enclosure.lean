import Telemetry.Proofs.Counters.Handles

namespace Telemetry

theorem View.copyBytes_within_self (v : View) (i : Nat) (source : List Byte) (j n : Nat) :
    (v.copyBytes i source j n).Within v := by
  refine Action.within_check_bind fun _ => ?_
  split
  · exact store_within_self v i _
  · exact Action.within_refuse _

theorem Action.within_sub_bind {α : Type} {v u : View} {i n : Nat} {f : View → Action α}
    (hf : ∀ t : View, t.Inside v → (f t).Within u) :
    (liftM (v.sub i n) >>= f : Action α).Within u := by
  by_cases h : i + n ≤ v.capacity
  · rw [View.sub_of_le h]
    exact hf _ (View.slice_inside h)
  · rw [View.sub_of_lt (Nat.lt_of_not_le h)]
    exact within_error_bind _ _

namespace Counters

/-- A window that holds both views of a monitor. -/
structure Monitor.Enclosed (w : Monitor) (u : View) : Prop where
  metadata : w.metadata.Inside u
  values : w.values.Inside u

namespace Registry

open Telemetry.Action

variable {r r' : Registry} {u : View} {now id : Int} {m : Memory}

section Enclosed

variable (h : r.monitor.Enclosed u)
include h

theorem putRecord_enclosed (n i : Nat) (x : Int) : (r.monitor.metadata.put n i x).Within u :=
  (View.put_within_self _ n i x).mono h.metadata

theorem putSlot_enclosed (n i : Nat) (x : Int) : (r.monitor.values.put n i x).Within u :=
  (View.put_within_self _ n i x).mono h.values

theorem storeRecord_enclosed (i : Nat) (bs : List Byte) :
    (r.monitor.metadata.store i bs).Within u :=
  (View.store_within_self _ i bs).mono h.metadata

theorem copySource_enclosed (index limit : Nat) (k : Source) :
    (r.copySource index limit k).Within u :=
  (View.copyBytes_within_self _ index k.bytes k.offset _).mono h.metadata

theorem runScript_enclosed (i n : Nat) (k : Script) :
    (liftM (r.monitor.metadata.sub i n) >>= fun v => k.run v : Action Unit).Within u :=
  within_sub_bind fun v hv => (k.run_within v).mono (hv.trans h.metadata)

theorem resetSlot_enclosed (id : Int) : (r.resetSlot id).Within u :=
  (putSlot_enclosed h _ _ _).bind fun _ => (putSlot_enclosed h _ _ _).bind fun _ =>
    putSlot_enclosed h _ _ _

theorem takeId_enclosed (now : Int) : (r.takeId now).Within u := by
  refine (within_ofQuery _).bind fun found => ?_
  cases found with
  | none =>
    dsimp only
    split
    · exact within_refuse _
    · exact within_pure _
  | some p => exact (resetSlot_enclosed h p.1).bind fun _ => within_pure _

theorem putLabel_enclosed (offset : Nat) (t : Text) : (r.putLabel offset t).Within u :=
  (storeRecord_enclosed h _ _).bind fun _ => putRecord_enclosed h _ _ _

theorem addLabel_enclosed (offset : Nat) (t : Text) : (r.addLabel offset t).Within u := by
  refine (within_ofQuery _).bind fun n => ?_
  split
  · exact within_refuse _
  · exact (storeRecord_enclosed h _ _).bind fun _ => putRecord_enclosed h _ _ _

theorem clearKey_enclosed (offset : Nat) : (r.clearKey offset).Within u :=
  (View.fill_within_self _ _ _ _).mono h.metadata

theorem publish_enclosed (offset : Nat) (q : Request) : (r.publish offset q).Within u := by
  have hput (n i : Nat) (x : Int) := putRecord_enclosed h n i x
  cases q with
  | labelled type label =>
    exact (hput _ _ _).bind fun _ => (hput _ _ _).bind fun _ =>
      (putLabel_enclosed h _ _).bind fun _ => hput _ _ _
  | keyed type label key =>
    -- a key may be of any shape, since it is put into the key's own part of the record
    refine (hput _ _ _).bind fun _ => ?_
    refine within_sub_bind fun v hv => ?_
    exact ((key.run_within v).mono (hv.trans h.metadata)).bind fun _ => (hput _ _ _).bind fun _ =>
      (putLabel_enclosed h _ _).bind fun _ => hput _ _ _
  | copied type key label =>
    have hrest : (do
        r.monitor.metadata.put 4 (offset + Record.labelOffset)
          (min label.length Record.maxLabelLength)
        r.copySource (offset + Record.labelTextOffset) Record.maxLabelLength label
        r.putState offset Record.allocated : Action Unit).Within u :=
      (hput _ _ _).bind fun _ => (copySource_enclosed h _ _ _).bind fun _ => hput _ _ _
    refine (hput _ _ _).bind fun _ => (hput _ _ _).bind fun _ => ?_
    cases key with
    | none => exact hrest
    | some k => exact (copySource_enclosed h _ _ k).bind fun _ => hrest

theorem withdraw_enclosed (offset : Nat) : (r.withdraw offset).Within u :=
  (clearKey_enclosed h offset).bind fun _ => (putRecord_enclosed h _ _ _).bind fun _ =>
    putRecord_enclosed h _ _ _

theorem allocate_enclosed (now : Int) (q : Request) (m : Memory) :
    ∀ w ∈ (r.allocate now q m).writes, u.Covers w := by
  have htake := takeId_enclosed h now m
  unfold allocate
  cases hresult : (r.takeId now m).result with
  | error e =>
    simp only [hresult]
    exact htake
  | ok p =>
    obtain ⟨r', id⟩ := p
    -- the registry that goes on has another list of freed ids, but the same views
    have h' : r'.monitor.Enclosed u := takeId_monitor_eq hresult ▸ h
    simp only [hresult]
    have hfilled := publish_enclosed h' (Record.offset id) q
      (m.storeAll (r.takeId now m).writes)
    split
    · exact fun w hw => (List.mem_append.1 hw).elim (htake w) (hfilled w)
    · have hundone := withdraw_enclosed h' (Record.offset id)
      intro w hw
      rcases List.mem_append.1 hw with hw | hw
      · exact (List.mem_append.1 hw).elim (htake w) (hfilled w)
      · exact hundone _ w hw

theorem reclaim_enclosed (now id : Int) : (r.reclaim now id).Within u := by
  refine (within_ofExcept _).bind fun _ => (within_ofQuery _).bind fun state => ?_
  split
  · exact (putRecord_enclosed h _ _ _).bind fun _ => (clearKey_enclosed h _).bind fun _ =>
      putRecord_enclosed h _ _ _
  · exact within_refuse _

theorem free_enclosed (now id : Int) (m : Memory) :
    ∀ w ∈ (r.free now id m).writes, u.Covers w := by
  have hreclaim := reclaim_enclosed h now id m
  unfold free
  dsimp only
  split <;> exact hreclaim

theorem putSlotWord_enclosed (field : Nat) (id x : Int) : (r.putSlotWord field id x).Within u :=
  (within_ofExcept _).bind fun _ => putSlot_enclosed h _ _ _

theorem setLabel_enclosed (id : Int) (t : Text) : (r.setLabel id t).Within u :=
  (within_ofExcept _).bind fun _ => putLabel_enclosed h _ _

theorem appendLabel_enclosed (id : Int) (t : Text) : (r.appendLabel id t).Within u :=
  (within_ofExcept _).bind fun _ => addLabel_enclosed h _ _

theorem setKey_enclosed (id : Int) (k : Source) : (r.setKey id k).Within u := by
  refine (within_ofExcept _).bind fun _ => ?_
  split
  · exact within_refuse _
  · exact (View.copyBytes_within_self _ _ _ _ _).mono h.metadata

theorem writeKey_enclosed (id : Int) (k : Script) : (r.writeKey id k).Within u := by
  unfold writeKey Monitor.keyView
  cases r.monitor.validate id with
  | error e => exact within_error_bind _ _
  | ok _ => exact runScript_enclosed h _ _ k

end Enclosed

end Registry

namespace Session

open Telemetry.Action Registry

variable {s : Session} {r : Registry} {u : View} {m : Memory} {now : Int} {x : Handle}

section Enclosed

variable (hs : s.On r) (h : r.monitor.Enclosed u)
include hs h

theorem giveBack_enclosed (now : Int) (x : Handle) (m : Memory) :
    ∀ w ∈ (s.giveBack now x m).writes, u.Covers w := by
  unfold giveBack
  rw [hs.registry]
  by_cases howns : x.owns
  · simp only [if_pos howns]
    exact free_enclosed h now x.id m
  · simp only [if_neg howns]
    exact List.forall_mem_nil _

theorem use_enclosed {k : Nat} (hx : x.LiesIn s.monitor) (a : HandleUse) :
    ∀ w ∈ (s.use now k x m a).writes, u.Covers w := by
  have hvalues : x.values.Inside u := by
    rw [hx.values, ← hs.monitor]
    exact h.values
  have hput (v : Int) : (x.values.put 8 x.offset v).Within u :=
    (View.put_within_self _ _ _ v).mono hvalues
  have hlabel {f : Registry → Action Unit} (hf : (f r).Within u) :
      (liftM (x.manager s.registry) >>= f : Action Unit).Within u := by
    rw [hs.registry, Handle.manager]
    split
    · exact hf
    · exact within_error_bind _ _
  cases a with
  | set v => exact ((hput v).bind fun _ => within_pure _) m
  | getAndAdd v => exact ((View.getAndAdd_within hput v).bind fun _ => within_pure _) m
  | getAndSet v => exact ((View.getAndSet_within hput v).bind fun _ => within_pure _) m
  | compareAndSet e v => exact ((View.compareAndSet_within hput e v).bind fun _ => within_pure _) m
  | raiseTo v =>
    have hraise : (x.raiseTo v).Within u := by
      refine (within_ofQuery _).bind fun old => ?_
      split
      · exact (hput v).bind fun _ => within_pure _
      · exact within_pure _
    exact (hraise.bind fun _ => within_pure _) m
  | setLabel t => exact ((hlabel (setLabel_enclosed h x.id t)).bind fun _ => within_pure _) m
  | appendLabel t => exact ((hlabel (appendLabel_enclosed h x.id t)).bind fun _ => within_pure _) m
  | close => exact giveBack_enclosed hs h now x m
  | _ => exact List.forall_mem_nil _

theorem handle_enclosed (k : HandleCommand) : ∀ w ∈ (s.handle now m k).writes, u.Covers w := by
  have hhandled := s.handled now m k
  generalize s.deed (.handle k) = d, s.handle now m k = y at hhandled ⊢
  cases hhandled with
  | raw | missing | moved | same => exact List.forall_mem_nil _
  | assigned j source x y there giver other => exact giveBack_enclosed hs h now x m
  | destroyed j x there => exact giveBack_enclosed hs h now x m
  | used j x there a => exact use_enclosed hs h (hs.handles x (mem_of_handle? there)) a

omit hs in
theorem command_enclosed (k : Command) : ∀ w ∈ (s.command r now m k).writes, u.Covers w := by
  cases k with
  | allocate q => exact allocate_enclosed h now q m
  | free id => exact free_enclosed h now id m
  | setValue id v => exact ((putSlotWord_enclosed h 0 id v).bind fun _ => within_pure _) m
  | setRegistration id v => exact ((putSlotWord_enclosed h _ id v).bind fun _ => within_pure _) m
  | setOwner id v => exact ((putSlotWord_enclosed h _ id v).bind fun _ => within_pure _) m
  | setLabel id t => exact ((setLabel_enclosed h id t).bind fun _ => within_pure _) m
  | appendLabel id t => exact ((appendLabel_enclosed h id t).bind fun _ => within_pure _) m
  | setKey id k => exact ((setKey_enclosed h id k).bind fun _ => within_pure _) m
  | writeKey id k => exact ((writeKey_enclosed h id k).bind fun _ => within_pure _) m
  | openHandle q => exact allocate_enclosed h now q m
  | _ => exact List.forall_mem_nil _

theorem step_enclosed (wallTime : Int) (m : Memory) (c : Call) :
    ∀ w ∈ (s.step wallTime m c).writes, u.Covers w := by
  cases c with
  | look q => cases q <;> exact List.forall_mem_nil _
  | metadata a =>
    rw [hs.monitor] at h
    exact (a.run_within s.monitor.metadata).mono h.metadata m
  | values a =>
    rw [hs.monitor] at h
    exact (a.run_within s.monitor.values).mono h.values m
  | command k =>
    simp only [step, hs.registry]
    exact command_enclosed h k
  | handle k => exact handle_enclosed hs h k
  | _ => exact List.forall_mem_nil _

end Enclosed

/-- What a session and its memory can become by calls, each made at a time of its own. -/
inductive Reaches (s : Session) (m : Memory) : Session → Memory → Prop
  | start : Reaches s m s m
  | step {t : Session} {m' : Memory} (wallTime : Int) (c : Call) (before : Reaches s m t m') :
    Reaches s m (t.step wallTime m' c).session (m'.storeAll (t.step wallTime m' c).writes)

namespace Reaches

variable {t t' : Session} {m m' m₁ : Memory}

theorem trans (h : s.Reaches m t m₁) (h' : t.Reaches m₁ t' m') : s.Reaches m t' m' := by
  induction h' with
  | start => exact h
  | step wallTime c _ ih => exact .step wallTime c ih

theorem run (s : Session) (wallTime : Int) (m : Memory) (calls : List Call) :
    s.Reaches m (s.run wallTime m calls).1 (s.run wallTime m calls).2 := by
  induction calls generalizing s m with
  | nil => exact .start
  | cons c rest ih => exact (Reaches.step wallTime c .start).trans (ih _ _)

theorem on (h : s.Reaches m t m') (hs : s.On r) : ∃ r', t.On r' ∧ r'.monitor = r.monitor := by
  induction h with
  | start => exact ⟨r, hs, rfl⟩
  | step wallTime c _ ih =>
    obtain ⟨r₁, hon, hmon⟩ := ih
    obtain ⟨r', hon', hmon'⟩ := step_on hon wallTime _ c
    exact ⟨r', hon', hmon'.trans hmon⟩

/-- Whatever is called, memory changes inside of a window around the two views only. -/
theorem confines (h : s.Reaches m t m') (hs : s.On r) (hu : r.monitor.Enclosed u) :
    u.Confines m m' := by
  induction h with
  | start => exact View.Confines.refl u m
  | @step t m' wallTime c before ih =>
    obtain ⟨r₁, hon, hmon⟩ := before.on hs
    have hwrites := step_enclosed hon (hmon ▸ hu) wallTime m' c
    exact ih.trans fun v hv => View.bytes_storeAll hwrites hv m'

end Reaches

end Session

end Counters

end Telemetry
