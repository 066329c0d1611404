import Telemetry.Proofs.Counters.Refusal

namespace Telemetry

def View.Has (v : View) (region i : Nat) : Prop :=
  region = v.region ∧ v.base ≤ i ∧ i < v.base + v.capacity

def View.Cover (vs : List View) (ws : List Write) : Prop := ∀ w ∈ ws, ∃ v ∈ vs, v.Covers w

namespace View.Cover

variable {vs : List View} {ws us : List Write}

theorem nil (vs : List View) : Cover vs [] := List.forall_mem_nil _

theorem append (h : Cover vs ws) (h' : Cover vs us) : Cover vs (ws ++ us) := by
  intro w hw
  rcases List.mem_append.1 hw with hw | hw
  · exact h w hw
  · exact h' w hw

theorem of_mem {v : View} (hv : v ∈ vs) (h : ∀ w ∈ ws, v.Covers w) : Cover vs ws :=
  fun w hw => ⟨v, hv, h w hw⟩

theorem byte_eq (h : Cover vs ws) {region i : Nat} (hout : ∀ v ∈ vs, ¬ v.Has region i)
    (m : Memory) : (m.storeAll ws).byte region i = m.byte region i := by
  induction ws generalizing m with
  | nil => rfl
  | cons w rest ih =>
    obtain ⟨v, hv, hregion, hbase, hend⟩ := h w List.mem_cons_self
    have hrest := ih (fun u hu => h u (List.mem_cons_of_mem _ hu)) (m.store w)
    refine hrest.trans ?_
    rw [Memory.byte_store]
    split
    · next hin =>
      -- a write that starts before the byte ends before it, as its window does
      have hbehind : w.bytes.length ≤ i - w.offset := by
        have hno := hout v hv
        unfold Has at hno
        omega
      rw [List.getElem?_eq_none hbehind, Option.getD_none]
    · rfl

theorem bytes_eq (h : Cover vs ws) {u : View} (hu : ∀ v ∈ vs, v.Apart u) (m : Memory) :
    u.bytes (m.storeAll ws) = u.bytes m := by
  induction ws generalizing m with
  | nil => rfl
  | cons w rest ih =>
    obtain ⟨v, hv, hw⟩ := h w List.mem_cons_self
    have hrest : Cover vs rest := fun u hu => h u (List.mem_cons_of_mem _ hu)
    calc u.bytes (m.storeAll (w :: rest)) = u.bytes (m.store w) := ih hrest (m.store w)
      _ = u.bytes m := bytes_store hw (hu v hv)

end View.Cover

theorem Action.writes_map {α β : Type} (x : Action α) (f : α → β) (m : Memory) :
    ((x >>= fun a => pure (f a)) m).writes = (x m).writes := by
  change (Action.bind x (fun a => Action.pure (f a)) m).writes = _
  rcases h : x m with ⟨ws, e | a⟩ <;> simp [Action.bind, Action.pure, h]

namespace Counters

open View

def Command.field : Command → Nat
  | .setRegistration _ _ => 8
  | .setOwner _ _ => 16
  | _ => 0

def Call.field : Call → Nat
  | .command c => c.field
  | _ => 0

theorem Call.field_le (c : Call) : c.field + 8 ≤ 24 := by
  unfold Call.field Command.field
  cases c with
  | command k => cases k <;> exact Nat.le_of_ble_eq_true rfl
  | _ => exact Nat.le_of_ble_eq_true rfl

def Monitor.part (w : Monitor) (id : Int) (vs : List View) : List View :=
  if w.HasId id then vs else []

/-- Where a deed may write: one word of a slot, the label or the key of a record, a whole record, or
a record and the words of its slot. -/
def Registry.reach (r : Registry) (now : Int) (m : Memory) (field : Nat) : Deed → List View
  | .nothing => []
  | .value id => r.monitor.part id [r.monitor.values.slice (128 * id.toNat + field) 8]
  | .label id => r.monitor.part id [r.monitor.metadata.slice (512 * id.toNat + 128) 384]
  | .key id => r.monitor.part id [r.monitor.metadata.slice (512 * id.toNat + 16) 112]
  | .free id => r.monitor.part id [r.monitor.metadata.slice (512 * id.toNat) 512]
  | .allocate _ =>
    match (r.takeId now m).result with
    | .ok (_, id) => [r.monitor.metadata.slice (512 * id.toNat) 512,
        r.monitor.values.slice (128 * id.toNat) 24]
    | .error _ => []

def Session.reach (s : Session) (wallTime : Int) (m : Memory) (c : Call) : List View :=
  match s.registry with
  | some r => r.reach (s.clock.read wallTime) m c.field (s.deed c)
  | none => []

namespace Registry

variable {r : Registry} {m : Memory} {now id : Int}

section Places

variable (h : r.monitor.Paired) (hid : r.monitor.HasId id)
include h hid

theorem record_place : Record.offset id = 512 * id.toNat := by
  have hfew := h.few
  obtain ⟨h₀, h₁⟩ := hid
  rw [Record.offset_eq h₀ (by omega), Nat.mul_comm]

theorem slot_place : Slot.offset id = 128 * id.toNat := by
  have hfew := h.few
  obtain ⟨h₀, h₁⟩ := hid
  rw [Slot.offset_eq h₀ (by omega), Nat.mul_comm]

end Places

theorem cover_part {α : Type} {x : Action α} {v : View}
    (hno : ¬ r.monitor.HasId id → (x m).writes = []) (hin : r.monitor.HasId id → x.Within v) :
    Cover (r.monitor.part id [v]) (x m).writes := by
  unfold Monitor.part
  by_cases hid : r.monitor.HasId id
  · rw [if_pos hid]
    exact Cover.of_mem List.mem_cons_self (hin hid m)
  · rw [hno hid]
    exact Cover.nil _

variable (h : r.monitor.Paired)
include h

theorem writes_validate_bind {α : Type} (hid : ¬ r.monitor.HasId id) (f : Unit → Action α)
    (m : Memory) : ((liftM (r.monitor.validate id) >>= f : Action α) m).writes = [] := by
  rw [Monitor.validate_of_not_hasId h hid]
  rfl

theorem putSlotWord_cover (field : Nat) (id x : Int) (m : Memory) :
    Cover (r.monitor.part id [r.monitor.values.slice (128 * id.toNat + field) 8])
      (r.putSlotWord field id x m).writes := by
  refine cover_part (fun hid => writes_validate_bind h hid _ m) fun hid => ?_
  rw [← slot_place h hid]
  exact putSlotWord_within field id x

theorem label_cover {x : Action Unit} (hx : x.Within (r.labelPart (Record.offset id)))
    (hno : ¬ r.monitor.HasId id → (x m).writes = []) :
    Cover (r.monitor.part id [r.monitor.metadata.slice (512 * id.toNat + 128) 384])
      (x m).writes := by
  refine cover_part hno fun hid => ?_
  rw [← record_place h hid]
  exact hx

theorem setLabel_cover (id : Int) (t : Text) (m : Memory) :
    Cover (r.monitor.part id [r.monitor.metadata.slice (512 * id.toNat + 128) 384])
      (r.setLabel id t m).writes :=
  label_cover h (setLabel_within id t) fun hid => writes_validate_bind h hid _ m

theorem appendLabel_cover (id : Int) (t : Text) (m : Memory) :
    Cover (r.monitor.part id [r.monitor.metadata.slice (512 * id.toNat + 128) 384])
      (r.appendLabel id t m).writes :=
  label_cover h (appendLabel_within id t) fun hid => writes_validate_bind h hid _ m

theorem setKey_cover (id : Int) (k : Source) (m : Memory) :
    Cover (r.monitor.part id [r.monitor.metadata.slice (512 * id.toNat + 16) 112])
      (r.setKey id k m).writes := by
  refine cover_part (fun hid => writes_validate_bind h hid _ m) fun hid => ?_
  rw [← record_place h hid]
  exact setKey_within id k

theorem writeKey_cover (id : Int) (k : Script) (m : Memory) :
    Cover (r.monitor.part id [r.monitor.metadata.slice (512 * id.toNat + 16) 112])
      (r.writeKey id k m).writes := by
  refine cover_part (fun hid => ?_) fun hid => ?_
  · rw [writeKey, Monitor.keyView, Monitor.validate_of_not_hasId h hid]
    rfl
  · rw [← record_place h hid]
    exact writeKey_within id k

theorem free_cover (now id : Int) (m : Memory) :
    Cover (r.monitor.part id [r.monitor.metadata.slice (512 * id.toNat) 512])
      (r.free now id m).writes := by
  rw [free_writes]
  refine cover_part (fun hid => writes_validate_bind h hid _ m) fun hid => ?_
  rw [← record_place h hid]
  exact reclaim_within now id

omit h in
theorem resetSlot_within_words (id : Int) :
    (r.resetSlot id).Within (r.monitor.values.slice (Slot.offset id) 24) := by
  have hword {f : Nat} (hf : f + 8 ≤ 24) (x : Int) :
      (r.monitor.values.put 8 (Slot.offset id + f) x).Within
        (r.monitor.values.slice (Slot.offset id) 24) :=
    (put_within _ _ _ _).mono (slice_inside_slice (Nat.le_add_right ..) (by omega))
  exact (hword (f := Slot.registrationOffset) (by decide) _).bind fun _ =>
    (hword (f := Slot.ownerOffset) (by decide) _).bind fun _ => hword (f := 0) (by decide) 0

omit h in
theorem takeId_writes {r' : Registry} (hok : (r.takeId now m).result = .ok (r', id)) :
    ∀ w ∈ (r.takeId now m).writes, (r.monitor.values.slice (Slot.offset id) 24).Covers w := by
  cases hpick : r.pickReusable now r.freed m with
  | error e =>
    have hnone : (r.takeId now m).writes = [] := by
      change (Action.bind (Action.ofQuery (r.pickReusable now r.freed)) _ m).writes = []
      simp only [Action.bind, Action.ofQuery, hpick]
    rw [hnone]
    exact List.forall_mem_nil _
  | ok found =>
    rw [takeId, Action.ofQuery_bind_ok _ hpick] at hok ⊢
    cases found with
    | none =>
      intro w hw
      dsimp only at hw
      split at hw <;> cases hw
    | some p =>
      obtain ⟨j, others⟩ := p
      have hrun := Action.run_bind_eq_ok (Prod.ext rfl hok :
        (r.resetSlot j >>= fun _ =>
          (pure ({ r with freed := others }, j) : Action (Registry × Int))).run m =
            (_, .ok (r', id)))
      obtain ⟨_, m₁, -, hdone⟩ := hrun
      rw [Action.run_pure] at hdone
      cases hdone
      exact ((resetSlot_within_words id).bind fun _ => Action.within_pure _) m

theorem allocate_cover (hfreed : ∀ id ∈ r.freed, r.monitor.HasId id) (now : Int) (q : Request)
    (m : Memory) (field : Nat) :
    Cover (r.reach now m field (.allocate q)) (r.allocate now q m).writes := by
  unfold reach
  rcases takeId_cases h hfreed now m with ⟨r', id, m₁, htake, htaken⟩ | ⟨-, -, hfull⟩
  · have hresult : (r.takeId now m).result = .ok (r', id) := (Prod.mk.inj htake).2
    have hid := htaken.hasId hfreed
    have hmon := htaken.monitor_eq
    have hslot := takeId_writes hresult
    have hrecord {x : Action Unit} (hx : x.Within (r'.monitor.metadata.slice (Record.offset id)
        Record.length)) (m : Memory) :
        Cover [r.monitor.metadata.slice (512 * id.toNat) 512,
          r.monitor.values.slice (128 * id.toNat) 24] (x m).writes := by
      rw [hmon, record_place h hid] at hx
      exact Cover.of_mem List.mem_cons_self (hx m)
    rw [slot_place h hid] at hslot
    have htakeCover : Cover [r.monitor.metadata.slice (512 * id.toNat) 512,
        r.monitor.values.slice (128 * id.toNat) 24] (r.takeId now m).writes :=
      Cover.of_mem (List.mem_cons_of_mem _ List.mem_cons_self) hslot
    -- the slot is blanked first; what follows, an undoing included, is done to the record
    simp only [allocate, hresult]
    split
    · exact htakeCover.append (hrecord (publish_within _ q) _)
    · exact (htakeCover.append (hrecord (publish_within _ q) _)).append
        (hrecord (withdraw_within _) _)
  · rw [allocate_of_refused hfull]
    exact Cover.nil _

end Registry

namespace Session

open Registry

variable {s : Session} {r : Registry} {m : Memory} {now wallTime : Int} {x : Handle}

theorem writes_act {α : Type} (s : Session) (y : Action α) (f : α → Reply) (m : Memory) :
    (s.act (do return f (← y)) m).writes = (y m).writes := Action.writes_map y f m

theorem giveBack_cover (hs : s.On r) (hp : r.monitor.Paired) (x : Handle) (m : Memory)
    (field : Nat) : Cover (r.reach now m field x.release) (s.giveBack now x m).writes := by
  unfold giveBack Handle.release
  rw [hs.registry]
  by_cases howns : x.owns
  · simp only [if_pos howns]
    exact free_cover hp now x.id m
  · simp only [if_neg howns]
    exact Cover.nil _

theorem value_cover {α : Type} {y : Action α} (hs : s.Sound r) (hp : r.monitor.Paired)
    (hx : some x ∈ s.handles) (hy : y.Within (x.values.slice x.offset 8)) :
    Cover (r.reach now m 0 (.value x.id)) (y m).writes := by
  have hid := hs.handles x hx
  have hvalues := (hs.on.handles x hx).values
  refine cover_part (fun hno => absurd hid hno) fun _ => ?_
  rw [hvalues, ← hs.on.monitor, Handle.offset, slot_place hp hid] at hy
  exact hy

theorem manager_cover {f : Registry → Action Unit} {vs : List View}
    (hf : Cover vs (f r m).writes) :
    Cover vs ((liftM (x.manager (some r)) >>= f : Action Unit) m).writes := by
  simp only [Handle.manager]
  split
  · exact hf
  · exact Cover.nil _

theorem use_cover (hs : s.Sound r) (hp : r.monitor.Paired) {h : Nat} (hx : some x ∈ s.handles)
    (u : HandleUse) :
    Cover (r.reach now m 0 (x.deed u)) (s.use now h x m u).writes := by
  have hput (v : Int) : (x.values.put 8 x.offset v).Within (x.values.slice x.offset 8) :=
    put_within _ _ _ _
  cases u with
  | set v =>
    exact (writes_act s (x.set v) _ m).symm ▸ value_cover hs hp hx (hput v)
  | getAndAdd v =>
    exact (writes_act s (x.getAndAdd v) _ m).symm ▸ value_cover hs hp hx (getAndAdd_within hput v)
  | getAndSet v =>
    exact (writes_act s (x.getAndSet v) _ m).symm ▸ value_cover hs hp hx (getAndSet_within hput v)
  | compareAndSet e v =>
    exact (writes_act s (x.compareAndSet e v) _ m).symm ▸
      value_cover hs hp hx (compareAndSet_within hput e v)
  | raiseTo v =>
    refine (writes_act s (x.raiseTo v) _ m).symm ▸
      value_cover hs hp hx ((Action.within_ofQuery _).bind fun old => ?_)
    split
    · exact (hput v).bind fun _ => Action.within_pure _
    · exact Action.within_pure _
  | setLabel t =>
    refine (writes_act s (x.setLabel s.registry t) _ m).symm ▸ ?_
    rw [Handle.setLabel, hs.on.registry]
    exact manager_cover (setLabel_cover hp x.id t m)
  | appendLabel t =>
    refine (writes_act s (x.appendLabel s.registry t) _ m).symm ▸ ?_
    rw [Handle.appendLabel, hs.on.registry]
    exact manager_cover (appendLabel_cover hp x.id t m)
  | close => exact giveBack_cover hs.on hp x m 0
  | _ => exact Cover.nil _

theorem handle_cover (hs : s.Sound r) (hp : r.monitor.Paired) (k : HandleCommand) :
    Cover (r.reach now m 0 (s.deed (.handle k))) (s.handle now m k).writes := by
  have hhandled := s.handled now m k
  generalize s.deed (.handle k) = d, s.handle now m k = y at hhandled ⊢
  cases hhandled with
  | raw | missing | moved | same => exact Cover.nil _
  | assigned h source x y there giver other => exact giveBack_cover hs.on hp x m 0
  | destroyed h x there => exact giveBack_cover hs.on hp x m 0
  | used h x there u => exact use_cover hs hp (mem_of_handle? there) u

theorem command_cover (hs : s.Sound r) (hp : r.monitor.Paired) (k : Command) :
    Cover (r.reach now m k.field k.deed) (s.command r now m k).writes := by
  cases k with
  | allocate q => exact allocate_cover hp hs.freed now q m 0
  | openHandle q => exact allocate_cover hp hs.freed now q m 0
  | free id => exact free_cover hp now id m
  | setValue id x =>
    exact (writes_act s (r.setValue id x) _ m).symm ▸ putSlotWord_cover hp 0 id x m
  | setRegistration id x =>
    exact (writes_act s (r.setRegistration id x) _ m).symm ▸ putSlotWord_cover hp 8 id x m
  | setOwner id x =>
    exact (writes_act s (r.setOwner id x) _ m).symm ▸ putSlotWord_cover hp 16 id x m
  | setLabel id t => exact (writes_act s (r.setLabel id t) _ m).symm ▸ setLabel_cover hp id t m
  | appendLabel id t =>
    exact (writes_act s (r.appendLabel id t) _ m).symm ▸ appendLabel_cover hp id t m
  | setKey id k => exact (writes_act s (r.setKey id k) _ m).symm ▸ setKey_cover hp id k m
  | writeKey id k => exact (writes_act s (r.writeKey id k) _ m).symm ▸ writeKey_cover hp id k m
  | _ => exact Cover.nil _

theorem step_cover (hs : s.Sound r) (hp : r.monitor.Paired) {c : Call} (hc : c.Regular) :
    Cover (s.reach wallTime m c) (s.step wallTime m c).writes := by
  unfold reach
  rw [hs.on.registry]
  cases c with
  | look q => cases q <;> exact Cover.nil _
  | metadata a => exact hc.elim
  | values a => exact hc.elim
  | command k =>
    simp only [step, hs.on.registry]
    exact command_cover hs hp k
  | handle k => exact handle_cover hs hp k
  | _ => exact Cover.nil _

/-- A call gives an id back, or it takes it for a new counter. -/
inductive Turns (s : Session) (wallTime : Int) (m : Memory) (c : Call) (id : Int) : Prop
  | frees (deed : s.deed c = .free id)
  | takes (q : Request) (r r' : Registry) (deed : s.deed c = .allocate q)
      (registry : s.registry = some r)
      (taken : (r.takeId (s.clock.read wallTime) m).result = .ok (r', id))

end Session

namespace Registry

variable {r : Registry} {m : Memory} {now : Int}

theorem mem_part {w : Monitor} {id : Int} {v u : View} (h : v ∈ w.part id [u]) :
    w.HasId id ∧ v = u := by
  unfold Monitor.part at h
  by_cases hid : w.HasId id
  · rw [if_pos hid] at h
    exact ⟨hid, List.mem_singleton.1 h⟩
  · rw [if_neg hid] at h
    cases h

theorem reach_apart_state (hp : r.monitor.Paired) {id : Int} (hid : r.monitor.HasId id)
    {field : Nat} (hf : field + 8 ≤ 128) {d : Deed} (hfree : d ≠ .free id)
    (htake : ∀ q r', d = .allocate q → (r.takeId now m).result ≠ .ok (r', id))
    (hfreed : ∀ j ∈ r.freed, r.monitor.HasId j) :
    ∀ v ∈ r.reach now m field d, v.Apart (r.monitor.metadata.slice (512 * id.toNat) 4) := by
  have hstate : (r.monitor.metadata.slice (512 * id.toNat) 4).Inside r.monitor.metadata := by
    have hend := hid.record_le hp
    rw [record_place hp hid] at hend
    exact slice_inside (by omega)
  have hslot {j : Int} (hj : r.monitor.HasId j) {f n : Nat} (hfn : f + n ≤ 128) :
      (r.monitor.values.slice (128 * j.toNat + f) n).Apart
        (r.monitor.metadata.slice (512 * id.toNat) 4) := by
    have hend : Slot.offset j + 128 ≤ r.monitor.values.capacity := hj.hasSlot hp
    rw [slot_place hp hj] at hend
    exact hp.apart.symm.mono (slice_inside (by omega)) hstate
  obtain ⟨h₀, -⟩ := hid
  intro v hv
  -- values and records share no byte; records of two ids lie apart; labels and keys are behind the
  -- state word of their record
  cases d with
  | nothing => cases hv
  | value j =>
    obtain ⟨hj, rfl⟩ := mem_part hv
    exact hslot hj hf
  | label j =>
    obtain ⟨-, rfl⟩ := mem_part hv
    exact apart_slice (by omega)
  | key j =>
    obtain ⟨-, rfl⟩ := mem_part hv
    exact apart_slice (by omega)
  | free j =>
    obtain ⟨⟨hj, -⟩, rfl⟩ := mem_part hv
    have hne : j ≠ id := fun h => hfree (congrArg Deed.free h)
    exact apart_slice (by omega)
  | allocate q =>
    unfold reach at hv
    rcases takeId_cases hp hfreed now m with ⟨r', j, m₁, hrun, htaken⟩ | ⟨-, -, hfull⟩
    · have hresult : (r.takeId now m).result = .ok (r', j) := (Prod.mk.inj hrun).2
      have hj := htaken.hasId hfreed
      have hne : j ≠ id := fun h => htake q r' rfl (h ▸ hresult)
      rw [hresult] at hv
      rcases List.mem_cons.1 hv with rfl | hv
      · obtain ⟨hj₀, -⟩ := hj
        exact apart_slice (by omega)
      · rw [List.mem_singleton.1 hv]
        exact hslot hj (f := 0) (by decide)
    · rw [hfull] at hv
      cases hv

end Registry

namespace Session

open Registry

variable {s : Session} {r : Registry} {m : Memory} {wallTime : Int}

/-- What a call may do to the counters of a monitor: it writes within its reach, so that every byte
outside stays; the state of an id changes only if the id is given back or taken; and a fault about
a range is the caller's. -/
structure Isolated (s : Session) (w : Monitor) (wallTime : Int) (m : Memory) (c : Call) :
    Prop where
  covered : Cover (s.reach wallTime m c) (s.step wallTime m c).writes
  unchanged : ∀ region i, (∀ v ∈ s.reach wallTime m c, ¬ v.Has region i) →
    (m.storeAll (s.step wallTime m c).writes).byte region i = m.byte region i
  state : ∀ id, w.state id (m.storeAll (s.step wallTime m c).writes) ≠ w.state id m →
    s.Turns wallTime m c id
  refused : ∀ e, (s.step wallTime m c).reply = .error e → e.kind = .outOfRange → c.Blamed w e

theorem Sound.isolated (hs : s.Sound r) (hp : r.monitor.Paired) (wallTime : Int) (m : Memory)
    {c : Call} (hc : c.Regular) : s.Isolated r.monitor wallTime m c := by
  have hcover : Cover (s.reach wallTime m c) (s.step wallTime m c).writes := step_cover hs hp hc
  refine ⟨hcover, fun region i hout => hcover.byte_eq hout m, fun id hchanged => ?_,
    fun e he => step_fault hs hp hc he⟩
  by_cases hturns : s.Turns wallTime m c id
  · exact hturns
  · -- otherwise the state word is out of reach
    refine absurd ?_ hchanged
    by_cases hid : r.monitor.HasId id
    · rw [Monitor.state_eq hp hid, Monitor.state_eq hp hid]
      have hapart : ∀ v ∈ s.reach wallTime m c,
          v.Apart (r.monitor.metadata.slice (512 * id.toNat) 4) := by
        unfold reach
        rw [hs.on.registry]
        exact reach_apart_state hp hid (Nat.le_trans c.field_le (by decide))
          (fun h => hturns (.frees h))
          (fun q r' h hresult => hturns (.takes q r r' h hs.on.registry hresult)) hs.freed
      have hbytes := hcover.bytes_eq hapart m
      rw [← record_place hp hid] at hbytes
      exact congrArg (Except.ok ∘ Word.signed) hbytes
    · rw [Monitor.state, Monitor.recordWord_of_not_hasId hp hid,
        Monitor.recordWord_of_not_hasId hp hid]

/-- Whatever was called before, on whatever memory, every regular call stays with its counter. -/
theorem run_isolated {r₀ : Registry} (built : r₀.Built) (clock : Clock) (wallTime : Int)
    (m₀ : Memory) (calls : List Call) (narrow : ∀ c ∈ calls, c.Narrow) :
    ∃ s m, (create r₀.monitor (some r₀) clock).run wallTime m₀ calls = (s, m) ∧
      ∀ c : Call, c.Regular → s.Isolated r₀.monitor wallTime m c := by
  obtain ⟨r, hsound, hmon⟩ := run_sound (sound_of_built built clock) built.paired built.small
    wallTime m₀ calls narrow
  refine ⟨_, _, rfl, fun c hc => ?_⟩
  have hisolated := hsound.isolated (hmon ▸ built.paired) wallTime
    ((create r₀.monitor (some r₀) clock).run wallTime m₀ calls).2 hc
  rwa [hmon] at hisolated

end Session

/-- A registry over views that do not end with a slot or a record. -/
def Registry.uneven : Registry := ⟨⟨⟨0, 0, 2000⟩, ⟨1, 8, 300⟩, .utf8⟩, 10, 0, []⟩

theorem Registry.uneven_built : uneven.Built :=
  ⟨create_eq_ok_iff.2 ⟨rfl, by decide, by decide, rfl⟩, by decide, by decide⟩

theorem Session.run_isolated_uneven : Registry.uneven.Built ∧ (∀ c ∈ mixed, c.Narrow) ∧
    ∃ s m, (create Registry.uneven.monitor (some Registry.uneven) .wall).run 7 ⟨fun _ _ => 255⟩
      mixed = (s, m) ∧ ∀ c : Call, c.Regular → s.Isolated Registry.uneven.monitor 7 m c :=
  ⟨Registry.uneven_built, by decide,
    run_isolated Registry.uneven_built .wall 7 ⟨fun _ _ => 255⟩ mixed (by decide)⟩

end Counters

end Telemetry
