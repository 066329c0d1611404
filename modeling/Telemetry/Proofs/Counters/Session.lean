import Telemetry.Counters.Session
import Telemetry.Proofs.Counters.Change

namespace Telemetry.Counters

def Handle.release (x : Handle) : Deed := if x.owns then .free x.id else .nothing

def Handle.deed (x : Handle) : HandleUse → Deed
  | .set _ | .getAndAdd _ | .getAndSet _ | .compareAndSet _ _ | .raiseTo _ => .value x.id
  | .setLabel _ | .appendLabel _ => .label x.id
  | .close => x.release
  | .id | .get | .label | .isClosed | .disconnect => .nothing

def Command.deed : Command → Deed
  | .allocate q | .openHandle q => .allocate q
  | .free id => .free id
  | .setValue id _ | .setRegistration id _ | .setOwner id _ => .value id
  | .setLabel id _ | .appendLabel id _ => .label id
  | .setKey id _ | .writeKey id _ => .key id
  | .capacity | .available | .timeout | .time => .nothing

def HandleCommand.handles : HandleCommand → List Nat
  | .raw _ _ => []
  | .assign h source => [h, source]
  | .move h | .destroy h | .use h _ => [h]

/-- A handle that was opened on a slot of a monitor's values. -/
structure Handle.LiesIn (x : Handle) (w : Monitor) : Prop where
  values : x.values = w.values
  hasSlot : w.HasSlot x.id

/-- A call that leaves the bytes of both views to the registry and its handles. -/
def Call.Regular : Call → Prop
  | .metadata _ | .values _ => False
  | _ => True

instance : DecidablePred Call.Regular
  | .metadata _ | .values _ => .isFalse id
  | .look _ | .setClock _ | .advanceClock _ | .command _ | .handle _ => .isTrue trivial

namespace Session

def deed (s : Session) : Call → Deed
  | .command c => c.deed
  | .handle (.use h u) =>
    match s.handle? h with
    | some x => x.deed u
    | none => .nothing
  | .handle (.assign h source) =>
    match s.handle? h, s.handle? source with
    | some x, some _ => if h = source then .nothing else x.release
    | _, _ => .nothing
  | .handle (.destroy h) =>
    match s.handle? h with
    | some x => x.release
    | none => .nothing
  | _ => .nothing

def events (s : Session) (wallTime : Int) (m : Memory) (c : Call) : List Event :=
  match s.registry with
  | some r => r.events (s.clock.read wallTime) m (s.deed c)
  | none => []

def history (s : Session) (wallTime : Int) (m : Memory) : List Call → List Event
  | [] => []
  | c :: rest =>
    let x := s.step wallTime m c
    s.events wallTime m c ++ x.session.history wallTime (m.storeAll x.writes) rest

/-- What a command to the handles asks of the registry and what it does: nothing if a handle it
names is not there or is assigned to itself, and otherwise what the command says. -/
inductive Handled (s : Session) (now : Int) (m : Memory) : HandleCommand → Deed → Step → Prop
  | raw (id : Int) (managed : Bool) : Handled s now m (.raw id managed) .nothing
      (s.addHandle (Handle.create s.monitor.values id (managed && s.registry.isSome)) [])
  | missing (c : HandleCommand) (h : Nat) (named : h ∈ c.handles) (absent : s.handle? h = none) :
      Handled s now m c .nothing ⟨s, [], .error noHandle, none⟩
  | moved (h : Nat) (x : Handle) (there : s.handle? h = some x) :
      Handled s now m (.move h) .nothing
        ⟨{ s with handles := s.handles.set h (some x.emptied) ++ [some x] }, [],
          .ok (.number s.handles.length), none⟩
  | same (h : Nat) (x : Handle) (there : s.handle? h = some x) :
      Handled s now m (.assign h h) .nothing ⟨s, [], .ok (.number x.id), none⟩
  | assigned (h source : Nat) (x y : Handle) (there : s.handle? h = some x)
      (giver : s.handle? source = some y) (other : h ≠ source) :
      Handled s now m (.assign h source) x.release
        ⟨((s.giveBack now x m).session.setHandle h (some y)).setHandle source (some y.emptied),
          (s.giveBack now x m).writes, .ok (.number y.id), none⟩
  | destroyed (h : Nat) (x : Handle) (there : s.handle? h = some x) :
      Handled s now m (.destroy h) x.release
        ⟨(s.giveBack now x m).session.setHandle h none, (s.giveBack now x m).writes,
          .ok .unit, none⟩
  | used (h : Nat) (x : Handle) (there : s.handle? h = some x) (u : HandleUse) :
      Handled s now m (.use h u) (x.deed u) (s.use now h x m u)

theorem handled (s : Session) (now : Int) (m : Memory) (c : HandleCommand) :
    s.Handled now m c (s.deed (.handle c)) (s.handle now m c) := by
  cases c with
  | raw id managed => exact .raw id managed
  | move h =>
    cases hx : s.handle? h with
    | none =>
      simp only [Session.handle, deed, hx]
      exact .missing _ h (List.mem_singleton_self h) hx
    | some x =>
      simp only [Session.handle, deed, hx]
      exact .moved h x hx
  | assign h source =>
    cases hx : s.handle? h with
    | none =>
      simp only [Session.handle, deed, hx]
      exact .missing _ h (List.mem_cons_self ..) hx
    | some x =>
      cases hy : s.handle? source with
      | none =>
        simp only [Session.handle, deed, hx, hy]
        exact .missing _ source (List.mem_cons_of_mem _ (List.mem_singleton_self source)) hy
      | some y =>
        by_cases hself : h = source
        · subst hself
          simp only [Session.handle, deed, hx, if_true]
          exact .same h x hx
        · simp only [Session.handle, deed, hx, hy, if_neg hself]
          exact .assigned h source x y hx hy hself
  | destroy h =>
    cases hx : s.handle? h with
    | none =>
      simp only [Session.handle, deed, hx]
      exact .missing _ h (List.mem_singleton_self h) hx
    | some x =>
      simp only [Session.handle, deed, hx]
      exact .destroyed h x hx
  | use h u =>
    cases hx : s.handle? h with
    | none =>
      simp only [Session.handle, deed, hx]
      exact .missing _ h (List.mem_singleton_self h) hx
    | some x =>
      simp only [Session.handle, deed, hx]
      exact .used h x hx u

/-- A session works on a registry over its own views, and its handles lie in their slots. -/
structure On (s : Session) (r : Registry) : Prop where
  registry : s.registry = some r
  monitor : r.monitor = s.monitor
  handles : ∀ x, some x ∈ s.handles → x.LiesIn s.monitor

theorem on_create (r : Registry) (clock : Clock) : (create r.monitor (some r) clock).On r :=
  ⟨rfl, rfl, fun _ hx => nomatch hx⟩

variable {s : Session} {r r' : Registry} {h : Nat} {x : Handle}

theorem On.settle (hs : s.On r) (hr : r'.monitor = r.monitor) :
    ({ s with registry := some r' } : Session).On r' :=
  ⟨rfl, hr.trans hs.monitor, hs.handles⟩

theorem On.liesIn (hs : s.On r) (hx : s.handle? h = some x) : x.LiesIn r.monitor := by
  have hget : s.handles[h]? = some (some x) := Option.join_eq_some_iff.1 hx
  rw [hs.monitor]
  exact hs.handles x (List.mem_of_getElem? hget)

theorem On.setHandle (hs : s.On r) {y : Option Handle}
    (hy : ∀ x, y = some x → x.LiesIn r.monitor) : (s.setHandle h y).On r := by
  refine ⟨hs.registry, hs.monitor, fun x hx => ?_⟩
  rcases List.mem_or_eq_of_mem_set hx with hx | hx
  · exact hs.handles x hx
  · exact hs.monitor ▸ hy x hx.symm

theorem On.append (hs : s.On r) (xs : List Handle) (hxs : ∀ x ∈ xs, x.LiesIn r.monitor) :
    ({ s with handles := s.handles ++ xs.map some } : Session).On r := by
  refine ⟨hs.registry, hs.monitor, fun x hx => ?_⟩
  rcases List.mem_append.1 hx with hx | hx
  · exact hs.handles x hx
  · obtain ⟨y, hy, hyx⟩ := List.mem_map.1 hx
    rw [← Option.some.inj hyx]
    exact hs.monitor ▸ hxs y hy

end Session

/-- What a step does to registry and memory is a change for a deed, and the session goes on. -/
def Step.Follows (x : Step) (r : Registry) (now : Int) (m : Memory) (d : Deed) : Prop :=
  ∃ r', x.session.On r' ∧ r.Change now m d (r.events now m d) r' (m.storeAll x.writes)

namespace Session

variable {s : Session} {r : Registry} {m : Memory} {now : Int} {h : Nat} {x : Handle}

theorem follows_quiet {y : Step} (hy : y.session.On r) (hw : y.writes = []) :
    y.Follows r now m .nothing := ⟨r, hy, by rw [hw]; exact .quiet (.refused _)⟩

theorem follows_act {α : Type} {y : Action α} {f : α → Reply} {d : Deed} (hs : s.On r)
    (hy : r.Quiet m d (y.run m).1) (hd : r.events now m d = []) :
    (s.act (do return f (← y)) m).Follows r now m d := by
  refine ⟨r, hs, ?_⟩
  rw [hd]
  rw [← Action.run_map_fst y f m] at hy
  exact .quiet hy

theorem look_follows (hs : s.On r) (q : Lookup) : (s.look m q).Follows r now m .nothing := by
  cases q <;> exact follows_quiet hs rfl

theorem free_follows (hs : s.On r) (hp : r.monitor.Paired) (id : Int) :
    (s.settle (r.free now id m) fun _ => .unit).Follows r now m (.free id) := by
  have hchange := r.free_change hp now id m
  exact ⟨_, hs.settle hchange.monitor_eq, hchange⟩

theorem giveBack_follows (hs : s.On r) (hp : r.monitor.Paired) (x : Handle) :
    (s.giveBack now x m).Follows r now m x.release := by
  unfold giveBack Handle.release
  rw [hs.registry]
  by_cases hx : x.owns
  · simp only [if_pos hx]
    exact free_follows hs hp x.id
  · simp only [if_neg hx]
    exact follows_quiet hs rfl

theorem follows_of_handles {y z : Step} {d : Deed} (hy : y.Follows r now m d)
    (hsession : ∀ r', y.session.On r' → r'.monitor = r.monitor → z.session.On r')
    (hwrites : z.writes = y.writes) : z.Follows r now m d := by
  obtain ⟨r', hon, hchange⟩ := hy
  exact ⟨r', hsession r' hon hchange.monitor_eq, by rwa [hwrites]⟩

theorem value_follows {α : Type} {y : Action α} {f : α → Reply} (hs : s.On r)
    (hx : x.LiesIn r.monitor) (hy : y.Within (x.values.slice x.offset 8)) :
    (s.act (do return f (← y)) m).Follows r now m (.value x.id) := by
  refine follows_act hs (.value hx.hasSlot ?_) rfl
  rw [hx.values] at hy
  exact (hy.mono (Monitor.slotField_inside (by decide : 0 + 8 ≤ 128))).confines m

theorem manager_label_quiet {f : Registry → Action Unit}
    (hf : r.Quiet m (.label x.id) ((f r).run m).1) :
    r.Quiet m (.label x.id) ((liftM (x.manager (some r)) >>= f : Action Unit).run m).1 := by
  simp only [Handle.manager]
  split
  · exact hf
  · exact .refused _

theorem use_follows (hs : s.On r) (hp : r.monitor.Paired) (hx : x.LiesIn r.monitor)
    (u : HandleUse) : (s.use now h x m u).Follows r now m (x.deed u) := by
  have hput (v : Int) : (x.values.put 8 x.offset v).Within (x.values.slice x.offset 8) :=
    View.put_within _ _ _ _
  cases u with
  | set v => exact value_follows hs hx (hput v)
  | getAndAdd v => exact value_follows hs hx (View.getAndAdd_within hput v)
  | getAndSet v => exact value_follows hs hx (View.getAndSet_within hput v)
  | compareAndSet e v => exact value_follows hs hx (View.compareAndSet_within hput e v)
  | raiseTo v =>
    refine value_follows hs hx ((Action.within_ofQuery _).bind fun old => ?_)
    split
    · exact (hput v).bind fun _ => Action.within_pure _
    · exact Action.within_pure _
  | setLabel t =>
    refine follows_act hs ?_ rfl
    rw [Handle.setLabel, hs.registry]
    exact manager_label_quiet (r.setLabel_quiet hp x.id t m)
  | appendLabel t =>
    refine follows_act hs ?_ rfl
    rw [Handle.appendLabel, hs.registry]
    exact manager_label_quiet (r.appendLabel_quiet hp x.id t m)
  | disconnect =>
    exact follows_quiet (hs.setHandle fun y hy => by cases hy; exact ⟨hx.values, hx.hasSlot⟩) rfl
  | close =>
    refine follows_of_handles (giveBack_follows hs hp x) (fun r' hon hr => ?_) rfl
    exact hon.setHandle fun y hy => by cases hy; rw [hr]; exact ⟨hx.values, hx.hasSlot⟩
  | _ => exact follows_quiet hs rfl

theorem create_of_hasSlot {w : Monitor} {id : Int} (hslot : w.HasSlot id) (managed : Bool) :
    Handle.create w.values id managed = .ok ⟨w.values, id, managed, false⟩ := by
  rw [Handle.create, View.check_of_le hslot]
  rfl

theorem liesIn_of_create {w : Monitor} {id : Int} {managed : Bool}
    (hx : Handle.create w.values id managed = .ok x) : x.LiesIn w := by
  by_cases hslot : w.HasSlot id
  · rw [create_of_hasSlot hslot] at hx
    cases hx
    exact ⟨rfl, hslot⟩
  · rw [Handle.create, View.check_of_lt (Nat.lt_of_not_le hslot)] at hx
    cases hx

theorem On.addHandle (hs : s.On r) {opened : Except Fault Handle}
    (hopened : ∀ x, opened = .ok x → x.LiesIn r.monitor) (ws : List Write) :
    (s.addHandle opened ws).session.On r := by
  refine hs.append _ fun x hx => ?_
  cases opened with
  | error e => nomatch hx
  | ok y => exact List.mem_singleton.1 hx ▸ hopened y rfl

theorem handle_follows (hs : s.On r) (hp : r.monitor.Paired) (c : HandleCommand) :
    (s.handle now m c).Follows r now m (s.deed (.handle c)) := by
  have hc := s.handled now m c
  generalize s.deed (.handle c) = d, s.handle now m c = y at hc ⊢
  cases hc with
  | raw id managed =>
    exact follows_quiet (hs.addHandle (fun x hx => hs.monitor ▸ liesIn_of_create hx) []) rfl
  | missing => exact follows_quiet hs rfl
  | moved h x there =>
    have hlies := hs.liesIn there
    have hleft : (s.setHandle h (some x.emptied)).On r :=
      hs.setHandle fun y hy => by cases hy; exact ⟨hlies.values, hlies.hasSlot⟩
    have hmoved := hleft.append [x] fun y hy => List.mem_singleton.1 hy ▸ hlies
    exact follows_quiet hmoved rfl
  | same => exact follows_quiet hs rfl
  | assigned h source x y there giver other =>
    have hlies := hs.liesIn giver
    refine follows_of_handles (giveBack_follows hs hp x) (fun r' hon hr => ?_) rfl
    have hassigned := hon.setHandle (h := h) (y := some y) fun z hz => by
      cases hz; rwa [hr]
    exact hassigned.setHandle fun z hz => by
      cases hz; rw [hr]; exact ⟨hlies.values, hlies.hasSlot⟩
  | destroyed h x there =>
    refine follows_of_handles (giveBack_follows hs hp x) (fun r' hon _ => ?_) rfl
    exact hon.setHandle fun y hy => nomatch hy
  | used h x there u => exact use_follows hs hp (hs.liesIn there) u

theorem command_follows (hs : s.On r) (hp : r.monitor.Paired)
    (hfreed : ∀ id ∈ r.freed, r.monitor.HasId id) (c : Command) :
    (s.command r now m c).Follows r now m c.deed := by
  cases c with
  | allocate q =>
    have hchange := r.allocate_change hp hfreed now q m
    exact ⟨_, hs.settle hchange.monitor_eq, hchange⟩
  | free id => exact free_follows hs hp id
  | setValue id x => exact follows_act hs (r.putSlotWord_quiet hp (by decide) id x m) rfl
  | setRegistration id x =>
    exact follows_act hs (r.putSlotWord_quiet hp (by decide) id x m) rfl
  | setOwner id x => exact follows_act hs (r.putSlotWord_quiet hp (by decide) id x m) rfl
  | setLabel id t => exact follows_act hs (r.setLabel_quiet hp id t m) rfl
  | appendLabel id t => exact follows_act hs (r.appendLabel_quiet hp id t m) rfl
  | setKey id k => exact follows_act hs (r.setKey_quiet hp id k m) rfl
  | writeKey id k => exact follows_act hs (r.writeKey_quiet hp id k m) rfl
  | openHandle q =>
    have hchange := r.allocate_change hp hfreed now q m
    have hon := hs.settle hchange.monitor_eq
    refine ⟨_, hon.addHandle (fun x hx => ?_) _, hchange⟩
    rw [hchange.monitor_eq]
    cases hresult : (r.allocate now q m).result with
    | error e =>
      rw [hresult] at hx
      nomatch hx
    | ok id =>
      rw [hresult] at hx
      exact liesIn_of_create hx
  | _ => exact follows_quiet hs rfl

theorem step_follows {c : Call} (hs : s.On r) (hp : r.monitor.Paired)
    (hfreed : ∀ id ∈ r.freed, r.monitor.HasId id) (hc : c.Regular) (wallTime : Int) :
    (s.step wallTime m c).Follows r (s.clock.read wallTime) m (s.deed c) := by
  cases c with
  | look q => exact look_follows hs q
  | metadata a => exact hc.elim
  | values a => exact hc.elim
  | setClock t => exact follows_quiet ⟨hs.registry, hs.monitor, hs.handles⟩ rfl
  | advanceClock d => exact follows_quiet ⟨hs.registry, hs.monitor, hs.handles⟩ rfl
  | command c =>
    simp only [step, deed, hs.registry]
    exact command_follows hs hp hfreed c
  | handle c => exact handle_follows hs hp c

/-- Every deed of a run is permitted when it is done, given what happened before. -/
def Permits (A : List Event → Registry → Memory → Deed → Prop) (wallTime : Int) :
    Session → Memory → List Event → List Call → Prop
  | _, _, _, [] => True
  | s, m, h, c :: rest =>
    (∀ r ∈ s.registry, A h r m (s.deed c)) ∧
      Permits A wallTime (s.step wallTime m c).session (m.storeAll (s.step wallTime m c).writes)
        (h ++ s.events wallTime m c) rest

variable {A : List Event → Registry → Memory → Deed → Prop}
  {P : List Event → Registry → Memory → Prop}

instance decidablePermits [∀ h r m, DecidablePred (A h r m)] (wallTime : Int) :
    ∀ s m h calls, Decidable (Permits A wallTime s m h calls)
  | _, _, _, [] => .isTrue trivial
  | s, m, h, c :: rest =>
    have := decidablePermits wallTime (s.step wallTime m c).session
      (m.storeAll (s.step wallTime m c).writes) (h ++ s.events wallTime m c) rest
    inferInstanceAs (Decidable (_ ∧ _))

/-- What holds of a registry, its memory and the history, and is kept by every change for a
permitted deed, holds after every run. -/
theorem run_invariant_of_permits (freed : ∀ h r m, P h r m → ∀ id ∈ r.freed, r.monitor.HasId id)
    (kept : ∀ h r m now d es r' m', r.monitor.Paired → P h r m → A h r m d →
      r.Change now m d es r' m' → P (h ++ es) r' m')
    (wallTime : Int) (calls : List Call) (regular : ∀ c ∈ calls, c.Regular) {h : List Event}
    (hs : s.On r) (hp : r.monitor.Paired) (start : P h r m)
    (permits : Permits A wallTime s m h calls) :
    ∃ r', (s.run wallTime m calls).1.On r' ∧ r'.monitor = r.monitor ∧ r'.timeout = r.timeout ∧
      P (h ++ s.history wallTime m calls) r' (s.run wallTime m calls).2 := by
  induction calls generalizing s r m h with
  | nil => exact ⟨r, hs, rfl, rfl, by rwa [history, List.append_nil]⟩
  | cons c rest ih =>
    obtain ⟨hc, hrest⟩ := List.forall_mem_cons.1 regular
    obtain ⟨hpermit, hpermits⟩ := permits
    obtain ⟨r₁, hon, hchange⟩ := step_follows hs hp (freed _ _ _ start) hc wallTime
    -- The rest of the run extends the history by the events of this call.
    have hevents : s.events wallTime m c =
        r.events (s.clock.read wallTime) m (s.deed c) := by rw [events, hs.registry]
    have hkept := kept _ _ _ _ _ _ _ _ hp start (hpermit r hs.registry) hchange
    rw [← hevents] at hkept
    obtain ⟨r', hon', hmon, htime, hP⟩ := ih hrest hon (hchange.monitor_eq ▸ hp) hkept hpermits
    rw [List.append_assoc] at hP
    exact ⟨r', hon', hmon.trans hchange.monitor_eq, htime.trans hchange.timeout_eq, hP⟩

theorem permits_of_forall (hA : ∀ h r m d, A h r m d) (wallTime : Int) (s : Session) (m : Memory)
    (h : List Event) (calls : List Call) : Permits A wallTime s m h calls := by
  induction calls generalizing s m h with
  | nil => exact trivial
  | cons c rest ih => exact ⟨fun r _ => hA h r m _, ih _ _ _⟩

theorem run_invariant (hs : s.On r) (hp : r.monitor.Paired) (start : P [] r m)
    (freed : ∀ h r m, P h r m → ∀ id ∈ r.freed, r.monitor.HasId id)
    (kept : ∀ h r m now d es r' m', r.monitor.Paired → P h r m →
      r.Change now m d es r' m' → P (h ++ es) r' m')
    (wallTime : Int) (calls : List Call) (regular : ∀ c ∈ calls, c.Regular) :
    ∃ r', (s.run wallTime m calls).1.On r' ∧ r'.monitor = r.monitor ∧ r'.timeout = r.timeout ∧
      P (s.history wallTime m calls) r' (s.run wallTime m calls).2 :=
  run_invariant_of_permits (A := fun _ _ _ _ => True) freed
    (fun h r m now d es r' m' hp hP _ => kept h r m now d es r' m' hp hP) wallTime calls regular hs
    hp start (permits_of_forall (fun _ _ _ _ => trivial) wallTime s m [] calls)

end Session

/-- A registry as it starts: built over two zeroed views that share no byte, with fewer slots than
an id of four bytes can count. -/
structure Registry.Starts (r : Registry) (m : Memory) : Prop where
  created : Registry.create r.monitor true r.timeout = .ok r
  apart : r.monitor.metadata.Apart r.monitor.values
  few : r.monitor.slots < 0x80000000
  metadata : r.monitor.metadata.bytes m = List.replicate r.monitor.metadata.capacity 0
  values : r.monitor.values.bytes m = List.replicate r.monitor.values.capacity 0

namespace Registry

variable {r : Registry} {m : Memory} {id : Int}

theorem create_eq_ok_iff {w : Monitor} {timeout : Int} : create w true timeout = .ok r ↔
    w.values.requireAligned = .ok () ∧ w.values.capacity * 4 ≤ w.metadata.capacity ∧
      0 ≤ w.maxId + 1 ∧ r = ⟨w, timeout, 0, []⟩ := by
  unfold create
  cases w.values.requireAligned with
  | error e => simp [bind, Except.bind]
  | ok _ =>
    by_cases hroom : w.metadata.capacity < w.values.capacity * (Record.length / Slot.length)
    · have hnot : ¬ w.values.capacity * 4 ≤ w.metadata.capacity := Nat.not_le.2 hroom
      simp [bind, Except.bind, hroom, hnot]
    · have hle : w.values.capacity * 4 ≤ w.metadata.capacity := Nat.le_of_not_lt hroom
      by_cases hids : w.maxId + 1 < 0
      · have hnot : ¬ 0 ≤ w.maxId + 1 := Int.not_le.2 hids
        simp [bind, Except.bind, hroom, hids, hnot]
      · have hcounted : 0 ≤ w.maxId + 1 := Int.not_lt.1 hids
        simp [bind, Except.bind, hroom, hids, hle, hcounted, pure, Except.pure, eq_comm]

namespace Starts

theorem paired (h : r.Starts m) : r.monitor.Paired :=
  ⟨h.apart, (create_eq_ok_iff.1 h.created).2.1, h.few⟩

theorem issued_eq (h : r.Starts m) : r.issued = 0 := by
  rw [(create_eq_ok_iff.1 h.created).2.2.2]

theorem freed_eq (h : r.Starts m) : r.freed = [] := by
  rw [(create_eq_ok_iff.1 h.created).2.2.2]

theorem on (_ : r.Starts m) (clock : Clock) : (Session.create r.monitor (some r) clock).On r :=
  Session.on_create r clock

theorem recordWordOf_eq (h : r.Starts m) (hid : r.monitor.HasId id) {n field : Nat}
    (hf : field + n ≤ 512) : r.monitor.recordWordOf n field id m = 0 :=
  View.word_of_zero h.metadata
    ((Monitor.field_inside hf).trans (Monitor.record_inside h.paired hid))

theorem slotWordOf_eq (h : r.Starts m) (hslot : r.monitor.HasSlot id) {field : Nat}
    (hf : field + 8 ≤ 128) : r.monitor.slotWordOf field id m = 0 :=
  View.word_of_zero h.values ((Monitor.slotField_inside hf).trans (Monitor.slot_inside hslot))

theorem keyOf_eq (h : r.Starts m) (hid : r.monitor.HasId id) :
    (r.monitor.keyOf id).bytes m = List.replicate Record.keyLength 0 :=
  View.bytes_of_zero h.metadata (Monitor.keyOf_inside.trans (Monitor.record_inside h.paired hid))

end Starts

def small : Registry := ⟨⟨⟨0, 0, 1024⟩, ⟨1, 0, 256⟩, .ascii⟩, 10, 0, []⟩

theorem small_starts : small.Starts Memory.zero :=
  ⟨create_eq_ok_iff.2 ⟨rfl, by decide, by decide, rfl⟩, by decide, by decide, View.bytes_zero _,
    View.bytes_zero _⟩

end Registry

/-- A counter with a handle, an allocation whose key cannot be written, an id given back and one
that was never issued, and both ids taken again once they have rested. -/
def Session.mixed : List Call :=
  [.command (.openHandle (.labelled 1 [97])),
    .handle (.use 0 (.set 5)),
    .command (.allocate (.keyed 2 [98] (.ofList [.putBytes 0 [1, 2], .raise []]))),
    .command (.setKey 0 ⟨[7, 8, 9], 0, 3⟩),
    .handle (.use 0 .close),
    .command (.free 9),
    .advanceClock 10,
    .command (.appendLabel 0 [99]),
    .command (.allocate (.copied 3 none ⟨[65, 66], 0, 2⟩)),
    .command (.allocate (.labelled 4 [100]))]

end Telemetry.Counters
