import Telemetry.Proofs.Counters.Handles
import Telemetry.Proofs.View.Range

namespace Telemetry

theorem Action.map_plan {α β : Type} (x : Action α) (f : α → β) (m : Memory) :
    (x >>= fun a => pure (f a)) m = ⟨(x m).writes, (x m).result.map f⟩ := by
  change Action.bind x (fun a => Action.pure (f a)) m = _
  rcases hx : x m with ⟨ws, e | a⟩
  · simp only [Action.bind, hx, Except.map]
  · simp only [Action.bind, Action.pure, hx, Except.map, List.append_nil]

namespace Counters

namespace Monitor

def cut (w : Monitor) (n : Nat) : Monitor := { w with values := { w.values with capacity := n } }

/-- The views of a registry, however large, and the size of the slots of its ids: the views share no
byte, every slot has a record, and the number of ids did not come out negative. -/
structure Spans (w : Monitor) (n : Nat) : Prop where
  apart : w.metadata.Apart w.values
  room : w.values.capacity * 4 ≤ w.metadata.capacity
  counted : 0 ≤ w.maxId + 1
  span : n = (w.maxId + 1).toNat * Slot.length

theorem maxId_lt (w : Monitor) : w.maxId + 1 < 0x80000000 := by
  have hmodulus : Word.modulus 4 = 0x100000000 := rfl
  have hlt : Int.bmod (w.values.capacity / Slot.length : Nat) (Word.modulus 4) <
      ((Word.modulus 4 : Nat) + 1) / 2 := Int.bmod_lt (by decide)
  simp only [maxId, Word.wrap, hmodulus] at hlt ⊢
  omega

namespace Spans

variable {w : Monitor} {n : Nat} {id : Int} (h : w.Spans n)
include h

theorem span_le : n ≤ w.values.capacity := by
  have hcounted := h.counted
  have hspan := h.span
  have hmodulus : Word.modulus 4 = 0x100000000 := rfl
  have hdef := Int.bmod_def (w.values.capacity / Slot.length : Nat) 0x100000000
  simp only [Monitor.maxId, Word.wrap, hmodulus] at hcounted hspan
  simp only [Slot.length] at hcounted hspan hdef
  omega

theorem slots_eq : ((w.cut n).slots : Int) = w.maxId + 1 := by
  have hcounted := h.counted
  have hslots : (w.cut n).slots = n / Slot.length := rfl
  rw [hslots, h.span, Nat.mul_div_cancel _ (by decide), Int.toNat_of_nonneg hcounted]

theorem maxId_eq : (w.cut n).maxId = w.maxId := by
  have hlt := w.maxId_lt
  have hslots := h.slots_eq
  change Word.wrap 4 ((w.cut n).slots : Int) - 1 = _
  rw [Word.wrap_natCast (by omega), hslots]
  omega

theorem paired : (w.cut n).Paired := by
  have hroom := h.room
  have hle := h.span_le
  have hlt := w.maxId_lt
  have hslots := h.slots_eq
  refine ⟨h.apart.mono (View.Inside.refl _) ⟨rfl, Nat.le_refl _, ?_⟩, ?_, by omega⟩
  · exact Nat.add_le_add_left hle _
  · change n * 4 ≤ w.metadata.capacity
    omega

theorem hasId_iff : (w.cut n).HasId id ↔ 0 ≤ id ∧ id ≤ w.maxId := by
  have hslots := h.slots_eq
  rw [HasId]
  omega

theorem validate_eq (id : Int) : (w.cut n).validate id = w.validate id := by
  rw [validate, validate, h.maxId_eq]

theorem keyView_eq (id : Int) : (w.cut n).keyView id = w.keyView id := by
  rw [keyView, keyView, h.validate_eq]
  rfl

theorem state_eq (id : Int) : (w.cut n).state id = w.state id := by
  rw [state, state, recordWord, recordWord, h.validate_eq]
  rfl

theorem key_eq (id : Int) : (w.cut n).key id = w.key id := by rw [key, key, h.keyView_eq]

/-- What is put into the slot of an id is put there however far the values go on. -/
theorem put_eq (hid : (w.cut n).HasId id) {field : Nat} (hf : field + 8 ≤ 128) (x : Int) :
    (w.cut n).values.put 8 (Slot.offset id + field) x =
      w.values.put 8 (Slot.offset id + field) x := by
  have hslot : Slot.offset id + 128 ≤ n := hid.hasSlot h.paired
  have hle := h.span_le
  funext m
  rw [View.put_plan (v := w.values) (by omega), View.put_plan (v := (w.cut n).values)]
  · rfl
  · change Slot.offset id + field + 8 ≤ n
    omega

end Spans

end Monitor

def Registry.cut (r : Registry) (n : Nat) : Registry := { r with monitor := r.monitor.cut n }

def Outcome.cut {α : Type} (o : Outcome α) (n : Nat) : Outcome α :=
  { o with registry := o.registry.cut n }

namespace Registry

variable {r : Registry} {n : Nat} {id : Int}

section Take

variable {now : Int} {m : Memory}

theorem takeId_of_reusable {others : List Int}
    (h : r.pickReusable now r.freed m = .ok (some (id, others))) :
    r.takeId now m = ⟨(r.resetSlot id m).writes,
      (r.resetSlot id m).result.map fun _ => ({ r with freed := others }, id)⟩ := by
  rw [takeId, Action.ofQuery_bind_ok _ h]
  exact Action.map_plan _ _ m

theorem takeId_of_room (h : r.pickReusable now r.freed m = .ok none)
    (hroom : ¬ r.monitor.maxId < r.issued) :
    r.takeId now m = ⟨[], .ok ({ r with issued := r.issued + 1 }, r.issued)⟩ := by
  rw [takeId, Action.ofQuery_bind_ok _ h]
  simp only [if_neg hroom]
  rfl

theorem takeId_of_full (h : r.pickReusable now r.freed m = .ok none)
    (hfull : r.monitor.maxId < r.issued) :
    r.takeId now m = ⟨[], .error (.registryFull r.monitor.maxId)⟩ := by
  rw [takeId, Action.ofQuery_bind_ok _ h]
  simp only [if_pos hfull]
  rfl

end Take

theorem pickReusable_cut (r : Registry) (n : Nat) (now : Int) (ids : List Int) :
    (r.cut n).pickReusable now ids = r.pickReusable now ids := by
  induction ids with
  | nil => rfl
  | cons id rest ih =>
    rw [pickReusable, pickReusable, ih]
    rfl

theorem countReusable_cut (r : Registry) (n : Nat) (now : Int) (ids : List Int) :
    (r.cut n).countReusable now ids = r.countReusable now ids := by
  induction ids with
  | nil => rfl
  | cons id rest ih =>
    rw [countReusable, countReusable, ih]
    rfl

theorem publish_cut (r : Registry) (n offset : Nat) (q : Request) :
    (r.cut n).publish offset q = r.publish offset q := by
  cases q <;> rfl

section Spans

variable (h : r.monitor.Spans n)
include h

theorem resetSlot_cut (hid : (r.cut n).monitor.HasId id) :
    (r.cut n).resetSlot id = r.resetSlot id := by
  have hput {field : Nat} (hf : field + 8 ≤ 128) (x : Int) :=
    h.put_eq hid hf x
  have hvalue := hput (by decide : 0 + 8 ≤ 128) 0
  rw [resetSlot, resetSlot]
  change ((r.monitor.cut n).values.put 8 (Slot.offset id + Slot.registrationOffset) _ >>= fun _ =>
    (r.monitor.cut n).values.put 8 (Slot.offset id + Slot.ownerOffset) _ >>= fun _ =>
      (r.monitor.cut n).values.put 8 (Slot.offset id + 0) 0) = _
  rw [hput (by decide), hput (by decide), hvalue]
  rfl

theorem takeId_cut (hfreed : ∀ id ∈ r.freed, (r.cut n).monitor.HasId id) (now : Int) (m : Memory) :
    (r.cut n).takeId now m = ⟨(r.takeId now m).writes,
      (r.takeId now m).result.map fun p => (p.1.cut n, p.2)⟩ := by
  have hpick := r.pickReusable_cut n now r.freed
  rcases pickReusable_cases h.paired now m r.freed hfreed with
    ⟨hnone, -⟩ | ⟨before, id, after, hsplit, -, -, hsome⟩
  · have hmax : (r.cut n).monitor.maxId = r.monitor.maxId := h.maxId_eq
    have hcut : (r.cut n).pickReusable now (r.cut n).freed m = .ok none := hnone
    rw [hpick] at hnone
    by_cases hfull : r.monitor.maxId < r.issued
    · have hfull' : (r.cut n).monitor.maxId < (r.cut n).issued := by rwa [hmax]
      rw [takeId_of_full hnone hfull, takeId_of_full hcut hfull', hmax]
      rfl
    · have hroom : ¬ (r.cut n).monitor.maxId < (r.cut n).issued := by rwa [hmax]
      rw [takeId_of_room hnone hfull, takeId_of_room hcut hroom]
      rfl
  · have hid : (r.cut n).monitor.HasId id := hfreed id (by rw [hsplit]; simp)
    have hcut : (r.cut n).pickReusable now (r.cut n).freed m =
      .ok (some (id, before ++ after)) := hsome
    rw [hpick] at hsome
    rw [takeId_of_reusable hsome, takeId_of_reusable hcut, resetSlot_cut h hid]
    cases (r.resetSlot id m).result <;> rfl

theorem available_cut (now : Int) : (r.cut n).available now = r.available now := by
  have hcapacity : (r.cut n).capacity = r.capacity := congrArg (· + 1) h.maxId_eq
  have hcount := r.countReusable_cut n now r.freed
  rw [available, available, hcapacity]
  change (do return r.capacity - r.issued + (← (r.cut n).countReusable now r.freed)) = _
  rw [hcount]

theorem reclaim_cut (now id : Int) : (r.cut n).reclaim now id = r.reclaim now id := by
  rw [reclaim, reclaim]
  change (liftM ((r.monitor.cut n).validate id) >>= _ : Action Unit) = _
  rw [h.validate_eq]
  rfl

theorem free_cut (now id : Int) (m : Memory) :
    (r.cut n).free now id m = (r.free now id m).cut n := by
  simp only [free, reclaim_cut h]
  split <;> rfl

theorem setLabel_cut (id : Int) (t : Text) : (r.cut n).setLabel id t = r.setLabel id t := by
  rw [setLabel, setLabel]
  change (liftM ((r.monitor.cut n).validate id) >>= _ : Action Unit) = _
  rw [h.validate_eq]
  rfl

theorem appendLabel_cut (id : Int) (t : Text) :
    (r.cut n).appendLabel id t = r.appendLabel id t := by
  rw [appendLabel, appendLabel]
  change (liftM ((r.monitor.cut n).validate id) >>= _ : Action Unit) = _
  rw [h.validate_eq]
  rfl

theorem setKey_cut (id : Int) (k : Source) : (r.cut n).setKey id k = r.setKey id k := by
  rw [setKey, setKey]
  change (liftM ((r.monitor.cut n).validate id) >>= _ : Action Unit) = _
  rw [h.validate_eq]
  rfl

theorem writeKey_cut (id : Int) (k : Script) : (r.cut n).writeKey id k = r.writeKey id k := by
  rw [writeKey, writeKey]
  change (liftM ((r.monitor.cut n).keyView id) >>= _ : Action Unit) = _
  rw [h.keyView_eq]

theorem allocate_cut (hfreed : ∀ id ∈ r.freed, (r.cut n).monitor.HasId id) (now : Int)
    (q : Request) (m : Memory) :
    (r.cut n).allocate now q m = (r.allocate now q m).cut n := by
  rw [allocate, allocate, takeId_cut h hfreed]
  cases htake : (r.takeId now m).result with
  | error e => rfl
  | ok p =>
    obtain ⟨r', id⟩ := p
    simp only [Except.map, publish_cut]
    split <;> rfl

end Spans

end Registry

/-- A registry as its constructor makes it, over two views that share no byte, however large. -/
structure Registry.Made (r : Registry) : Prop where
  created : Registry.create r.monitor true r.timeout = .ok r
  apart : r.monitor.metadata.Apart r.monitor.values

theorem Registry.small_made : small.Made := ⟨small_starts.created, small_starts.apart⟩

/-- What a regular call does to a registry whose ids span a size: a change over the slots of the
ids, or writing to the values alone. -/
inductive Registry.Drifts (r : Registry) (n : Nat) (m : Memory) : Registry → Memory → Prop
  | change (now : Int) {d : Deed} {es : List Event} {r' : Registry} {m' : Memory}
      (change : (r.cut n).Change now m d es (r'.cut n) m') : Drifts r n m r' m'
  | values {m' : Memory} (values : r.monitor.values.Confines m m') : Drifts r n m r m'

def Step.Drifts (x : Step) (r : Registry) (n : Nat) (m : Memory) : Prop :=
  ∃ r', x.session.registry = some r' ∧ r.Drifts n m r' (m.storeAll x.writes)

namespace Registry

variable {r : Registry}

theorem Made.spans (h : r.Made) : ∃ n, r.monitor.Spans n := by
  obtain ⟨-, hroom, hcounted, -⟩ := create_eq_ok_iff.1 h.created
  exact ⟨_, h.apart, hroom, hcounted, rfl⟩

theorem Made.issued_eq (h : r.Made) : r.issued = 0 := by
  rw [(create_eq_ok_iff.1 h.created).2.2.2]

theorem Made.freed_eq (h : r.Made) : r.freed = [] := by
  rw [(create_eq_ok_iff.1 h.created).2.2.2]

end Registry

namespace Session

open Registry

variable {s : Session} {r : Registry} {n : Nat} {m : Memory} {now : Int}

theorem drifts_nothing {x : Step} (hs : x.session.registry = some r) (hw : x.writes = []) :
    x.Drifts r n m := ⟨r, hs, .change 0 (by rw [hw]; exact .quiet (.refused .nothing))⟩

theorem drifts_quiet {α : Type} {y : Action α} {f : α → Reply} {d : Deed}
    (hs : s.registry = some r) (hy : (r.cut n).Quiet m d (y.run m).1) :
    (s.act (do return f (← y)) m).Drifts r n m := by
  rw [← Action.run_map_fst y f m] at hy
  exact ⟨r, hs, .change 0 (.quiet hy)⟩

theorem drifts_values {α : Type} {y : Action α} {f : α → Reply} (hs : s.registry = some r)
    (hy : y.Within r.monitor.values) : (s.act (do return f (← y)) m).Drifts r n m := by
  have hconfines := hy.confines m
  rw [← Action.run_map_fst y f m] at hconfines
  exact ⟨r, hs, .values hconfines⟩

section Spans

variable (h : r.monitor.Spans n)
include h

theorem giveBack_drifts (hs : s.registry = some r) (now : Int) (x : Handle) (m : Memory) :
    (s.giveBack now x m).Drifts r n m := by
  unfold giveBack
  rw [hs]
  by_cases howns : x.owns
  · have hchange := (r.cut n).free_change h.paired now x.id m
    rw [free_cut h] at hchange
    simp only [if_pos howns]
    exact ⟨_, rfl, .change now hchange⟩
  · simp only [if_neg howns]
    exact drifts_nothing hs rfl

theorem use_drifts (hs : s.On r) {k : Nat} {x : Handle} (hx : some x ∈ s.handles)
    (u : HandleUse) : (s.use now k x m u).Drifts r n m := by
  have hvalues : x.values = r.monitor.values := by
    rw [(hs.handles x hx).values, hs.monitor]
  have hput (v : Int) : (x.values.put 8 x.offset v).Within r.monitor.values := by
    rw [hvalues]
    exact View.put_within_self _ _ _ v
  have hmanager {f : Registry → Action Unit} {d : Deed}
      (hf : (r.cut n).Quiet m d ((f r).run m).1) :
      (r.cut n).Quiet m d
        ((liftM (x.manager s.registry) >>= f : Action Unit).run m).1 := by
    rw [hs.registry, Handle.manager]
    split
    · exact hf
    · exact .refused d
  cases u with
  | set v => exact drifts_values hs.registry (hput v)
  | getAndAdd v => exact drifts_values hs.registry (View.getAndAdd_within hput v)
  | getAndSet v => exact drifts_values hs.registry (View.getAndSet_within hput v)
  | compareAndSet e v => exact drifts_values hs.registry (View.compareAndSet_within hput e v)
  | raiseTo v =>
    refine drifts_values hs.registry ((Action.within_ofQuery _).bind fun old => ?_)
    split
    · exact (hput v).bind fun _ => Action.within_pure _
    · exact Action.within_pure _
  | setLabel t =>
    have hquiet := (r.cut n).setLabel_quiet h.paired x.id t m
    rw [setLabel_cut h] at hquiet
    exact drifts_quiet hs.registry (hmanager hquiet)
  | appendLabel t =>
    have hquiet := (r.cut n).appendLabel_quiet h.paired x.id t m
    rw [appendLabel_cut h] at hquiet
    exact drifts_quiet hs.registry (hmanager hquiet)
  | close => exact giveBack_drifts h hs.registry now x m
  | _ => exact drifts_nothing hs.registry rfl

theorem handle_drifts (hs : s.On r) (k : HandleCommand) : (s.handle now m k).Drifts r n m := by
  have hhandled := s.handled now m k
  generalize s.deed (.handle k) = d, s.handle now m k = y at hhandled ⊢
  cases hhandled with
  | raw | missing | moved | same => exact drifts_nothing hs.registry rfl
  | assigned j source x y there giver other => exact giveBack_drifts h hs.registry now x m
  | destroyed j x there => exact giveBack_drifts h hs.registry now x m
  | used j x there u => exact use_drifts h hs (mem_of_handle? there) u

theorem command_drifts (hs : s.registry = some r)
    (hfreed : ∀ id ∈ r.freed, (r.cut n).monitor.HasId id) (k : Command) :
    (s.command r now m k).Drifts r n m := by
  have hslot (field : Nat) (id x : Int) : (r.putSlotWord field id x).Within r.monitor.values :=
    (Action.within_ofExcept _).bind fun _ => View.put_within_self _ _ _ x
  have hallocate (q : Request) := (r.cut n).allocate_change h.paired hfreed now q m
  simp only [allocate_cut h hfreed] at hallocate
  cases k with
  | allocate q => exact ⟨_, rfl, .change now (hallocate q)⟩
  | openHandle q => exact ⟨_, rfl, .change now (hallocate q)⟩
  | free id =>
    have hchange := (r.cut n).free_change h.paired now id m
    rw [free_cut h] at hchange
    exact ⟨_, rfl, .change now hchange⟩
  | setValue id x => exact drifts_values hs (hslot 0 id x)
  | setRegistration id x => exact drifts_values hs (hslot _ id x)
  | setOwner id x => exact drifts_values hs (hslot _ id x)
  | setLabel id t =>
    have hquiet := (r.cut n).setLabel_quiet h.paired id t m
    rw [setLabel_cut h] at hquiet
    exact drifts_quiet hs hquiet
  | appendLabel id t =>
    have hquiet := (r.cut n).appendLabel_quiet h.paired id t m
    rw [appendLabel_cut h] at hquiet
    exact drifts_quiet hs hquiet
  | setKey id k =>
    have hquiet := (r.cut n).setKey_quiet h.paired id k m
    rw [setKey_cut h] at hquiet
    exact drifts_quiet hs hquiet
  | writeKey id k =>
    have hquiet := (r.cut n).writeKey_quiet h.paired id k m
    rw [writeKey_cut h] at hquiet
    exact drifts_quiet hs hquiet
  | _ => exact drifts_nothing hs rfl

/-- Every regular call to a registry of any size is a change over the slots of its ids, or writes to
the values alone. -/
theorem step_drifts (hs : s.On r) (hfreed : ∀ id ∈ r.freed, (r.cut n).monitor.HasId id) {c : Call}
    (hc : c.Regular) (wallTime : Int) (m : Memory) : (s.step wallTime m c).Drifts r n m := by
  cases c with
  | look q => cases q <;> exact drifts_nothing hs.registry rfl
  | metadata a => exact hc.elim
  | values a => exact hc.elim
  | command k =>
    simp only [step, hs.registry]
    exact command_drifts h hs.registry hfreed k
  | handle k => exact handle_drifts h hs k
  | _ => exact drifts_nothing hs.registry rfl

end Spans

/-- What a session and its memory can become by regular calls, each made at a time of its own. -/
inductive Attains (s : Session) (m : Memory) : Session → Memory → Prop
  | start : Attains s m s m
  | step {t : Session} {m' : Memory} (wallTime : Int) (c : Call) (regular : c.Regular)
      (before : Attains s m t m') :
    Attains s m (t.step wallTime m' c).session (m'.storeAll (t.step wallTime m' c).writes)

theorem Attains.trans {t t' : Session} {m₁ m' : Memory} (h : s.Attains m t m₁)
    (h' : t.Attains m₁ t' m') : s.Attains m t' m' := by
  induction h' with
  | start => exact h
  | step wallTime c regular _ ih => exact .step wallTime c regular ih

theorem Attains.run (s : Session) (wallTime : Int) (m : Memory) (calls : List Call)
    (regular : ∀ c ∈ calls, c.Regular) :
    s.Attains m (s.run wallTime m calls).1 (s.run wallTime m calls).2 := by
  induction calls generalizing s m with
  | nil => exact .start
  | cons c rest ih =>
    obtain ⟨hc, hrest⟩ := List.forall_mem_cons.1 regular
    exact (Attains.step wallTime c hc .start).trans (ih _ _ hrest)

/-- What holds at the start, over the slots of the ids, and is kept by every change and by writing
to the values, holds whatever was called. -/
theorem Attains.drifts {P : Registry → Memory → Prop} {t : Session} {m' : Memory}
    (h : r.monitor.Spans n) (hs : s.On r) (start : P (r.cut n) m)
    (freed : ∀ r m, P r m → ∀ id ∈ r.freed, r.monitor.HasId id)
    (change : ∀ r m now d es r' m', r.monitor.Paired → P r m → r.Change now m d es r' m' → P r' m')
    (values : ∀ r : Registry, ∀ m m', r.monitor.Spans n → P (r.cut n) m →
      r.monitor.values.Confines m m' → P (r.cut n) m')
    (ht : s.Attains m t m') :
    ∃ r', t.On r' ∧ r'.monitor = r.monitor ∧ P (r'.cut n) m' := by
  induction ht with
  | start => exact ⟨r, hs, rfl, start⟩
  | @step t m₁ wallTime c hc _ ih =>
    obtain ⟨r₁, hon, hmon, hP⟩ := ih
    have h₁ : r₁.monitor.Spans n := hmon ▸ h
    obtain ⟨r', hon', hmon'⟩ := step_on hon wallTime m₁ c
    obtain ⟨r₂, hr₂, hdrift⟩ := step_drifts h₁ hon (freed _ _ hP) hc wallTime m₁
    have hsame : r₂ = r' := Option.some.inj (hr₂.symm.trans hon'.registry)
    subst hsame
    refine ⟨r₂, hon', hmon'.trans hmon, ?_⟩
    cases hdrift with
    | change _ hchange => exact change _ _ _ _ _ _ _ h₁.paired hP hchange
    | values hvalues => exact values _ _ _ h₁ hP hvalues

theorem run_drifts {P : Registry → Memory → Prop} (h : r.monitor.Spans n) (hs : s.On r)
    (start : P (r.cut n) m) (freed : ∀ r m, P r m → ∀ id ∈ r.freed, r.monitor.HasId id)
    (change : ∀ r m now d es r' m', r.monitor.Paired → P r m → r.Change now m d es r' m' → P r' m')
    (values : ∀ r : Registry, ∀ m m', r.monitor.Spans n → P (r.cut n) m →
      r.monitor.values.Confines m m' → P (r.cut n) m')
    (wallTime : Int) (calls : List Call) (regular : ∀ c ∈ calls, c.Regular) :
    ∃ r', (s.run wallTime m calls).1.On r' ∧ r'.monitor = r.monitor ∧
      P (r'.cut n) (s.run wallTime m calls).2 :=
  (Attains.run s wallTime m calls regular).drifts h hs start freed change values

end Session

/-- No more ids were issued than there are slots, and only ids are freed. -/
structure Registry.Bounded (r : Registry) : Prop where
  issued_le : r.issued ≤ r.monitor.slots
  hasId : ∀ id ∈ r.freed, r.monitor.HasId id

namespace Registry

variable {r r' : Registry} {m m' m₁ : Memory} {id now : Int}

theorem Taken.bounded (ht : r.Taken now m r' id m₁) (h : r.Bounded) : r'.Bounded := by
  cases ht with
  | reused freed =>
    refine ⟨h.issued_le, fun j hj => h.hasId j ?_⟩
    rw [freed]
    rcases List.mem_append.1 hj with hj | hj
    · exact List.mem_append_left _ hj
    · exact List.mem_append_right _ (List.mem_cons_of_mem _ hj)
  | fresh others room => exact ⟨room, h.hasId⟩

theorem Change.bounded {d : Deed} {es : List Event} (hc : r.Change now m d es r' m')
    (h : r.Bounded) : r'.Bounded := by
  refine ⟨?_, hc.freed_hasId h.hasId⟩
  cases hc with
  | quiet | freed => exact h.issued_le
  | published taken => exact (taken.bounded h).issued_le
  | withdrawn taken => exact (taken.bounded h).issued_le

theorem Made.bounded (h : r.Made) (n : Nat) : (r.cut n).Bounded := by
  have hissued : (r.cut n).issued = 0 := h.issued_eq
  have hfreed : (r.cut n).freed = [] := h.freed_eq
  refine ⟨by omega, fun id hid => ?_⟩
  rw [hfreed] at hid
  cases hid

end Registry

namespace Session

open Registry

variable {s : Session} {r : Registry} {n : Nat}

theorem step_bounded (h : r.monitor.Spans n) (hs : s.On r) (hb : (r.cut n).Bounded)
    (wallTime : Int) (m : Memory) (c : Call) :
    ∃ r', (s.step wallTime m c).session.On r' ∧ r'.monitor = r.monitor ∧ (r'.cut n).Bounded := by
  obtain ⟨r₁, hon, hmon⟩ := step_on hs wallTime m c
  by_cases hregular : c.Regular
  · obtain ⟨r₂, hr₂, hdrift⟩ := step_drifts h hs hb.hasId hregular wallTime m
    have hsame : r₂ = r₁ := Option.some.inj (hr₂.symm.trans hon.registry)
    subst hsame
    refine ⟨r₂, hon, hmon, ?_⟩
    cases hdrift with
    | change _ hchange => exact hchange.bounded hb
    | values => exact hb
  · rw [step_session_of_not_regular hregular]
    exact ⟨r, hs, rfl, hb⟩

theorem run_bounded (h : r.monitor.Spans n) (hs : s.On r) (hb : (r.cut n).Bounded)
    (wallTime : Int) (m : Memory) (calls : List Call) :
    ∃ r', (s.run wallTime m calls).1.On r' ∧ r'.monitor = r.monitor ∧ (r'.cut n).Bounded := by
  induction calls generalizing s r m with
  | nil => exact ⟨r, hs, rfl, hb⟩
  | cons c rest ih =>
    obtain ⟨r₁, hon, hmon, hb₁⟩ := step_bounded h hs hb wallTime m c
    obtain ⟨r', hon', hmon', hb'⟩ :=
      ih (hmon ▸ h) hon hb₁ (m.storeAll (s.step wallTime m c).writes)
    exact ⟨r', hon', hmon'.trans hmon, hb'⟩

end Session

end Counters

end Telemetry
