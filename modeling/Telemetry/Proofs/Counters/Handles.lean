import Telemetry.Proofs.Counters.Session

namespace Telemetry.Counters

namespace Registry

variable {r r' : Registry} {m : Memory} {id now : Int}

theorem takeId_monitor_eq (h : (r.takeId now m).result = .ok (r', id)) :
    r'.monitor = r.monitor := by
  obtain ⟨found, m₁, -, hrun⟩ := Action.run_bind_eq_ok (Prod.ext rfl h :
    (r.takeId now).run m = (m.storeAll (r.takeId now m).writes, .ok (r', id)))
  cases found with
  | some p =>
    obtain ⟨_, m₂, -, hdone⟩ := Action.run_bind_eq_ok hrun
    rw [Action.run_pure] at hdone
    cases hdone
    rfl
  | none =>
    by_cases hfull : r.monitor.maxId < r.issued
    · simp only [if_pos hfull, Action.run_refuse] at hrun
      cases hrun
    · simp only [if_neg hfull, Action.run_pure] at hrun
      cases hrun
      rfl

theorem allocate_monitor_eq (r : Registry) (now : Int) (q : Request) (m : Memory) :
    (r.allocate now q m).registry.monitor = r.monitor := by
  unfold allocate
  cases htake : (r.takeId now m).result with
  | error e => simp only [htake]
  | ok p =>
    obtain ⟨r', id⟩ := p
    have hmon := takeId_monitor_eq htake
    simp only [htake]
    split <;> exact hmon

theorem free_monitor_eq (r : Registry) (now id : Int) (m : Memory) :
    (r.free now id m).registry.monitor = r.monitor := by
  unfold free
  dsimp only
  split <;> rfl

end Registry

namespace Session

variable {s : Session} {r : Registry} {m : Memory} {now : Int}

/-- A session keeps its views, and its registry works over the same ones. -/
structure Keeps (s t : Session) : Prop where
  monitor : t.monitor = s.monitor
  registry : ∀ r, s.registry = some r → ∃ r', t.registry = some r' ∧ r'.monitor = r.monitor

theorem Keeps.refl (s : Session) : s.Keeps s := ⟨rfl, fun r hr => ⟨r, hr, rfl⟩⟩

theorem giveBack_keeps (s : Session) (now : Int) (x : Handle) (m : Memory) :
    s.Keeps (s.giveBack now x m).session := by
  unfold giveBack
  cases hr : s.registry with
  | none => exact Keeps.refl s
  | some r =>
    by_cases howns : x.owns
    · simp only [if_pos howns]
      refine ⟨rfl, fun r' hr' => ⟨_, rfl, ?_⟩⟩
      rw [hr] at hr'
      cases hr'
      exact r.free_monitor_eq now x.id m
    · simp only [if_neg howns]
      exact Keeps.refl s

theorem giveBack_handles (s : Session) (now : Int) (x : Handle) (m : Memory) :
    (s.giveBack now x m).session.handles = s.handles := by
  unfold giveBack
  cases s.registry with
  | none => rfl
  | some r =>
    by_cases howns : x.owns
    · simp only [if_pos howns]
      rfl
    · simp only [if_neg howns]

/-- Where a handle of a session after a call comes from: it was there before, perhaps with other
flags, or the call opened it on a slot. -/
inductive Origin (s : Session) (now : Int) (m : Memory) (c : Call) (x : Handle) : Prop
  | kept (y : Handle) (there : some y ∈ s.handles) (values : x.values = y.values)
      (id : x.id = y.id)
  | raw (managed owned : Bool) (call : c = .handle (.raw x.id managed))
      (created : Handle.create s.monitor.values x.id owned = .ok x)
  | opened (q : Request) (r : Registry) (call : c = .command (.openHandle q))
      (registry : s.registry = some r) (allocated : (r.allocate now q m).result = .ok x.id)
      (created : Handle.create r.monitor.values x.id true = .ok x)

theorem mem_of_handle? {h : Nat} {x : Handle} (hx : s.handle? h = some x) :
    some x ∈ s.handles := List.mem_of_getElem? (Option.join_eq_some_iff.1 hx)

theorem eq_ok_of_mem_opened {opened : Except Fault Handle} {x : Handle}
    (hx : some x ∈ opened.toOption.toList.map some) : opened = .ok x := by
  cases opened with
  | error e => cases hx
  | ok y => rw [Option.some.inj (List.mem_singleton.1 hx)]

theorem id_of_create {v : View} {id : Int} {managed : Bool} {x : Handle}
    (hx : Handle.create v id managed = .ok x) : x = ⟨v, id, managed, false⟩ := by
  unfold Handle.create View.check at hx
  split at hx
  · cases hx
    rfl
  · cases hx

section Calls

variable {c : Call} {x : Handle}

theorem origin_of_set {h : Nat} {y : Option Handle} {t : Session}
    (ht : t.handles = s.handles.set h y) (hy : ∀ x, y = some x → s.Origin now m c x)
    (hx : some x ∈ t.handles) : s.Origin now m c x := by
  rw [ht] at hx
  rcases List.mem_or_eq_of_mem_set hx with hx | hx
  · exact .kept x hx rfl rfl
  · exact hy x hx.symm

theorem use_origin {h : Nat} {y : Handle} (hy : some y ∈ s.handles) (u : HandleUse)
    (hx : some x ∈ (s.use now h y m u).session.handles) : s.Origin now m c x := by
  cases u with
  | disconnect =>
    refine origin_of_set (y := some y.disconnect) rfl (fun z hz => ?_) hx
    cases hz
    exact .kept y hy rfl rfl
  | close =>
    have hset : (s.use now h y m .close).session.handles = s.handles.set h (some y.close) :=
      congrArg (List.set · h (some y.close)) (s.giveBack_handles now y m)
    refine origin_of_set hset (fun z hz => ?_) hx
    cases hz
    exact .kept y hy rfl rfl
  | _ => exact .kept x hx rfl rfl

theorem handle_origin (hc : HandleCommand) (hcall : c = .handle hc)
    (hx : some x ∈ (s.handle now m hc).session.handles) : s.Origin now m c x := by
  have hhandled := s.handled now m hc
  generalize s.deed (.handle hc) = d, s.handle now m hc = y at hhandled hx
  cases hhandled with
  | raw id managed =>
    rcases List.mem_append.1 hx with hx | hx
    · exact .kept x hx rfl rfl
    · have hopened := eq_ok_of_mem_opened hx
      have hid : x.id = id := congrArg Handle.id (id_of_create hopened)
      exact .raw managed _ (by rw [hcall, hid]) (by rw [hid]; exact hopened)
  | missing => exact .kept x hx rfl rfl
  | moved h y there =>
    have hy := mem_of_handle? there
    rcases List.mem_append.1 hx with hx | hx
    · refine origin_of_set (y := some y.emptied) (t := s.setHandle h _) rfl (fun z hz => ?_) hx
      cases hz
      exact .kept y hy rfl rfl
    · cases List.mem_singleton.1 hx
      exact .kept x hy rfl rfl
  | same => exact .kept x hx rfl rfl
  | assigned h source y z there giver other =>
    have hz := mem_of_handle? giver
    replace hx : some x ∈ (((s.giveBack now y m).session.handles.set h (some z)).set source
      (some z.emptied)) := hx
    rw [giveBack_handles] at hx
    rcases List.mem_or_eq_of_mem_set hx with hx | hx
    · rcases List.mem_or_eq_of_mem_set hx with hx | hx
      · exact .kept x hx rfl rfl
      · cases hx
        exact .kept x hz rfl rfl
    · cases hx
      exact .kept z hz rfl rfl
  | destroyed h y there =>
    have hset : ((s.giveBack now y m).session.setHandle h none).handles = s.handles.set h none :=
      congrArg (List.set · h none) (s.giveBack_handles now y m)
    exact origin_of_set hset (fun z hz => by cases hz) hx
  | used h y there u => exact use_origin (mem_of_handle? there) u hx

theorem command_origin (hr : s.registry = some r) (k : Command) (hcall : c = .command k)
    (hx : some x ∈ (s.command r now m k).session.handles) : s.Origin now m c x := by
  cases k with
  | openHandle q =>
    rcases List.mem_append.1 hx with hx | hx
    · exact .kept x hx rfl rfl
    · have hopened := eq_ok_of_mem_opened hx
      cases hresult : (r.allocate now q m).result with
      | error e =>
        rw [hresult] at hopened
        cases hopened
      | ok id =>
        rw [hresult] at hopened
        have hid : x.id = id := congrArg Handle.id (id_of_create hopened)
        exact .opened q r hcall hr (by rw [hid]; exact hresult) (by rw [hid]; exact hopened)
  | _ => exact .kept x hx rfl rfl

theorem step_origin {wallTime : Int}
    (hx : some x ∈ (s.step wallTime m c).session.handles) :
    s.Origin (s.clock.read wallTime) m c x := by
  cases c with
  | look q =>
    have hsame : (s.step wallTime m (.look q)).session = s := by cases q <;> rfl
    rw [hsame] at hx
    exact .kept x hx rfl rfl
  | command k =>
    cases hr : s.registry with
    | none =>
      simp only [step, hr] at hx
      exact .kept x hx rfl rfl
    | some r =>
      simp only [step, hr] at hx
      exact command_origin hr k rfl hx
  | handle k => exact handle_origin k rfl hx
  | _ => exact .kept x hx rfl rfl

theorem use_keeps (s : Session) (now : Int) (h : Nat) (x : Handle) (m : Memory) (u : HandleUse) :
    s.Keeps (s.use now h x m u).session := by
  have hback := s.giveBack_keeps now x m
  cases u with
  | close => exact ⟨hback.monitor, hback.registry⟩
  | _ => exact ⟨rfl, fun r hr => ⟨r, hr, rfl⟩⟩

theorem handle_keeps (s : Session) (now : Int) (m : Memory) (k : HandleCommand) :
    s.Keeps (s.handle now m k).session := by
  have hhandled := s.handled now m k
  generalize s.deed (.handle k) = d, s.handle now m k = y at hhandled ⊢
  cases hhandled with
  | raw | moved => exact ⟨rfl, fun r hr => ⟨r, hr, rfl⟩⟩
  | missing | same => exact Keeps.refl s
  | assigned h source x y there giver other =>
    have hback := s.giveBack_keeps now x m
    exact ⟨hback.monitor, hback.registry⟩
  | destroyed h x there =>
    have hback := s.giveBack_keeps now x m
    exact ⟨hback.monitor, hback.registry⟩
  | used h x there u => exact s.use_keeps now h x m u

theorem command_keeps (hr : s.registry = some r) (k : Command) :
    s.Keeps (s.command r now m k).session := by
  have hsettle {r' : Registry} (hmon : r'.monitor = r.monitor) (t : Session)
      (ht : t.registry = some r') (hm : t.monitor = s.monitor) : s.Keeps t := by
    refine ⟨hm, fun r₁ hr₁ => ⟨r', ht, ?_⟩⟩
    rw [hr] at hr₁
    cases hr₁
    exact hmon
  cases k with
  | allocate q => exact hsettle (r.allocate_monitor_eq now q m) _ rfl rfl
  | free id => exact hsettle (r.free_monitor_eq now id m) _ rfl rfl
  | openHandle q => exact hsettle (r.allocate_monitor_eq now q m) _ rfl rfl
  | _ => exact Keeps.refl s

theorem step_session_of_not_regular {c : Call} (hc : ¬ c.Regular) (s : Session) (wallTime : Int)
    (m : Memory) : (s.step wallTime m c).session = s := by
  cases c with
  | metadata a => rfl
  | values a => rfl
  | _ => exact absurd trivial hc

theorem step_keeps (s : Session) (wallTime : Int) (m : Memory) (c : Call) :
    s.Keeps (s.step wallTime m c).session := by
  cases c with
  | look q => cases q <;> exact Keeps.refl s
  | command k =>
    simp only [step]
    split
    · exact Keeps.refl s
    · next hr => exact command_keeps hr k
  | handle k => exact handle_keeps s _ m k
  | _ => exact ⟨rfl, fun r hr => ⟨r, hr, rfl⟩⟩

/-- A session works on a registry over the same views after every call, whatever it writes. -/
theorem step_on (hs : s.On r) (wallTime : Int) (m : Memory) (c : Call) :
    ∃ r', (s.step wallTime m c).session.On r' ∧ r'.monitor = r.monitor := by
  have hkeeps := s.step_keeps wallTime m c
  obtain ⟨r', hr', hmon⟩ := hkeeps.registry r hs.registry
  refine ⟨r', ⟨hr', ?_, fun x hx => ?_⟩, hmon⟩
  · rw [hmon, hs.monitor, hkeeps.monitor]
  · rw [hkeeps.monitor]
    rcases step_origin hx with ⟨y, hy, hvalues, hid⟩ | ⟨_, _, _, hcreate⟩ |
      ⟨_, r₁, _, hr₁, _, hcreate⟩
    · have hlies := hs.handles y hy
      exact ⟨hvalues.trans hlies.values, hid ▸ hlies.hasSlot⟩
    · exact liesIn_of_create hcreate
    · have hsame : r₁.monitor = s.monitor := by
        rw [hs.registry] at hr₁
        cases hr₁
        exact hs.monitor
      rw [hsame] at hcreate
      exact liesIn_of_create hcreate

end Calls

end Session

def Call.Narrow : Call → Prop
  | .handle (.raw id _) => Word.wrap 4 id = id
  | _ => True

instance : DecidablePred Call.Narrow
  | .handle (.raw id _) => inferInstanceAs (Decidable (Word.wrap 4 id = id))
  | .handle (.move _) | .handle (.assign _ _) | .handle (.destroy _) | .handle (.use _ _)
  | .look _ | .metadata _ | .values _ | .setClock _ | .advanceClock _ | .command _ =>
    .isTrue trivial

theorem Monitor.HasSlot.hasId {w : Monitor} {id : Int} (h : w.HasSlot id)
    (hsmall : w.values.capacity < 0x4000000000) (hid : Word.wrap 4 id = id) : w.HasId id := by
  have hmodulus : Word.modulus 4 = 4294967296 := rfl
  have hlow : -((4294967296 : Nat) / 2 : Int) ≤ id.bmod 4294967296 := Int.le_bmod (by decide)
  have hhigh : id.bmod 4294967296 < ((4294967296 : Nat) + 1) / 2 := Int.bmod_lt (by decide)
  rw [Word.wrap, hmodulus] at hid
  rw [hid] at hlow hhigh
  simp only [HasSlot, Slot.offset, Word.offset, Slot.length] at h
  simp only [HasId, slots, Slot.length]
  omega

/-- A registry as its constructor makes it, over two views that share no byte and with fewer slots
than a word of four bytes can count. -/
structure Registry.Built (r : Registry) : Prop where
  created : Registry.create r.monitor true r.timeout = .ok r
  apart : r.monitor.metadata.Apart r.monitor.values
  small : r.monitor.values.capacity < 0x4000000000

namespace Registry

variable {r r' : Registry} {m m' : Memory} {now : Int}

theorem Built.paired (h : r.Built) : r.monitor.Paired := by
  have hsmall := h.small
  refine ⟨h.apart, (create_eq_ok_iff.1 h.created).2.1, ?_⟩
  simp only [Monitor.slots, Slot.length]
  omega

theorem Built.issued_eq (h : r.Built) : r.issued = 0 := by
  rw [(create_eq_ok_iff.1 h.created).2.2.2]

theorem Built.freed_eq (h : r.Built) : r.freed = [] := by
  rw [(create_eq_ok_iff.1 h.created).2.2.2]

theorem Change.freed_hasId {d : Deed} {es : List Event} (h : Change r now m d es r' m')
    (hfreed : ∀ id ∈ r.freed, r.monitor.HasId id) : ∀ id ∈ r'.freed, r'.monitor.HasId id := by
  have htaken {r₁ : Registry} {j : Int} {m₁ : Memory} (ht : Taken r now m r₁ j m₁) :
      ∀ id ∈ r₁.freed, r₁.monitor.HasId id := by
    rw [ht.monitor_eq]
    cases ht with
    | reused freed =>
      intro id hid
      apply hfreed id
      rw [freed]
      rcases List.mem_append.1 hid with hid | hid
      · exact List.mem_append_left _ hid
      · exact List.mem_append_right _ (List.mem_cons_of_mem _ hid)
    | fresh => exact hfreed
  cases h with
  | quiet => exact hfreed
  | freed hasId =>
    intro id hid
    rcases List.mem_append.1 hid with hid | hid
    · exact hfreed id hid
    · exact List.mem_singleton.1 hid ▸ hasId
  | published taken => exact htaken taken
  | withdrawn taken =>
    intro id hid
    rcases List.mem_append.1 hid with hid | hid
    · exact htaken taken id hid
    · rw [List.mem_singleton.1 hid]
      exact taken.monitor_eq ▸ taken.hasId hfreed

end Registry

namespace Session

variable {s : Session} {r : Registry} {m : Memory}

/-- Every id that a session holds on to has a slot. -/
structure Sound (s : Session) (r : Registry) : Prop where
  on : s.On r
  freed : ∀ id ∈ r.freed, r.monitor.HasId id
  handles : ∀ x, some x ∈ s.handles → r.monitor.HasId x.id

theorem On.unique {r' : Registry} (h : s.On r) (h' : s.On r') : r = r' :=
  Option.some.inj (h.registry.symm.trans h'.registry)

theorem step_sound (hs : s.Sound r) (hp : r.monitor.Paired)
    (hsmall : r.monitor.values.capacity < 0x4000000000) {c : Call} (hc : c.Narrow)
    (wallTime : Int) (m : Memory) :
    ∃ r', (s.step wallTime m c).session.Sound r' ∧ r'.monitor = r.monitor := by
  obtain ⟨r', hon, hmon⟩ := step_on hs.on wallTime m c
  refine ⟨r', ⟨hon, ?_, fun x hx => ?_⟩, hmon⟩
  · by_cases hregular : c.Regular
    · obtain ⟨r'', hon', hchange⟩ := step_follows hs.on hp hs.freed hregular wallTime (m := m)
      rw [hon.unique hon']
      exact hchange.freed_hasId hs.freed
    · rw [step_session_of_not_regular hregular] at hon
      rw [hon.unique hs.on]
      exact hs.freed
  · rw [hmon]
    rcases step_origin hx with ⟨y, hy, -, hid⟩ | ⟨_, _, hcall, hcreate⟩ |
      ⟨q, r₁, _, hr₁, hallocated, _⟩
    · exact hid ▸ hs.handles y hy
    · subst hcall
      rw [← hs.on.monitor] at hcreate
      exact (liesIn_of_create hcreate).hasSlot.hasId hsmall hc
    · have hsame : r = r₁ := Option.some.inj (hs.on.registry.symm.trans hr₁)
      subst hsame
      obtain ⟨_, _, htaken, -⟩ := Registry.allocate_eq_ok hp hs.freed hallocated
      exact htaken.hasId hs.freed

theorem run_sound (hs : s.Sound r) (hp : r.monitor.Paired)
    (hsmall : r.monitor.values.capacity < 0x4000000000) (wallTime : Int) (m : Memory)
    (calls : List Call) (narrow : ∀ c ∈ calls, c.Narrow) :
    ∃ r', (s.run wallTime m calls).1.Sound r' ∧ r'.monitor = r.monitor := by
  induction calls generalizing s r m with
  | nil => exact ⟨r, hs, rfl⟩
  | cons c rest ih =>
    obtain ⟨hc, hrest⟩ := List.forall_mem_cons.1 narrow
    obtain ⟨r₁, hsound, hmon⟩ := step_sound hs hp hsmall hc wallTime m
    obtain ⟨r', hsound', hmon'⟩ :=
      ih hsound (hmon ▸ hp) (hmon ▸ hsmall) (m.storeAll (s.step wallTime m c).writes) hrest
    exact ⟨r', hsound', hmon'.trans hmon⟩

theorem sound_of_built (h : r.Built) (clock : Clock) :
    (create r.monitor (some r) clock).Sound r := by
  refine ⟨on_create r clock, fun id hid => ?_,
    fun _ hx => absurd hx List.not_mem_nil⟩
  rw [h.freed_eq] at hid
  cases hid

end Session

end Telemetry.Counters
