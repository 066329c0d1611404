import Telemetry.Proofs.Counters.Handover

namespace Telemetry.Counters

namespace Session

/-- A call takes the manager of a handle away: it moves from the handle or disconnects it. -/
inductive Detaches (s : Session) (k : Nat) : Call → Prop
  | moved : Detaches s k (.handle (.move k))
  | assigned (j : Nat) (other : j ≠ k) (there : (s.handle? j).isSome) :
      Detaches s k (.handle (.assign j k))
  | disconnected : Detaches s k (.handle (.use k .disconnect))

end Session

/-- A call puts another handle in the place of one, or ends it. -/
def Call.Reseats (k : Nat) : Call → Prop
  | .handle (.assign j source) => j = k ∧ source ≠ k
  | .handle (.destroy j) => j = k
  | _ => False

def HandleUse.OnLabel : HandleUse → Prop
  | .label | .setLabel _ | .appendLabel _ => True
  | _ => False

/-- The handle at a place has no manager. -/
def Unmanaged (xs : List (Option Handle)) (k : Nat) : Prop :=
  ∃ x, xs[k]? = some (some x) ∧ x.managed = false

namespace Unmanaged

variable {xs : List (Option Handle)} {k : Nat}

theorem append (h : Unmanaged xs k) (ys : List (Option Handle)) : Unmanaged (xs ++ ys) k := by
  obtain ⟨x, hx, hm⟩ := h
  obtain ⟨hlt, -⟩ := List.getElem?_eq_some_iff.1 hx
  exact ⟨x, (List.getElem?_append_left hlt).trans hx, hm⟩

theorem set (h : Unmanaged xs k) {j : Nat} {y : Option Handle}
    (hy : j = k → ∃ x, y = some x ∧ x.managed = false) : Unmanaged (xs.set j y) k := by
  obtain ⟨x, hx, hm⟩ := h
  obtain ⟨hlt, -⟩ := List.getElem?_eq_some_iff.1 hx
  by_cases hj : j = k
  · obtain ⟨z, rfl, hz⟩ := hy hj
    subst hj
    exact ⟨z, List.getElem?_set_self hlt, hz⟩
  · exact ⟨x, (List.getElem?_set_ne hj).trans hx, hm⟩

end Unmanaged

namespace Session

section Detached

variable {s : Session} {m : Memory} {now wallTime : Int} {k : Nat} {c : Call}

theorem use_unmanaged (h : Unmanaged s.handles k) {j : Nat} {x : Handle}
    (hx : s.handle? j = some x) (u : HandleUse) :
    Unmanaged (s.use now j x m u).session.handles k := by
  cases u with
  | disconnect => exact h.set fun _ => ⟨x.disconnect, rfl, rfl⟩
  | close =>
    show Unmanaged ((s.giveBack now x m).session.handles.set j (some x.close)) k
    rw [giveBack_handles]
    refine h.set fun hj => ⟨x.close, rfl, ?_⟩
    -- it is this handle that is closed, and it had no manager before
    obtain ⟨y, hy, hm⟩ := h
    rw [hj] at hx
    rw [Trusted.get_of_handle? hx] at hy
    cases hy
    exact hm
  | _ => exact h

theorem handle_unmanaged (h : Unmanaged s.handles k) (hc : HandleCommand)
    (hno : ¬ (Call.handle hc).Reseats k) : Unmanaged (s.handle now m hc).session.handles k := by
  have hhandled := s.handled now m hc
  generalize s.deed (.handle hc) = d, s.handle now m hc = z at hhandled ⊢
  cases hhandled with
  | raw id managed => exact h.append _
  | missing | same => exact h
  | moved j x there => exact Unmanaged.append (h.set fun _ => ⟨x.emptied, rfl, rfl⟩) _
  | assigned j source x y there giver other =>
    have hj : j ≠ k := fun hj => hno ⟨hj, fun hsource => other (hj.trans hsource.symm)⟩
    show Unmanaged (((s.giveBack now x m).session.handles.set j (some y)).set source
      (some y.emptied)) k
    rw [giveBack_handles]
    exact Unmanaged.set (h.set fun hjk => absurd hjk hj) fun _ => ⟨y.emptied, rfl, rfl⟩
  | destroyed j x there =>
    show Unmanaged ((s.giveBack now x m).session.handles.set j none) k
    rw [giveBack_handles]
    exact h.set fun hj => absurd hj hno
  | used j x there u => exact use_unmanaged h there u

theorem step_unmanaged (h : Unmanaged s.handles k) (hno : ¬ c.Reseats k) (wallTime : Int) :
    Unmanaged (s.step wallTime m c).session.handles k := by
  cases c with
  | look q => cases q <;> exact h
  | handle hc => exact handle_unmanaged h hc hno
  | command q =>
    simp only [step]
    split
    · exact h
    · cases q with
      | openHandle q => exact h.append _
      | _ => exact h
  | _ => exact h

theorem run_unmanaged (h : Unmanaged s.handles k) (wallTime : Int) (calls : List Call)
    (hno : ∀ c ∈ calls, ¬ c.Reseats k) : Unmanaged (s.run wallTime m calls).1.handles k := by
  induction calls generalizing s m with
  | nil => exact h
  | cons c rest ih =>
    obtain ⟨hc, hrest⟩ := List.forall_mem_cons.1 hno
    exact ih (step_unmanaged h hc wallTime) hrest

theorem unmanaged_of_detaches (wallTime : Int) (m : Memory) (hthere : (s.handle? k).isSome)
    (hc : s.Detaches k c) : Unmanaged (s.step wallTime m c).session.handles k := by
  obtain ⟨x, hx⟩ := Option.isSome_iff_exists.1 hthere
  have hget := Trusted.get_of_handle? hx
  obtain ⟨hlt, -⟩ := List.getElem?_eq_some_iff.1 hget
  cases hc with
  | moved =>
    simp only [step, Session.handle, hx]
    have hset : Unmanaged (s.handles.set k (some x.emptied)) k :=
      ⟨x.emptied, List.getElem?_set_self hlt, rfl⟩
    exact hset.append _
  | assigned j other there =>
    obtain ⟨y, hy⟩ := Option.isSome_iff_exists.1 there
    simp only [step, Session.handle, hx, hy, if_neg other]
    show Unmanaged (((s.giveBack _ y m).session.handles.set j (some x)).set k
      (some x.emptied)) k
    rw [giveBack_handles]
    exact ⟨x.emptied, List.getElem?_set_self (by rwa [List.length_set]), rfl⟩
  | disconnected =>
    simp only [step, Session.handle, hx]
    exact ⟨x.disconnect, List.getElem?_set_self hlt, rfl⟩

theorem label_refused (h : Unmanaged s.handles k) {u : HandleUse} (hu : u.OnLabel)
    (wallTime : Int) (m : Memory) : ∃ e : Fault, e.kind = .invalidState ∧
      s.step wallTime m (.handle (.use k u)) = ⟨s, [], .error e, none⟩ := by
  obtain ⟨x, hget, hm⟩ := h
  have hx : s.handle? k = some x := Option.join_eq_some_iff.2 hget
  have hmanager : x.manager s.registry = .error (.detachedHandle x.id) := by
    unfold Handle.manager
    split
    · rw [hm]
      rfl
    · rfl
  refine ⟨.detachedHandle x.id, rfl, ?_⟩
  simp only [step, Session.handle, hx]
  cases u with
  | label =>
    rw [use, Handle.label, hmanager]
    rfl
  | setLabel t =>
    rw [use, Handle.setLabel, hmanager]
    rfl
  | appendLabel t =>
    rw [use, Handle.appendLabel, hmanager]
    rfl
  | _ => exact hu.elim

end Detached

/-- A call ends a handle: it closes, overwrites or destroys it. -/
inductive Ends (s : Session) : Call → Handle → Prop
  | closed (k : Nat) (x : Handle) (there : s.handle? k = some x) :
      Ends s (.handle (.use k .close)) x
  | overwritten (k source : Nat) (x y : Handle) (there : s.handle? k = some x)
      (giver : s.handle? source = some y) (other : k ≠ source) :
      Ends s (.handle (.assign k source)) x
  | destroyed (k : Nat) (x : Handle) (there : s.handle? k = some x) :
      Ends s (.handle (.destroy k)) x

section Ends

variable {s : Session} {r : Registry} {m : Memory} {wallTime : Int} {x : Handle} {c : Call}

theorem Ends.mem (h : s.Ends c x) : some x ∈ s.handles := by
  cases h <;> exact mem_of_handle? ‹_›

theorem Ends.deed (h : s.Ends c x) : s.deed c = x.release := by
  cases h with
  | closed k x there => simp only [Session.deed, there, Handle.deed]
  | overwritten k source x y there giver other =>
    simp only [Session.deed, there, giver, if_neg other]
  | destroyed k x there => simp only [Session.deed, there]

theorem Ends.disconnected (h : s.Ends c x) : s.disconnected c = [] := by cases h <;> rfl

theorem owns_of_release {id : Int} (h : x.release = .free id) : x.owns ∧ x.id = id := by
  unfold Handle.release at h
  by_cases howns : x.owns
  · rw [if_pos howns] at h
    cases h
    exact ⟨howns, rfl⟩
  · rw [if_neg howns] at h
    cases h

theorem exists_ends_of_handle {k : HandleCommand} {id : Int}
    (hdeed : s.deed (.handle k) = .free id) : ∃ x, s.Ends (.handle k) x ∧ x.owns ∧ x.id = id := by
  -- what is asked of the registry depends neither on the time nor on the memory
  have hhandled := s.handled 0 Memory.zero k
  generalize s.deed (.handle k) = d, s.handle 0 Memory.zero k = y at hhandled hdeed
  cases hhandled with
  | raw | missing | moved | same => cases hdeed
  | assigned k source x y there giver other =>
    exact ⟨x, .overwritten k source x y there giver other, owns_of_release hdeed⟩
  | destroyed k x there => exact ⟨x, .destroyed k x there, owns_of_release hdeed⟩
  | used k x there u =>
    cases u with
    | close => exact ⟨x, .closed k x there, owns_of_release hdeed⟩
    | _ => cases hdeed

theorem exists_ends_of_free (hc : c.Orderly) {id : Int} (hdeed : s.deed c = .free id) :
    ∃ x, s.Ends c x ∧ x.owns ∧ x.id = id := by
  cases c with
  | handle k => exact exists_ends_of_handle hdeed
  | command k =>
    cases k with
    | free => exact hc.elim
    | _ => cases hdeed
  | _ => cases hdeed

theorem deed_of_returned {now t : Int} {d : Deed} {id : Int}
    (h : r.events now m d = [.returned id t]) : d = .free id := by
  unfold Registry.events at h
  cases d with
  | free j =>
    dsimp only at h
    split at h
    · cases h
      rfl
    · cases h
  | allocate q =>
    dsimp only at h
    split at h <;> cases h
  | _ => cases h

theorem closed_not_disconnected (s : Session) (c : Call) (id : Int) :
    .closed id ∉ s.disconnected c := by
  intro hmem
  unfold disconnected at hmem
  split at hmem
  · split at hmem
    · split at hmem
      · cases List.mem_singleton.1 hmem
      · cases hmem
    · cases hmem
  · cases hmem

theorem deed_of_closed (hs : s.On r) {id : Int} (hmem : .closed id ∈ s.transfers wallTime m c) :
    s.deed c = .free id := by
  have hevents := events_eq hs wallTime m c
  unfold transfers at hmem
  split at hmem
  · split at hmem <;> cases List.mem_singleton.1 hmem
  · next hreturned =>
    cases List.mem_singleton.1 hmem
    exact deed_of_returned (hevents.symm.trans hreturned)
  · exact absurd hmem (s.closed_not_disconnected c id)

end Ends

section Opening

variable {s : Session} {r : Registry} {m : Memory} {wallTime : Int}

theorem transfers_of_openHandle (hs : s.On r) {q : Request} {n : Int}
    (hreply : (s.step wallTime m (.command (.openHandle q))).reply = .ok (.number n)) :
    s.transfers wallTime m (.command (.openHandle q)) = [.opened n] := by
  simp only [step, hs.registry] at hreply
  cases hresult : (r.allocate (s.clock.read wallTime) q m).result with
  | error e =>
    simp only [command, addHandle, hresult] at hreply
    cases hreply
  | ok id =>
    have hevents : s.events wallTime m (.command (.openHandle q)) = [.taken id] :=
      (events_eq hs wallTime m _).trans (Registry.events_of_allocate_ok hresult)
    simp only [command, addHandle, hresult] at hreply
    change Except.map (fun x => Reply.number x.id) (Handle.create r.monitor.values id true) = _
      at hreply
    rw [transfers, hevents]
    cases hopened : Handle.create r.monitor.values id true with
    | error e =>
      rw [hopened] at hreply
      cases hreply
    | ok x =>
      rw [hopened, id_of_create hopened] at hreply
      cases hreply
      rfl

end Opening

/-- What a session keeps with its handles, given the transfers that led to it: every open handle
that is connected has a counter in use to itself; ids pass from hand to hand in the only ways there
are, so that an id is not freed twice, nor while somebody else has it; a handle that ends frees the
id that it has, and nothing else does; closing never fails; without a manager no label is reached;
and what is left in use when all handles are gone was disconnected, or was allocated without a
handle. -/
structure Entrusted (s : Session) (r : Registry) (wallTime : Int) (m : Memory)
    (log : List Transfer) : Prop where
  inUse : ∀ x, some x ∈ s.handles → x.owns → r.monitor.state x.id m = .ok Record.allocated
  alone : ∀ i j x y, s.handle? i = some x → s.handle? j = some y → x.owns → y.owns →
    x.id = y.id → i = j
  lawful : ∀ id, custody log id ≠ .broken
  held : ∀ id, custody log id = .handle ↔ ∃ x, some x ∈ s.handles ∧ x.owns ∧ x.id = id
  opens : ∀ q n, (s.step wallTime m (.command (.openHandle q))).reply = .ok (.number n) →
    s.transfers wallTime m (.command (.openHandle q)) = [.opened n]
  ends : ∀ c x, s.Ends c x → x.owns → s.transfers wallTime m c = [.closed x.id]
  closed : ∀ c id, c.Orderly → .closed id ∈ s.transfers wallTime m c →
    ∃ x, s.Ends c x ∧ x.owns ∧ x.id = id
  freed : ∀ id, .opened id ∈ log → custody log id = .free →
    r.monitor.state id m = .ok Record.reclaimed ∧ r.freed.count id = 1
  closes : ∀ k, (s.handle? k).isSome →
    (s.step wallTime m (.handle (.use k .close))).reply = .ok .unit
  detached : ∀ k c calls, (s.handle? k).isSome → s.Detaches k c → (∀ d ∈ calls, ¬ d.Reseats k) →
    ∀ s' m', s.run wallTime m (c :: calls) = (s', m') → ∀ u : HandleUse, u.OnLabel →
      ∃ e : Fault, e.kind = .invalidState ∧
        s'.step wallTime m' (.handle (.use k u)) = ⟨s', [], .error e, none⟩
  left : (∀ x, some x ∉ s.handles) → ∀ id, .opened id ∈ log →
    r.monitor.state id m = .ok Record.allocated → custody log id = .left ∨ custody log id = .plain

namespace Recounts

variable {s : Session} {r : Registry} {m : Memory} {log : List Transfer} {id : Int}
  (h : s.Recounts r m log)
include h

theorem custody_ne_broken (id : Int) : custody log id ≠ .broken := by
  intro hbroken
  have hshows := h.trusted.knows.shows id
  rw [hbroken] at hshows
  exact hshows

theorem custody_eq_handle_iff : custody log id = .handle ↔
    ∃ x, some x ∈ s.handles ∧ x.owns ∧ x.id = id := by
  refine ⟨h.trusted.exists_of_handle, ?_⟩
  rintro ⟨x, hx, howns, rfl⟩
  exact h.trusted.of_owns hx howns

variable (hp : r.monitor.Paired)
include hp

theorem state_of_taken (hid : (custody log id).Taken) :
    r.monitor.state id m = .ok Record.allocated := by
  have hlent := h.trusted.knows.lent hid
  rw [Monitor.state_eq hp (h.trusted.knows.hasId hlent.issued), hlent.state]

theorem state_of_free (hlog : .opened id ∈ log) (hid : custody log id = .free) :
    r.monitor.state id m = .ok Record.reclaimed ∧ r.freed.count id = 1 := by
  have hissued : r.Issued id := h.issued _ hlog
  have hshows := h.trusted.knows.shows id
  rw [hid] at hshows
  rw [Monitor.state_eq hp (h.trusted.knows.hasId hissued), hshows.state hissued]
  exact ⟨rfl, hshows.once hissued⟩

theorem close_ok (wallTime : Int) {k : Nat} (hthere : (s.handle? k).isSome) :
    (s.step wallTime m (.handle (.use k .close))).reply = .ok .unit := by
  obtain ⟨x, hx⟩ := Option.isSome_iff_exists.1 hthere
  simp only [step, Session.handle, hx]
  show (s.giveBack (s.clock.read wallTime) x m).reply = .ok .unit
  unfold giveBack
  rw [h.trusted.on.registry]
  by_cases howns : x.owns
  · simp only [if_pos howns, settle, free_of_owns h.trusted hp (mem_of_handle? hx) howns]
    rfl
  · simp only [if_neg howns]

theorem left_or_plain (hnone : ∀ x, some x ∉ s.handles) (hlog : .opened id ∈ log)
    (hallocated : r.monitor.state id m = .ok Record.allocated) :
    custody log id = .left ∨ custody log id = .plain := by
  cases hcustody : custody log id with
  | free =>
    rw [(h.state_of_free hp hlog hcustody).1] at hallocated
    exact absurd (Except.ok.inj hallocated).symm Record.allocated_ne_reclaimed
  | handle =>
    obtain ⟨x, hx, -⟩ := h.custody_eq_handle_iff.1 hcustody
    exact absurd hx (hnone x)
  | plain => exact .inr rfl
  | left => exact .inl rfl
  | broken => exact absurd hcustody (h.custody_ne_broken id)

theorem entrusted (wallTime : Int) : s.Entrusted r wallTime m log where
  inUse := by
    intro x hx howns
    have hcustody := h.trusted.of_owns hx howns
    exact h.state_of_taken hp (by rw [hcustody]; exact trivial)
  alone := by
    intro i j x y hx hy hxo hyo hid
    exact h.trusted.alone hx hy hxo hyo hid
  lawful := h.custody_ne_broken
  held := fun _ => h.custody_eq_handle_iff
  opens := fun _ _ hreply => transfers_of_openHandle h.trusted.on hreply
  ends := by
    intro c x hends howns
    rw [transfers_of_release h.trusted hp hends.mem hends.deed hends.disconnected, ended,
      if_pos howns]
  closed := fun _ _ hc hmem => exists_ends_of_free hc (deed_of_closed h.trusted.on hmem)
  freed := fun _ hlog hid => h.state_of_free hp hlog hid
  closes := fun _ hthere => h.close_ok hp wallTime hthere
  detached := by
    intro k c calls hthere hdetaches hno s' m' hrun u hu
    have hunmanaged := run_unmanaged (m := m.storeAll (s.step wallTime m c).writes)
      (unmanaged_of_detaches wallTime m hthere hdetaches) wallTime calls hno
    replace hrun : (s.step wallTime m c).session.run wallTime
      (m.storeAll (s.step wallTime m c).writes) calls = (s', m') := hrun
    rw [hrun] at hunmanaged
    exact label_refused hunmanaged hu wallTime m'
  left := fun hnone _ hlog hallocated => h.left_or_plain hp hnone hlog hallocated

end Recounts

/-- After every run of orderly calls the counters are in good hands. -/
theorem run_entrusted {r₀ : Registry} (built : r₀.Built) (clock : Clock) (wallTime : Int)
    (m₀ : Memory) (calls : List Call) (orderly : ∀ c ∈ calls, c.Orderly) :
    ∃ s r m, (create r₀.monitor (some r₀) clock).run wallTime m₀ calls = (s, m) ∧
      s.registry = some r ∧ s.Entrusted r wallTime m
        ((create r₀.monitor (some r₀) clock).log wallTime m₀ calls) := by
  obtain ⟨r, hrecounts, hmon⟩ := run_recounts (recounts_of_built built clock m₀) built.paired
    wallTime calls orderly
  exact ⟨_, r, _, rfl, hrecounts.trusted.on.registry, hrecounts.entrusted (hmon ▸ built.paired)
    wallTime⟩

end Session

/-- Two counters with handles, one of them moved and one disconnected, one without, an allocation
whose key cannot be written, and the first id freed and allocated again. -/
def Session.lending : List Call :=
  [.command (.openHandle (.labelled 1 [97])),
    .command (.openHandle (.labelled 2 [98])),
    .command (.openHandle (.labelled 3 [99])),
    .handle (.move 0),
    .handle (.use 1 .disconnect),
    .handle (.use 2 (.setLabel [100])),
    .handle (.assign 2 2),
    .handle (.use 2 .close),
    .advanceClock 10,
    .command (.allocate (.keyed 4 [101] (.ofList [.raise []]))),
    .command (.allocate (.labelled 5 [102])),
    .handle (.destroy 0)]

instance : DecidablePred Call.Orderly
  | .metadata _ | .values _ | .command (.free _) | .handle (.raw _ _) => .isFalse id
  | .look _ | .setClock _ | .advanceClock _ => .isTrue trivial
  | .command .capacity | .command .available | .command .timeout | .command .time
  | .command (.allocate _) | .command (.setValue _ _) | .command (.setRegistration _ _)
  | .command (.setOwner _ _) | .command (.setLabel _ _) | .command (.appendLabel _ _)
  | .command (.setKey _ _) | .command (.writeKey _ _) | .command (.openHandle _) => .isTrue trivial
  | .handle (.move _) | .handle (.assign _ _) | .handle (.destroy _) | .handle (.use _ _) =>
    .isTrue trivial

theorem Registry.small_built : small.Built :=
  ⟨create_eq_ok_iff.2 ⟨rfl, by decide, by decide, rfl⟩, by decide, by decide⟩

theorem Session.run_entrusted_small : Registry.small.Built ∧ (∀ c ∈ lending, c.Orderly) ∧
    ∃ s r m, (create Registry.small.monitor (some Registry.small) (.manual 0)).run 0
        ⟨fun _ _ => 1⟩ lending = (s, m) ∧
      s.registry = some r ∧ s.Entrusted r 0 m
        ((create Registry.small.monitor (some Registry.small) (.manual 0)).log 0 ⟨fun _ _ => 1⟩
          lending) :=
  ⟨Registry.small_built, by decide,
    run_entrusted Registry.small_built (.manual 0) 0 ⟨fun _ _ => 1⟩ lending (by decide)⟩

end Telemetry.Counters
