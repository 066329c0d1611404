import Telemetry.Proofs.Counters.Custody

namespace Telemetry.Counters

/-- A call after which ids come back through handles only: it writes to no view directly, frees no
id and opens no handle on an id that is there already. -/
def Call.Orderly : Call → Prop
  | .metadata _ | .values _ | .command (.free _) | .handle (.raw _ _) => False
  | _ => True

theorem Call.Orderly.regular {c : Call} (h : c.Orderly) : c.Regular := by
  cases c with
  | metadata a => exact h.elim
  | values a => exact h.elim
  | _ => exact trivial

def Handle.holds (id : Int) : Option Handle → Bool
  | some x => x.owns && x.id == id
  | none => false

def holders (xs : List (Option Handle)) (id : Int) : Nat := xs.countP (Handle.holds id)

section Holders

variable {xs : List (Option Handle)} {k : Nat} {x y : Option Handle} {id : Int}

/-- How much a single handle adds to the count. -/
def Handle.share (x : Option Handle) (id : Int) : Nat := if Handle.holds id x then 1 else 0

theorem holders_set (hk : xs[k]? = some x) (y : Option Handle) (id : Int) :
    holders (xs.set k y) id + Handle.share x id = holders xs id + Handle.share y id := by
  obtain ⟨hlt, hget⟩ := List.getElem?_eq_some_iff.1 hk
  unfold holders Handle.share
  rw [List.countP_set hlt, hget]
  by_cases hx : Handle.holds id x
  · -- the handle that is replaced was counted
    have hpos : 0 < xs.countP (Handle.holds id) :=
      List.countP_pos_iff.2 ⟨x, List.mem_of_getElem? hk, hx⟩
    rw [if_pos hx]
    omega
  · rw [if_neg hx]
    omega

theorem holders_append (xs : List (Option Handle)) (y : Option Handle) (id : Int) :
    holders (xs ++ [y]) id = holders xs id + Handle.share y id := by
  unfold holders Handle.share
  rw [List.countP_append, List.countP_singleton]

theorem holders_pos {z : Handle} (hz : some z ∈ xs) (howns : z.owns) : 0 < holders xs z.id :=
  List.countP_pos_iff.2 ⟨some z, hz, by simp [Handle.holds, howns]⟩

theorem share_of_not_owns {z : Handle} (h : ¬ z.owns) (id : Int) :
    Handle.share (some z) id = 0 := by
  unfold Handle.share Handle.holds
  simp [h]

theorem share_self {z : Handle} (h : z.owns) : Handle.share (some z) z.id = 1 := by
  simp [Handle.share, Handle.holds, h]

theorem share_of_ne {z : Handle} (h : z.id ≠ id) : Handle.share (some z) id = 0 := by
  simp [Handle.share, Handle.holds, h]

end Holders

namespace Session

def disconnected (s : Session) : Call → List Transfer
  | .handle (.use h .disconnect) =>
    match s.handle? h with
    | some x => if x.owns then [.disconnected x.id] else []
    | none => []
  | _ => []

theorem disconnected_of_absent {s : Session} {c : HandleCommand} {h : Nat} (named : h ∈ c.handles)
    (absent : s.handle? h = none) : s.disconnected (.handle c) = [] := by
  cases c with
  | use j u =>
    rw [List.mem_singleton.1 named] at absent
    cases u with
    | disconnect => rw [disconnected, absent]
    | _ => rfl
  | _ => rfl

def transfers (s : Session) (wallTime : Int) (m : Memory) (c : Call) : List Transfer :=
  match s.events wallTime m c with
  | [.taken id] =>
    match c with
    | .command (.openHandle _) => [.opened id]
    | _ => [.allocated id]
  | [.returned id _] => [.closed id]
  | _ => s.disconnected c

def log (s : Session) (wallTime : Int) (m : Memory) : List Call → List Transfer
  | [] => []
  | c :: rest =>
    let x := s.step wallTime m c
    s.transfers wallTime m c ++ x.session.log wallTime (m.storeAll x.writes) rest

/-- An id is in the custody of a handle exactly if one handle has it to give back, and registry and
memory show who has which id. -/
structure Trusted (s : Session) (r : Registry) (m : Memory) (f : Int → Custody) : Prop where
  on : s.On r
  knows : r.Knows m f
  holders : ∀ id, holders s.handles id = if f id = .handle then 1 else 0

variable {s : Session} {r : Registry} {m : Memory} {f : Int → Custody} {now wallTime : Int}
  {x : Handle} {k : Nat}

namespace Trusted

theorem of_owns (h : s.Trusted r m f) (hx : some x ∈ s.handles) (howns : x.owns) :
    f x.id = .handle := by
  have hpos := holders_pos hx howns
  have hcount := h.holders x.id
  apply Classical.byContradiction
  intro hne
  rw [if_neg hne] at hcount
  omega

theorem exists_of_handle (h : s.Trusted r m f) {id : Int} (hf : f id = .handle) :
    ∃ x, some x ∈ s.handles ∧ x.owns ∧ x.id = id := by
  have hcount := h.holders id
  rw [if_pos hf] at hcount
  have hpos : 0 < s.handles.countP (Handle.holds id) := by
    unfold Counters.holders at hcount
    omega
  obtain ⟨y, hy, hholds⟩ := List.countP_pos_iff.1 hpos
  cases y with
  | none => cases hholds
  | some x =>
    simp only [Handle.holds, Bool.and_eq_true, beq_iff_eq] at hholds
    exact ⟨x, hy, hholds.1, hholds.2⟩

theorem get_of_handle? (hx : s.handle? k = some x) : s.handles[k]? = some (some x) :=
  Option.join_eq_some_iff.1 hx

theorem alone (h : s.Trusted r m f) {i j : Nat} {y : Handle} (hx : s.handle? i = some x)
    (hy : s.handle? j = some y) (hxo : x.owns) (hyo : y.owns) (hid : x.id = y.id) : i = j := by
  apply Classical.byContradiction
  intro hne
  -- without the first handle the second is still counted
  have hset := holders_set (get_of_handle? hx) none x.id
  have hpos : 0 < Counters.holders (s.handles.set i none) y.id := by
    refine holders_pos (List.mem_of_getElem? (i := j) ?_) hyo
    rw [List.getElem?_set_ne hne]
    exact get_of_handle? hy
  have hcount := h.holders x.id
  rw [share_self hxo] at hset
  rw [if_pos (h.of_owns (mem_of_handle? hx) hxo)] at hcount
  have hnone : Handle.share none x.id = 0 := rfl
  rw [← hid] at hpos
  omega

/-- When a handle loses the id that it had, nobody else's share changes. -/
theorem lose (h : s.Trusted r m f) (hx : some x ∈ s.handles) (howns : x.owns)
    {xs : List (Option Handle)} {c : Custody} (hc : c ≠ .handle)
    (hshare : ∀ id, Counters.holders xs id + Handle.share (some x) id =
      Counters.holders s.handles id) (id : Int) :
    Counters.holders xs id = if give f x.id c id = .handle then 1 else 0 := by
  have hcount := h.holders id
  have hid := hshare id
  by_cases hsame : id = x.id
  · subst hsame
    rw [share_self howns] at hid
    rw [if_pos (h.of_owns hx howns)] at hcount
    rw [give_self, if_neg hc]
    omega
  · rw [share_of_ne (Ne.symm hsame)] at hid
    rw [give_of_ne hsame]
    omega

end Trusted

theorem events_eq (hs : s.On r) (wallTime : Int) (m : Memory) (c : Call) :
    s.events wallTime m c = r.events (s.clock.read wallTime) m (s.deed c) := by
  rw [events, hs.registry]

theorem transfers_of_quiet {c : Call} (h : s.events wallTime m c = []) :
    s.transfers wallTime m c = s.disconnected c := by rw [transfers, h]

def ended (x : Handle) : List Transfer := if x.owns then [.closed x.id] else []

section Step

variable (h : s.Trusted r m f) (hp : r.monitor.Paired)
include h hp

theorem free_of_owns (hx : some x ∈ s.handles) (howns : x.owns) (now : Int) :
    (r.free now x.id m).result = .ok () := by
  have hlent := h.knows.lent (by rw [h.of_owns hx howns]; exact trivial)
  exact Registry.free_ok hp (h.knows.hasId hlent.issued) hlent.state now

theorem events_of_release (hx : some x ∈ s.handles) (now : Int) :
    r.events now m x.release = if x.owns then [.returned x.id now] else [] := by
  unfold Handle.release
  by_cases howns : x.owns
  · rw [if_pos howns, if_pos howns, Registry.events, free_of_owns h hp hx howns now]
  · rw [if_neg howns, if_neg howns]
    rfl

theorem transfers_of_release {c : Call} (hx : some x ∈ s.handles) (hdeed : s.deed c = x.release)
    (hc : s.disconnected c = []) : s.transfers wallTime m c = ended x := by
  have hevents := events_eq h.on wallTime m c
  rw [hdeed, events_of_release h hp hx] at hevents
  unfold transfers ended
  by_cases howns : x.owns
  · rw [if_pos howns] at hevents ⊢
    rw [hevents]
  · rw [if_neg howns] at hevents ⊢
    rw [hevents]
    exact hc

theorem trusted_of_end {t : Session} {r' : Registry} {m' : Memory} (hx : some x ∈ s.handles)
    (hon : t.On r')
    (hpasses : Registry.Passes r' m' f x.release (r.events now m x.release))
    (hshare : ∀ id, holders t.handles id + Handle.share (some x) id = holders s.handles id) :
    t.Trusted r' m' ((ended x).foldl pass f) := by
  rw [events_of_release h hp hx] at hpasses
  unfold ended
  by_cases howns : x.owns
  · have hf := h.of_owns hx howns
    rw [if_pos howns] at hpasses ⊢
    rw [List.foldl_cons, List.foldl_nil, pass_closed hf]
    cases hpasses with
    | returned _ _ _ known =>
      exact ⟨hon, known (by rw [hf]; exact trivial), h.lose hx howns (by decide) hshare⟩
  · rw [if_neg howns] at hpasses ⊢
    cases hpasses with
    | nothing known =>
      refine ⟨hon, known, fun id => ?_⟩
      have hid := hshare id
      rw [share_of_not_owns howns] at hid
      exact hid.trans (h.holders id)

omit hp in
/-- A call that takes no id and returns none, and after which as many handles have each id. -/
theorem trusted_of_quiet {t : Session} {r' : Registry} {m' : Memory} {d : Deed} (hon : t.On r')
    (hpasses : Registry.Passes r' m' f d []) (hshare : ∀ id,
      holders t.handles id = holders s.handles id) : t.Trusted r' m' f := by
  cases hpasses with
  | nothing known => exact ⟨hon, known, fun id => (hshare id).trans (h.holders id)⟩

end Step

def Hands (s : Session) (wallTime : Int) (m : Memory) (f : Int → Custody) (c : Call) : Prop :=
  ∃ r', (s.step wallTime m c).session.Trusted r' (m.storeAll (s.step wallTime m c).writes)
    ((s.transfers wallTime m c).foldl pass f) ∧ (s.step wallTime m c).session.monitor = s.monitor

section Calls

variable (h : s.Trusted r m f) (hp : r.monitor.Paired)
include h hp

theorem hands_of_quiet {c : Call} (hc : c.Regular)
    (hevents : ∀ now, r.events now m (s.deed c) = []) (hc' : s.disconnected c = [])
    (hshare : ∀ id, holders (s.step wallTime m c).session.handles id = holders s.handles id) :
    s.Hands wallTime m f c := by
  obtain ⟨r', hon, hchange⟩ :=
    step_follows h.on hp h.knows.freed_hasId hc wallTime (m := m)
  have hpasses := hchange.passes hp h.knows
  rw [hevents] at hpasses
  have hquiet : s.events wallTime m c = [] := by rw [events_eq h.on, hevents]
  rw [Hands, transfers_of_quiet hquiet, hc']
  exact ⟨r', trusted_of_quiet h hon hpasses hshare, (s.step_keeps wallTime m c).monitor⟩

theorem hands_of_end {c : Call} (hc : c.Regular) (hx : some x ∈ s.handles)
    (hdeed : s.deed c = x.release) (hc' : s.disconnected c = [])
    (hshare : ∀ id, holders (s.step wallTime m c).session.handles id + Handle.share (some x) id =
      holders s.handles id) : s.Hands wallTime m f c := by
  obtain ⟨r', hon, hchange⟩ :=
    step_follows h.on hp h.knows.freed_hasId hc wallTime (m := m)
  have hpasses := hchange.passes hp h.knows
  rw [hdeed] at hpasses
  rw [Hands, transfers_of_release h hp hx hdeed hc']
  exact ⟨r', trusted_of_end h hp hx hon hpasses hshare, (s.step_keeps wallTime m c).monitor⟩

omit hp in
theorem disconnect_hands (hx : s.handle? k = some x) :
    s.Hands wallTime m f (.handle (.use k .disconnect)) := by
  have hstep : s.step wallTime m (.handle (.use k .disconnect)) =
      ⟨s.setHandle k (some x.disconnect), [], .ok .unit, none⟩ := by
    simp only [step, Session.handle, hx, use]
  have hdisconnected : s.disconnected (.handle (.use k .disconnect)) =
      if x.owns then [.disconnected x.id] else [] := by simp only [disconnected, hx]
  have hquiet : s.events wallTime m (.handle (.use k .disconnect)) = [] := by
    rw [events_eq h.on]
    simp only [deed, hx]
    rfl
  have hlies := h.on.liesIn hx
  have hon : (s.setHandle k (some x.disconnect)).On r :=
    h.on.setHandle fun y hy => by cases hy; exact ⟨hlies.values, hlies.hasSlot⟩
  have hnone (id : Int) : Handle.share (some x.disconnect) id = 0 :=
    share_of_not_owns (by simp [Handle.owns, Handle.disconnect]) id
  have hshare (id : Int) : holders (s.handles.set k (some x.disconnect)) id +
      Handle.share (some x) id = holders s.handles id := by
    have hset := holders_set (Trusted.get_of_handle? hx) (some x.disconnect) id
    rwa [hnone, Nat.add_zero] at hset
  rw [Hands, transfers_of_quiet hquiet, hdisconnected, hstep]
  by_cases howns : x.owns
  · have hthere := mem_of_handle? hx
    have hf := h.of_owns hthere howns
    rw [if_pos howns, List.foldl_cons, List.foldl_nil, pass_disconnected hf]
    exact ⟨r, ⟨hon, h.knows.give (by rw [hf]; exact trivial) trivial,
      h.lose hthere howns (by decide) hshare⟩, rfl⟩
  · rw [if_neg howns]
    refine ⟨r, ⟨hon, h.knows, fun id => ?_⟩, rfl⟩
    have hid := hshare id
    rw [share_of_not_owns howns] at hid
    exact hid.trans (h.holders id)

theorem use_hands (hx : s.handle? k = some x) (u : HandleUse) :
    s.Hands wallTime m f (.handle (.use k u)) := by
  have hdeed : s.deed (.handle (.use k u)) = x.deed u := by simp only [deed, hx]
  have hstep : s.step wallTime m (.handle (.use k u)) =
      s.use (s.clock.read wallTime) k x m u := by simp only [step, Session.handle, hx]
  have hquiet (hevents : ∀ now, r.events now m (x.deed u) = [])
      (hc : s.disconnected (.handle (.use k u)) = [])
      (hsame : (s.use (s.clock.read wallTime) k x m u).session.handles = s.handles) :
      s.Hands wallTime m f (.handle (.use k u)) :=
    hands_of_quiet h hp trivial (fun now => hdeed ▸ hevents now) hc fun id => by
      rw [hstep, hsame]
  cases u with
  | disconnect => exact disconnect_hands h hx
  | close =>
    refine hands_of_end h hp trivial (mem_of_handle? hx) hdeed rfl fun id => ?_
    have hset := holders_set (Trusted.get_of_handle? hx) (some x.close) id
    have hnone : Handle.share (some x.close) id = 0 :=
      share_of_not_owns (by simp [Handle.owns, Handle.close]) id
    rw [hstep]
    show holders ((s.giveBack _ x m).session.handles.set k (some x.close)) id + _ = _
    rw [giveBack_handles]
    omega
  | _ => exact hquiet (fun _ => rfl) rfl rfl

theorem move_hands (hx : s.handle? k = some x) : s.Hands wallTime m f (.handle (.move k)) := by
  refine hands_of_quiet h hp trivial (fun _ => rfl) rfl fun id => ?_
  have hset := holders_set (Trusted.get_of_handle? hx) (some x.emptied) id
  have hnone : Handle.share (some x.emptied) id = 0 :=
    share_of_not_owns (by simp [Handle.owns, Handle.emptied]) id
  have hhandles : (s.step wallTime m (.handle (.move k))).session.handles =
      s.handles.set k (some x.emptied) ++ [some x] := by
    simp only [step, Session.handle, hx]
    rfl
  rw [hhandles, holders_append]
  omega

theorem assign_hands {source : Nat} {y : Handle} (hx : s.handle? k = some x)
    (hy : s.handle? source = some y) (other : k ≠ source) :
    s.Hands wallTime m f (.handle (.assign k source)) := by
  have hdeed : s.deed (.handle (.assign k source)) = x.release := by
    simp only [deed, hx, hy, if_neg other]
  refine hands_of_end h hp trivial (mem_of_handle? hx) hdeed rfl fun id => ?_
  have hhandles : (s.step wallTime m (.handle (.assign k source))).session.handles =
      (s.handles.set k (some y)).set source (some y.emptied) := by
    simp only [step, Session.handle, hx, hy, if_neg other]
    exact congrArg (fun xs => (List.set xs k (some y)).set source (some y.emptied))
      (s.giveBack_handles _ x m)
  -- the source's share passes to the target, whose own share is gone
  have htarget := holders_set (Trusted.get_of_handle? hx) (some y) id
  have hthere : (s.handles.set k (some y))[source]? = some (some y) := by
    rw [List.getElem?_set_ne other]
    exact Trusted.get_of_handle? hy
  have hsource := holders_set hthere (some y.emptied) id
  have hnone : Handle.share (some y.emptied) id = 0 :=
    share_of_not_owns (by simp [Handle.owns, Handle.emptied]) id
  rw [hhandles]
  omega

theorem destroy_hands (hx : s.handle? k = some x) :
    s.Hands wallTime m f (.handle (.destroy k)) := by
  have hdeed : s.deed (.handle (.destroy k)) = x.release := by simp only [deed, hx]
  refine hands_of_end h hp trivial (mem_of_handle? hx) hdeed rfl fun id => ?_
  have hhandles : (s.step wallTime m (.handle (.destroy k))).session.handles =
      s.handles.set k none := by
    simp only [step, Session.handle, hx]
    exact congrArg (List.set · k none) (s.giveBack_handles _ x m)
  have hset := holders_set (Trusted.get_of_handle? hx) none id
  have hnone : Handle.share none id = 0 := rfl
  rw [hhandles]
  omega

theorem handle_hands {hc : HandleCommand} (horderly : (Call.handle hc).Orderly) :
    s.Hands wallTime m f (.handle hc) := by
  have hhandled := s.handled (s.clock.read wallTime) m hc
  have hstep : s.step wallTime m (.handle hc) = s.handle (s.clock.read wallTime) m hc := rfl
  -- a command that leaves every handle in its place and asks for nothing
  have hidle (hdeed : s.deed (.handle hc) = .nothing) (hkept : s.disconnected (.handle hc) = [])
      (hsame : (s.step wallTime m (.handle hc)).session = s) : s.Hands wallTime m f (.handle hc) :=
    hands_of_quiet h hp trivial (fun _ => by rw [hdeed]; rfl) hkept fun id => by rw [hsame]
  generalize hdeed : s.deed (.handle hc) = d, hy : s.handle (s.clock.read wallTime) m hc = y
    at hhandled
  rw [hy] at hstep
  cases hhandled with
  | raw id managed => exact horderly.elim
  | missing hc k named absent =>
    exact hidle hdeed (disconnected_of_absent named absent) (by rw [hstep])
  | moved k x there => exact move_hands h hp there
  | same k x there => exact hidle hdeed rfl (by rw [hstep])
  | assigned k source x y there giver other => exact assign_hands h hp there giver other
  | destroyed k x there => exact destroy_hands h hp there
  | used k x there u => exact use_hands h hp there u

omit hp in
theorem allocate_passes (wallTime : Int) {q : Request} {r' : Registry} {m' : Memory}
    (hpasses : Registry.Passes r' m' f (.allocate q) (r.events now m (.allocate q))) :
    (∃ id, (r.allocate now q m).result = .ok id ∧ r.events now m (.allocate q) = [.taken id] ∧
        f id = .free ∧ ∀ c : Custody, c.Taken → r'.Knows m' (give f id c)) ∨
      (∃ e, (r.allocate now q m).result = .error e) ∧ r'.Knows m' f ∧
        ∀ c : Call, s.deed c = .allocate q → s.clock.read wallTime = now →
          s.transfers wallTime m c = s.disconnected c := by
  cases hresult : (r.allocate now q m).result with
  | ok id =>
    have hevents := Registry.events_of_allocate_ok hresult
    rw [hevents] at hpasses
    cases hpasses with
    | taken _ hfree known => exact .inl ⟨id, rfl, hevents, hfree, known⟩
  | error e =>
    refine .inr ⟨⟨e, rfl⟩, ?_⟩
    rcases Registry.events_of_allocate_error hresult with hevents | ⟨j, hevents⟩
    · rw [hevents] at hpasses
      cases hpasses with
      | nothing known =>
        refine ⟨known, fun c hc hnow => ?_⟩
        rw [transfers, events_eq h.on, hc, hnow, hevents]
    · rw [hevents] at hpasses
      cases hpasses with
      | withdrawn _ _ known =>
        refine ⟨known, fun c hc hnow => ?_⟩
        rw [transfers, events_eq h.on, hc, hnow, hevents]

theorem allocate_hands (q : Request) : s.Hands wallTime m f (.command (.allocate q)) := by
  obtain ⟨r', hon, hchange⟩ := step_follows h.on hp h.knows.freed_hasId
    (c := .command (.allocate q)) trivial wallTime (m := m)
  have hhandles : (s.step wallTime m (.command (.allocate q))).session.handles = s.handles := by
    simp only [step, h.on.registry]
    rfl
  have hmon := (s.step_keeps wallTime m (.command (.allocate q))).monitor
  rcases allocate_passes h wallTime (hchange.passes hp h.knows) with
    ⟨id, -, hevents, hfree, known⟩ | ⟨-, known, htransfers⟩
  · have htaken : s.events wallTime m (.command (.allocate q)) = [.taken id] :=
      (events_eq h.on wallTime m _).trans hevents
    have htransfers : s.transfers wallTime m (.command (.allocate q)) = [.allocated id] := by
      rw [transfers, htaken]
    rw [Hands, htransfers, List.foldl_cons, List.foldl_nil, pass_allocated hfree]
    refine ⟨r', ⟨hon, known .plain trivial, fun j => ?_⟩, hmon⟩
    rw [hhandles, h.holders j]
    by_cases hj : j = id
    · rw [hj, hfree, give_self]
      rfl
    · rw [give_of_ne hj]
  · rw [Hands, htransfers _ rfl rfl]
    exact ⟨r', ⟨hon, known, fun j => by rw [hhandles]; exact h.holders j⟩, hmon⟩

theorem openHandle_hands (q : Request) : s.Hands wallTime m f (.command (.openHandle q)) := by
  obtain ⟨r', hon, hchange⟩ := step_follows h.on hp h.knows.freed_hasId
    (c := .command (.openHandle q)) trivial wallTime (m := m)
  have hhandles : (s.step wallTime m (.command (.openHandle q))).session.handles = s.handles ++
      ((r.allocate (s.clock.read wallTime) q m).result >>= fun id =>
        Handle.create r.monitor.values id true).toOption.toList.map some := by
    simp only [step, h.on.registry]
    rfl
  have hmon := (s.step_keeps wallTime m (.command (.openHandle q))).monitor
  rcases allocate_passes h wallTime (hchange.passes hp h.knows) with
    ⟨id, hresult, hevents, hfree, known⟩ | ⟨⟨e, hresult⟩, known, htransfers⟩
  · have htaken : s.events wallTime m (.command (.openHandle q)) = [.taken id] :=
      (events_eq h.on wallTime m _).trans hevents
    have htransfers : s.transfers wallTime m (.command (.openHandle q)) = [.opened id] := by
      rw [transfers, htaken]
    -- an id that is taken has a slot, so the handle is opened and is the only one with this id
    obtain ⟨_, _, hids, -⟩ := Registry.allocate_eq_ok hp h.knows.freed_hasId hresult
    have hslot := (hids.hasId h.knows.freed_hasId).hasSlot hp
    have hopened := create_of_hasSlot hslot true
    have happended : (s.step wallTime m (.command (.openHandle q))).session.handles =
        s.handles ++ [some ⟨r.monitor.values, id, true, false⟩] := by
      rw [hhandles, hresult]
      show s.handles ++ (Handle.create r.monitor.values id true).toOption.toList.map some = _
      rw [hopened]
      rfl
    rw [Hands, htransfers, List.foldl_cons, List.foldl_nil, pass_opened hfree]
    refine ⟨r', ⟨hon, known .handle trivial, fun j => ?_⟩, hmon⟩
    rw [happended, holders_append, h.holders j]
    by_cases hj : j = id
    · subst hj
      rw [hfree, give_self]
      rw [if_neg (by decide), if_pos rfl, Nat.zero_add]
      exact share_self rfl
    · rw [give_of_ne hj, share_of_ne (Ne.symm hj)]
      rfl
  · have hsame : (s.step wallTime m (.command (.openHandle q))).session.handles = s.handles := by
      rw [hhandles, hresult]
      exact List.append_nil _
    rw [Hands, htransfers _ rfl rfl]
    exact ⟨r', ⟨hon, known, fun j => by rw [hsame]; exact h.holders j⟩, hmon⟩

theorem step_hands {c : Call} (hc : c.Orderly) (wallTime : Int) : s.Hands wallTime m f c := by
  cases c with
  | look q =>
    refine hands_of_quiet h hp trivial (fun _ => rfl) rfl fun id => ?_
    cases q <;> rfl
  | metadata a => exact hc.elim
  | values a => exact hc.elim
  | setClock t => exact hands_of_quiet h hp trivial (fun _ => rfl) rfl fun _ => rfl
  | advanceClock d => exact hands_of_quiet h hp trivial (fun _ => rfl) rfl fun _ => rfl
  | handle k => exact handle_hands h hp hc
  | command k =>
    have hstep : s.step wallTime m (.command k) = s.command r (s.clock.read wallTime) m k := by
      simp only [step, h.on.registry]
    have hquiet (hevents : ∀ now, r.events now m k.deed = [])
        (hsame : (s.command r (s.clock.read wallTime) m k).session.handles = s.handles) :
        s.Hands wallTime m f (.command k) :=
      hands_of_quiet h hp trivial hevents rfl fun id => by rw [hstep, hsame]
    cases k with
    | allocate q => exact allocate_hands h hp q
    | openHandle q => exact openHandle_hands h hp q
    | free id => exact hc.elim
    | _ => exact hquiet (fun _ => rfl) rfl

end Calls

/-- A session, its registry and its memory show what some transfers have come to. -/
structure Recounts (s : Session) (r : Registry) (m : Memory) (log : List Transfer) : Prop where
  trusted : s.Trusted r m (custody log)
  issued : ∀ t ∈ log, r.Issued t.id

theorem transfers_cases (s : Session) (wallTime : Int) (m : Memory) (c : Call) :
    s.transfers wallTime m c = [] ∨ ∃ t, s.transfers wallTime m c = [t] := by
  have hdisconnected : s.disconnected c = [] ∨ ∃ t, s.disconnected c = [t] := by
    unfold disconnected
    split
    · split
      · split
        · exact .inr ⟨_, rfl⟩
        · exact .inl rfl
      · exact .inl rfl
    · exact .inl rfl
  unfold transfers
  split
  · split <;> exact .inr ⟨_, rfl⟩
  · exact .inr ⟨_, rfl⟩
  · exact hdisconnected

theorem step_recounts {log : List Transfer} (h : s.Recounts r m log) (hp : r.monitor.Paired)
    {c : Call} (hc : c.Orderly) (wallTime : Int) :
    ∃ r', (s.step wallTime m c).session.Recounts r' (m.storeAll (s.step wallTime m c).writes)
      (log ++ s.transfers wallTime m c) ∧ r'.monitor = r.monitor := by
  obtain ⟨r', htrusted, -⟩ := step_hands h.trusted hp hc wallTime
  obtain ⟨r₁, hon, hchange⟩ := step_follows h.trusted.on hp h.trusted.knows.freed_hasId hc.regular
    wallTime (m := m)
  -- the registry that is trusted is the one that the change led to
  have hsame : r₁ = r' := hon.unique htrusted.on
  subst hsame
  have hmono := hchange.issued_le
  rw [← custody_append] at htrusted
  refine ⟨r₁, ⟨htrusted, fun t ht => ?_⟩, hchange.monitor_eq⟩
  rcases List.mem_append.1 ht with ht | ht
  · obtain ⟨h₀, h₁⟩ := h.issued t ht
    exact ⟨h₀, by omega⟩
  · rcases s.transfers_cases wallTime m c with hnone | ⟨t', hone⟩
    · rw [hnone] at ht
      cases ht
    · rw [hone] at ht htrusted
      rw [List.mem_singleton.1 ht]
      have hknows := htrusted.knows
      rw [custody_append, List.foldl_cons, List.foldl_nil] at hknows
      exact h.trusted.knows.issued_of_pass hknows hmono

theorem run_recounts {log : List Transfer} (h : s.Recounts r m log) (hp : r.monitor.Paired)
    (wallTime : Int) (calls : List Call) (orderly : ∀ c ∈ calls, c.Orderly) :
    ∃ r', (s.run wallTime m calls).1.Recounts r' (s.run wallTime m calls).2
      (log ++ s.log wallTime m calls) ∧ r'.monitor = r.monitor := by
  induction calls generalizing s r m log with
  | nil => exact ⟨r, by rwa [Session.log, List.append_nil], rfl⟩
  | cons c rest ih =>
    obtain ⟨hc, hrest⟩ := List.forall_mem_cons.1 orderly
    obtain ⟨r₁, hstep, hmon⟩ := step_recounts h hp hc wallTime
    obtain ⟨r', hrun, hmon'⟩ := ih hstep (hmon ▸ hp) hrest
    rw [List.append_assoc] at hrun
    exact ⟨r', hrun, hmon'.trans hmon⟩

theorem recounts_of_built (built : r.Built) (clock : Clock) (m : Memory) :
    (create r.monitor (some r) clock).Recounts r m [] := by
  have hissued (id : Int) : ¬ r.Issued id := by
    intro hid
    have hnone := built.issued_eq
    obtain ⟨h₀, h₁⟩ := hid
    omega
  refine ⟨⟨⟨rfl, rfl, fun _ hx => absurd hx List.not_mem_nil⟩, ⟨?_, fun id => ?_⟩, fun _ => rfl⟩,
    fun _ ht => absurd ht List.not_mem_nil⟩
  · rw [built.issued_eq]
    exact Nat.zero_le _
  · refine ⟨fun hid => absurd hid (hissued id), fun hid => absurd hid (hissued id), fun _ => ?_⟩
    rw [built.freed_eq]
    rfl

end Session

end Telemetry.Counters
