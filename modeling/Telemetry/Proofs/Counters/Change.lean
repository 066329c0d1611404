import Telemetry.Proofs.Counters.Effect

namespace Telemetry.Counters

/-- What becomes of an id: an allocation takes it, its owner returns it at a time, or the
allocation that took it fails and withdraws it. -/
inductive Event
  | taken (id : Int)
  | returned (id time : Int)
  | withdrawn (id : Int)
  deriving DecidableEq, Repr

/-- What is asked of a registry: nothing that writes, or writing to the slot, the label or the key
of an id, or giving an id back, or a new counter. -/
inductive Deed
  | nothing
  | value (id : Int)
  | label (id : Int)
  | key (id : Int)
  | free (id : Int)
  | allocate (q : Request)

namespace Registry

def events (r : Registry) (now : Int) (m : Memory) : Deed → List Event
  | .free id =>
    match (r.free now id m).result with
    | .ok _ => [.returned id now]
    | .error _ => []
  | .allocate q =>
    match (r.takeId now m).result, (r.allocate now q m).result with
    | .ok (_, id), .ok _ => [.taken id]
    | .ok (_, id), .error _ => [.taken id, .withdrawn id]
    | .error _, _ => []
  | _ => []

/-- An id is taken: the first of the freed ids that may be used again, its slot blanked, or the
next new one. -/
inductive Taken (r : Registry) (now : Int) (m : Memory) : Registry → Int → Memory → Prop
  | reused {before after : List Int} {id : Int} {m' : Memory}
      (freed : r.freed = before ++ id :: after) (ready : r.monitor.deadlineOf id m ≤ now)
      (others : ∀ j ∈ before, now < r.monitor.deadlineOf j m)
      (slot : (r.monitor.slot id).Confines m m') (blank : r.monitor.SlotBlank id m') :
      Taken r now m { r with freed := before ++ after } id m'
  | fresh (others : ∀ j ∈ r.freed, now < r.monitor.deadlineOf j m)
      (room : r.issued < r.monitor.slots) :
      Taken r now m { r with issued := r.issued + 1 } r.issued m

/-- What a deed can write when no id changes hands. -/
inductive Quiet (r : Registry) (m : Memory) : Deed → Memory → Prop
  | refused (d : Deed) : Quiet r m d m
  | value {id : Int} {m' : Memory} (hasSlot : r.monitor.HasSlot id)
      (slot : (r.monitor.slot id).Confines m m') : Quiet r m (.value id) m'
  | label {id : Int} {m' : Memory} (hasId : r.monitor.HasId id)
      (label : (r.labelPart (Record.offset id)).Confines m m')
      (fits : r.monitor.LabelFits id m → r.monitor.LabelFits id m') : Quiet r m (.label id) m'
  | key {id : Int} {m' : Memory} (hasId : r.monitor.HasId id)
      (key : (r.keyPart (Record.offset id)).Confines m m') : Quiet r m (.key id) m'

/-- What a deed can do, with the events it causes. -/
inductive Change (r : Registry) (now : Int) (m : Memory) :
    Deed → List Event → Registry → Memory → Prop
  | quiet {d : Deed} {m' : Memory} (written : Quiet r m d m') : Change r now m d [] r m'
  | freed {id : Int} {m' : Memory} (hasId : r.monitor.HasId id)
      (inUse : r.monitor.stateOf id m = Record.allocated)
      (record : (r.monitor.record id).Confines m m')
      (released : r.monitor.Released id (Word.wrap 8 (now + r.timeout)) m')
      (fits : r.monitor.LabelFits id m → r.monitor.LabelFits id m') :
      Change r now m (.free id) [.returned id now] { r with freed := r.freed ++ [id] } m'
  | published {q : Request} {id : Int} {r' : Registry} {m₁ m' : Memory}
      (taken : Taken r now m r' id m₁) (record : (r.monitor.record id).Confines m₁ m')
      (inUse : r.monitor.stateOf id m' = Record.allocated)
      (fits : r.monitor.LabelFits id m₁ → r.monitor.LabelFits id m') :
      Change r now m (.allocate q) [.taken id] r' m'
  | withdrawn {q : Request} {id : Int} {r' : Registry} {m₁ m' : Memory}
      (taken : Taken r now m r' id m₁) (record : (r.monitor.record id).Confines m₁ m')
      (released : r.monitor.Released id 0 m')
      (fits : r.monitor.LabelFits id m₁ → r.monitor.LabelFits id m') :
      Change r now m (.allocate q) [.taken id, .withdrawn id]
        { r' with freed := r'.freed ++ [id] } m'

variable {r r' : Registry} {m m' : Memory} {id now : Int}

theorem count_of_split {ids before after : List Int} (h : ids = before ++ id :: after) (j : Int) :
    ids.count j = (before ++ after).count j + if id = j then 1 else 0 := by
  rw [h, List.count_append, List.count_append, List.count_cons]
  simp only [beq_iff_eq]
  omega

theorem Quiet.header_eq {d : Deed} (hq : r.Quiet m d m') (h : r.monitor.Paired) {j : Int}
    (hj : r.monitor.HasId j) : (r.monitor.header j).bytes m' = (r.monitor.header j).bytes m := by
  cases hq with
  | refused => rfl
  | value hasSlot slot =>
    exact View.bytes_mono Monitor.header_inside (Monitor.record_of_slot h hasSlot hj slot)
  | label hasId label => exact Monitor.header_of_part h hasId hj (by decide) (by decide) label
  | key hasId key => exact Monitor.header_of_part h hasId hj (by decide) (by decide) key

theorem isReusable_eq (h : r.monitor.Paired) (hid : r.monitor.HasId id) (now : Int) (m : Memory) :
    r.isReusable now id m = .ok (decide (r.monitor.deadlineOf id m ≤ now)) := by
  change (r.monitor.metadata.get 8 (Record.offset id + Record.deadlineOffset) m >>=
    fun d => .ok (decide (d ≤ now))) = _
  rw [View.get_of_le (Record.field_le (by decide) (hid.record_le h))]
  rfl

/-- The search goes through the ids in order and stops at the first that may be used again. -/
theorem pickReusable_cases (h : r.monitor.Paired) (now : Int) (m : Memory) (ids : List Int)
    (hids : ∀ id ∈ ids, r.monitor.HasId id) :
    (r.pickReusable now ids m = .ok none ∧ ∀ id ∈ ids, now < r.monitor.deadlineOf id m) ∨
    ∃ before id after, ids = before ++ id :: after ∧ r.monitor.deadlineOf id m ≤ now ∧
      (∀ j ∈ before, now < r.monitor.deadlineOf j m) ∧
      r.pickReusable now ids m = .ok (some (id, before ++ after)) := by
  induction ids with
  | nil => exact .inl ⟨rfl, fun _ hid => absurd hid List.not_mem_nil⟩
  | cons id rest ih =>
    have hid := isReusable_eq h (hids id List.mem_cons_self) now m
    by_cases hd : r.monitor.deadlineOf id m ≤ now
    · refine .inr ⟨[], id, rest, rfl, hd, fun _ hj => absurd hj List.not_mem_nil, ?_⟩
      rw [pickReusable, Query.bind_ok _ hid, if_pos (decide_eq_true hd)]
      rfl
    · have hstep : r.pickReusable now (id :: rest) m = (r.pickReusable now rest m).map fun found =>
          found.map fun p => (p.1, id :: p.2) := by
        have hlate : ¬ decide (r.monitor.deadlineOf id m ≤ now) = true := by simpa using hd
        rw [pickReusable, Query.bind_ok _ hid, if_neg hlate]
        change (r.pickReusable now rest m >>= _) = _
        cases r.pickReusable now rest m <;> rfl
      rw [hstep]
      have hnow := Int.lt_of_not_ge hd
      rcases ih fun j hj => hids j (List.mem_cons_of_mem _ hj) with
        ⟨hnone, hall⟩ | ⟨before, found, after, rfl, hready, hbefore, hsome⟩
      · exact .inl ⟨by rw [hnone]; rfl, List.forall_mem_cons.2 ⟨hnow, hall⟩⟩
      · refine .inr ⟨id :: before, found, after, rfl, hready, ?_, by rw [hsome]; rfl⟩
        exact List.forall_mem_cons.2 ⟨hnow, hbefore⟩

theorem takeId_cases (h : r.monitor.Paired) (hfreed : ∀ id ∈ r.freed, r.monitor.HasId id)
    (now : Int) (m : Memory) :
    (∃ r' id m', (r.takeId now).run m = (m', .ok (r', id)) ∧ Taken r now m r' id m') ∨
    (∀ j ∈ r.freed, now < r.monitor.deadlineOf j m) ∧ r.monitor.slots ≤ r.issued ∧
      r.takeId now m = ⟨[], .error (.registryFull r.monitor.maxId)⟩ := by
  have hmax := h.maxId_eq
  rcases pickReusable_cases h now m r.freed hfreed with
    ⟨hnone, hall⟩ | ⟨before, id, after, hsplit, hready, hbefore, hsome⟩
  · have hpick : (liftM (r.pickReusable now r.freed) : Action _).run m = (m, .ok none) := by
      rw [Action.run_ofQuery, hnone]
    by_cases hroom : r.monitor.maxId < r.issued
    · refine .inr ⟨hall, by omega, ?_⟩
      rw [takeId, Action.ofQuery_bind_ok _ hnone]
      simp only [if_pos hroom]
      rfl
    · refine .inl ⟨_, _, _, ?_, .fresh hall (by omega)⟩
      rw [takeId, Action.run_bind_ok _ hpick]
      simp only [if_neg hroom]
      rfl
  · have hid : r.monitor.HasId id := hfreed id (by rw [hsplit]; simp)
    obtain ⟨m', hrun, hblank⟩ := run_resetSlot h hid m
    have hpick : (liftM (r.pickReusable now r.freed) : Action _).run m =
        (m, .ok (some (id, before ++ after))) := by rw [Action.run_ofQuery, hsome]
    have hslot : (r.monitor.slot id).Confines m m' := (resetSlot_within id).confines_of_run hrun
    refine .inl ⟨_, _, m', ?_, .reused hsplit hready hbefore hslot hblank⟩
    rw [takeId, Action.run_bind_ok _ hpick]
    exact Action.run_bind_ok _ hrun

theorem taken_of_takeId (h : r.monitor.Paired) (hfreed : ∀ id ∈ r.freed, r.monitor.HasId id)
    (htake : (r.takeId now m).result = .ok (r', id)) :
    ∃ m₁, (r.takeId now).run m = (m₁, .ok (r', id)) ∧ Taken r now m r' id m₁ := by
  rcases takeId_cases h hfreed now m with ⟨r'', j, m₁, hrun, htaken⟩ | ⟨-, -, hfull⟩
  · have hsame : (r'', j) = (r', id) := by
      have hresult := (Prod.mk.inj hrun).2
      rw [htake] at hresult
      exact (Except.ok.inj hresult).symm
    cases hsame
    exact ⟨m₁, hrun, htaken⟩
  · rw [hfull] at htake
    cases htake

theorem takeId_of_error (h : r.monitor.Paired) (hfreed : ∀ id ∈ r.freed, r.monitor.HasId id)
    {e : Fault} (he : (r.takeId now m).result = .error e) :
    r.takeId now m = ⟨[], .error (.registryFull r.monitor.maxId)⟩ := by
  rcases takeId_cases h hfreed now m with ⟨r', id, m₁, hrun, -⟩ | ⟨-, -, hfull⟩
  · have hok := (Prod.mk.inj hrun).2
    rw [he] at hok
    cases hok
  · exact hfull

theorem Taken.slot_confines {m₁ : Memory} (h : Taken r now m r' id m₁) :
    (r.monitor.slot id).Confines m m₁ := by
  cases h with
  | reused _ _ _ slot => exact slot
  | fresh => exact View.Confines.refl _ _

theorem Taken.monitor_eq {m₁ : Memory} (h : Taken r now m r' id m₁) : r'.monitor = r.monitor := by
  cases h <;> rfl

theorem Taken.timeout_eq {m₁ : Memory} (h : Taken r now m r' id m₁) : r'.timeout = r.timeout := by
  cases h <;> rfl

theorem Change.monitor_eq {d : Deed} {es : List Event} (h : Change r now m d es r' m') :
    r'.monitor = r.monitor := by
  cases h with
  | published taken => exact taken.monitor_eq
  | withdrawn taken => exact taken.monitor_eq
  | _ => rfl

theorem Change.timeout_eq {d : Deed} {es : List Event} (h : Change r now m d es r' m') :
    r'.timeout = r.timeout := by
  cases h with
  | published taken => exact taken.timeout_eq
  | withdrawn taken => exact taken.timeout_eq
  | _ => rfl

theorem Taken.hasId {m₁ : Memory} (h : Taken r now m r' id m₁)
    (hfreed : ∀ id ∈ r.freed, r.monitor.HasId id) : r.monitor.HasId id := by
  cases h with
  | reused freed => exact hfreed _ (by rw [freed]; simp)
  | fresh _ room => exact ⟨Int.natCast_nonneg _, Int.ofNat_lt.2 room⟩

theorem allocate_of_publish {q : Request} {m₁ : Memory}
    (htake : (r.takeId now).run m = (m₁, .ok (r', id)))
    (hpub : (r'.publish (Record.offset id) q).run m₁ = (m', .ok ())) :
    (r.allocate now q m).registry = r' ∧ (r.allocate now q m).memory m = m' ∧
      (r.allocate now q m).result = .ok id := by
  obtain ⟨hm, htaken⟩ := Prod.mk.inj htake
  obtain ⟨hm', hfilled⟩ := Prod.mk.inj hpub
  subst hm hm'
  simp only [allocate, htaken, hfilled, Outcome.memory, Memory.storeAll_append, and_true]

theorem allocate_of_withdraw {q : Request} {m₁ m₂ : Memory} {e : Fault} {x : Except Fault Unit}
    (htake : (r.takeId now).run m = (m₁, .ok (r', id)))
    (hpub : (r'.publish (Record.offset id) q).run m₁ = (m₂, .error e))
    (hwith : (r'.withdraw (Record.offset id)).run m₂ = (m', x)) :
    (r.allocate now q m).registry = { r' with freed := r'.freed ++ [id] } ∧
      (r.allocate now q m).memory m = m' ∧ (r.allocate now q m).result = .error e := by
  obtain ⟨hm, htaken⟩ := Prod.mk.inj htake
  obtain ⟨hm₂, hfilled⟩ := Prod.mk.inj hpub
  obtain ⟨hm', _⟩ := Prod.mk.inj hwith
  subst hm hm₂ hm'
  simp only [allocate, htaken, hfilled, Outcome.memory, Memory.storeAll_append, and_true]

theorem allocate_of_refused {q : Request} {e : Fault} (h : r.takeId now m = ⟨[], .error e⟩) :
    r.allocate now q m = ⟨r, [], .error e⟩ := by simp only [allocate, h]

theorem allocate_eq_ok (h : r.monitor.Paired) (hfreed : ∀ id ∈ r.freed, r.monitor.HasId id)
    {q : Request} (hok : (r.allocate now q m).result = .ok id) :
    ∃ r' m₁, r.Taken now m r' id m₁ ∧ (r.allocate now q m).registry = r' ∧
      (r'.publish (Record.offset id) q).run m₁ = ((r.allocate now q m).memory m, .ok ()) := by
  rcases takeId_cases h hfreed now m with ⟨r', j, m₁, htake, htaken⟩ | ⟨_, _, hfull⟩
  · rcases hpub : (r'.publish (Record.offset j) q).run m₁ with ⟨m₂, e | _⟩
    · have herror := (allocate_of_withdraw htake hpub rfl).2.2
      rw [herror] at hok
      nomatch hok
    · obtain ⟨hr, hm, hresult⟩ := allocate_of_publish htake hpub
      rw [hresult] at hok
      cases hok
      exact ⟨r', m₁, htaken, hr, by rw [hpub, hm]⟩
  · rw [allocate_of_refused hfull] at hok
    nomatch hok

theorem label_quiet {x : Action Unit} (hwithin : x.Within (r.labelPart (Record.offset id)))
    (hkeeps : r.monitor.HasId id → x.Keeps (r.monitor.LabelFits id))
    (hrefused : ¬ r.monitor.HasId id → (x.run m).1 = m) : Quiet r m (.label id) (x.run m).1 := by
  by_cases hid : r.monitor.HasId id
  · exact .label hid (hwithin.confines m) (hkeeps hid m)
  · rw [hrefused hid]
    exact .refused _

theorem key_quiet {x : Action Unit} (hwithin : x.Within (r.keyPart (Record.offset id)))
    (hrefused : ¬ r.monitor.HasId id → (x.run m).1 = m) : Quiet r m (.key id) (x.run m).1 := by
  by_cases hid : r.monitor.HasId id
  · exact .key hid (hwithin.confines m)
  · rw [hrefused hid]
    exact .refused _

theorem free_writes (r : Registry) (now id : Int) (m : Memory) :
    (r.free now id m).writes = (r.reclaim now id m).writes := by
  unfold free
  dsimp only
  split <;> rfl

section Outcomes

variable (h : r.monitor.Paired)
include h

theorem reclaim_of_idle (hid : r.monitor.HasId id)
    (hstate : r.monitor.stateOf id m ≠ Record.allocated) (now : Int) :
    r.reclaim now id m = ⟨[], .error (.counterNotAllocated id)⟩ := by
  have hget : r.monitor.metadata.get 4 (Record.offset id) m = .ok (r.monitor.stateOf id m) :=
    View.get_of_le (Record.field_le (by decide : 0 + 4 ≤ 512) (hid.record_le h)) m
  rw [reclaim, Monitor.validate_of_hasId h hid]
  exact (Action.ofQuery_bind_ok _ hget).trans (by rw [if_neg hstate]; rfl)

theorem reclaim_refused (hno : ¬ (r.monitor.HasId id ∧ r.monitor.stateOf id m = Record.allocated))
    (now : Int) : ∃ e, r.reclaim now id m = ⟨[], .error e⟩ := by
  by_cases hid : r.monitor.HasId id
  · exact ⟨_, reclaim_of_idle h hid (fun hs => hno ⟨hid, hs⟩) now⟩
  · refine ⟨.counterIdOutOfRange id r.monitor.maxId, ?_⟩
    rw [reclaim, Monitor.validate_of_not_hasId h hid]
    rfl

theorem free_change (now id : Int) (m : Memory) :
    Change r now m (.free id) (r.events now m (.free id)) (r.free now id m).registry
      ((r.free now id m).memory m) := by
  by_cases huse : r.monitor.HasId id ∧ r.monitor.stateOf id m = Record.allocated
  · obtain ⟨hid, hstate⟩ := huse
    obtain ⟨m', hrun, hreleased, hlength⟩ := run_reclaim h hid hstate now
    have hrecord : (r.monitor.record id).Confines m m' :=
      (reclaim_within now id).confines_of_run hrun
    obtain ⟨hm, hresult⟩ := Prod.mk.inj hrun
    have hfits : r.monitor.LabelFits id m → r.monitor.LabelFits id m' := by
      rw [Monitor.LabelFits, Monitor.LabelFits, hlength]
      exact fun hf => hf
    have hchange := Change.freed hid hstate hrecord hreleased hfits
    simpa only [events, free, hresult, Outcome.memory, hm] using hchange
  · obtain ⟨e, he⟩ := reclaim_refused h huse now
    simpa only [events, free, he, Outcome.memory, Memory.storeAll_nil] using
      Change.quiet (.refused (.free id))

theorem allocate_change (hfreed : ∀ id ∈ r.freed, r.monitor.HasId id) (now : Int) (q : Request)
    (m : Memory) :
    Change r now m (.allocate q) (r.events now m (.allocate q)) (r.allocate now q m).registry
      ((r.allocate now q m).memory m) := by
  rcases takeId_cases h hfreed now m with ⟨r', id, m₁, htake, htaken⟩ | ⟨_, _, hfull⟩
  · have hmon := htaken.monitor_eq
    have hid := htaken.hasId hfreed
    have htakeResult : (r.takeId now m).result = .ok (r', id) := (Prod.mk.inj htake).2
    have h' : r'.monitor.Paired := hmon ▸ h
    have hid' : r'.monitor.HasId id := hmon ▸ hid
    have hrecord := (publish_within (r := r') (Record.offset id) q).confines m₁
    have hfits := publish_keeps_fits h' hid' q m₁
    rcases hpub : (r'.publish (Record.offset id) q).run m₁ with ⟨m₂, e | _⟩
    · obtain ⟨m₃, hwith, hreleased, hlength⟩ := run_withdraw h' hid' m₂
      have hundone := (withdraw_within (r := r') (Record.offset id)).confines m₂
      obtain ⟨hr, hm, hresult⟩ := allocate_of_withdraw htake hpub hwith
      rw [hpub] at hrecord hfits
      rw [hwith] at hundone
      rw [hmon] at hreleased hlength hfits hrecord hundone
      have hfits' : r.monitor.LabelFits id m₁ → r.monitor.LabelFits id m₃ := by
        intro hf
        rw [Monitor.LabelFits, hlength]
        exact hfits hf
      have hchange := Change.withdrawn (q := q) htaken (hrecord.trans hundone) hreleased hfits'
      simpa only [events, htakeResult, hresult, hr, hm] using hchange
    · obtain ⟨hr, hm, hresult⟩ := allocate_of_publish htake hpub
      have hstate := stateOf_of_publish h' hid' hpub
      rw [hpub] at hrecord hfits
      rw [hmon] at hstate hfits hrecord
      have hchange := Change.published (q := q) htaken hrecord hstate hfits
      simpa only [events, htakeResult, hresult, hr, hm] using hchange
  · simpa only [events, hfull, allocate_of_refused hfull, Outcome.memory, Memory.storeAll_nil]
      using Change.quiet (.refused (.allocate q))

theorem run_validate_bind {α : Type} (hid : ¬ r.monitor.HasId id) (f : Unit → Action α)
    (m : Memory) :
    ((liftM (r.monitor.validate id) >>= f : Action α).run m).1 = m := by
  rw [Monitor.validate_of_not_hasId h hid]
  rfl

theorem putSlotWord_quiet {field : Nat} (hf : field + 8 ≤ 128) (id x : Int) (m : Memory) :
    Quiet r m (.value id) ((r.putSlotWord field id x).run m).1 := by
  by_cases hid : r.monitor.HasId id
  · exact .value (hid.hasSlot h) (((putSlotWord_within field id x).mono
      (Monitor.slotField_inside hf)).confines m)
  · rw [putSlotWord, run_validate_bind h hid]
    exact .refused _

theorem setLabel_quiet (id : Int) (t : Text) (m : Memory) :
    Quiet r m (.label id) ((r.setLabel id t).run m).1 :=
  label_quiet (setLabel_within id t)
    (fun hid => (Action.keeps_ofExcept _).bind fun _ => putLabel_keeps_fits h hid t)
    (fun hid => run_validate_bind h hid _ m)

theorem appendLabel_quiet (id : Int) (t : Text) (m : Memory) :
    Quiet r m (.label id) ((r.appendLabel id t).run m).1 :=
  label_quiet (appendLabel_within id t)
    (fun hid => (Action.keeps_ofExcept _).bind fun _ => addLabel_keeps_fits h hid t)
    (fun hid => run_validate_bind h hid _ m)

theorem setKey_quiet (id : Int) (s : Source) (m : Memory) :
    Quiet r m (.key id) ((r.setKey id s).run m).1 :=
  key_quiet (setKey_within id s) (fun hid => run_validate_bind h hid _ m)

theorem writeKey_quiet (id : Int) (k : Script) (m : Memory) :
    Quiet r m (.key id) ((r.writeKey id k).run m).1 := by
  refine key_quiet (writeKey_within id k) (fun hid => ?_)
  rw [writeKey, Monitor.keyView, Monitor.validate_of_not_hasId h hid]
  rfl

end Outcomes

end Registry

end Telemetry.Counters
