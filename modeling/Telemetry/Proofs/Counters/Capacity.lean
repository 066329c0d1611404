import Telemetry.Proofs.Counters.Narrow
import Telemetry.Proofs.Counters.Ownership
import Telemetry.Proofs.Counters.Refusal

namespace Telemetry.Counters

namespace Registry

/-- How many ids could be taken now. -/
def spare (r : Registry) (now : Int) (m : Memory) : Nat :=
  r.monitor.slots - r.issued + r.freed.countP fun id => r.monitor.deadlineOf id m ≤ now

variable {r r' : Registry} {m m' m₁ : Memory} {id now : Int} {q : Request}

theorem spare_congr (h : ∀ j ∈ r.freed, r.monitor.deadlineOf j m' = r.monitor.deadlineOf j m) :
    r.spare now m' = r.spare now m := by
  have hcount : r.freed.countP (fun j => r.monitor.deadlineOf j m' ≤ now) =
      r.freed.countP (fun j => r.monitor.deadlineOf j m ≤ now) :=
    List.countP_congr fun j hj => by rw [h j hj]
  rw [spare, spare, hcount]

theorem spare_eq_zero (hids : ∀ j ∈ r.freed, now < r.monitor.deadlineOf j m)
    (hissued : r.monitor.slots ≤ r.issued) : r.spare now m = 0 := by
  have hcount : r.freed.countP (fun j => r.monitor.deadlineOf j m ≤ now) = 0 :=
    List.countP_eq_zero.2 fun j hj => by
      have hlate := hids j hj
      simpa using hlate
  rw [spare, hcount]
  omega

theorem Coherent.bounded (h : r.Coherent m) : r.Bounded := ⟨h.issued_le, h.hasId⟩

section Paired

variable (hp : r.monitor.Paired)
include hp

theorem countReusable_eq (now : Int) (m : Memory) (ids : List Int)
    (hids : ∀ id ∈ ids, r.monitor.HasId id) : r.countReusable now ids m =
      .ok (ids.countP fun id => r.monitor.deadlineOf id m ≤ now) := by
  induction ids with
  | nil => rfl
  | cons id rest ih =>
    obtain ⟨hid, hrest⟩ := List.forall_mem_cons.1 hids
    rw [countReusable, Query.bind_ok _ (isReusable_eq hp hid now m), Query.bind_ok _ (ih hrest),
      List.countP_cons]
    by_cases hd : r.monitor.deadlineOf id m ≤ now
    · simp only [hd, decide_true, if_true]
      rfl
    · simp only [hd, decide_false, Bool.false_eq_true, if_false]
      rfl

theorem available_eq (hb : r.Bounded) (now : Int) (m : Memory) :
    r.available now m = .ok (r.spare now m : Nat) := by
  have hcount := countReusable_eq hp now m r.freed hb.hasId
  have hmax := hp.maxId_eq
  have hle := hb.issued_le
  have hsum : r.available now m = .ok (r.capacity - r.issued +
      (r.freed.countP fun id => r.monitor.deadlineOf id m ≤ now : Nat)) := by
    rw [available, Query.bind_ok _ hcount]
    rfl
  rw [hsum, Except.ok.injEq, capacity, spare]
  omega

theorem Taken.record_eq (ht : r.Taken now m r' id m₁) (hb : r.Bounded) {j : Int}
    (hj : r.monitor.HasId j) : (r.monitor.record j).bytes m₁ = (r.monitor.record j).bytes m := by
  cases ht with
  | reused freed _ _ slot =>
    have hslot := (hb.hasId id (by rw [freed]; simp)).hasSlot hp
    exact Monitor.record_of_slot hp hslot hj slot
  | fresh => rfl

theorem Taken.spare_eq (ht : r.Taken now m r' id m₁) (hb : r.Bounded) :
    r'.spare now m₁ + 1 = r.spare now m := by
  have hle := hb.issued_le
  have hmon := ht.monitor_eq
  have hids := (ht.bounded hb).hasId
  have hsame : r'.spare now m₁ = r'.spare now m := by
    refine spare_congr fun j hj => ?_
    rw [hmon] at hids ⊢
    exact Monitor.recordWordOf_congr (by decide) (ht.record_eq hp hb (hids j hj))
  rw [hsame]
  cases ht with
  | reused freed ready =>
    simp only [spare, freed, List.countP_append, List.countP_cons, ready, decide_true, if_true]
    omega
  | fresh others room =>
    simp only [spare]
    omega

theorem takeId_of_spare (hb : r.Bounded) (hspare : 0 < r.spare now m) :
    ∃ r' id m₁, (r.takeId now).run m = (m₁, .ok (r', id)) ∧ Taken r now m r' id m₁ := by
  rcases takeId_cases hp hb.hasId now m with htaken | ⟨hids, hissued, -⟩
  · exact htaken
  · have hzero := spare_eq_zero hids hissued
    omega

theorem takeId_of_no_spare (hb : r.Bounded) (hspare : r.spare now m = 0) :
    r.takeId now m = ⟨[], .error (.registryFull r.monitor.maxId)⟩ := by
  rcases takeId_cases hp hb.hasId now m with ⟨r', id, m₁, -, htaken⟩ | ⟨-, -, hfull⟩
  · have htake := htaken.spare_eq hp hb
    omega
  · exact hfull

theorem publish_labelled (hid : r.monitor.HasId id) (type : Int) (label : Text) (m : Memory) :
    ∃ m', (r.publish (Record.offset id) (.labelled type label)).run m = (m', .ok ()) := by
  have hfaults : (r.publish (Record.offset id) (.labelled type label)).Faults fun _ => False :=
    publish_faults hp hid _ (fun _ _ h => nomatch h) (fun _ h => nomatch h)
  rcases hrun : (r.publish (Record.offset id) (.labelled type label)).run m with ⟨m', e | _⟩
  · exact (hfaults m e (Prod.mk.inj hrun).2).elim
  · exact ⟨m', rfl⟩

theorem allocate_labelled_iff (hb : r.Bounded) (type : Int) (label : Text) :
    (∃ id, (r.allocate now (.labelled type label) m).result = .ok id) ↔ 0 < r.spare now m := by
  constructor
  · rintro ⟨id, hok⟩
    obtain ⟨_, _, htaken, -⟩ := allocate_eq_ok hp hb.hasId hok
    have htake := htaken.spare_eq hp hb
    omega
  · intro hspare
    obtain ⟨r', id, m₁, htake, htaken⟩ := takeId_of_spare hp hb hspare
    have hmon := htaken.monitor_eq
    obtain ⟨m', hpub⟩ :=
      publish_labelled (hmon ▸ hp) (hmon ▸ htaken.hasId hb.hasId) type label m₁
    exact ⟨id, (allocate_of_publish htake hpub).2.2⟩

end Paired

/-- What is written to the record of an id in limbo changes no deadline that counts. -/
theorem Limbo.spare_eq (h : r.Limbo m id) (hp : r.monitor.Paired)
    (hc : (r.monitor.record id).Confines m m') : r.spare now m' = r.spare now m := by
  have hle := h.issued_le
  refine spare_congr fun j hj => ?_
  obtain ⟨h₀, h₁⟩ := h.freed j hj
  have hne : id ≠ j := fun heq => h.absent (heq ▸ hj)
  exact Monitor.recordWordOf_congr (by decide)
    (Monitor.record_of_record hp h.hasId ⟨h₀, by omega⟩ hne hc)

/-- An allocation answers an id that was not in use: now it is, no other state changed, and one id
less is spare. -/
structure Serves (r : Registry) (now : Int) (m : Memory) (o : Outcome Int) (id : Int) : Prop where
  result : o.result = .ok id
  hasId : r.monitor.HasId id
  idle : r.monitor.stateOf id m ≠ Record.allocated
  inUse : r.monitor.stateOf id (o.memory m) = Record.allocated
  others : ∀ j, r.monitor.HasId j → j ≠ id →
    r.monitor.stateOf j (o.memory m) = r.monitor.stateOf j m
  spare : o.registry.spare now (o.memory m) + 1 = r.spare now m

theorem serves_of_publish (hp : r.monitor.Paired) (h : r.Coherent m)
    (htake : (r.takeId now).run m = (m₁, .ok (r', id))) (ht : r.Taken now m r' id m₁)
    (hpub : (r'.publish (Record.offset id) q).run m₁ = (m', .ok ())) :
    r.Serves now m (r.allocate now q m) id := by
  obtain ⟨hregistry, hmemory, hresult⟩ := allocate_of_publish htake hpub
  have hmon := ht.monitor_eq
  have hp' : r'.monitor.Paired := hmon ▸ hp
  have hlimbo := ht.limbo hp h
  have hrecord : (r'.monitor.record id).Confines m₁ m' :=
    (publish_within (Record.offset id) q).confines_of_run hpub
  have hstate := stateOf_of_publish hp' hlimbo.hasId hpub
  have hspare : r'.spare now m' + 1 = r.spare now m := by
    rw [hlimbo.spare_eq hp' hrecord]
    exact ht.spare_eq hp h.bounded
  have hothers (j : Int) (hj : r.monitor.HasId j) (hne : j ≠ id) :
      r.monitor.stateOf j m' = r.monitor.stateOf j m := by
    have htaken : r.monitor.stateOf j m₁ = r.monitor.stateOf j m :=
      Monitor.recordWordOf_congr (by decide) (ht.record_eq hp h.bounded hj)
    rw [← htaken, ← hmon]
    exact hlimbo.stateOf_eq hp' hrecord (hmon ▸ hj) hne
  rw [hmon] at hstate
  refine ⟨hresult, ht.hasId h.hasId, h.not_inUse_of_taken ht, ?_, ?_, ?_⟩
  · rw [hmemory]
    exact hstate
  · rw [hmemory]
    exact hothers
  · rw [hmemory, hregistry]
    exact hspare

theorem serves_labelled (hp : r.monitor.Paired) (h : r.Coherent m) (hspare : 0 < r.spare now m)
    (type : Int) (label : Text) :
    ∃ id, r.Serves now m (r.allocate now (.labelled type label) m) id := by
  obtain ⟨r', id, m₁, htake, htaken⟩ := takeId_of_spare hp h.bounded hspare
  have hmon := htaken.monitor_eq
  obtain ⟨m', hpub⟩ :=
    publish_labelled (hmon ▸ hp) (hmon ▸ htaken.hasId h.hasId) type label m₁
  exact ⟨id, serves_of_publish hp h htake htaken hpub⟩

end Registry

structure Batch where
  registry : Registry
  memory : Memory
  answers : List (Except Fault Int)

def Batch.cut (b : Batch) (n : Nat) : Batch := { b with registry := b.registry.cut n }

namespace Registry

def allocateEach (r : Registry) (now : Int) (m : Memory) : List Request → Batch
  | [] => ⟨r, m, []⟩
  | q :: rest =>
    let o := r.allocate now q m
    let b := o.registry.allocateEach now (o.memory m) rest
    { b with answers := o.result :: b.answers }

def labelled (labels : List (Int × Text)) : List Request :=
  labels.map fun l => .labelled l.1 l.2

variable {r : Registry} {m : Memory} {now : Int} {n : Nat} {labels : List (Int × Text)}

theorem allocateEach_cons (r : Registry) (now : Int) (m : Memory) (q : Request)
    (rest : List Request) : r.allocateEach now m (q :: rest) =
      { (r.allocate now q m).registry.allocateEach now ((r.allocate now q m).memory m) rest with
        answers := (r.allocate now q m).result ::
          ((r.allocate now q m).registry.allocateEach now ((r.allocate now q m).memory m)
            rest).answers } := rfl

theorem allocateEach_monitor_eq (r : Registry) (now : Int) (m : Memory) (qs : List Request) :
    (r.allocateEach now m qs).registry.monitor = r.monitor := by
  induction qs generalizing r m with
  | nil => rfl
  | cons q rest ih =>
    rw [allocateEach_cons]
    exact (ih _ _).trans (r.allocate_monitor_eq now q m)

/-- A series of allocations answers different ids, none of them in use before: now they are, what
was in use still is, and so many ids less are spare. -/
structure ServesAll (r : Registry) (now : Int) (m : Memory) (b : Batch) (ids : List Int) :
    Prop where
  answers : b.answers = ids.map .ok
  distinct : ids.Nodup
  hasId : ∀ id ∈ ids, r.monitor.HasId id
  idle : ∀ id ∈ ids, r.monitor.stateOf id m ≠ Record.allocated
  inUse : ∀ id ∈ ids, r.monitor.stateOf id b.memory = Record.allocated
  kept : ∀ j, r.monitor.HasId j → r.monitor.stateOf j m = Record.allocated →
    r.monitor.stateOf j b.memory = Record.allocated
  spare : b.registry.spare now b.memory + ids.length = r.spare now m
  coherent : b.registry.Coherent b.memory

theorem ServesAll.nil (h : r.Coherent m) : r.ServesAll now m ⟨r, m, []⟩ [] :=
  ⟨rfl, List.nodup_nil, List.forall_mem_nil _, List.forall_mem_nil _, List.forall_mem_nil _,
    fun _ _ hs => hs, rfl, h⟩

theorem ServesAll.cons {o : Outcome Int} {b : Batch} {id : Int} {ids : List Int}
    (h : r.Serves now m o id) (hmon : o.registry.monitor = r.monitor)
    (hrest : o.registry.ServesAll now (o.memory m) b ids) :
    r.ServesAll now m { b with answers := o.result :: b.answers } (id :: ids) := by
  obtain ⟨answers, distinct, hasId, idle, inUse, kept, spare, coherent⟩ := hrest
  rw [hmon] at hasId idle inUse kept
  -- the rest are not in use after the first was served
  have hnew : id ∉ ids := fun hmem => idle id hmem h.inUse
  have hidle : ∀ j ∈ ids, r.monitor.stateOf j m ≠ Record.allocated := by
    intro j hj
    rw [← h.others j (hasId j hj) fun heq => hnew (heq ▸ hj)]
    exact idle j hj
  have hkept (j : Int) (hj : r.monitor.HasId j) (hs : r.monitor.stateOf j m = Record.allocated) :
      r.monitor.stateOf j b.memory = Record.allocated := by
    refine kept j hj ?_
    rw [h.others j hj fun heq => h.idle (heq ▸ hs)]
    exact hs
  have hspare : b.registry.spare now b.memory + (ids.length + 1) = r.spare now m := by
    have hfirst := h.spare
    omega
  exact ⟨congrArg₂ List.cons h.result answers, List.nodup_cons.2 ⟨hnew, distinct⟩,
    List.forall_mem_cons.2 ⟨h.hasId, hasId⟩, List.forall_mem_cons.2 ⟨h.idle, hidle⟩,
    List.forall_mem_cons.2 ⟨kept id h.hasId h.inUse, inUse⟩, hkept, hspare, coherent⟩

theorem servesAll_labelled (hp : r.monitor.Paired) (h : r.Coherent m)
    (hle : labels.length ≤ r.spare now m) :
    ∃ ids, ids.length = labels.length ∧
      r.ServesAll now m (r.allocateEach now m (labelled labels)) ids := by
  induction labels generalizing r m with
  | nil => exact ⟨[], rfl, .nil h⟩
  | cons l rest ih =>
    obtain ⟨type, label⟩ := l
    rw [List.length_cons] at hle
    have hfirst : 0 < r.spare now m := by omega
    obtain ⟨id, hserves⟩ := serves_labelled hp h hfirst type label
    have hspare := hserves.spare
    have hcoherent := (allocate_change hp h.hasId now (.labelled type label) m).coherent hp h
    have hmon := r.allocate_monitor_eq now (.labelled type label) m
    obtain ⟨ids, hlen, hall⟩ := ih (hmon ▸ hp) hcoherent (by omega)
    exact ⟨id :: ids, congrArg (· + 1) hlen, .cons hserves hmon hall⟩

/-- A series of requests takes all that is available: each is answered with an id of its own that
was not in use and now is, each leaves one counter less that is available, and what is requested
next is refused without a trace. -/
structure Exhausts (r : Registry) (now : Int) (m : Memory) (qs : List Request) : Prop where
  answers : ∃ ids : List Int, (r.allocateEach now m qs).answers = ids.map .ok ∧ ids.Nodup ∧
    ∀ id ∈ ids, (∃ x, r.monitor.state id m = .ok x ∧ x ≠ Record.allocated) ∧
      r.monitor.state id (r.allocateEach now m qs).memory = .ok Record.allocated
  left : ∀ k ≤ qs.length,
    (r.allocateEach now m (qs.take k)).registry.available now
      (r.allocateEach now m (qs.take k)).memory = .ok (qs.length - k : Nat)
  full : ∀ q, (r.allocateEach now m qs).registry.allocate now q (r.allocateEach now m qs).memory =
    ⟨(r.allocateEach now m qs).registry, [], .error (.registryFull r.monitor.maxId)⟩

section Spans

variable (h : r.monitor.Spans n)
include h

theorem allocateEach_cut (hb : (r.cut n).Bounded) (now : Int) (m : Memory) (qs : List Request) :
    (r.cut n).allocateEach now m qs = (r.allocateEach now m qs).cut n := by
  induction qs generalizing r m with
  | nil => rfl
  | cons q rest ih =>
    have hmon := r.allocate_monitor_eq now q m
    have hcut := allocate_cut h hb.hasId now q m
    have hchange := (r.cut n).allocate_change h.paired hb.hasId now q m
    rw [hcut] at hchange
    -- the views stay, so that the induction goes on over the same slots
    have hrest : ((r.allocate now q m).cut n).registry.allocateEach now
        (((r.allocate now q m).cut n).memory m) rest = _ :=
      ih (hmon ▸ h) (hchange.bounded hb) ((r.allocate now q m).memory m)
    rw [allocateEach_cons, allocateEach_cons, hcut, hrest]
    rfl

theorem available_eq_of_spans (hb : (r.cut n).Bounded) (now : Int) (m : Memory) :
    r.available now m = .ok ((r.cut n).spare now m : Nat) := by
  rw [← available_cut h]
  exact available_eq h.paired hb now m

theorem allocate_labelled_iff_of_spans (hb : (r.cut n).Bounded) (type : Int) (label : Text) :
    (∃ id, (r.allocate now (.labelled type label) m).result = .ok id) ↔
      0 < (r.cut n).spare now m := by
  rw [← allocate_labelled_iff h.paired hb type label, allocate_cut h hb.hasId]
  rfl

theorem allocate_of_no_spare (hb : (r.cut n).Bounded) (hspare : (r.cut n).spare now m = 0)
    (q : Request) : r.allocate now q m = ⟨r, [], .error (.registryFull r.monitor.maxId)⟩ := by
  have hrefused := takeId_of_no_spare h.paired hb hspare
  have hmax : (r.cut n).monitor.maxId = r.monitor.maxId := h.maxId_eq
  rw [takeId_cut h hb.hasId, hmax] at hrefused
  obtain ⟨hwrites, hresult⟩ := Plan.mk.inj hrefused
  exact allocate_of_refused (congrArg₂ Plan.mk hwrites (Session.map_eq_error hresult))

theorem allocate_of_none_available (hb : (r.cut n).Bounded) (hnone : r.available now m = .ok 0)
    (q : Request) : r.allocate now q m = ⟨r, [], .error (.registryFull r.monitor.maxId)⟩ := by
  refine allocate_of_no_spare h hb ?_ q
  rw [available_eq_of_spans h hb, Except.ok.injEq] at hnone
  omega

theorem servesAll_take (hc : (r.cut n).Coherent m) (hspare : (r.cut n).spare now m = labels.length)
    {k : Nat} (hk : k ≤ labels.length) :
    ∃ ids, (r.cut n).ServesAll now m ((r.allocateEach now m ((labelled labels).take k)).cut n) ids ∧
      ((r.allocateEach now m ((labelled labels).take k)).registry.cut n).spare now
        (r.allocateEach now m ((labelled labels).take k)).memory = labels.length - k := by
  have hlen : (labels.take k).length = k := List.length_take_of_le hk
  have hle : (labels.take k).length ≤ (r.cut n).spare now m := by omega
  obtain ⟨ids, hids, hall⟩ := servesAll_labelled h.paired hc hle
  rw [allocateEach_cut h hc.bounded, labelled, List.map_take] at hall
  have hsum : ((r.allocateEach now m ((labelled labels).take k)).registry.cut n).spare now
      (r.allocateEach now m ((labelled labels).take k)).memory + ids.length = _ := hall.spare
  exact ⟨ids, hall, by omega⟩

theorem exhausts_labelled (hc : (r.cut n).Coherent m)
    (hspare : (r.cut n).spare now m = labels.length) :
    r.Exhausts now m (labelled labels) := by
  have hlength : (labelled labels).length = labels.length := List.length_map _
  have hspans (qs : List Request) : (r.allocateEach now m qs).registry.monitor.Spans n := by
    rw [allocateEach_monitor_eq]
    exact h
  obtain ⟨ids, hall, hnone⟩ := servesAll_take h hc hspare (Nat.le_refl labels.length)
  rw [List.take_of_length_le (Nat.le_of_eq hlength)] at hall hnone
  refine ⟨⟨ids, hall.answers, hall.distinct, fun id hmem => ?_⟩, fun k hk => ?_, fun q => ?_⟩
  · have hstate (m : Memory) : r.monitor.state id m = .ok ((r.cut n).monitor.stateOf id m) := by
      rw [← h.state_eq]
      exact Monitor.state_eq h.paired (hall.hasId id hmem) m
    rw [hstate, hstate]
    exact ⟨⟨_, rfl, hall.idle id hmem⟩, congrArg Except.ok (hall.inUse id hmem)⟩
  · obtain ⟨_, hsome, hleft⟩ := servesAll_take h hc hspare (hlength ▸ hk)
    rw [available_eq_of_spans (hspans _) hsome.coherent.bounded, hleft, hlength]
  · have hrefused := allocate_of_no_spare (hspans _) hall.coherent.bounded
      (hnone.trans (Nat.sub_self _)) q
    rwa [allocateEach_monitor_eq] at hrefused

end Spans

theorem Made.coherent (made : r.Made) (h : r.monitor.Spans n)
    (blank : r.monitor.metadata.bytes m = List.replicate r.monitor.metadata.capacity 0) :
    (r.cut n).Coherent m := by
  have hissued : (r.cut n).issued = 0 := made.issued_eq
  have hb := made.bounded n
  refine ⟨hb.issued_le, fun id _ _ => by omega, fun id h₀ h₁ => ?_, fun id hid => ?_⟩
  · have hid : (r.cut n).monitor.HasId id := ⟨by omega, h₁⟩
    exact View.word_of_zero blank ((Monitor.field_inside (by decide)).trans
      (Monitor.record_inside h.paired hid))
  · have hfreed : (r.cut n).freed = [] := made.freed_eq
    rw [hfreed] at hid
    cases hid

end Registry

namespace Session

open Registry

variable {r₀ : Registry} {m₀ : Memory}

theorem run_settled (made : r₀.Made) {n : Nat} (h : r₀.monitor.Spans n)
    (blank : r₀.monitor.metadata.bytes m₀ = List.replicate r₀.monitor.metadata.capacity 0)
    (clock : Clock) (wallTime : Int) (calls : List Call) (regular : ∀ c ∈ calls, c.Regular) :
    ∃ r, ((create r₀.monitor (some r₀) clock).run wallTime m₀ calls).1.On r ∧
      r.monitor = r₀.monitor ∧
      (r.cut n).Coherent ((create r₀.monitor (some r₀) clock).run wallTime m₀ calls).2 := by
  refine run_drifts (P := Coherent) h (on_create r₀ clock) (made.coherent h blank)
    (fun _ _ hc => hc.hasId) (fun _ _ _ _ _ _ _ hp hc hchange => hchange.coherent hp hc)
    (fun r m m' h hc hvalues => ?_) wallTime calls regular
  -- the values share no byte with the records
  refine hc.congr fun id hid => Monitor.recordWordOf_congr (by decide) (hvalues _ ?_)
  exact h.apart.symm.mono (View.Inside.refl _) (Monitor.record_inside h.paired hid)

/-- After every run of regular calls over metadata of zeros, and at every time, some number of
counters is available: so many labelled counters can be allocated, and no more. -/
theorem run_exhausts (made : r₀.Made)
    (blank : r₀.monitor.metadata.bytes m₀ = List.replicate r₀.monitor.metadata.capacity 0)
    (clock : Clock) (wallTime : Int) (calls : List Call) (regular : ∀ c ∈ calls, c.Regular) :
    ∃ s r m, (create r₀.monitor (some r₀) clock).run wallTime m₀ calls = (s, m) ∧
      s.registry = some r ∧ ∀ now, ∃ n : Nat, r.available now m = .ok (n : Int) ∧
        ∀ labels : List (Int × Text), labels.length = n → r.Exhausts now m (labelled labels) := by
  obtain ⟨n, h⟩ := made.spans
  obtain ⟨r, hon, hmon, hc⟩ := run_settled made h blank clock wallTime calls regular
  have hspans : r.monitor.Spans n := hmon ▸ h
  refine ⟨_, r, _, rfl, hon.registry, fun now => ⟨_, available_eq_of_spans hspans hc.bounded now _,
    fun labels hlen => exhausts_labelled hspans hc hlen.symm⟩⟩

theorem run_exhausts_small : small.Made ∧
    small.monitor.metadata.bytes Memory.zero = List.replicate small.monitor.metadata.capacity 0 ∧
    (∀ c ∈ mixed.take 6, c.Regular) ∧
    ∃ s r m, (create small.monitor (some small) (.manual 0)).run 0 Memory.zero (mixed.take 6) =
      (s, m) ∧ s.registry = some r ∧ ∀ now, ∃ n : Nat, r.available now m = .ok (n : Int) ∧
        ∀ labels : List (Int × Text), labels.length = n → r.Exhausts now m (labelled labels) :=
  ⟨⟨small_starts.created, small_starts.apart⟩, View.bytes_zero _, by decide,
    run_exhausts ⟨small_starts.created, small_starts.apart⟩ (View.bytes_zero _) (.manual 0) 0
      (mixed.take 6) (by decide)⟩

end Session

end Telemetry.Counters
