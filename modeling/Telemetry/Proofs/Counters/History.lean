import Mathlib.Data.List.Find
import Telemetry.Proofs.Counters.Ownership

namespace Telemetry.Counters

namespace Event

def id : Event → Int
  | taken id => id
  | returned id _ => id
  | withdrawn id => id

/-- From when on an id may be taken again after an event, if the event leaves it free. -/
def deadline (timeout : Int) : Event → Option Int
  | taken _ => none
  | returned _ time => some (time + timeout)
  | withdrawn _ => some 0

/-- The deadline of an id that was given back is a signed word of eight bytes. -/
def Fits (timeout : Int) : Event → Prop
  | returned _ time => -0x8000000000000000 ≤ time + timeout ∧ time + timeout < 0x8000000000000000
  | _ => True

instance (timeout : Int) : DecidablePred (Fits timeout)
  | taken _ | withdrawn _ => .isTrue trivial
  | returned _ _ => inferInstanceAs (Decidable (_ ∧ _))

/-- The ids at rest with their deadlines: releases that no event of the same id followed, in the
order of the releases. -/
def resting (timeout : Int) : List Event → List (Int × Int)
  | [] => []
  | e :: later =>
    match e.deadline timeout with
    | some d =>
      if ∀ x ∈ later, x.id ≠ e.id then (e.id, d) :: resting timeout later
      else resting timeout later
    | none => resting timeout later

variable {timeout now d : Int} {h : List Event} {e : Event}

theorem resting_append_singleton (timeout : Int) (h : List Event) (e : Event) :
    resting timeout (h ++ [e]) = (resting timeout h).filter (fun p => p.1 ≠ e.id) ++
      ((e.deadline timeout).map fun d => (e.id, d)).toList := by
  induction h with
  | nil => cases hd : e.deadline timeout <;> simp [resting, hd]
  | cons x later ih =>
    rw [List.cons_append, resting, resting]
    cases hx : x.deadline timeout with
    | none => exact ih
    | some dx =>
      -- The release rests if nothing of its id follows, now with one event more to look at.
      by_cases hlast : ∀ y ∈ later, y.id ≠ x.id
      · by_cases hid : x.id = e.id
        · have hnot : ¬ ∀ y ∈ later ++ [e], y.id ≠ x.id := fun hall => hall e (by simp) hid.symm
          simp only [if_neg hnot, if_pos hlast, ih]
          simp [hid]
        · have hall : ∀ y ∈ later ++ [e], y.id ≠ x.id := by
            intro y hy
            rcases List.mem_append.1 hy with hy | hy
            · exact hlast y hy
            · exact List.mem_singleton.1 hy ▸ Ne.symm hid
          simp only [if_pos hall, if_pos hlast, ih]
          simp [hid]
      · have hnot : ¬ ∀ y ∈ later ++ [e], y.id ≠ x.id :=
          fun hall => hlast fun y hy => hall y (List.mem_append_left _ hy)
        simp only [if_neg hnot, if_neg hlast, ih]

theorem mem_resting {p : Int × Int} : p ∈ resting timeout h ↔
    ∃ before e after, h = before ++ e :: after ∧ e.id = p.1 ∧ e.deadline timeout = some p.2 ∧
      ∀ x ∈ after, x.id ≠ p.1 := by
  induction h with
  | nil => simp [resting]
  | cons x later ih =>
    have hrest : p ∈ resting timeout later → ∃ before e after, x :: later = before ++ e :: after ∧
        e.id = p.1 ∧ e.deadline timeout = some p.2 ∧ ∀ y ∈ after, y.id ≠ p.1 := by
      intro hp
      obtain ⟨before, e, after, hsplit, hrest⟩ := ih.1 hp
      exact ⟨x :: before, e, after, by rw [hsplit]; rfl, hrest⟩
    constructor
    · intro hp
      rw [resting] at hp
      split at hp
      · next d hd =>
        split at hp
        · next hlast =>
          rcases List.mem_cons.1 hp with rfl | hp
          · exact ⟨[], x, later, rfl, rfl, hd, hlast⟩
          · exact hrest hp
        · exact hrest hp
      · exact hrest hp
    · rintro ⟨before, e, after, hsplit, hid, hd, hlast⟩
      cases before with
      | nil =>
        cases hsplit
        rw [resting, hd]
        simp only [hid, if_pos hlast, List.mem_cons, true_or]
      | cons y before =>
        cases hsplit
        have hp := ih.2 ⟨before, e, after, rfl, hid, hd, hlast⟩
        rw [resting]
        split
        · split
          · exact List.mem_cons_of_mem _ hp
          · exact hp
        · exact hp

example : resting 10 [taken 0, returned 0 5, taken 1, withdrawn 1, taken 0] = [(1, 0)] := by decide

end Event

namespace Registry

/-- The ids that were taken are the ids that were issued. -/
def Recorded (r : Registry) (h : List Event) : Prop :=
  ∀ id : Int, .taken id ∈ h ↔ 0 ≤ id ∧ id < r.issued

/-- The freed ids are those at rest, with the deadlines that the memory holds, and an id that was
returned is not released again before it is taken. -/
structure Remembers (r : Registry) (m : Memory) (h : List Event) : Prop where
  freed : (Event.resting r.timeout h).map Prod.fst = r.freed
  deadlines : ∀ p ∈ Event.resting r.timeout h, r.monitor.deadlineOf p.1 m = p.2
  alternate : ∀ before id t after, h = before ++ .returned id t :: after → .taken id ∉ after →
    ∀ x ∈ after, x.id ≠ id

variable {r r' : Registry} {m m₁ m' : Memory} {h : List Event} {id now d : Int}

theorem Starts.recorded (start : r.Starts m) : r.Recorded [] := by
  intro id
  have hissued := start.issued_eq
  simp only [List.not_mem_nil, hissued, false_iff]
  omega

theorem Taken.recorded (ht : Taken r now m r' id m₁) (hco : r.Coherent m) (hr : r.Recorded h) :
    r'.Recorded (h ++ [.taken id]) := by
  intro j
  rw [List.mem_append, List.mem_singleton, hr j, Event.taken.injEq]
  cases ht with
  | reused freed =>
    have hissued := hco.freed id (by rw [freed]; simp)
    exact ⟨fun hj => hj.elim (fun hj => hj) fun hj => hj ▸ hissued, .inl⟩
  | fresh =>
    simp only [Int.natCast_add, Int.natCast_one]
    omega

theorem Change.recorded {d : Deed} {es : List Event} (hchange : r.Change now m d es r' m')
    (hco : r.Coherent m) (hr : r.Recorded h) : r'.Recorded (h ++ es) := by
  have hmore {e : Event} {r : Registry} {h : List Event} (hr : r.Recorded h)
      (he : ∀ id, e ≠ .taken id) : r.Recorded (h ++ [e]) := by
    intro j
    rw [List.mem_append, List.mem_singleton, hr j]
    exact or_iff_left fun hj => he j hj.symm
  cases hchange with
  | quiet => rwa [List.append_nil]
  | freed => exact hmore hr (by nofun)
  | published taken => exact taken.recorded hco hr
  | withdrawn taken =>
    rw [List.append_cons h]
    exact hmore (taken.recorded hco hr) (by nofun)

theorem Taken.freed_eq (ht : Taken r now m r' id m₁) (hco : r.Coherent m) :
    r'.freed = r.freed.filter (· ≠ id) := by
  cases ht with
  | @reused before after _ _ freed =>
    have hnodup := freed ▸ hco.nodup_freed
    have hnot := (List.nodup_middle.1 hnodup).notMem
    have hbefore : ∀ j ∈ before, j ≠ id := fun j hj he => hnot (by simp [← he, hj])
    have hafter : ∀ j ∈ after, j ≠ id := fun j hj he => hnot (by simp [← he, hj])
    change before ++ after = _
    rw [freed, List.filter_append, List.filter_cons_of_neg (by simp)]
    congr 1
    · exact (List.filter_eq_self.2 fun j hj => by simp [hbefore j hj]).symm
    · exact (List.filter_eq_self.2 fun j hj => by simp [hafter j hj]).symm
  | fresh =>
    refine (List.filter_eq_self.2 fun j hj => ?_).symm
    have hissued := (hco.freed j hj).2
    simp only [ne_eq, decide_not, Bool.not_eq_eq_eq_not, Bool.not_true, decide_eq_false_iff_not]
    omega

namespace Remembers

theorem mem_freed (hr : r.Remembers m h) {p : Int × Int} (hp : p ∈ Event.resting r.timeout h) :
    p.1 ∈ r.freed := hr.freed ▸ List.mem_map_of_mem hp

theorem rests (hr : r.Remembers m h) {before after : List Event} {t : Int}
    (hsplit : h = before ++ .returned id t :: after) (hnot : .taken id ∉ after) :
    (id, t + r.timeout) ∈ Event.resting r.timeout h :=
  Event.mem_resting.2 ⟨before, _, after, hsplit, rfl, rfl,
    hr.alternate before id t after hsplit hnot⟩

theorem alternate_append (hr : r.Remembers m h) {e : Event}
    (he : e = .taken e.id ∨ e.id ∉ r.freed) (before : List Event) (id t : Int)
    (after : List Event) (hsplit : h ++ [e] = before ++ .returned id t :: after)
    (hnot : .taken id ∉ after) : ∀ x ∈ after, x.id ≠ id := by
  rcases List.eq_nil_or_concat after with rfl | ⟨mid, y, rfl⟩
  · exact fun x hx => nomatch hx
  · rw [List.concat_eq_append, ← List.cons_append, ← List.append_assoc] at hsplit
    obtain ⟨hh, hy⟩ := List.append_inj' hsplit rfl
    cases hy
    rw [List.concat_eq_append, List.mem_append, List.mem_singleton, not_or] at hnot
    intro x hx
    rw [List.concat_eq_append, List.mem_append, List.mem_singleton] at hx
    rcases hx with hx | rfl
    · exact hr.alternate before id t mid hh hnot.1 x hx
    · rintro rfl
      -- An id that was returned and not taken since is freed, so it cannot be released.
      rcases he with htaken | hfree
      · exact hnot.2 htaken.symm
      · exact hfree (hr.mem_freed (hr.rests hh hnot.1))

theorem take (hr : r.Remembers m h) (hp : r.monitor.Paired) (hco : r.Coherent m)
    (ht : Taken r now m r' id m₁) : r'.Remembers m₁ (h ++ [.taken id]) := by
  have hresting : Event.resting r'.timeout (h ++ [.taken id]) =
      (Event.resting r.timeout h).filter fun p => p.1 ≠ id := by
    rw [ht.timeout_eq, Event.resting_append_singleton]
    exact List.append_nil _
  refine ⟨?_, fun p hpr => ?_, hr.alternate_append (.inl rfl)⟩
  · rw [hresting, ht.freed_eq hco, ← hr.freed, List.filter_map]
    rfl
  · rw [hresting] at hpr
    have hmem := List.mem_of_mem_filter hpr
    rw [← hr.deadlines p hmem, ht.monitor_eq]
    cases ht with
    | reused freed ready others slot =>
      have hfreed : id ∈ r.freed := by rw [freed]; simp
      have hslot := (hco.hasId id hfreed).hasSlot hp
      exact Monitor.recordWordOf_congr (by decide)
        (Monitor.record_of_slot hp hslot (hco.hasId _ (hr.mem_freed hmem)) slot)
    | fresh => rfl

theorem write (hr : r.Remembers m h) (hp : r.monitor.Paired) (hl : r.Limbo m id)
    (hc : (r.monitor.record id).Confines m m') : r.Remembers m' h := by
  refine ⟨hr.freed, fun p hpr => ?_, hr.alternate⟩
  have hmem := hr.mem_freed hpr
  have hle := hl.issued_le
  have hissued := hl.freed p.1 hmem
  have hne : id ≠ p.1 := fun he => hl.absent (he ▸ hmem)
  rw [← hr.deadlines p hpr]
  exact Monitor.recordWordOf_congr (by decide)
    (Monitor.record_of_record hp hl.hasId ⟨hissued.1, by omega⟩ hne hc)

theorem release (hr : r.Remembers m h) (hp : r.monitor.Paired) (hl : r.Limbo m id)
    (hc : (r.monitor.record id).Confines m m') {e : Event} (hid : e.id = id)
    (hd : e.deadline r.timeout = some d) (hdeadline : r.monitor.deadlineOf id m' = d) :
    ({ r with freed := r.freed ++ [id] } : Registry).Remembers m' (h ++ [e]) := by
  have hw := hr.write hp hl hc
  -- The id was not at rest before, so no other rest ends.
  have hkept : (Event.resting r.timeout h).filter (fun p => p.1 ≠ e.id) =
      Event.resting r.timeout h := by
    refine List.filter_eq_self.2 fun p hpr => ?_
    have hne : p.1 ≠ e.id := fun he => hl.absent (hid ▸ he ▸ hr.mem_freed hpr)
    simp [hne]
  have hresting : Event.resting r.timeout (h ++ [e]) = Event.resting r.timeout h ++ [(id, d)] := by
    rw [Event.resting_append_singleton, hkept, hd, hid]
    rfl
  refine ⟨?_, fun p hpr => ?_, hr.alternate_append (.inr (hid ▸ hl.absent))⟩
  · rw [hresting, List.map_append, hr.freed]
    rfl
  · rw [hresting] at hpr
    rcases List.mem_append.1 hpr with hpr | hpr
    · exact hw.deadlines p hpr
    · rw [List.mem_singleton.1 hpr]
      exact hdeadline

end Remembers

theorem Change.remembers {d : Deed} {es : List Event} (hchange : r.Change now m d es r' m')
    (hp : r.monitor.Paired) (hco : r.Coherent m) (hfits : ∀ e ∈ es, e.Fits r.timeout)
    (hr : r.Remembers m h) : r'.Remembers m' (h ++ es) := by
  cases hchange with
  | quiet written =>
    rw [List.append_nil]
    refine ⟨hr.freed, fun p hpr => ?_, hr.alternate⟩
    rw [← hr.deadlines p hpr]
    exact Monitor.recordWordOf_of_header (by decide)
      (written.header_eq hp (hco.hasId _ (hr.mem_freed hpr)))
  | @freed id _ hasId inUse record released =>
    have hfit : (Event.returned id now).Fits r.timeout := hfits _ List.mem_cons_self
    obtain ⟨hlo, hhi⟩ := hfit
    have hmodulus : (Word.modulus 8 : Int) = 0x10000000000000000 := rfl
    have hwrap : Word.wrap 8 (now + r.timeout) = now + r.timeout :=
      Word.wrap_of_fits (by omega) (by omega)
    exact hr.release hp (hco.limbo hasId inUse) record rfl rfl (released.deadline.trans hwrap)
  | published taken record =>
    have hmon := taken.monitor_eq
    exact (hr.take hp hco taken).write (hmon ▸ hp) (taken.limbo hp hco) (hmon ▸ record)
  | withdrawn taken record released =>
    have hmon := taken.monitor_eq
    rw [List.append_cons h]
    exact (hr.take hp hco taken).release (hmon ▸ hp) (taken.limbo hp hco) (hmon ▸ record) rfl
      (e := .withdrawn _) (d := 0) rfl (hmon ▸ released.deadline)

/-- An allocation takes an id: it answers the id, or it fails and the id is the last one freed. -/
inductive Takes (r : Registry) (now : Int) (m : Memory) (q : Request) (id : Int) : Prop
  | answered (result : (r.allocate now q m).result = .ok id)
      (events : r.events now m (.allocate q) = [.taken id])
  | withdrawn (fault : Fault) (result : (r.allocate now q m).result = .error fault)
      (freed : (r.allocate now q m).registry.freed.getLast? = some id)
      (events : r.events now m (.allocate q) = [.taken id, .withdrawn id])

theorem takes_of_takeId (htake : (r.takeId now).run m = (m₁, .ok (r', id))) (q : Request) :
    r.Takes now m q id := by
  have hresult : (r.takeId now m).result = .ok (r', id) := (Prod.mk.inj htake).2
  rcases hpub : (r'.publish (Record.offset id) q).run m₁ with ⟨m₂, e | _⟩
  · obtain ⟨hr, _, hfailed⟩ := allocate_of_withdraw htake hpub rfl
    refine .withdrawn e hfailed ?_ ?_
    · rw [hr, List.getLast?_append_of_ne_nil]
      · rfl
      · exact List.cons_ne_nil _ _
    · simp only [events, hresult, hfailed]
  · obtain ⟨_, _, hdone⟩ := allocate_of_publish htake hpub
    exact .answered hdone (by simp only [events, hresult, hdone])

theorem Taken.find?_freed (ht : Taken r now m r' id m₁) :
    r.freed.find? (fun j => r.monitor.deadlineOf j m ≤ now) = some id ∨
      r.freed.find? (fun j => r.monitor.deadlineOf j m ≤ now) = none ∧ id = r.issued ∧
        r.issued < r.monitor.slots := by
  cases ht with
  | @reused before after _ _ freed ready others =>
    refine .inl (List.find?_eq_some_iff_append.2 ⟨by simpa using ready, before, after, freed, ?_⟩)
    intro j hj
    simpa using others j hj
  | fresh others room =>
    refine .inr ⟨List.find?_eq_none.2 fun j hj => ?_, rfl, room⟩
    simpa using others j hj

theorem Remembers.find?_freed (hr : r.Remembers m h) (now : Int) :
    r.freed.find? (fun j => r.monitor.deadlineOf j m ≤ now) =
      ((Event.resting r.timeout h).find? fun p => p.2 ≤ now).map Prod.fst := by
  rw [← hr.freed, List.find?_map]
  congr 1
  refine List.find?_congr fun p hp => ?_
  simp only [Function.comp_apply, hr.deadlines p hp]

/-- The next allocation is decided by the history. At rest are the ids that were taken and are not
in use; the one released earliest of those whose deadline has passed is taken, otherwise the least
that was never taken, otherwise none. -/
structure FollowsHistory (r : Registry) (m : Memory) (h : List Event) : Prop where
  rests : ∀ id, (∃ d, (id, d) ∈ Event.resting r.timeout h) ↔
    .taken id ∈ h ∧ r.monitor.state id m ≠ .ok Record.allocated
  earliest : ∀ now id d, (Event.resting r.timeout h).find? (fun p => p.2 ≤ now) = some (id, d) →
    ∀ q, r.Takes now m q id
  next : ∃ n : Nat, (∀ id : Int, .taken id ∈ h ↔ 0 ≤ id ∧ id < n) ∧
    ∀ now, (Event.resting r.timeout h).find? (fun p => p.2 ≤ now) = none → ∀ q,
      (n ≤ r.monitor.maxId → r.Takes now m q n) ∧
      (r.monitor.maxId < n →
        r.allocate now q m = ⟨r, [], .error (.registryFull r.monitor.maxId)⟩)
  rested : ∀ before id t after, h = before ++ .returned id t :: after → .taken id ∉ after →
    ∀ now < t + r.timeout, ∀ q, (r.allocate now q m).result ≠ .ok id ∧
      .taken id ∉ r.events now m (.allocate q)

namespace Remembers

theorem rests_iff (hr : r.Remembers m h) (hrec : r.Recorded h) (hp : r.monitor.Paired)
    (hco : r.Coherent m) (id : Int) : (∃ d, (id, d) ∈ Event.resting r.timeout h) ↔
      .taken id ∈ h ∧ r.monitor.state id m ≠ .ok Record.allocated := by
  have hmem : (∃ d, (id, d) ∈ Event.resting r.timeout h) ↔ id ∈ r.freed := by
    rw [← hr.freed, List.mem_map]
    exact ⟨fun ⟨d, hd⟩ => ⟨_, hd, rfl⟩, fun ⟨p, hpr, hid⟩ => ⟨p.2, hid ▸ hpr⟩⟩
  rw [hmem, hrec id, ne_eq, Monitor.state_eq_ok_iff hp]
  constructor
  · intro hid
    refine ⟨hco.freed id hid, fun hs => ?_⟩
    exact (hco.of_inUse hs.1 hs.2).2 hid
  · rintro ⟨⟨h₀, h₁⟩, hs⟩
    have hle := hco.issued_le
    rcases hco.settled id h₀ h₁ with ⟨huse, _⟩ | ⟨_, honce⟩
    · exact absurd ⟨⟨h₀, by omega⟩, huse⟩ hs
    · exact List.count_pos_iff.1 (by omega)

theorem not_taken (hr : r.Remembers m h) (hco : r.Coherent m) {before after : List Event} {t : Int}
    (hsplit : h = before ++ .returned id t :: after) (hnot : .taken id ∉ after)
    (hnow : now < t + r.timeout) : ¬ Taken r now m r' id m₁ := by
  intro htaken
  have hrest := hr.rests hsplit hnot
  have hdeadline := hr.deadlines _ hrest
  dsimp only at hdeadline
  cases htaken with
  | reused _ ready => omega
  | fresh => exact absurd (hco.freed _ (hr.mem_freed hrest)).2 (Int.lt_irrefl _)

theorem followsHistory (hr : r.Remembers m h) (hrec : r.Recorded h) (hp : r.monitor.Paired)
    (hco : r.Coherent m) : r.FollowsHistory m h := by
  have hmax := hp.maxId_eq
  refine ⟨hr.rests_iff hrec hp hco, fun now id d hfind q => ?earliest,
    ⟨r.issued, hrec, fun now hfind q => ?next⟩,
    fun before id t after hsplit hnot now hnow q => ?rested⟩
  case earliest =>
    have hfind' := hr.find?_freed now
    rw [hfind] at hfind'
    rcases takeId_cases hp hco.hasId now m with ⟨r', j, m₁, htake, htaken⟩ | ⟨hall, _, _⟩
    · rcases htaken.find?_freed with hj | ⟨hnone, _⟩
      · cases hj.symm.trans hfind'
        exact takes_of_takeId htake q
      · nomatch hnone.symm.trans hfind'
    · have hready : r.monitor.deadlineOf id m ≤ now := by simpa using List.find?_some hfind'
      have hlate := hall id (List.mem_of_find?_eq_some hfind')
      exact absurd hready (Int.not_le.2 hlate)
  case next =>
    have hfind' := hr.find?_freed now
    rw [hfind] at hfind'
    rcases takeId_cases hp hco.hasId now m with ⟨r', j, m₁, htake, htaken⟩ | ⟨_, hfull, hrefused⟩
    · rcases htaken.find?_freed with hj | ⟨_, rfl, hroom⟩
      · nomatch hj.symm.trans hfind'
      · exact ⟨fun _ => takes_of_takeId htake q, fun hlt => by omega⟩
    · exact ⟨fun hle => by omega, fun _ => allocate_of_refused hrefused⟩
  case rested =>
    rcases takeId_cases hp hco.hasId now m with ⟨r', j, m₁, htake, htaken⟩ | ⟨_, _, hrefused⟩
    · have hne : j ≠ id := fun he => hr.not_taken hco hsplit hnot hnow (he ▸ htaken)
      cases takes_of_takeId htake q with
      | answered result events =>
        rw [result, events]
        simp [hne, Ne.symm hne]
      | withdrawn fault result freed events =>
        rw [result, events]
        simp [Ne.symm hne]
    · rw [allocate_of_refused hrefused, events, hrefused]
      simp

end Remembers

end Registry

namespace Session

open Registry

variable {r₀ : Registry} {m₀ : Memory}

/-- After every run from the start the history tells which ids were issued, and as long as no
deadline overflows it tells which ids are freed and until when they rest. -/
theorem run_remembers (start : r₀.Starts m₀) (clock : Clock) (wallTime : Int) (calls : List Call)
    (regular : ∀ c ∈ calls, c.Regular) :
    let s := create r₀.monitor (some r₀) clock
    ∃ r, (s.run wallTime m₀ calls).1.On r ∧ r.monitor = r₀.monitor ∧ r.timeout = r₀.timeout ∧
      r.Coherent (s.run wallTime m₀ calls).2 ∧ r.Recorded (s.history wallTime m₀ calls) ∧
      ((∀ e ∈ s.history wallTime m₀ calls, e.Fits r.timeout) →
        r.Remembers (s.run wallTime m₀ calls).2 (s.history wallTime m₀ calls)) := by
  intro s
  refine run_invariant (P := fun h r m => r.Coherent m ∧ r.Recorded h ∧
      ((∀ e ∈ h, e.Fits r.timeout) → r.Remembers m h))
    (start.on clock) start.paired ⟨start.coherent, start.recorded, fun _ => ⟨?_, ?_, ?_⟩⟩
    (fun _ _ _ h => h.1.hasId) ?_ wallTime calls regular
  · exact start.freed_eq.symm
  · exact fun _ hp => nomatch hp
  · intro before id t after hsplit
    exact absurd hsplit (by simp)
  · rintro h r m now d es r' m' hp ⟨hco, hrec, hr⟩ hchange
    refine ⟨hchange.coherent hp hco, hchange.recorded hco hrec, fun hfits => ?_⟩
    rw [hchange.timeout_eq] at hfits
    exact hchange.remembers hp hco (fun e he => hfits e (List.mem_append_right _ he))
      (hr fun e he => hfits e (List.mem_append_left _ he))

/-- After every run whose deadlines do not overflow, its history decides the next allocation. -/
theorem run_followsHistory (start : r₀.Starts m₀) (clock : Clock) (wallTime : Int)
    (calls : List Call) (regular : ∀ c ∈ calls, c.Regular)
    (fits : ∀ e ∈ (create r₀.monitor (some r₀) clock).history wallTime m₀ calls,
      e.Fits r₀.timeout) :
    ∃ s r m, (create r₀.monitor (some r₀) clock).run wallTime m₀ calls = (s, m) ∧
      s.registry = some r ∧
      r.FollowsHistory m ((create r₀.monitor (some r₀) clock).history wallTime m₀ calls) := by
  obtain ⟨r, hon, hmon, htime, hco, hrec, hr⟩ :=
    run_remembers start clock wallTime calls regular
  refine ⟨_, r, _, rfl, hon.registry, ?_⟩
  exact (hr (htime ▸ fits)).followsHistory hrec (hmon ▸ start.paired) hco

theorem run_followsHistory_small : small.Starts Memory.zero ∧ (∀ c ∈ mixed, c.Regular) ∧
    (∀ e ∈ (create small.monitor (some small) (.manual 0)).history 0 Memory.zero mixed,
      e.Fits small.timeout) ∧
    ∃ s r m, (create small.monitor (some small) (.manual 0)).run 0 Memory.zero mixed = (s, m) ∧
      s.registry = some r ∧ r.FollowsHistory m
        ((create small.monitor (some small) (.manual 0)).history 0 Memory.zero mixed) :=
  ⟨small_starts, by decide, by decide +kernel,
    run_followsHistory small_starts (.manual 0) 0 mixed (by decide) (by decide +kernel)⟩

end Session

end Telemetry.Counters
