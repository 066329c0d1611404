import Telemetry.Proofs.Counters.Handles

namespace Telemetry.Counters

/-- How an id passes from hand to hand: it is opened for a handle or allocated without one, and a
handle frees it or is disconnected from it. -/
inductive Transfer
  | opened (id : Int)
  | allocated (id : Int)
  | closed (id : Int)
  | disconnected (id : Int)
  deriving DecidableEq, Repr

def Transfer.id : Transfer → Int
  | opened id | allocated id | closed id | disconnected id => id

/-- Who has an id: nobody, an open handle, whoever allocated it without a handle, or nobody any more
since its handle was disconnected. An id is broken by a transfer that its holder cannot make. -/
inductive Custody
  | free
  | handle
  | plain
  | left
  | broken
  deriving DecidableEq, Repr

namespace Custody

def after : Custody → Transfer → Custody
  | free, .opened _ => handle
  | free, .allocated _ => plain
  | handle, .closed _ => free
  | handle, .disconnected _ => left
  | _, _ => broken

def Taken : Custody → Prop
  | handle | plain | left => True
  | free | broken => False

end Custody

/-- What an id passes into by a transfer. -/
def pass (f : Int → Custody) (t : Transfer) : Int → Custody :=
  fun id => if t.id = id then (f id).after t else f id

/-- Who has an id after some transfers. -/
def custody (log : List Transfer) : Int → Custody := log.foldl pass fun _ => .free

theorem custody_append (log log' : List Transfer) :
    custody (log ++ log') = log'.foldl pass (custody log) := List.foldl_append

def give (f : Int → Custody) (id : Int) (c : Custody) : Int → Custody :=
  fun j => if id = j then c else f j

theorem pass_eq_give {f : Int → Custody} {t : Transfer} {c : Custody}
    (h : (f t.id).after t = c) : pass f t = give f t.id c := by
  funext j
  unfold pass give
  by_cases hj : t.id = j
  · rw [if_pos hj, if_pos hj, ← hj, h]
  · rw [if_neg hj, if_neg hj]

section Pass

variable {f : Int → Custody} {id : Int}

theorem pass_opened (h : f id = .free) : pass f (.opened id) = give f id .handle :=
  pass_eq_give (by show (f id).after _ = _; rw [h]; rfl)

theorem pass_allocated (h : f id = .free) : pass f (.allocated id) = give f id .plain :=
  pass_eq_give (by show (f id).after _ = _; rw [h]; rfl)

theorem pass_closed (h : f id = .handle) : pass f (.closed id) = give f id .free :=
  pass_eq_give (by show (f id).after _ = _; rw [h]; rfl)

theorem pass_disconnected (h : f id = .handle) : pass f (.disconnected id) = give f id .left :=
  pass_eq_give (by show (f id).after _ = _; rw [h]; rfl)

end Pass

theorem give_self (f : Int → Custody) (id : Int) (c : Custody) : give f id c id = c := if_pos rfl

theorem give_of_ne {f : Int → Custody} {id j : Int} {c : Custody} (h : j ≠ id) :
    give f id c j = f j := if_neg (Ne.symm h)

namespace Registry

variable {r r' : Registry} {m m' : Memory} {id now : Int} {f : Int → Custody} {c : Custody}

def Issued (r : Registry) (id : Int) : Prop := 0 ≤ id ∧ id < r.issued

structure Lent (r : Registry) (m : Memory) (id : Int) : Prop where
  issued : r.Issued id
  state : r.monitor.stateOf id m = Record.allocated
  absent : r.freed.count id = 0

/-- What they show of an id that nobody has: it was never issued, or it is freed, once. -/
structure Idle (r : Registry) (m : Memory) (id : Int) : Prop where
  state : r.Issued id → r.monitor.stateOf id m = Record.reclaimed
  once : r.Issued id → r.freed.count id = 1
  absent : ¬ r.Issued id → r.freed.count id = 0

def Shows (r : Registry) (m : Memory) (id : Int) : Custody → Prop
  | .handle | .plain | .left => r.Lent m id
  | .free => r.Idle m id
  | .broken => False

/-- Registry and memory show who has which id. -/
structure Knows (r : Registry) (m : Memory) (f : Int → Custody) : Prop where
  issued_le : r.issued ≤ r.monitor.slots
  shows : ∀ id, r.Shows m id (f id)

/-- All is known but for one id on its way from one hand to another. -/
structure Between (r : Registry) (m : Memory) (f : Int → Custody) (id : Int) : Prop where
  issued_le : r.issued ≤ r.monitor.slots
  shows : ∀ j, j ≠ id → r.Shows m j (f j)
  issued : r.Issued id
  absent : r.freed.count id = 0

theorem shows_of_taken (hc : c.Taken) : r.Shows m id c ↔ r.Lent m id := by
  cases c with
  | free => exact hc.elim
  | broken => exact hc.elim
  | _ => exact Iff.rfl

/-- Only the state of an issued id and the count of the id among the freed ones are shown. -/
theorem Shows.congr (h : r.Shows m id c) (hissued : r'.Issued id ↔ r.Issued id)
    (hstate : r.Issued id → r'.monitor.stateOf id m' = r.monitor.stateOf id m)
    (hcount : r'.freed.count id = r.freed.count id) : r'.Shows m' id c := by
  have hlent (hl : r.Lent m id) : r'.Lent m' id :=
    ⟨hissued.2 hl.issued, (hstate hl.issued).trans hl.state, hcount.trans hl.absent⟩
  cases c with
  | broken => exact h
  | free =>
    refine ⟨fun hi => ?_, fun hi => ?_, fun hi => ?_⟩
    · exact (hstate (hissued.1 hi)).trans (h.state (hissued.1 hi))
    · exact hcount.trans (h.once (hissued.1 hi))
    · exact hcount.trans (h.absent fun hi' => hi (hissued.2 hi'))
  | _ => exact hlent h

namespace Knows

theorem hasId (h : r.Knows m f) (hid : r.Issued id) : r.monitor.HasId id := by
  have hle := h.issued_le
  obtain ⟨h₀, h₁⟩ := hid
  exact ⟨h₀, by omega⟩

theorem of_freed (h : r.Knows m f) (hid : id ∈ r.freed) :
    f id = .free ∧ r.Issued id ∧ r.freed.count id = 1 := by
  have hpos : 0 < r.freed.count id := List.count_pos_iff.2 hid
  have hshows := h.shows id
  cases hf : f id with
  | free =>
    rw [hf] at hshows
    -- an id that was never issued would not be among the freed ones
    have hissued : r.Issued id := by
      apply Classical.byContradiction
      intro hno
      have hnone := hshows.absent hno
      omega
    exact ⟨rfl, hissued, hshows.once hissued⟩
  | broken =>
    rw [hf] at hshows
    exact hshows.elim
  | _ =>
    rw [hf] at hshows
    have hnone := Lent.absent hshows
    omega

theorem freed_hasId (h : r.Knows m f) : ∀ id ∈ r.freed, r.monitor.HasId id :=
  fun _ hid => h.hasId (h.of_freed hid).2.1

theorem of_not_issued (h : r.Knows m f) (hid : ¬ r.Issued id) : f id = .free := by
  have hshows := h.shows id
  cases hf : f id with
  | free => rfl
  | broken =>
    rw [hf] at hshows
    exact hshows.elim
  | _ =>
    rw [hf] at hshows
    exact absurd (Lent.issued hshows) hid

theorem lent (h : r.Knows m f) (hf : (f id).Taken) : r.Lent m id :=
  (shows_of_taken hf).1 (h.shows id)

/-- Who of those that may have an id has it does not show. -/
theorem give (h : r.Knows m f) (hf : (f id).Taken) (hc : c.Taken) :
    r.Knows m (give f id c) := by
  refine ⟨h.issued_le, fun j => ?_⟩
  by_cases hj : j = id
  · subst hj
    rw [give_self]
    exact (shows_of_taken hc).2 (h.lent hf)
  · rw [give_of_ne hj]
    exact h.shows j

theorem congr (h : r.Knows m f)
    (hstates : ∀ id, r.monitor.HasId id → r.monitor.stateOf id m' = r.monitor.stateOf id m) :
    r.Knows m' f :=
  ⟨h.issued_le, fun id => (h.shows id).congr Iff.rfl (fun hid => hstates id (h.hasId hid)) rfl⟩

theorem issued_of_pass {t : Transfer} (h : r.Knows m f) (h' : r'.Knows m' (pass f t))
    (hmono : r.issued ≤ r'.issued) : r'.Issued t.id := by
  have hafter : pass f t t.id = (f t.id).after t := if_pos rfl
  have hbefore (hf : (f t.id).Taken) : r'.Issued t.id := by
    obtain ⟨h₀, h₁⟩ := (h.lent hf).issued
    exact ⟨h₀, by omega⟩
  have hshows := h'.shows t.id
  rw [hafter] at hshows
  -- either the id was taken before, or it is so now
  cases hf : f t.id with
  | free =>
    rw [hf] at hshows
    cases t with
    | opened id => exact Lent.issued hshows
    | allocated id => exact Lent.issued hshows
    | _ => exact hshows.elim
  | broken =>
    rw [hf] at hshows
    cases t <;> exact hshows.elim
  | _ => exact hbefore (by rw [hf]; exact trivial)

theorem between (h : r.Knows m f) (hf : (f id).Taken) : r.Between m f id :=
  ⟨h.issued_le, fun j _ => h.shows j, (h.lent hf).issued, (h.lent hf).absent⟩

end Knows

theorem Taken.between {m₁ : Memory} (ht : Taken r now m r' id m₁) (hp : r.monitor.Paired)
    (h : r.Knows m f) : f id = .free ∧ r'.Between m₁ f id := by
  cases ht with
  | @reused before after _ _ freed ready others slot blank =>
    have hmem : id ∈ r.freed := by rw [freed]; simp
    obtain ⟨hfree, hissued, honce⟩ := h.of_freed hmem
    have hslot := (h.hasId hissued).hasSlot hp
    -- of the freed ids only this one is missing, and only its slot is written to
    have hcount := count_of_split freed
    refine ⟨hfree, h.issued_le, fun j hj => ?_, hissued, ?_⟩
    · refine (h.shows j).congr Iff.rfl (fun hi => ?_) ?_
      · exact Monitor.recordWordOf_congr (by decide)
          (Monitor.record_of_slot hp hslot (h.hasId hi) slot)
      · have hsame := hcount j
        rw [if_neg (Ne.symm hj), Nat.add_zero] at hsame
        exact hsame.symm
    · have hthis := hcount id
      rw [honce, if_pos rfl] at hthis
      show (before ++ after).count id = 0
      omega
  | fresh others room =>
    have hno : ¬ r.Issued r.issued := fun hi => Int.lt_irrefl _ hi.2
    have hissued (j : Int) (hj : j ≠ r.issued) :
        ({ r with issued := r.issued + 1 } : Registry).Issued j ↔ r.Issued j := by
      simp only [Issued, Int.natCast_add, Int.natCast_one]
      omega
    have hfree := h.of_not_issued hno
    have hidle : r.Idle m r.issued := by
      have hshows := h.shows r.issued
      rw [hfree] at hshows
      exact hshows
    refine ⟨hfree, room, fun j hj => ?_, ?_, hidle.absent hno⟩
    · exact (h.shows j).congr (hissued j hj) (fun _ => rfl) rfl
    · simp only [Issued, Int.natCast_add, Int.natCast_one]
      omega

namespace Between

theorem hasId (h : r.Between m f id) : r.monitor.HasId id := by
  have hle := h.issued_le
  obtain ⟨h₀, h₁⟩ := h.issued
  exact ⟨h₀, by omega⟩

theorem stateOf_eq (h : r.Between m f id) (hp : r.monitor.Paired)
    (hc : (r.monitor.record id).Confines m m') {j : Int} (hj : r.Issued j) (hne : j ≠ id) :
    r.monitor.stateOf j m' = r.monitor.stateOf j m := by
  have hle := h.issued_le
  obtain ⟨h₀, h₁⟩ := hj
  exact Monitor.recordWordOf_congr (by decide)
    (Monitor.record_of_record hp h.hasId ⟨h₀, by omega⟩ (Ne.symm hne) hc)

theorem publish (h : r.Between m f id) (hp : r.monitor.Paired)
    (hr : (r.monitor.record id).Confines m m')
    (hs : r.monitor.stateOf id m' = Record.allocated) (hc : c.Taken) :
    r.Knows m' (give f id c) := by
  refine ⟨h.issued_le, fun j => ?_⟩
  by_cases hj : j = id
  · subst hj
    rw [give_self]
    exact (shows_of_taken hc).2 ⟨h.issued, hs, h.absent⟩
  · rw [give_of_ne hj]
    exact (h.shows j hj).congr Iff.rfl (fun hi => h.stateOf_eq hp hr hi hj) rfl

theorem release (h : r.Between m f id) (hp : r.monitor.Paired)
    (hr : (r.monitor.record id).Confines m m')
    (hs : r.monitor.stateOf id m' = Record.reclaimed) :
    ({ r with freed := r.freed ++ [id] } : Registry).Knows m' (give f id .free) := by
  refine ⟨h.issued_le, fun j => ?_⟩
  by_cases hj : j = id
  · subst hj
    rw [give_self]
    have honce : (r.freed ++ [j]).count j = 1 := by
      rw [List.count_append, h.absent, List.count_singleton_self]
    exact ⟨fun _ => hs, fun _ => honce, fun hno => absurd h.issued hno⟩
  · rw [give_of_ne hj]
    refine (h.shows j hj).congr Iff.rfl (fun hi => h.stateOf_eq hp hr hi hj) ?_
    have hnone : [id].count j = 0 :=
      List.count_eq_zero.2 fun hmem => hj (List.mem_singleton.1 hmem)
    rw [List.count_append, hnone, Nat.add_zero]

end Between

inductive Passes (r' : Registry) (m' : Memory) (f : Int → Custody) (d : Deed) :
    List Event → Prop
  | nothing (known : r'.Knows m' f) : Passes r' m' f d []
  | returned (id time : Int) (deed : d = .free id)
      (known : (f id).Taken → r'.Knows m' (give f id .free)) :
      Passes r' m' f d [.returned id time]
  | taken (id : Int) (free : f id = .free)
      (known : ∀ c : Custody, c.Taken → r'.Knows m' (give f id c)) :
      Passes r' m' f d [.taken id]
  | withdrawn (id : Int) (free : f id = .free) (known : r'.Knows m' f) :
      Passes r' m' f d [.taken id, .withdrawn id]

theorem Change.passes {d : Deed} {es : List Event} (hchange : r.Change now m d es r' m')
    (hp : r.monitor.Paired) (h : r.Knows m f) : Passes r' m' f d es := by
  cases hchange with
  | quiet written =>
    exact .nothing (h.congr fun id hid => Monitor.recordWordOf_of_header (by decide)
      (written.header_eq hp hid))
  | @freed id _ hasId inUse record released =>
    exact .returned id now rfl fun hf => (h.between hf).release hp record released.state
  | @published q id _ _ _ taken record inUse =>
    have hmon := taken.monitor_eq
    obtain ⟨hfree, hbetween⟩ := taken.between hp h
    exact .taken id hfree fun c hc =>
      hbetween.publish (hmon ▸ hp) (hmon ▸ record) (hmon ▸ inUse) hc
  | @withdrawn q id _ _ _ taken record released =>
    have hmon := taken.monitor_eq
    obtain ⟨hfree, hbetween⟩ := taken.between hp h
    have hknows := hbetween.release (hmon ▸ hp) (hmon ▸ record) (hmon ▸ released.state)
    -- the id was nobody's before, and is so again
    have hsame : give f id .free = f := by
      funext j
      by_cases hj : j = id
      · rw [hj, give_self, hfree]
      · rw [give_of_ne hj]
    exact .withdrawn id hfree (hsame ▸ hknows)

theorem Change.issued_le {d : Deed} {es : List Event} (h : r.Change now m d es r' m') :
    r.issued ≤ r'.issued := by
  have htaken {r₁ : Registry} {j : Int} {m₁ : Memory} (ht : Taken r now m r₁ j m₁) :
      r.issued ≤ r₁.issued := by
    cases ht with
    | reused => exact Nat.le_refl _
    | fresh => exact Nat.le_succ _
  cases h with
  | quiet => exact Nat.le_refl _
  | freed => exact Nat.le_refl _
  | published taken => exact htaken taken
  | withdrawn taken =>
    have hle := htaken taken
    exact hle

theorem free_ok (hp : r.monitor.Paired) (hid : r.monitor.HasId id)
    (hs : r.monitor.stateOf id m = Record.allocated) (now : Int) :
    (r.free now id m).result = .ok () := by
  obtain ⟨m', hrun, -⟩ := run_reclaim hp hid hs now
  have hok : (r.reclaim now id m).result = .ok () := (Prod.mk.inj hrun).2
  simp only [free, hok]

theorem events_of_allocate_ok {q : Request} (h : (r.allocate now q m).result = .ok id) :
    r.events now m (.allocate q) = [.taken id] := by
  cases htake : (r.takeId now m).result with
  | error e =>
    simp only [allocate, htake] at h
    cases h
  | ok p =>
    obtain ⟨r', j⟩ := p
    simp only [events, htake, h]
    simp only [allocate, htake] at h
    split at h
    · cases h
      rfl
    · cases h

theorem events_of_allocate_error {q : Request} {e : Fault}
    (h : (r.allocate now q m).result = .error e) :
    r.events now m (.allocate q) = [] ∨
      ∃ j, r.events now m (.allocate q) = [.taken j, .withdrawn j] := by
  cases htake : (r.takeId now m).result with
  | error e' =>
    left
    simp only [events, htake]
  | ok p =>
    obtain ⟨r', j⟩ := p
    right
    refine ⟨j, ?_⟩
    simp only [events, htake, h]

end Registry

end Telemetry.Counters
