import Telemetry.Proofs.Ring.Fifo

namespace Telemetry.Ring

variable {α : Type} [Element α]

theorem requested_of_capacityFor {requested : Int32} {c : Nat} (h : capacityFor requested = .ok c) :
    2 ≤ requested.toInt ∧ requested.toInt ≤ 0x40000000 ∧
      c = (Bits.nextPowerOfTwo32 requested).toInt.toNat := by
  unfold capacityFor at h
  split at h
  · cases h
  · next hnotSmall =>
    split at h
    · cases h
    · next hnotLarge =>
      cases h
      rw [Int32.lt_iff_toInt_lt] at hnotSmall
      exact ⟨Int.not_lt.1 hnotSmall, Int.not_lt.1 hnotLarge, rfl⟩

theorem capacityFor_eq_ok {requested : Int32} {c : Nat} (h : capacityFor requested = .ok c) :
    2 ≤ c ∧ Bits.LeastPower requested.toInt.toNat c := by
  obtain ⟨hlow, hhigh, rfl⟩ := requested_of_capacityFor h
  have hle := Bits.le_powerCeil requested.toInt.toNat
  rw [Bits.toInt_nextPowerOfTwo32 hhigh, Int.toNat_natCast]
  exact ⟨by omega, Bits.powerCeil_leastPower _⟩

theorem create_eq_ok {requested : Int32} {q : Ring α} (h : create requested = .ok q) :
    ∃ c, 2 ≤ c ∧ Bits.LeastPower requested.toInt.toNat c ∧ q = ofCapacity c := by
  unfold create at h
  cases hc : capacityFor requested with
  | error e =>
    rw [hc] at h
    cases h
  | ok c =>
    rw [hc] at h
    cases h
    obtain ⟨htwo, hleast⟩ := capacityFor_eq_ok hc
    exact ⟨c, htwo, hleast, rfl⟩

/-- A ring with a capacity is where a bounded list is, and answers like it from there on. -/
structure Stands (q : Ring α) (c : Nat) (p : Plain α) : Prop where
  follows : q.Follows p
  capacity_eq : q.capacity = c
  answers : ∀ cs : List (Call α), (q.run cs).2 = (p.run c cs).2

theorem Follows.stands {q : Ring α} {p : Plain α} {c : Nat} (h : q.Follows p)
    (hc : q.capacity = c) : q.Stands c p :=
  ⟨h, hc, fun cs => hc ▸ (run_agrees h cs).same⟩

/-- What handing over at most `limit` elements comes to, for a ring that is where a bounded list
is. Either the consumer takes that many, or all there are; or it refuses the one behind the first
`k`, which is lost. -/
inductive Drained.Outcome (d : Drained α) (c : Nat) (p : Plain α) (consumer : Consumer α)
    (limit : Nat) : Prop
  | finished (seen : d.seen = p.held.take limit)
      (accepted : ∀ (i : Nat) (h : i < p.held.length), i < limit → consumer i p.held[i] = none)
      (result : d.result = .ok (min limit p.held.length))
      (left : d.ring.Stands c
        ⟨p.held.drop limit, p.added, p.removed + min limit p.held.length⟩)
  | refused (k : Nat) (h : k < p.held.length) (within : k < limit) (seen : d.seen = p.held.take k)
      (accepted : ∀ (i : Nat) (hi : i < k), consumer i p.held[i] = none) (e : Fault)
      (refusal : consumer k p.held[k] = some e) (result : d.result = .error e)
      (left : d.ring.Stands c ⟨p.held.drop (k + 1), p.added, p.removed + (k + 1)⟩)

/-- Polling a ring until nothing is left: the elements taken, and the ring at the end. -/
inductive Emptied : Ring α → List α → Ring α → Prop
  | done {q q' : Ring α} (nothing : q.poll = (q', none)) : Emptied q [] q'
  | next {q q₁ q' : Ring α} {x : α} {xs : List α} (taken : q.poll = (q₁, some x))
      (rest : Emptied q₁ xs q') : Emptied q (x :: xs) q'

/-- What emptying a ring in part or in whole does when it is where a bounded list is. -/
structure Drains (q : Ring α) (c : Nat) (p : Plain α) : Prop where
  drain : ∀ (consumer : Consumer α) (limit : Int),
    (q.drain consumer limit).Outcome c p consumer limit.toNat
  drainAll : ∀ consumer : Consumer α, q.drainAll consumer = q.drain consumer p.held.length
  drainTo : ∀ (target : List α) (limit : Int),
    (q.drainTo target limit).target = target ++ p.held.take limit.toNat ∧
      (q.drainTo target limit).result = .ok (min limit.toNat p.held.length) ∧
      (q.drainTo target limit).ring.Stands c ⟨p.held.drop limit.toNat, p.added,
        p.removed + min limit.toNat p.held.length⟩
  emptied : q.Emptied p.held q.clear
  cleared : q.clear.Stands c ⟨[], p.added, p.removed + p.held.length⟩

theorem drainFrom_succ (consumer : Consumer α) (taken limit : Nat) (q : Ring α) :
    drainFrom consumer (taken + 1) limit q =
      { drainFrom (fun i => consumer (i + 1)) taken limit q with
        result := (drainFrom (fun i => consumer (i + 1)) taken limit q).result.map (· + 1) } := by
  induction limit generalizing taken q with
  | zero => rfl
  | succ limit ih =>
    unfold drainFrom
    split
    · rfl
    · next q₁ x _ =>
      cases hrefusal : consumer (taken + 1) x with
      | some e => rfl
      | none => simp only [ih]

namespace Drained.Outcome

variable {d : Drained α} {c added removed : Nat} {x : α} {xs : List α} {consumer : Consumer α}
  {limit : Nat}

theorem cons (hx : consumer 0 x = none)
    (h : d.Outcome c ⟨xs, added, removed + 1⟩ (fun i => consumer (i + 1)) limit) :
    Outcome ⟨d.ring, x :: d.seen, d.result.map (· + 1)⟩ c ⟨x :: xs, added, removed⟩ consumer
      (limit + 1) := by
  cases h with
  | finished seen accepted result left =>
    have hcount : min (limit + 1) (x :: xs).length = min limit xs.length + 1 :=
      Nat.add_min_add_right limit xs.length 1
    refine .finished ?_ ?_ ?_ ?_
    · exact congrArg (x :: ·) seen
    · intro i hi hlimit
      cases i with
      | zero => exact hx
      | succ i => exact accepted i (Nat.lt_of_succ_lt_succ hi) (Nat.lt_of_succ_lt_succ hlimit)
    · show d.result.map (· + 1) = .ok (min (limit + 1) (x :: xs).length)
      rw [result, hcount]
      rfl
    · show d.ring.Stands c ⟨xs.drop limit, added, removed + min (limit + 1) (x :: xs).length⟩
      rw [hcount, Nat.add_comm (min limit xs.length), ← Nat.add_assoc]
      exact left
  | refused k h within seen accepted e refusal result left =>
    refine .refused (k + 1) (Nat.succ_lt_succ h) (Nat.succ_lt_succ within) ?_ ?_ e refusal ?_ ?_
    · exact congrArg (x :: ·) seen
    · intro i hi
      cases i with
      | zero => exact hx
      | succ i => exact accepted i (Nat.lt_of_succ_lt_succ hi)
    · show d.result.map (· + 1) = .error e
      rw [result]
      rfl
    · show d.ring.Stands c ⟨xs.drop (k + 1), added, removed + (k + 1 + 1)⟩
      rw [Nat.add_comm (k + 1) 1, ← Nat.add_assoc]
      exact left

end Drained.Outcome

namespace Follows

variable {q : Ring α} {p : Plain α}

theorem poll_cons {x : α} {xs : List α} {added removed : Nat}
    (h : q.Follows ⟨x :: xs, added, removed⟩) :
    ∃ q₁ : Ring α, q.poll = (q₁, some x) ∧ q₁.Follows ⟨xs, added, removed + 1⟩ ∧
      q₁.capacity = q.capacity := by
  obtain ⟨q₁, hpoll, hx, hcap, hhead, htail⟩ := Holds.poll_cons h.holds
  exact ⟨q₁, hpoll, ⟨hx, hhead.trans (congrArg (· + 1) h.head_eq), htail.trans h.tail_eq⟩, hcap⟩

theorem drainFrom_outcome (h : q.Follows p) (consumer : Consumer α) (limit : Nat) :
    (drainFrom consumer 0 limit q).Outcome q.capacity p consumer limit := by
  -- the consumer of the rest is told of one element more, so it is not the same for all steps
  induction limit generalizing q p consumer with
  | zero =>
    refine .finished rfl ?_ ?_ ?_
    · intro i _ hi
      exact absurd hi (Nat.not_lt_zero i)
    · rw [Nat.zero_min]
      rfl
    · rw [Nat.zero_min]
      exact h.stands rfl
  | succ limit ih =>
    obtain ⟨xs, added, removed⟩ := p
    unfold drainFrom
    cases xs with
    | nil =>
      rw [Holds.poll_nil h.holds]
      refine .finished rfl ?_ rfl (h.stands rfl)
      intro i hi _
      exact absurd hi (Nat.not_lt_zero i)
    | cons x xs =>
      obtain ⟨q₁, hpoll, h₁, hcap⟩ := h.poll_cons
      simp only [hpoll]
      cases hx : consumer 0 x with
      | some e =>
        refine .refused 0 (Nat.succ_pos _) (Nat.succ_pos _) rfl ?_ e hx rfl (h₁.stands hcap)
        intro i hi
        exact absurd hi (Nat.not_lt_zero i)
      | none =>
        have hrest := ih h₁ (fun i => consumer (i + 1))
        rw [hcap] at hrest
        simp only [drainFrom_succ]
        exact hrest.cons hx

theorem drain_outcome (h : q.Follows p) (consumer : Consumer α) (limit : Int) :
    (q.drain consumer limit).Outcome q.capacity p consumer limit.toNat :=
  h.drainFrom_outcome consumer limit.toNat

theorem drainAll_eq (h : q.Follows p) (consumer : Consumer α) :
    q.drainAll consumer = q.drain consumer p.held.length := by
  unfold drainAll
  rw [h.holds.size_eq_length]

theorem clearUpTo_emptied (h : q.Follows p) : q.Emptied p.held (clearUpTo p.held.length q) := by
  obtain ⟨xs, added, removed⟩ := p
  induction xs generalizing q removed with
  | nil => exact .done (Holds.poll_nil h.holds)
  | cons x xs ih =>
    obtain ⟨q₁, hpoll, h₁, -⟩ := h.poll_cons
    show q.Emptied (x :: xs) (clearUpTo (xs.length + 1) q)
    unfold clearUpTo
    rw [hpoll]
    exact .next hpoll (ih (removed + 1) h₁)

theorem clear_emptied (h : q.Follows p) : q.Emptied p.held q.clear := by
  have hlength : q.tail - q.head = p.held.length := by
    have htail := h.holds.tail_eq
    omega
  unfold clear
  rw [hlength]
  exact h.clearUpTo_emptied

theorem drains (h : q.Follows p) : q.Drains q.capacity p where
  drain := h.drain_outcome
  drainAll := h.drainAll_eq
  drainTo := by
    intro target limit
    unfold drainTo
    cases h.drain_outcome Consumer.all limit with
    | finished seen accepted result left => exact ⟨congrArg (target ++ ·) seen, result, left⟩
    | refused k h within seen accepted e refusal => cases refusal
  emptied := h.clear_emptied
  cleared := by
    obtain ⟨hend, hcap⟩ := clear_follows h
    exact hend.stands hcap

end Follows

/-- One use of a ring by the only thread that uses it, draining included. -/
inductive Task (α : Type)
  | call (c : Call α)
  | drain (consumer : Consumer α) (limit : Int)
  | drainAll (consumer : Consumer α)
  | drainTo (target : List α) (limit : Int)

def perform (q : Ring α) : Task α → Ring α
  | .call c => (q.answer c).1
  | .drain consumer limit => (q.drain consumer limit).ring
  | .drainAll consumer => (q.drainAll consumer).ring
  | .drainTo target limit => (q.drainTo target limit).ring

def work (q : Ring α) (ts : List (Task α)) : Ring α := ts.foldl perform q

def Task.isOffer : Task α → Bool
  | .call c => c.isOffer
  | _ => false

theorem Drained.Outcome.left_stands {d : Drained α} {c : Nat} {p : Plain α} {consumer : Consumer α}
    {limit : Nat} (h : d.Outcome c p consumer limit) :
    ∃ p' : Plain α, d.ring.Stands c p' ∧ p'.added = p.added := by
  cases h with
  | finished seen accepted result left => exact ⟨_, left, rfl⟩
  | refused k h within seen accepted e refusal result left => exact ⟨_, left, rfl⟩

/-- Every use leaves a ring where some bounded list is; only an offer can add to it. -/
theorem perform_stands {q : Ring α} {p : Plain α} {c : Nat} (h : q.Stands c p) (t : Task α) :
    ∃ p' : Plain α, (q.perform t).Stands c p' ∧ p'.added ≤ p.added + [t].countP Task.isOffer := by
  have hcap := h.capacity_eq
  have hdrains := h.follows.drains
  rw [hcap] at hdrains
  cases t with
  | call call =>
    obtain ⟨hfollows, -, hcap'⟩ := answer_agrees h.follows call
    refine ⟨_, hfollows.stands (hcap'.trans hcap), ?_⟩
    exact p.added_answer_le q.capacity call
  | drain consumer limit =>
    obtain ⟨p', hleft, hadded⟩ := (hdrains.drain consumer limit).left_stands
    exact ⟨p', hleft, Nat.le_of_eq hadded⟩
  | drainAll consumer =>
    obtain ⟨p', hleft, hadded⟩ := (hdrains.drain consumer p.held.length).left_stands
    refine ⟨p', ?_, Nat.le_of_eq hadded⟩
    show (q.drainAll consumer).ring.Stands c p'
    rw [hdrains.drainAll]
    exact hleft
  | drainTo target limit => exact ⟨_, (hdrains.drainTo target limit).2.2, Nat.le_refl _⟩

theorem work_stands {q : Ring α} {p : Plain α} {c : Nat} (h : q.Stands c p) (ts : List (Task α)) :
    ∃ p' : Plain α, (q.work ts).Stands c p' ∧ p'.added ≤ p.added + ts.countP Task.isOffer := by
  induction ts generalizing q p with
  | nil => exact ⟨p, h, Nat.le_refl _⟩
  | cons t ts ih =>
    obtain ⟨p₁, h₁, hadded₁⟩ := perform_stands h t
    obtain ⟨p', h', hadded⟩ := ih h₁
    refine ⟨p', h', ?_⟩
    have hcount : ([t] ++ ts).countP Task.isOffer
        = [t].countP Task.isOffer + ts.countP Task.isOffer := List.countP_append
    rw [List.singleton_append] at hcount
    omega

/-- What holds of a ring of capacity `c` after any uses of it: it is where a bounded list is,
emptying it does what emptying that list does, and while fewer than `2 ^ 63 - c` offers were made no
stored number leaves the 63 bits that are there for it. -/
structure Lossless (q : Ring α) (c : Nat) (ts : List (Task α)) (p : Plain α) : Prop where
  stands : (q.work ts).Stands c p
  drains : (q.work ts).Drains c p
  below : ts.countP Task.isOffer < 0x8000000000000000 - c →
    (q.work ts).Below 0x8000000000000000

/-- Whatever a ring was used for since it was created, draining it, moving its elements and clearing
it lose nothing but what they hand over and the element that a consumer refuses. -/
theorem lossless_of_create {requested : Int32} {q : Ring α} (h : create requested = .ok q) :
    ∃ c, Bits.LeastPower requested.toInt.toNat c ∧
      ∀ ts : List (Task α), ∃ p, q.Lossless c ts p := by
  obtain ⟨c, htwo, hleast, rfl⟩ := create_eq_ok h
  refine ⟨c, hleast, fun ts => ?_⟩
  have hstart : (ofCapacity c : Ring α).Follows Plain.start := ⟨ofCapacity_holds htwo, rfl, rfl⟩
  obtain ⟨p, hstands, hadded⟩ := work_stands (hstart.stands rfl) ts
  have hcap : ((ofCapacity c : Ring α).work ts).capacity = c := hstands.capacity_eq
  have hdrains := hstands.follows.drains
  rw [hcap] at hdrains
  refine ⟨p, hstands, hdrains, fun hfew => ?_⟩
  have htail := hstands.follows.tail_eq
  replace hadded : p.added ≤ 0 + ts.countP Task.isOffer := hadded
  apply hstands.follows.holds.below
  omega

/-- Uses of a ring for three: it is filled, one element is polled, a consumer refuses the second of
the other two, and two elements more are offered. -/
def worked : List (Task Pointer) :=
  [.call (.offer ⟨8⟩), .call (.offer ⟨16⟩), .call (.offer ⟨24⟩), .call .poll,
    .drain (Consumer.upTo (some 1) .nullElement) 4, .call (.offer ⟨32⟩), .call (.offer ⟨40⟩)]

/-- The refused element is gone with the one before it; what was offered since is moved behind what
a list has, as far as the limit allows. -/
theorem lossless_of_create_three :
    ∃ q : Ring Pointer, create 3 = .ok q ∧ (∃ p, q.Lossless 4 worked p) ∧
      ((q.work worked).run [.size, .added, .removed, .clear, .isEmpty]).2 =
        [.number 2, .number 5, .number 3, .cleared, .flag true] ∧
      ((q.work worked).drainTo [⟨4⟩] 1).target = [⟨4⟩, ⟨32⟩] ∧
      ((q.work worked).drainTo [⟨4⟩] 1).result = .ok 1 ∧
      (((q.work worked).drainTo [⟨4⟩] 1).ring.run [.poll, .poll]).2 =
        [.taken (some ⟨40⟩), .taken none] := by
  have hcreate : create 3 = .ok (ofCapacity 4 : Ring Pointer) := rfl
  obtain ⟨c, hc, hlossless⟩ := lossless_of_create hcreate
  have hfour : c = 4 := hc.unique (Bits.powerCeil_leastPower 3)
  subst hfour
  exact ⟨ofCapacity 4, hcreate, hlossless worked, rfl, rfl, rfl, rfl⟩

end Telemetry.Ring
