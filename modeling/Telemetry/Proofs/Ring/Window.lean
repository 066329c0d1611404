import Telemetry.Proofs.Bits.Rounding
import Telemetry.Proofs.Ring.Drain

namespace Telemetry.Ring

variable {α : Type} [Element α]

/-- The slot of a position is the one that the mask below the capacity picks. -/
theorem slot_eq_masked {requested : Int32} {q : Ring α} (h : capacityFor requested = .ok q.capacity)
    {position : Int64} (hpos : 0 ≤ position.toInt) :
    q.slot position.toInt.toNat =
      q.slots.getD (position &&& (Bits.nextPowerOfTwo32 requested - 1).toInt64).toInt.toNat
        ⟨0, Element.blank⟩ := by
  obtain ⟨hlow, hhigh, hcap⟩ := requested_of_capacityFor h
  have hmask := (Bits.sized_nextPowerOfTwo32 hlow hhigh).masks position
  have hvalue := Bits.toInt_nextPowerOfTwo32 hhigh
  rw [hmask, Int32.toInt_toInt64, Int.toNat_emod hpos (by omega), ← hcap]
  rfl

/-- One round of an offer of an element that is not null. The round ends with a compare-and-swap of
the tail, which is told what is stored and what was read before. -/
def pushAttempt (swaps : Nat → Nat → Bool) (q : Ring α) (x : α) : Ring α × Attempt Bool :=
  let read := q.tail
  if (q.slot read).sequence < read then (q, .settled false)
  else if swaps q.tail read then
    (⟨q.capacity, q.setSlot read ⟨read + 1, x⟩, q.head, read + 1⟩, .settled true)
  else (q, .again)

def pollAttempt (swaps : Nat → Nat → Bool) (q : Ring α) : Ring α × Attempt (Option α) :=
  let read := q.head
  let s := q.slot read
  if s.sequence < read + 1 then (q, .settled none)
  else if swaps q.head read then
    (⟨q.capacity, q.setSlot read ⟨read + q.capacity, Element.blank⟩, read + 1, q.tail⟩,
      .settled (some s.value))
  else (q, .again)

theorem push_of_awaited {q : Ring α} {x : α} (h : ¬ (q.slot q.tail).sequence < q.tail) :
    q.push x = (q.written q.tail ⟨q.tail + 1, x⟩ q.head (q.tail + 1), true) := by
  unfold push
  rw [if_neg h]
  rfl

theorem poll_of_filled {q : Ring α} {x : α} (h : q.slot q.head = ⟨q.head + 1, x⟩) :
    q.poll =
      (q.written q.head ⟨q.head + q.capacity, Element.blank⟩ (q.head + 1) q.tail, some x) := by
  unfold poll
  simp only [h, Nat.lt_irrefl, if_false]
  rfl

/-- A ring of capacity `c` holds those of the elements accepted so far that were not taken, and the
slots that hold none are blank. -/
structure Carries (q : Ring α) (c : Nat) (accepted : List α) : Prop where
  holds : q.Holds (accepted.drop q.head)
  capacity_eq : q.capacity = c
  tail_eq : q.tail = accepted.length
  blank : ∀ p, q.tail ≤ p → p < q.head + c → (q.slot p).value = Element.blank

theorem ofCapacity_carries {c : Nat} (hc : 2 ≤ c) : (ofCapacity c : Ring α).Carries c [] where
  holds := ofCapacity_holds hc
  capacity_eq := rfl
  tail_eq := rfl
  blank := by
    intro p _ hp
    have hlt : p < c := by simpa [ofCapacity] using hp
    simp [slot, ofCapacity, Nat.mod_eq_of_lt hlt, hlt]

namespace Carries

variable {q : Ring α} {c : Nat} {accepted : List α} {x : α}

theorem head_le (h : q.Carries c accepted) : q.head ≤ q.tail := by
  have htail := h.holds.tail_eq
  omega

theorem push_of_room (h : q.Carries c accepted)
    (hroom : (accepted.drop q.head).length ≠ q.capacity) (x : α) :
    (q.push x).2 = true ∧ (q.push x).1.Carries c (accepted ++ [x]) := by
  obtain ⟨q', hpush, hholds, hcap, hhead, htail⟩ := h.holds.push_room hroom x
  have hle := h.head_le
  have hc := h.capacity_eq
  have hlength := h.holds.tail_eq
  have hwritten := push_of_awaited (x := x) (mt h.holds.sequence_tail_lt_iff.mp hroom)
  have heq : q' = q.written q.tail ⟨q.tail + 1, x⟩ q.head (q.tail + 1) := by
    rw [hpush] at hwritten
    exact congrArg Prod.fst hwritten
  rw [hpush]
  refine ⟨rfl, ?_, hcap.trans hc, ?_, ?_⟩
  · rw [h.tail_eq] at hle
    rwa [hhead, List.drop_append_of_le_length hle]
  · rw [htail, h.tail_eq, List.length_append, List.length_singleton]
  · intro p hp hlap
    rw [htail] at hp
    rw [hhead] at hlap
    -- the slot that was filled is the one at the old tail, less than a lap before
    rw [heq, slot_written_of_ne (mod_ne_of_lt_lap (by omega) (by omega))]
    exact h.blank p (by omega) hlap

theorem push_of_full (h : q.Carries c accepted)
    (hfull : (accepted.drop q.head).length = q.capacity) (x : α) : q.push x = (q, false) :=
  h.holds.push_full hfull

theorem poll (h : q.Carries c accepted) : q.poll.1.Carries c accepted := by
  have hc := h.capacity_eq
  have hheld := h.holds
  cases hrest : accepted.drop q.head with
  | nil =>
    rw [hrest] at hheld
    rw [hheld.poll_nil]
    exact h
  | cons x rest =>
    rw [hrest] at hheld
    obtain ⟨q', hpoll, hholds, hcap, hhead, htail⟩ := hheld.poll_cons
    have hroomy := hheld.roomy
    have hlength := hheld.tail_eq
    rw [List.length_cons] at hlength
    have hwritten := poll_of_filled (hheld.filled 0 (Nat.succ_pos _))
    have heq : q' = q.written q.head ⟨q.head + q.capacity, Element.blank⟩ (q.head + 1) q.tail := by
      rw [hpoll] at hwritten
      exact congrArg Prod.fst hwritten
    rw [hpoll]
    refine ⟨?_, hcap.trans hc, htail.trans h.tail_eq, ?_⟩
    · rwa [hhead, ← List.drop_drop, hrest]
    · intro p hp hlap
      rw [htail] at hp
      rw [hhead] at hlap
      rw [heq]
      by_cases hlast : p = q.head + q.capacity
      · rw [hlast, slot_written_self hheld.size_eq (by omega) (Nat.add_mod_right ..).symm]
      · rw [slot_written_of_ne (mod_ne_of_lt_lap (by omega) (by omega))]
        exact h.blank p hp (by omega)

theorem drainFrom (h : q.Carries c accepted) (consumer : Consumer α) (taken limit : Nat) :
    (drainFrom consumer taken limit q).ring.Carries c accepted := by
  induction limit generalizing taken q with
  | zero => exact h
  | succ limit ih =>
    have hpoll := h.poll
    unfold Ring.drainFrom
    split
    · next hnone => rwa [hnone] at hpoll
    · next q' x hsome =>
      rw [hsome] at hpoll
      split
      · exact hpoll
      · exact ih hpoll (taken + 1)

theorem clearUpTo (h : q.Carries c accepted) (bound : Nat) :
    (clearUpTo bound q).Carries c accepted := by
  induction bound generalizing q with
  | zero => exact h
  | succ bound ih =>
    have hpoll := h.poll
    unfold Ring.clearUpTo
    split
    · next hnone => rwa [hnone] at hpoll
    · next hsome =>
      rw [hsome] at hpoll
      exact ih hpoll

end Carries

/-- The elements that a use of a ring adds to it. -/
def gained (q : Ring α) : Task α → List α
  | .call (.offer x) => if (q.offer x).2.toOption = some true then [x] else []
  | _ => []

/-- The elements that a ring accepts in a sequence of uses, in their order. -/
def accepted (q : Ring α) : List (Task α) → List α
  | [] => []
  | t :: ts => q.gained t ++ (q.perform t).accepted ts

theorem Carries.offer {q : Ring α} {c : Nat} {xs : List α} (h : q.Carries c xs) (x : α) :
    (q.offer x).1.Carries c (xs ++ q.gained (.call (.offer x))) := by
  simp only [gained]
  by_cases hnull : Element.isNull x
  · simpa [offer_null hnull, Except.toOption] using h
  · rw [offer_of_not_null hnull]
    by_cases hfull : (xs.drop q.head).length = q.capacity
    · simpa [h.push_of_full hfull x, Except.toOption] using h
    · obtain ⟨htrue, hpushed⟩ := h.push_of_room hfull x
      simpa [htrue, Except.toOption] using hpushed

theorem Carries.perform {q : Ring α} {c : Nat} {xs : List α} (h : q.Carries c xs) (t : Task α) :
    (q.perform t).Carries c (xs ++ q.gained t) := by
  have hdrain : ∀ (consumer : Consumer α) (limit : Int),
      (q.drain consumer limit).ring.Carries c (xs ++ []) := by
    intro consumer limit
    rw [List.append_nil]
    exact h.drainFrom consumer 0 limit.toNat
  have hsame : q.Carries c (xs ++ []) := by rwa [List.append_nil]
  cases t with
  | drain consumer limit => exact hdrain consumer limit
  | drainAll consumer => exact hdrain consumer q.size
  | drainTo target limit => exact hdrain Consumer.all limit
  | call call =>
    cases call with
    | offer x => exact h.offer x
    | poll =>
      have hpoll := h.poll
      rwa [← List.append_nil xs] at hpoll
    | clear =>
      have hclear := h.clearUpTo (q.tail - q.head)
      rwa [← List.append_nil xs] at hclear
    | _ => exact hsame

theorem Carries.work {q : Ring α} {c : Nat} {xs : List α} (h : q.Carries c xs)
    (ts : List (Task α)) : (q.work ts).Carries c (xs ++ q.accepted ts) := by
  induction ts generalizing q xs with
  | nil => rwa [accepted, List.append_nil]
  | cons t ts ih =>
    rw [accepted, ← List.append_assoc]
    exact ih (h.perform t)

/-- The slots of a ring of capacity `c` that has accepted elements: the positions between head and
tail, in a lap at most, are where the elements not taken stand. -/
structure Window (q : Ring α) (c : Nat) (accepted : List α) : Prop where
  head_le : q.head ≤ q.tail
  tail_le : q.tail ≤ q.head + c
  tail_eq : q.tail = accepted.length
  filled : ∀ (p : Nat) (h : p < accepted.length), q.head ≤ p →
    q.slots[p % c]? = some ⟨p + 1, accepted[p]⟩
  free : ∀ p : Nat, q.tail ≤ p → p < q.head + c → q.slots[p % c]? = some ⟨p, Element.blank⟩

omit [Element α] in
/-- No compare-and-swap fails that finds what was read before. -/
def Uncontended (swaps : Nat → Nat → Bool) : Prop := ∀ n, swaps n n = true

/-- The first round of every operation settles its answer if nobody else uses the ring. -/
structure Prompt (q : Ring α) (accepted : List α) : Prop where
  push : ∀ swaps, Uncontended swaps → ∀ x,
    q.pushAttempt swaps x = ((q.push x).1, .settled (q.push x).2)
  poll : ∀ swaps, Uncontended swaps → q.pollAttempt swaps = (q.poll.1, .settled q.poll.2)
  peek : q.peekAttempt = .settled accepted[q.head]?

theorem Holds.slots_eq {q : Ring α} {xs : List α} (h : q.Holds xs) (p : Nat) :
    q.slots[p % q.capacity]? = some (q.slot p) := by
  have hroomy := h.roomy
  have hlt : p % q.capacity < q.slots.size := by
    rw [h.size_eq]
    exact Nat.mod_lt p (by omega)
  simp [slot, hlt]

theorem Carries.window {q : Ring α} {c : Nat} {xs : List α} (h : q.Carries c xs) :
    q.Window c xs := by
  have hheld := h.holds
  have htail := h.tail_eq
  have hfits := hheld.fits
  have hlength := hheld.tail_eq
  have hc := h.capacity_eq
  subst hc
  refine ⟨h.head_le, by omega, htail, ?_, ?_⟩
  · intro p hp hhead
    have hlt : p - q.head < (xs.drop q.head).length := by
      rw [List.length_drop]
      omega
    have hfilled := hheld.filled (p - q.head) hlt
    have hp' : q.head + (p - q.head) = p := by omega
    simp only [hp', List.getElem_drop] at hfilled
    rw [hheld.slots_eq, hfilled]
  · intro p hp hlap
    have hsequence := hheld.free p hp hlap
    have hblank := h.blank p hp hlap
    rw [hheld.slots_eq]
    rcases hslot : q.slot p with ⟨sequence, value⟩
    rw [hslot] at hsequence hblank
    obtain ⟨rfl, rfl⟩ : sequence = p ∧ value = Element.blank := ⟨hsequence, hblank⟩
    rfl

theorem Carries.prompt {q : Ring α} {c : Nat} {xs : List α} (h : q.Carries c xs) :
    q.Prompt xs where
  push := by
    intro swaps hswaps x
    by_cases hfull : (q.slot q.tail).sequence < q.tail <;>
      simp [pushAttempt, push, hfull, hswaps q.tail]
  poll := by
    intro swaps hswaps
    by_cases hnone : (q.slot q.head).sequence < q.head + 1 <;>
      simp [pollAttempt, Ring.poll, hnone, hswaps q.head]
  peek := by
    rw [h.holds.peekAttempt_eq, List.head?_drop]

theorem length_accepted_le (q : Ring α) (ts : List (Task α)) :
    (q.accepted ts).length ≤ ts.countP Task.isOffer := by
  induction ts generalizing q with
  | nil => exact Nat.le_refl _
  | cons t ts ih =>
    have hrest := ih (q.perform t)
    have hfirst : (q.gained t).length ≤ if t.isOffer then 1 else 0 := by
      cases t with
      | call call =>
        cases call with
        | offer x =>
          simp only [gained]
          split <;> simp [Task.isOffer, Call.isOffer]
        | _ => exact Nat.zero_le _
      | _ => exact Nat.zero_le _
    rw [accepted, List.length_append, List.countP_cons, Nat.add_comm]
    exact Nat.add_le_add hrest hfirst

/-- What holds of a ring of capacity `c` after any uses of it by one thread. While fewer than
`2 ^ 63 - c` offers were made no stored number leaves the 63 bits that are there for it. -/
structure Steady (q : Ring α) (c : Nat) (ts : List (Task α)) : Prop where
  window : (q.work ts).Window c (q.accepted ts)
  prompt : (q.work ts).Prompt (q.accepted ts)
  below : ts.countP Task.isOffer < 0x8000000000000000 - c → (q.work ts).Below 0x8000000000000000

theorem steady_of_create {requested : Int32} {q : Ring α} (h : create requested = .ok q) :
    ∃ c, Bits.LeastPower requested.toInt.toNat c ∧ ∀ ts : List (Task α), q.Steady c ts := by
  obtain ⟨c, htwo, hleast, rfl⟩ := create_eq_ok h
  refine ⟨c, hleast, fun ts => ?_⟩
  have hcarries := (ofCapacity_carries (α := α) htwo).work ts
  rw [List.nil_append] at hcarries
  refine ⟨hcarries.window, hcarries.prompt, ?_⟩
  intro hfew
  have htail := hcarries.tail_eq
  have hcap := hcarries.capacity_eq
  have hlength := (ofCapacity c : Ring α).length_accepted_le ts
  apply hcarries.holds.below
  omega

/-- Uses of a ring for two by one thread, over three laps of its slots. -/
def turned : List (Task Pointer) :=
  [.call (.offer ⟨8⟩), .call .poll, .call (.offer ⟨16⟩), .call (.offer ⟨24⟩), .call (.offer ⟨32⟩),
    .drain Consumer.all 1, .call .peek, .call (.offer ⟨40⟩), .call .poll]

/-- The fourth offer found the ring full. Of the elements accepted the last is still there; in the
slot of the one before it nothing is left. -/
theorem steady_of_create_two :
    ∃ q : Ring Pointer, create 2 = .ok q ∧ q.Steady 2 turned ∧
      q.accepted turned = [⟨8⟩, ⟨16⟩, ⟨24⟩, ⟨40⟩] ∧ (q.work turned).head = 3 ∧
      (q.work turned).slots[3 % 2]? = some ⟨4, ⟨40⟩⟩ ∧
      (q.work turned).slots[4 % 2]? = some ⟨4, ⟨0⟩⟩ := by
  have hcreate : create 2 = .ok (ofCapacity 2 : Ring Pointer) := rfl
  obtain ⟨c, hc, hsteady⟩ := steady_of_create hcreate
  have htwo : c = 2 := hc.unique (Bits.powerCeil_leastPower 2)
  subst htwo
  exact ⟨ofCapacity 2, hcreate, hsteady turned, by decide, rfl, rfl, rfl⟩

end Telemetry.Ring
