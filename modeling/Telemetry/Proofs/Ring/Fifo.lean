import Telemetry.Proofs.Bits
import Telemetry.Ring

namespace Telemetry.Ring

variable {α : Type}

theorem mod_ne_of_lt_lap {c p r : Nat} (hlt : p < r) (hlap : r < p + c) : p % c ≠ r % c := by
  intro h
  have hzero := Nat.sub_mod_eq_zero_of_mod_eq h.symm
  rw [Nat.mod_eq_of_lt (by omega)] at hzero
  omega

variable [Element α]

/-- A ring with the slot of one position written and with new counts. -/
def written (q : Ring α) (p : Nat) (s : Slot α) (head tail : Nat) : Ring α :=
  ⟨q.capacity, q.setSlot p s, head, tail⟩

section Written

variable {q : Ring α} {p r head tail : Nat} {s : Slot α}

theorem slot_written_self (hsize : q.slots.size = q.capacity) (hpos : 0 < q.capacity)
    (hsame : p % q.capacity = r % q.capacity) : (q.written p s head tail).slot r = s := by
  have hlt : r % q.capacity < q.slots.size := by
    rw [hsize]
    exact Nat.mod_lt r hpos
  unfold slot
  simp [written, setSlot, hsame, hlt]

theorem slot_written_of_ne (hne : p % q.capacity ≠ r % q.capacity) :
    (q.written p s head tail).slot r = q.slot r := by
  unfold slot
  simp [written, setSlot, hne]

omit [Element α] in
theorem mem_slots_written {t : Slot α} (h : t ∈ (q.written p s head tail).slots) :
    t ∈ q.slots ∨ t = s :=
  Array.mem_or_eq_of_mem_setIfInBounds h

end Written

/-- A ring holds a list, oldest element first. An element at position `p` has sequence `p + 1`; the
positions of the lap that hold none have themselves as sequence. No sequence is a lap ahead of the
tail. -/
structure Holds (q : Ring α) (xs : List α) : Prop where
  roomy : 2 ≤ q.capacity
  size_eq : q.slots.size = q.capacity
  fits : xs.length ≤ q.capacity
  tail_eq : q.tail = q.head + xs.length
  filled : ∀ (i : Nat) (h : i < xs.length), q.slot (q.head + i) = ⟨q.head + i + 1, xs[i]⟩
  free : ∀ p : Nat, q.tail ≤ p → p < q.head + q.capacity → (q.slot p).sequence = p
  low : ∀ s ∈ q.slots, s.sequence < q.tail + q.capacity

theorem ofCapacity_holds {c : Nat} (hc : 2 ≤ c) : (ofCapacity c : Ring α).Holds [] where
  roomy := hc
  size_eq := Array.size_ofFn
  fits := Nat.zero_le c
  tail_eq := rfl
  filled := by
    intro i h
    exact absurd h (Nat.not_lt_zero i)
  free := by
    intro p _ hp
    have hlt : p < c := by simpa [ofCapacity] using hp
    simp [slot, ofCapacity, Nat.mod_eq_of_lt hlt, hlt]
  low := by
    intro s hs
    obtain ⟨i, rfl⟩ := Array.mem_ofFn.mp hs
    show i.val < 0 + c
    omega

theorem offer_null {q : Ring α} {x : α} (h : Element.isNull x) :
    q.offer x = (q, .error .nullElement) := by
  unfold offer
  rw [if_pos h]

theorem offer_of_not_null {q : Ring α} {x : α} (h : ¬ Element.isNull x) :
    q.offer x = ((q.push x).1, .ok (q.push x).2) := by
  unfold offer
  rw [if_neg h]

namespace Holds

variable {q : Ring α} {xs : List α} {x : α}

/-- At the tail of a full ring stands the oldest element, a lap behind. -/
theorem sequence_tail_lt_iff (h : q.Holds xs) :
    (q.slot q.tail).sequence < q.tail ↔ xs.length = q.capacity := by
  have htail := h.tail_eq
  have hfits := h.fits
  have hroomy := h.roomy
  constructor
  · intro hlt
    rcases Nat.lt_or_ge xs.length q.capacity with hroom | hfull
    · have hfree := h.free q.tail (Nat.le_refl _) (by omega)
      omega
    · exact Nat.le_antisymm hfits hfull
  · intro hfull
    have hlap : q.slot q.tail = q.slot (q.head + 0) := by
      unfold slot
      rw [htail, hfull, Nat.add_mod_right, Nat.add_zero]
    rw [hlap, h.filled 0 (by omega)]
    show q.head + 0 + 1 < q.tail
    omega

theorem push_full (h : q.Holds xs) (hfull : xs.length = q.capacity) : q.push x = (q, false) := by
  unfold push
  rw [if_pos (h.sequence_tail_lt_iff.mpr hfull)]

theorem push_room (h : q.Holds xs) (hroom : xs.length ≠ q.capacity) (x : α) :
    ∃ q' : Ring α, q.push x = (q', true) ∧ q'.Holds (xs ++ [x]) ∧ q'.capacity = q.capacity ∧
      q'.head = q.head ∧ q'.tail = q.tail + 1 := by
  have htail := h.tail_eq
  have hfits := h.fits
  have hroomy := h.roomy
  have hpush : q.push x = (q.written q.tail ⟨q.tail + 1, x⟩ q.head (q.tail + 1), true) := by
    unfold push
    rw [if_neg (fun hlt => hroom (h.sequence_tail_lt_iff.mp hlt))]
    rfl
  refine ⟨_, hpush, ?_, rfl, rfl, rfl⟩
  constructor
  case roomy => exact hroomy
  case size_eq => exact (Array.size_setIfInBounds ..).trans h.size_eq
  case fits =>
    show (xs ++ [x]).length ≤ q.capacity
    rw [List.length_append, List.length_singleton]
    omega
  case tail_eq =>
    show q.tail + 1 = q.head + (xs ++ [x]).length
    rw [List.length_append, List.length_singleton]
    omega
  case filled =>
    intro i hi
    rw [List.length_append, List.length_singleton] at hi
    show Ring.slot _ (q.head + i) = ⟨q.head + i + 1, _⟩
    by_cases hlast : i = xs.length
    · subst hlast
      rw [← htail, slot_written_self h.size_eq (by omega) rfl, List.getElem_concat_length rfl]
    · -- the elements that were there are less than a lap away from the tail
      have hlt : i < xs.length := by omega
      rw [slot_written_of_ne (mod_ne_of_lt_lap (by omega) (by omega)).symm, h.filled i hlt,
        List.getElem_append_left hlt]
  case free =>
    intro p hp hlap
    replace hp : q.tail + 1 ≤ p := hp
    replace hlap : p < q.head + q.capacity := hlap
    rw [slot_written_of_ne (mod_ne_of_lt_lap (by omega) (by omega))]
    exact h.free p (by omega) hlap
  case low =>
    intro s hs
    show s.sequence < q.tail + 1 + q.capacity
    rcases mem_slots_written hs with hold | rfl
    · have hlow := h.low s hold
      omega
    · show q.tail + 1 < q.tail + 1 + q.capacity
      omega

theorem poll_nil (h : q.Holds []) : q.poll = (q, none) := by
  have htail : q.tail = q.head := by simpa using h.tail_eq
  have hroomy := h.roomy
  have hfree := h.free q.head (by omega) (by omega)
  unfold poll
  rw [if_pos (by omega)]

theorem poll_cons (h : q.Holds (x :: xs)) :
    ∃ q' : Ring α, q.poll = (q', some x) ∧ q'.Holds xs ∧ q'.capacity = q.capacity ∧
      q'.head = q.head + 1 ∧ q'.tail = q.tail := by
  have htail := h.tail_eq
  have hfits := h.fits
  have hroomy := h.roomy
  rw [List.length_cons] at htail hfits
  have hfirst : q.slot q.head = ⟨q.head + 1, x⟩ := h.filled 0 (Nat.succ_pos _)
  have hpoll : q.poll =
      (q.written q.head ⟨q.head + q.capacity, Element.blank⟩ (q.head + 1) q.tail, some x) := by
    unfold poll
    simp only [hfirst, Nat.lt_irrefl, if_false]
    rfl
  refine ⟨_, hpoll, ?_, rfl, rfl, rfl⟩
  constructor
  case roomy => exact hroomy
  case size_eq => exact (Array.size_setIfInBounds ..).trans h.size_eq
  case fits =>
    show xs.length ≤ q.capacity
    omega
  case tail_eq =>
    show q.tail = q.head + 1 + xs.length
    omega
  case filled =>
    intro i hi
    show Ring.slot _ (q.head + 1 + i) = ⟨q.head + 1 + i + 1, xs[i]⟩
    rw [slot_written_of_ne (mod_ne_of_lt_lap (by omega) (by omega)),
      show q.head + 1 + i = q.head + (i + 1) by omega, h.filled (i + 1) (Nat.succ_lt_succ hi)]
    rfl
  case free =>
    intro p hp hlap
    replace hp : q.tail ≤ p := hp
    replace hlap : p < q.head + 1 + q.capacity := hlap
    by_cases hlast : p = q.head + q.capacity
    · -- the slot just emptied is the last one of the lap that now begins
      rw [hlast, slot_written_self h.size_eq (by omega) (Nat.add_mod_right ..).symm]
    · rw [slot_written_of_ne (mod_ne_of_lt_lap (by omega) (by omega))]
      exact h.free p hp (by omega)
  case low =>
    intro s hs
    show s.sequence < q.tail + q.capacity
    rcases mem_slots_written hs with hold | rfl
    · exact h.low s hold
    · show q.head + q.capacity < q.tail + q.capacity
      omega

theorem peekAttempt_eq (h : q.Holds xs) : q.peekAttempt = .settled xs.head? := by
  have htail := h.tail_eq
  have hroomy := h.roomy
  unfold peekAttempt
  cases xs with
  | nil =>
    have hfree := h.free q.head (by simp [htail]) (by omega)
    rw [if_pos (by omega)]
    rfl
  | cons x xs =>
    have hfirst : q.slot q.head = ⟨q.head + 1, x⟩ := h.filled 0 (Nat.succ_pos _)
    simp only [hfirst, Nat.lt_irrefl, if_false, if_true]
    rfl

theorem clearUpTo_length (h : q.Holds xs) :
    ∃ q' : Ring α, clearUpTo xs.length q = q' ∧ q'.Holds [] ∧ q'.capacity = q.capacity ∧
      q'.head = q.tail ∧ q'.tail = q.tail := by
  induction xs generalizing q with
  | nil => exact ⟨q, rfl, h, rfl, by simpa using h.tail_eq.symm, rfl⟩
  | cons x xs ih =>
    -- polling leaves the tail where it is, so that one element less is between head and tail
    obtain ⟨q₁, hpoll, h₁, hcap₁, -, htail₁⟩ := h.poll_cons
    obtain ⟨q', hclear, h', hcap, hhead, htail⟩ := ih h₁
    refine ⟨q', ?_, h', hcap.trans hcap₁, hhead.trans htail₁, htail.trans htail₁⟩
    rw [List.length_cons, clearUpTo, hpoll]
    exact hclear

theorem size_eq_length (h : q.Holds xs) : q.size = xs.length := by
  have htail := h.tail_eq
  have hfits := h.fits
  unfold size
  omega

theorem isEmpty_eq (h : q.Holds xs) : q.isEmpty = xs.isEmpty := by
  have htail := h.tail_eq
  unfold isEmpty
  cases xs with
  | nil => simpa using htail.symm
  | cons x xs =>
    rw [List.length_cons] at htail
    rw [List.isEmpty_cons, beq_eq_false_iff_ne]
    omega

end Holds

inductive Call (α : Type)
  | offer (x : α)
  | poll
  | peek
  | clear
  | size
  | remaining
  | isEmpty
  | added
  | removed

inductive Answer (α : Type)
  | offered (r : Except Fault Bool)
  | taken (x : Option α)
  /-- Looking at the oldest element may have to be tried again and again. -/
  | seen (x : Attempt (Option α))
  | cleared
  | number (n : Nat)
  | flag (b : Bool)

def answer (q : Ring α) : Call α → Ring α × Answer α
  | .offer x => ((q.offer x).1, .offered (q.offer x).2)
  | .poll => (q.poll.1, .taken q.poll.2)
  | .peek => (q, .seen q.peekAttempt)
  | .clear => (q.clear, .cleared)
  | .size => (q, .number q.size)
  | .remaining => (q, .number q.remaining)
  | .isEmpty => (q, .flag q.isEmpty)
  | .added => (q, .number q.tail)
  | .removed => (q, .number q.head)

def run (q : Ring α) : List (Call α) → Ring α × List (Answer α)
  | [] => (q, [])
  | c :: cs => (((q.answer c).1.run cs).1, (q.answer c).2 :: ((q.answer c).1.run cs).2)

/-- The elements of a bounded list, oldest first, with the number of those ever accepted and of
those ever taken. -/
structure Plain (α : Type) where
  held : List α
  added : Nat
  removed : Nat

namespace Plain

def start : Plain α := ⟨[], 0, 0⟩

def offer (bound : Nat) (p : Plain α) (x : α) : Plain α × Except Fault Bool :=
  if Element.isNull x then (p, .error .nullElement)
  else if p.held.length = bound then (p, .ok false)
  else (⟨p.held ++ [x], p.added + 1, p.removed⟩, .ok true)

def poll (p : Plain α) : Plain α × Option α :=
  match p.held with
  | [] => (p, none)
  | x :: rest => (⟨rest, p.added, p.removed + 1⟩, some x)

/-- A list with a bound. Clearing takes the elements one after the other. -/
def answer (bound : Nat) (p : Plain α) : Call α → Plain α × Answer α
  | .offer x => ((p.offer bound x).1, .offered (p.offer bound x).2)
  | .poll => (p.poll.1, .taken p.poll.2)
  | .peek => (p, .seen (.settled p.held.head?))
  | .clear => (⟨[], p.added, p.removed + p.held.length⟩, .cleared)
  | .size => (p, .number p.held.length)
  | .remaining => (p, .number (bound - p.held.length))
  | .isEmpty => (p, .flag p.held.isEmpty)
  | .added => (p, .number p.added)
  | .removed => (p, .number p.removed)

def run (bound : Nat) (p : Plain α) : List (Call α) → Plain α × List (Answer α)
  | [] => (p, [])
  | c :: cs =>
    (((p.answer bound c).1.run bound cs).1,
      (p.answer bound c).2 :: ((p.answer bound c).1.run bound cs).2)

end Plain

structure Follows (q : Ring α) (p : Plain α) : Prop where
  holds : q.Holds p.held
  head_eq : q.head = p.removed
  tail_eq : q.tail = p.added

/-- What a ring and a list with a bound did on the same calls. -/
structure Agrees {β : Type} (capacity : Nat) (r : Ring α × β) (s : Plain α × β) : Prop where
  follows : r.1.Follows s.1
  same : r.2 = s.2
  capacity_eq : r.1.capacity = capacity

section Answers

variable {q : Ring α} {p : Plain α}

theorem offer_agrees (h : q.Follows p) (x : α) :
    Agrees q.capacity (q.offer x) (p.offer q.capacity x) := by
  have hx := h.holds
  unfold Plain.offer
  by_cases hnull : Element.isNull x
  · rw [offer_null hnull, if_pos hnull]
    exact ⟨h, rfl, rfl⟩
  · rw [offer_of_not_null hnull, if_neg hnull]
    by_cases hfull : p.held.length = q.capacity
    · rw [hx.push_full hfull, if_pos hfull]
      exact ⟨h, rfl, rfl⟩
    · obtain ⟨q', hpush, hx', hcap, hhead, htail⟩ := hx.push_room hfull x
      rw [hpush, if_neg hfull]
      exact ⟨⟨hx', hhead.trans h.head_eq, by rw [htail, h.tail_eq]⟩, rfl, hcap⟩

theorem poll_agrees (h : q.Follows p) : Agrees q.capacity q.poll p.poll := by
  obtain ⟨xs, added, removed⟩ := p
  cases xs with
  | nil =>
    rw [Holds.poll_nil h.holds]
    exact ⟨h, rfl, rfl⟩
  | cons x xs =>
    obtain ⟨q', hpoll, hx', hcap, hhead, htail⟩ := Holds.poll_cons h.holds
    rw [hpoll]
    exact ⟨⟨hx', hhead.trans (congrArg (· + 1) h.head_eq), htail.trans h.tail_eq⟩, rfl, hcap⟩

theorem clear_follows (h : q.Follows p) :
    q.clear.Follows ⟨[], p.added, p.removed + p.held.length⟩ ∧ q.clear.capacity = q.capacity := by
  have hheld := h.holds.tail_eq
  have hhead := h.head_eq
  have hlength : q.tail - q.head = p.held.length := by omega
  obtain ⟨q', hclear, hx', hcap, hhead', htail'⟩ := h.holds.clearUpTo_length
  unfold clear
  rw [hlength, hclear]
  refine ⟨⟨hx', ?_, htail'.trans h.tail_eq⟩, hcap⟩
  show q'.head = p.removed + p.held.length
  omega

theorem answer_agrees (h : q.Follows p) (c : Call α) :
    Agrees q.capacity (q.answer c) (p.answer q.capacity c) := by
  have hx := h.holds
  cases c with
  | offer x =>
    obtain ⟨hfollows, hsame, hcap⟩ := offer_agrees h x
    exact ⟨hfollows, congrArg Answer.offered hsame, hcap⟩
  | poll =>
    obtain ⟨hfollows, hsame, hcap⟩ := poll_agrees h
    exact ⟨hfollows, congrArg Answer.taken hsame, hcap⟩
  | clear =>
    obtain ⟨hfollows, hcap⟩ := clear_follows h
    exact ⟨hfollows, rfl, hcap⟩
  | peek => exact ⟨h, congrArg Answer.seen hx.peekAttempt_eq, rfl⟩
  | size => exact ⟨h, congrArg Answer.number hx.size_eq_length, rfl⟩
  | remaining =>
    refine ⟨h, congrArg Answer.number ?_, rfl⟩
    rw [remaining, hx.size_eq_length]
  | isEmpty => exact ⟨h, congrArg Answer.flag hx.isEmpty_eq, rfl⟩
  | added => exact ⟨h, congrArg Answer.number h.tail_eq, rfl⟩
  | removed => exact ⟨h, congrArg Answer.number h.head_eq, rfl⟩

end Answers

theorem run_agrees {q : Ring α} {p : Plain α} (h : q.Follows p) (cs : List (Call α)) :
    Agrees q.capacity (q.run cs) (p.run q.capacity cs) := by
  induction cs generalizing q p with
  | nil => exact ⟨h, rfl, rfl⟩
  | cons c cs ih =>
    have hstep := answer_agrees h c
    have hrest := ih hstep.follows
    rw [hstep.capacity_eq] at hrest
    refine ⟨hrest.follows, ?_, hrest.capacity_eq⟩
    show (q.answer c).2 :: _ = (p.answer q.capacity c).2 :: _
    rw [hstep.same, hrest.same]

def Call.isOffer : Call α → Bool
  | .offer _ => true
  | _ => false

theorem Plain.added_answer_le (bound : Nat) (p : Plain α) (c : Call α) :
    (p.answer bound c).1.added ≤ p.added + [c].countP Call.isOffer := by
  cases c with
  | offer x =>
    show (p.offer bound x).1.added ≤ p.added + 1
    unfold Plain.offer
    split
    · exact Nat.le_succ _
    · split
      · exact Nat.le_succ _
      · exact Nat.le_refl _
  | poll =>
    show p.poll.1.added ≤ p.added + 0
    unfold Plain.poll
    split <;> exact Nat.le_refl _
  | _ => exact Nat.le_add_right ..

theorem Plain.added_run_le (bound : Nat) (p : Plain α) (cs : List (Call α)) :
    (p.run bound cs).1.added ≤ p.added + cs.countP Call.isOffer := by
  induction cs generalizing p with
  | nil => exact Nat.le_add_right ..
  | cons c cs ih =>
    have hstep := p.added_answer_le bound c
    have hrest := ih (p.answer bound c).1
    have hcount : ([c] ++ cs).countP Call.isOffer
        = [c].countP Call.isOffer + cs.countP Call.isOffer := List.countP_append
    rw [List.singleton_append] at hcount
    show ((p.answer bound c).1.run bound cs).1.added ≤ _
    omega

/-- Every count and every sequence that a ring stores is below a limit. -/
structure Below (q : Ring α) (limit : Nat) : Prop where
  head : q.head < limit
  tail : q.tail < limit
  sequences : ∀ s ∈ q.slots, s.sequence < limit

theorem Holds.below {q : Ring α} {xs : List α} {limit : Nat} (h : q.Holds xs)
    (hlimit : q.tail + q.capacity < limit) : q.Below limit := by
  have htail := h.tail_eq
  refine ⟨by omega, by omega, ?_⟩
  intro s hs
  have hlow := h.low s hs
  omega

/-- What a new ring of capacity `c` does under every sequence of calls: its answers are those of a
list with bound `c`, an offer that is not accepted leaves it as it is, and as long as fewer than
`2 ^ 63 - c` offers were made no stored number leaves the 63 bits that are there for it. -/
structure Fifo (q : Ring α) (c : Nat) : Prop where
  answers : ∀ cs : List (Call α), (q.run cs).2 = (Plain.start.run c cs).2
  refused : ∀ (cs : List (Call α)) (x : α), ((q.run cs).1.offer x).2 ≠ .ok true →
    ((q.run cs).1.offer x).1 = (q.run cs).1
  below : ∀ cs : List (Call α), cs.countP Call.isOffer < 0x8000000000000000 - c →
    (q.run cs).1.Below 0x8000000000000000

theorem offer_refused {q : Ring α} {xs : List α} (h : q.Holds xs) {x : α}
    (hno : (q.offer x).2 ≠ .ok true) : (q.offer x).1 = q := by
  by_cases hnull : Element.isNull x
  · rw [offer_null hnull]
  · rw [offer_of_not_null hnull] at hno ⊢
    by_cases hfull : xs.length = q.capacity
    · rw [h.push_full hfull]
    · obtain ⟨q', hpush, -⟩ := h.push_room hfull x
      rw [hpush] at hno
      exact absurd rfl hno

theorem ofCapacity_fifo {c : Nat} (hc : 2 ≤ c) : (ofCapacity c : Ring α).Fifo c := by
  have hstart : (ofCapacity c : Ring α).Follows Plain.start := ⟨ofCapacity_holds hc, rfl, rfl⟩
  constructor
  · intro cs
    exact (run_agrees hstart cs).same
  · intro cs x hno
    exact offer_refused (run_agrees hstart cs).follows.holds hno
  · intro cs hfew
    obtain ⟨hend, -, hcap⟩ := run_agrees hstart cs
    have hadded := Plain.added_run_le c Plain.start cs
    have htail := hend.tail_eq
    apply hend.holds.below
    replace hcap : ((ofCapacity c : Ring α).run cs).1.capacity = c := hcap
    replace hadded : (Plain.start.run c cs).1.added ≤ 0 + cs.countP Call.isOffer := hadded
    replace htail : ((ofCapacity c : Ring α).run cs).1.tail = (Plain.start.run c cs).1.added :=
      htail
    omega

/-- Every capacity from two up to `0x40000000` is granted, rounded up to a power of two, and the
ring is a list with that bound. -/
theorem create_fifo (requested : Int32) (hlow : 2 ≤ requested.toInt)
    (hhigh : requested.toInt ≤ 0x40000000) :
    ∃ (c : Nat) (q : Ring α), Bits.LeastPower requested.toInt.toNat c ∧
      create requested = .ok q ∧ q.capacity = c ∧ q.Fifo c := by
  have hle := Bits.le_powerCeil requested.toInt.toNat
  refine ⟨Bits.powerCeil requested.toInt.toNat, ofCapacity (Bits.powerCeil requested.toInt.toNat),
    Bits.powerCeil_leastPower _, ?_, rfl, ofCapacity_fifo (by omega)⟩
  have hnotSmall : ¬ requested < 2 := by
    rw [Int32.lt_iff_toInt_lt]
    show ¬ requested.toInt < 2
    omega
  have hnotLarge : ¬ (maxCapacity : Int) < requested.toInt := by
    show ¬ (0x40000000 : Int) < requested.toInt
    omega
  unfold create capacityFor
  rw [if_neg hnotSmall, if_neg hnotLarge, Bits.toInt_nextPowerOfTwo32 hhigh]
  rfl

/-- Three are rounded up to four: the fifth offer is refused, and a null address with it. -/
theorem create_fifo_three :
    ∃ q : Ring Pointer, create 3 = .ok q ∧
      (q.run [.offer ⟨8⟩, .offer ⟨0⟩, .offer ⟨16⟩, .poll, .offer ⟨24⟩, .offer ⟨32⟩, .offer ⟨40⟩,
        .offer ⟨48⟩, .peek, .clear, .isEmpty, .added, .removed]).2 =
        [.offered (.ok true), .offered (.error .nullElement), .offered (.ok true), .taken (some ⟨8⟩),
          .offered (.ok true), .offered (.ok true), .offered (.ok true), .offered (.ok false),
          .seen (.settled (some ⟨16⟩)), .cleared, .flag true, .number 5, .number 5] := by
  obtain ⟨c, q, hc, hq, -, hfifo⟩ := @create_fifo Pointer _ 3 (by decide) (by decide)
  have hfour : c = 4 := hc.unique (Bits.powerCeil_leastPower 3)
  subst hfour
  refine ⟨q, hq, ?_⟩
  rw [hfifo.answers]
  rfl

end Telemetry.Ring
