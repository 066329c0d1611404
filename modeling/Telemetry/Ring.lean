import Telemetry.Bits
import Telemetry.Consumer

namespace Telemetry

/-- What a queue needs to know of its elements: the value of an empty slot, and which values are
refused. -/
class Element (α : Type) where
  blank : α
  isNull : α → Bool

instance : Element Int8 := ⟨0, fun _ => false⟩
instance : Element Int32 := ⟨0, fun _ => false⟩
instance : Element Int64 := ⟨0, fun _ => false⟩

structure Pointer where
  address : UInt64
  deriving DecidableEq, Repr

instance : Element Pointer := ⟨⟨0⟩, fun p => p.address == 0⟩

/-- The sequence of a slot says which lap it belongs to: at position `p` the slot is free for the
`p`-th offer when its sequence is `p`, and holds that element when its sequence is `p + 1`. -/
structure Slot (α : Type) where
  sequence : Nat
  value : α
  deriving Repr

structure Ring (α : Type) where
  capacity : Nat
  slots : Array (Slot α)
  head : Nat
  tail : Nat

/-- One round of an operation either settles its answer or has to be tried again. -/
inductive Attempt (α : Type)
  | settled (a : α)
  | again
  deriving Repr

namespace Ring

variable {α : Type}

def maxCapacity : Nat := 0x40000000

def capacityFor (requested : Int32) : Except Fault Nat :=
  if requested < 2 then .error (.ringTooSmall requested.toInt)
  else if (maxCapacity : Int) < requested.toInt then .error (.ringTooLarge requested.toInt)
  else .ok (Bits.nextPowerOfTwo32 requested).toInt.toNat

variable [Element α]

/-- An empty ring: slot `i` awaits the `i`-th offer. -/
def ofCapacity (c : Nat) : Ring α :=
  ⟨c, Array.ofFn fun i : Fin c => ⟨i.val, Element.blank⟩, 0, 0⟩

def create (requested : Int32) : Except Fault (Ring α) := (capacityFor requested).map ofCapacity

@[inline] def slot (q : Ring α) (position : Nat) : Slot α :=
  q.slots.getD (position % q.capacity) ⟨0, Element.blank⟩

@[inline] def setSlot (q : Ring α) (position : Nat) (s : Slot α) : Array (Slot α) :=
  q.slots.setIfInBounds (position % q.capacity) s

def push (q : Ring α) (x : α) : Ring α × Bool :=
  if (q.slot q.tail).sequence < q.tail then (q, false)
  else ({ q with slots := q.setSlot q.tail ⟨q.tail + 1, x⟩, tail := q.tail + 1 }, true)

def offer (q : Ring α) (x : α) : Ring α × Except Fault Bool :=
  if Element.isNull x then (q, .error .nullElement)
  else
    let (q', accepted) := q.push x
    (q', .ok accepted)

/-- Takes the oldest element; its slot is blanked and awaits the next lap. -/
def poll (q : Ring α) : Ring α × Option α :=
  let s := q.slot q.head
  if s.sequence < q.head + 1 then (q, none)
  else
    ({ q with
        slots := q.setSlot q.head ⟨q.head + q.capacity, Element.blank⟩
        head := q.head + 1 }, some s.value)

def peekAttempt (q : Ring α) : Attempt (Option α) :=
  let s := q.slot q.head
  if s.sequence < q.head + 1 then .settled none
  else if s.sequence = q.head + 1 then .settled (some s.value)
  else .again

def peek (q : Ring α) : Option α :=
  match q.peekAttempt with
  | .settled r => r
  | .again => none

omit [Element α] in
def size (q : Ring α) : Nat := min (q.tail - q.head) q.capacity

omit [Element α] in
def remaining (q : Ring α) : Nat := q.capacity - q.size

omit [Element α] in
def isEmpty (q : Ring α) : Bool := q.head == q.tail

/-- What a consumer took in order, and the number of elements that it took or the fault that it
ended with. -/
structure Drained (α : Type) where
  ring : Ring α
  seen : List α
  result : Except Fault Nat

/-- Hands over at most `limit` elements, after `taken` of them. The consumer is told how many it
took before and may refuse an element, which is then gone from the ring. -/
def drainFrom (consumer : Consumer α) (taken : Nat) : Nat → Ring α → Drained α
  | 0, q => ⟨q, [], .ok taken⟩
  | limit + 1, q =>
    match q.poll with
    | (q', none) => ⟨q', [], .ok taken⟩
    | (q', some x) =>
      match consumer taken x with
      | some e => ⟨q', [], .error e⟩
      | none =>
        let d := drainFrom consumer (taken + 1) limit q'
        { d with seen := x :: d.seen }

/-- Hands over at most `limit` elements; a limit that is not positive hands over none. -/
def drain (q : Ring α) (consumer : Consumer α) (limit : Int) : Drained α :=
  drainFrom consumer 0 limit.toNat q

def drainAll (q : Ring α) (consumer : Consumer α) : Drained α := q.drain consumer q.size

/-- What moving elements to the end of a list leaves: the ring, the list and what is answered. -/
structure Moved (α : Type) where
  ring : Ring α
  target : List α
  result : Except Fault Nat

def drainTo (q : Ring α) (target : List α) (limit : Int) : Moved α :=
  let d := q.drain Consumer.all limit
  ⟨d.ring, target ++ d.seen, d.result⟩

def clearUpTo : Nat → Ring α → Ring α
  | 0, q => q
  | bound + 1, q =>
    match q.poll with
    | (q', none) => q'
    | (q', some _) => clearUpTo bound q'

def clear (q : Ring α) : Ring α := clearUpTo (q.tail - q.head) q

end Ring

end Telemetry
