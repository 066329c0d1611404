import Telemetry.Proofs.Settings.Layers
import Telemetry.Proofs.Shared.Lengths

namespace Telemetry

namespace Settings

variable {c s : Settings}

/-- Settings that were read without a fault, from a document alone or from all layers. -/
inductive Accepted (c : Settings) : Prop
  | document {d : Document} (h : ofDocument d = .ok c)
  | layers {parser : Document.Parser} {path : Text} {env : Environment} {files : Files}
      (h : load parser path env files = .ok c)

theorem Accepted.suitable (h : c.Accepted) : Suitable c.valuesLength c.charset c.name := by
  have hlast (s : Settings) (hs : s.validate = .ok c) :
      Suitable c.valuesLength c.charset c.name := by
    obtain ⟨rfl, hsuitable⟩ := validate_eq_ok_iff.1 hs
    exact hsuitable
  cases h with
  | document h =>
    obtain ⟨s, -, hs⟩ := Except.bind_eq_ok_iff.1 h
    exact hlast s hs
  | layers h =>
    obtain ⟨d, -, h⟩ := Except.bind_eq_ok_iff.1 h
    obtain ⟨s₁, -, h⟩ := Except.bind_eq_ok_iff.1 h
    obtain ⟨s₂, -, hs⟩ := Except.bind_eq_ok_iff.1 h
    exact hlast s₂ hs

end Settings

namespace Shared.Board

open Counters

variable {c : Settings} {b : Board} {m : Memory}

/-- A board that is made from settings has the name and the lengths that they give, and room for a
counter. -/
structure Serves (b : Board) (c : Settings) (m : Memory) : Prop where
  name : b.buffer.name = c.name
  valuesLength : b.valuesLength m = .ok c.valuesLength
  metadataLength : b.metadataLength m = .ok c.metadataLength
  room : ∃ r, b.registry = .ok r ∧ r.capacity = c.valuesLength / 128 ∧ 1 ≤ r.capacity

theorem Exact.serves (hexact : b.Exact c.valuesLength.toNat m)
    (h : Settings.Suitable c.valuesLength c.charset c.name) (hmultiple : c.valuesLength % 128 = 0)
    (hname : b.buffer.name = c.name) : b.Serves c m := by
  obtain ⟨hpos, hle, -, -⟩ := h
  have hlength : (c.valuesLength.toNat : Int) = c.valuesLength := Int.toNat_of_nonneg (by omega)
  obtain ⟨r, hr, hmonitor⟩ := hexact.registry
  have hcapacity : r.capacity = c.valuesLength / 128 := by
    rw [Registry.capacity, Monitor.maxId, hmonitor, hexact.slots]
    change Word.wrap 4 (c.valuesLength.toNat / 128 : Nat) - 1 + 1 = _
    rw [Word.wrap_natCast (by omega)]
    omega
  refine ⟨hname, ?_, ?_, r, hr, hcapacity, by omega⟩
  · rw [hexact.valuesLength, hlength]
  · have hrecords : ((4 * c.valuesLength.toNat : Nat) : Int) = c.valuesLength * 4 := by omega
    rw [hexact.metadataLength, hrecords]
    rfl

section Created

variable [Platform]

/-- Settings that were accepted make a board of the lengths that they give, unless the system refuses
the segment; but of the lengths that are accepted, those that are no multiple of a slot are refused
when the board is created. -/
theorem createFrom_accepted (hc : c.Accepted) (s : Namespace) (host : Host) (m : Memory) :
    let made := createFrom s host c m
    let asked := (Buffer.create s c.name (128 + 5 * c.valuesLength.toNat)).2
    (c.valuesLength % 128 = 0 →
      (∀ e, made.result = .error e → e.kind = .system ∧ asked = .error e) ∧
      ∀ b, asked = .ok b → ∃ y, made.result = .ok y ∧ y.Serves c (m.storeAll made.writes)) ∧
    (c.valuesLength % 128 ≠ 0 →
      made = ⟨s, [], .error (.valuesLengthNotMultiple 128 c.valuesLength.toNat)⟩) := by
  intro made asked
  obtain ⟨hpos, hle, -, -⟩ := hc.suitable
  have hshort : 128 + 5 * c.valuesLength.toNat < 0x10000000000000000 := by omega
  have hcounted : 0 ≤ Word.wrap 4 (c.valuesLength.toNat / 128 : Nat) := by
    rw [Word.wrap_natCast (by omega)]
    exact Int.natCast_nonneg _
  have hasked : (Buffer.create s c.name (requested c.valuesLength.toNat)).2 = asked := by
    rw [requested_of_lt hshort]
  refine ⟨fun hmultiple => ?_, fun hmultiple => if_pos (.inr ?_)⟩
  · have houtcome : Outcome s c.name c.valuesLength.toNat m made :=
      create_outcome (by omega) (by omega) host (charsetOf c) .wall c.timeoutMilliseconds m
    refine ⟨fun e he => ?_, fun b hb => ?_⟩
    · cases houtcome.refusal he with
      | denied kind hdenied => exact ⟨kind, hasked.symm.trans hdenied⟩
      | wrapped _ _ long => exact absurd hshort (Nat.not_lt_of_le long)
      | uncounted _ _ _ negative => exact absurd hcounted (Int.not_le_of_gt negative)
    · obtain ⟨-, -, hbuffer, -⟩ := Buffer.create_eq_ok hb
      obtain ⟨y, hy, hyb⟩ := houtcome.made_of_granted hshort hcounted (hasked.trans hb)
      refine ⟨y, hy, (houtcome.exact hy).serves hc.suitable hmultiple ?_⟩
      rw [hyb, hbuffer]
  · rw [Slot.length]
    omega

end Created

open scoped Platform

def lengthOnly (d : Document) : Document :=
  .object [(ascii "counters", .object [(ascii "values_buffer_length", d)])]

theorem createFrom_accepted_suffixed :
    ∃ c, Settings.ofDocument (lengthOnly (.text (ascii "8k"))) = .ok c ∧ c.Accepted ∧
      c.valuesLength = 8192 ∧ ∃ y m,
        (createFrom .empty ⟨1, 0, fun _ => true⟩ c .zero).result = .ok y ∧ y.Serves c m := by
  obtain ⟨c, hc, hlength, hname⟩ : ∃ c, Settings.ofDocument (lengthOnly (.text (ascii "8k"))) = .ok c ∧
      c.valuesLength = 8192 ∧ c.name = Settings.defaultName := ⟨_, rfl, rfl, rfl⟩
  have hmultiple : c.valuesLength % 128 = 0 := by rw [hlength]; rfl
  have hgranted : (Buffer.create .empty c.name (128 + 5 * c.valuesLength.toNat)).2 =
      .ok ⟨Settings.defaultName, some ⟨0, 41088⟩, true⟩ := by
    rw [hlength, hname]
    rfl
  have hserved := createFrom_accepted (.document hc) .empty ⟨1, 0, fun _ => true⟩ .zero
  obtain ⟨y, hy, hserves⟩ := (hserved.1 hmultiple).2 _ hgranted
  exact ⟨c, hc, .document hc, hlength, y, _, hy, hserves⟩

/-- A length that settings let through and a board does not. -/
theorem createFrom_accepted_refused :
    ∃ c, Settings.ofDocument (lengthOnly (.int 200)) = .ok c ∧
      (createFrom .empty ⟨1, 0, fun _ => true⟩ c .zero).result =
        .error (.valuesLengthNotMultiple 128 200) ∧
      Fault.kind (.valuesLengthNotMultiple 128 200) = .invalidArgument :=
  ⟨_, rfl, rfl, rfl⟩

end Shared.Board

end Telemetry
