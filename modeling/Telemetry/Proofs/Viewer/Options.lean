import Telemetry.Proofs.Counters.Layout
import Telemetry.Proofs.Quantity.Grammar
import Telemetry.Viewer

namespace Telemetry.Viewer

open Counters

def signs : List (Text × Int) := [([], 1), ([43], 1), ([45], -1)]

inductive Spells : Text → Int → Prop
  | intro {front sign digits : Text} {factor : Int} (hfront : ∀ b ∈ front, b ∈ Quantity.blanks)
      (hsign : (sign, factor) ∈ signs) (hsome : digits ≠ [])
      (hdigits : ∀ b ∈ digits, b ∈ ascii "0123456789") :
      Spells (front ++ (sign ++ digits)) (factor * Text.numeral digits)

/-- The type that is looked for when a number was asked for. -/
def lookedFor (n : Int) : Int := Word.wrap 4 (min n largest)

/-- The value of the last option `--type`. -/
def typeArgument : List Text → Option Text
  | a :: v :: rest => (typeArgument rest).or (if a = ascii "--type" then some v else none)
  | _ => none

/-- What the arguments ask for: counters of any type, or of the type that a number says. -/
inductive Asks (arguments : List Text) : Option Int → Prop
  | anything (h : typeArgument arguments = none) : Asks arguments none
  | type {v : Text} {n : Int} (h : typeArgument arguments = some v) (hspells : Spells v n)
      (hn : 0 ≤ n) : Asks arguments (some n)

theorem lookedFor_of_lt {n : Int} (h₀ : 0 ≤ n) (h : n < 0x80000000) : lookedFor n = n := by
  have hmodulus : (Word.modulus 4 : Int) = 0x100000000 := rfl
  have hmin : min n largest = n := by
    apply Int.min_eq_left
    rw [largest]
    omega
  rw [lookedFor, hmin]
  apply Word.wrap_of_fits
  · omega
  · omega

theorem Asks.map_lookedFor {arguments : List Text} {wanted : Option Int}
    (h : Asks arguments wanted) (hsmall : ∀ n, wanted = some n → n < 0x80000000) :
    wanted.map lookedFor = wanted := by
  cases h with
  | anything => rfl
  | @type v n _ _ hn => exact congrArg some (lookedFor_of_lt hn (hsmall n rfl))

section Numbers

variable {v front sign digits : Text} {b : Byte} {factor n k : Int}

/-- What is behind the blanks of a text, told apart by its sign. -/
structure Signed (v sign digits : Text) (factor : Int) : Prop where
  known : (sign, factor) ∈ signs
  rest : v.dropWhile Text.isBlank = sign ++ digits
  unsigned : sign = [] → ∀ b ∈ digits.head?, b ≠ 45 ∧ b ≠ 43

/-- Digits behind a sign are accepted unless they make a negative number. -/
def accept? (factor : Int) (digits : Text) : Option Int :=
  if digits.isEmpty ∨ ¬ digits.all Text.isDigit then none
  else if factor * Text.numeral digits < 0 then none
  else some (min (factor * Text.numeral digits) largest)

theorem mem_signs_iff : (sign, factor) ∈ signs ↔
    sign = [] ∧ factor = 1 ∨ sign = [43] ∧ factor = 1 ∨ sign = [45] ∧ factor = -1 := by
  simp only [signs, List.mem_cons, List.not_mem_nil, or_false, Prod.mk.injEq]

theorem exists_signed (v : Text) : ∃ sign digits factor, Signed v sign digits factor := by
  cases hrest : v.dropWhile Text.isBlank with
  | nil => exact ⟨[], [], 1, by decide, hrest, nofun⟩
  | cons b rest =>
    by_cases hminus : b = 45
    · exact ⟨[45], rest, -1, by decide, hminus ▸ hrest, nofun⟩
    · by_cases hplus : b = 43
      · exact ⟨[43], rest, 1, by decide, hplus ▸ hrest, nofun⟩
      · refine ⟨[], b :: rest, 1, by decide, hrest, fun _ c hc => ?_⟩
        cases hc
        exact ⟨hminus, hplus⟩

theorem accept?_one (digits : Text) : accept? 1 digits =
    if digits.isEmpty ∨ ¬ digits.all Text.isDigit then none
    else some (min (Text.numeral digits : Int) largest) := by
  have hnonneg : ¬ (Text.numeral digits : Int) < 0 := by omega
  rw [accept?, Int.one_mul, if_neg hnonneg]

theorem accept?_neg_one (digits : Text) : accept? (-1) digits =
    if digits.isEmpty ∨ ¬ digits.all Text.isDigit then none
    else if Text.numeral digits = 0 then some 0 else none := by
  rw [accept?]
  by_cases hzero : Text.numeral digits = 0
  · rw [if_pos hzero, hzero]
    rfl
  · have hneg : -1 * (Text.numeral digits : Int) < 0 := by omega
    rw [if_neg hzero, if_pos hneg]

theorem Signed.natural?_eq (h : Signed v sign digits factor) :
    natural? v = accept? factor digits := by
  obtain ⟨hknown, hrest, hunsigned⟩ := h
  rw [natural?, hrest]
  rcases mem_signs_iff.1 hknown with ⟨rfl, rfl⟩ | ⟨rfl, rfl⟩ | ⟨rfl, rfl⟩
  · rw [accept?_one, List.nil_append]
    cases digits with
    | nil => rfl
    | cons b rest =>
      obtain ⟨hminus, hplus⟩ := hunsigned rfl b rfl
      simp only [if_neg hminus, if_neg hplus]
      rfl
  · rw [accept?_one]
    rfl
  · rw [accept?_neg_one]
    rfl

theorem spells_digits (hsome : digits ≠ []) (hdigits : digits.all Text.isDigit = true) :
    Spells digits (Text.numeral digits) := by
  have hall : ∀ b ∈ digits, b ∈ ascii "0123456789" := fun b hb =>
    Quantity.mem_digits_iff.2 (List.all_eq_true.1 hdigits b hb)
  have hspells : Spells ([] ++ ([] ++ digits)) (1 * Text.numeral digits) :=
    .intro (List.forall_mem_nil _) (by decide) hsome hall
  rwa [Int.one_mul] at hspells

theorem Spells.signed (h : Spells v n) : ∃ sign digits factor, Signed v sign digits factor ∧
    digits ≠ [] ∧ (∀ b ∈ digits, Text.isDigit b = true) ∧ n = factor * Text.numeral digits := by
  obtain ⟨hfront, hsign, hsome, hdigits⟩ := h
  next front sign digits factor =>
  have hblank : ∀ b ∈ front, Text.isBlank b = true := fun b hb =>
    Quantity.mem_blanks_iff.1 (hfront b hb)
  have hdigit : ∀ b ∈ digits, 48 ≤ b.toNat ∧ b.toNat ≤ 57 := fun b hb =>
    Quantity.isDigit_iff.1 (Quantity.mem_digits_iff.1 (hdigits b hb))
  have hrest : (sign ++ digits).dropWhile Text.isBlank = sign ++ digits := by
    rcases mem_signs_iff.1 hsign with ⟨rfl, -⟩ | ⟨rfl, -⟩ | ⟨rfl, -⟩
    · cases digits with
      | nil => rfl
      | cons b rest =>
        apply List.dropWhile_cons_of_neg
        have hb := hdigit b List.mem_cons_self
        rw [← Quantity.mem_blanks_iff]
        simp only [Quantity.blanks, List.mem_cons, List.not_mem_nil, or_false, ← UInt8.toNat_inj,
          UInt8.reduceToNat]
        omega
    · exact List.dropWhile_cons_of_neg (by decide)
    · exact List.dropWhile_cons_of_neg (by decide)
  refine ⟨sign, digits, factor, ⟨hsign, ?_, fun _ b hb => ?_⟩, hsome,
    fun b hb => Quantity.mem_digits_iff.1 (hdigits b hb), rfl⟩
  · rw [List.dropWhile_append_of_pos hblank, hrest]
  · have hb := hdigit b (List.mem_of_head? hb)
    simp only [ne_eq, ← UInt8.toNat_inj, UInt8.reduceToNat]
    omega

theorem Signed.head_ne {rest : Text} (h : Signed v [] digits factor)
    (hrest : v.dropWhile Text.isBlank = b :: rest) : b ≠ 45 ∧ b ≠ 43 := by
  have hdigits : digits = b :: rest := h.rest.symm.trans hrest
  apply h.unsigned rfl
  rw [hdigits]
  rfl

theorem Signed.unique {sign' digits' : Text} {factor' : Int} (h : Signed v sign digits factor)
    (h' : Signed v sign' digits' factor') : factor = factor' ∧ digits = digits' := by
  have hrest : sign ++ digits = sign' ++ digits' := h.rest.symm.trans h'.rest
  rcases mem_signs_iff.1 h.known with ⟨rfl, rfl⟩ | ⟨rfl, rfl⟩ | ⟨rfl, rfl⟩
  · rcases mem_signs_iff.1 h'.known with ⟨rfl, rfl⟩ | ⟨rfl, rfl⟩ | ⟨rfl, rfl⟩
    · exact ⟨rfl, hrest⟩
    · exact absurd rfl (h.head_ne h'.rest).2
    · exact absurd rfl (h.head_ne h'.rest).1
  · rcases mem_signs_iff.1 h'.known with ⟨rfl, rfl⟩ | ⟨rfl, rfl⟩ | ⟨rfl, rfl⟩
    · exact absurd rfl (h'.head_ne h.rest).2
    · exact ⟨rfl, (List.cons.inj hrest).2⟩
    · exact absurd (List.cons.inj hrest).1 (by decide)
  · rcases mem_signs_iff.1 h'.known with ⟨rfl, rfl⟩ | ⟨rfl, rfl⟩ | ⟨rfl, rfl⟩
    · exact absurd rfl (h'.head_ne h.rest).1
    · exact absurd (List.cons.inj hrest).1 (by decide)
    · exact ⟨rfl, (List.cons.inj hrest).2⟩

theorem Spells.unique {n' : Int} (h : Spells v n) (h' : Spells v n') : n = n' := by
  obtain ⟨sign, digits, factor, hsigned, -, -, rfl⟩ := h.signed
  obtain ⟨sign', digits', factor', hsigned', -, -, rfl⟩ := h'.signed
  obtain ⟨rfl, rfl⟩ := hsigned.unique hsigned'
  rfl

/-- Exactly the numbers that are spelled and not negative are accepted, up to the largest one. -/
theorem natural?_eq_some_iff :
    natural? v = some k ↔ ∃ n, Spells v n ∧ 0 ≤ n ∧ k = min n largest := by
  constructor
  · intro h
    obtain ⟨sign, digits, factor, hsigned⟩ := exists_signed v
    rw [hsigned.natural?_eq, accept?] at h
    split at h
    · cases h
    · next hdigits =>
      split at h
      · cases h
      · next hn =>
        rw [not_or, Decidable.not_not, List.isEmpty_iff, List.all_eq_true] at hdigits
        refine ⟨factor * Text.numeral digits, ?_, Int.not_lt.1 hn, (Option.some.inj h).symm⟩
        have hv : v = v.takeWhile Text.isBlank ++ (sign ++ digits) := by
          rw [← hsigned.rest, List.takeWhile_append_dropWhile]
        rw [hv]
        refine .intro (fun b hb => ?_) hsigned.known hdigits.1 fun b hb => ?_
        · exact Quantity.mem_blanks_iff.2 (List.mem_takeWhile_imp hb)
        · exact Quantity.mem_digits_iff.2 (hdigits.2 b hb)
  · rintro ⟨n, hspells, hn, rfl⟩
    obtain ⟨sign, digits, factor, hsigned, hsome, hdigits, rfl⟩ := hspells.signed
    have hok : ¬ (digits.isEmpty ∨ ¬ digits.all Text.isDigit) := by
      rw [not_or, Decidable.not_not, List.isEmpty_iff, List.all_eq_true]
      exact ⟨hsome, hdigits⟩
    rw [hsigned.natural?_eq, accept?, if_neg hok, if_neg (Int.not_lt.2 hn)]

end Numbers

section Arguments

variable {parser : Document.Parser} {program name : Text} {arguments : List Text} {o o' : Options}
  {env : Settings.Environment} {files : Settings.Files}

theorem typeArgument_skip {a v : Text} {rest : List Text} (h : a ≠ ascii "--type") :
    typeArgument (a :: v :: rest) = typeArgument rest := by
  rw [typeArgument, if_neg h, Option.or_none]

theorem parse_type (h : parse program o arguments = .ok o') :
    typeArgument arguments = none ∧ o'.type = o.type ∨
      ∃ v k, typeArgument arguments = some v ∧ natural? v = some k ∧
        o'.type = some (Word.wrap 4 k) := by
  fun_induction parse program o arguments with
  | case1 o =>
    cases h
    exact .inl ⟨rfl, rfl⟩
  | case7 o v rest _ _ ih | case8 o v rest _ _ _ ih | case9 o v rest n _ _ _ _ _ ih =>
    rw [typeArgument_skip (by decide)]
    exact ih h
  | case11 o v rest n hn _ _ _ _ _ ih =>
    refine .inr ?_
    rw [typeArgument, if_pos rfl]
    -- a later `--type` takes the place of this one
    rcases ih h with ⟨hnone, htype⟩ | ⟨v', k, hsome, hk, htype⟩
    · exact ⟨v, n, by rw [hnone, Option.none_or], hn, htype⟩
    · exact ⟨v', k, by rw [hsome, Option.some_or], hk, htype⟩
  | _ => cases h

theorem Asks.unique {wanted wanted' : Option Int} (h : Asks arguments wanted)
    (h' : Asks arguments wanted') : wanted = wanted' := by
  cases h with
  | anything hnone =>
    cases h' with
    | anything => rfl
    | type hsome => cases hnone.symm.trans hsome
  | type hsome hspells =>
    cases h' with
    | anything hnone => cases hnone.symm.trans hsome
    | type hsome' hspells' =>
      cases Option.some.inj (hsome.symm.trans hsome')
      rw [hspells.unique hspells']

theorem asks_of_prepare (h : prepare parser program arguments env files = .ok (o, name)) :
    ∃ wanted, Asks (arguments.map Text.beforeNul) wanted ∧ o.type = wanted.map lookedFor := by
  obtain ⟨o', hparse, h⟩ := Except.bind_eq_ok_iff.1 h
  obtain ⟨name', -, h⟩ := Except.bind_eq_ok_iff.1 h
  cases h
  rcases parse_type hparse with ⟨hnone, htype⟩ | ⟨v, k, hsome, hk, htype⟩
  · exact ⟨none, .anything hnone, htype⟩
  · obtain ⟨n, hspells, hn, rfl⟩ := natural?_eq_some_iff.1 hk
    exact ⟨some n, .type hsome hspells hn, htype⟩

end Arguments

end Telemetry.Viewer
