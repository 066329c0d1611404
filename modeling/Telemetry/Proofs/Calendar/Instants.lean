import Mathlib.Data.List.Lex
import Telemetry.Proofs.Calendar.Days

namespace Telemetry

namespace Text

/-- One text comes before another in the order of dictionaries, byte by byte. -/
def Precedes (a b : Text) : Prop := List.Lex (fun x y : Byte => x.toNat < y.toNat) a b

def places : Nat → Nat
  | 0 => 1
  | k + 1 => 10 * places k

variable {a a' b b' : Text}

instance : Std.Asymm fun x y : Byte => x.toNat < y.toNat := ⟨fun _ _ => Nat.lt_asymm⟩

theorem Precedes.asymm (h : Precedes a b) : ¬ Precedes b a :=
  Std.Asymm.asymm (r := List.Lex fun x y : Byte => x.toNat < y.toNat) a b h

theorem not_precedes_self (a : Text) : ¬ Precedes a a := fun h => h.asymm h

theorem Precedes.append_left (h : Precedes b b') (a : Text) : Precedes (a ++ b) (a ++ b') :=
  List.Lex.append_left _ h a

theorem Precedes.append_right (h : Precedes a a') (hlen : a.length = a'.length) (b b' : Text) :
    Precedes (a ++ b) (a' ++ b') := by
  induction h with
  | nil => cases hlen
  | rel h => exact .rel h
  | cons _ ih => exact .cons (ih (Nat.succ.inj hlen))

theorem length_fixedDigits (k n : Nat) : (fixedDigits k n).length = k := by
  induction k generalizing n with
  | zero => rfl
  | succ k ih => rw [fixedDigits, List.length_append, ih, List.length_singleton]

theorem toNat_digit (n : Nat) : (digit n).toNat = 48 + n % 10 := by
  rw [digit, Nat.toUInt8, UInt8.toNat_ofNat']
  omega

theorem precedes_fixedDigits {k n n' : Nat} (h : n < n') (hfits : n' < places k) :
    Precedes (fixedDigits k n) (fixedDigits k n') := by
  induction k generalizing n n' with
  | zero =>
    rw [places] at hfits
    omega
  | succ k ih =>
    rw [places] at hfits
    rw [fixedDigits, fixedDigits]
    by_cases hfront : n / 10 < n' / 10
    · apply (ih hfront (by omega)).append_right
      rw [length_fixedDigits, length_fixedDigits]
    · have hsame : n / 10 = n' / 10 := by omega
      rw [hsame]
      apply Precedes.append_left
      apply List.Lex.rel
      rw [toNat_digit, toNat_digit]
      omega

def inColumns : List (Nat × Text) → List Nat → Text
  | (width, separator) :: columns, n :: ns =>
    fixedDigits width n ++ (separator ++ inColumns columns ns)
  | _, _ => []

inductive FitsColumns : List (Nat × Text) → List Nat → Prop
  | nil : FitsColumns [] []
  | cons {width n : Nat} {separator : Text} {columns : List (Nat × Text)} {ns : List Nat}
      (fits : n < places width) (rest : FitsColumns columns ns) :
      FitsColumns ((width, separator) :: columns) (n :: ns)

theorem lex_cons_of_le {n n' : Nat} {ns ns' : List Nat} (h : n ≤ n')
    (hrest : n = n' → List.Lex (· < ·) ns ns') : List.Lex (· < ·) (n :: ns) (n' :: ns') := by
  rcases Nat.lt_or_eq_of_le h with hlt | rfl
  · exact .rel hlt
  · exact .cons (hrest rfl)

theorem precedes_inColumns {columns : List (Nat × Text)} {ns ns' : List Nat}
    (h : List.Lex (· < ·) ns ns') (hfits : FitsColumns columns ns)
    (hfits' : FitsColumns columns ns') :
    Precedes (inColumns columns ns) (inColumns columns ns') := by
  induction h generalizing columns with
  | nil =>
    cases hfits
    cases hfits'
  | rel h =>
    cases hfits
    cases hfits' with
    | cons fits' =>
      apply (precedes_fixedDigits h fits').append_right
      rw [length_fixedDigits, length_fixedDigits]
  | cons _ ih =>
    cases hfits with
    | cons _ rest =>
      cases hfits' with
      | cons _ rest' => exact ((ih rest rest').append_left _).append_left _

end Text

namespace Moment

variable {m m' : Moment}

structure Valid (m : Moment) : Prop where
  date : m.date.Valid
  year : 0 ≤ m.date.year ∧ m.date.year < 10000
  hour : 0 ≤ m.hour ∧ m.hour < 24
  minute : 0 ≤ m.minute ∧ m.minute < 60
  second : 0 ≤ m.second ∧ m.second < 60
  microsecond : 0 ≤ m.microsecond ∧ m.microsecond < 1000000

def instant (m : Moment) : Int :=
  (((m.date.number * 24 + m.hour) * 60 + m.minute) * 60 + m.second) * 1000000 + m.microsecond

def columns : List (Nat × Text) :=
  [(4, ascii "-"), (2, ascii "-"), (2, ascii " "), (2, ascii ":"), (2, ascii ":"), (2, ascii "."),
    (6, [])]

def numbers (m : Moment) : List Nat :=
  [m.date.year.toNat, m.date.month.toNat, m.date.day.toNat, m.hour.toNat, m.minute.toNat,
    m.second.toNat, m.microsecond.toNat]

theorem text_eq (m : Moment) : m.text = Text.inColumns columns m.numbers := by
  simp only [text, columns, numbers, Text.inColumns, List.append_assoc, List.append_nil]

theorem Valid.fits (h : m.Valid) : Text.FitsColumns columns m.numbers := by
  obtain ⟨⟨hmonth, hday⟩, hyear, hhour, hminute, hsecond, hmicrosecond⟩ := h
  have hlength : Date.monthLength m.date.year m.date.month ≤ 31 := by
    have hleap := Date.leapDay_bounds m.date.year
    rw [Date.monthLength]
    split
    · omega
    · split <;> omega
  have h₂ : Text.places 2 = 100 := rfl
  have h₄ : Text.places 4 = 10000 := rfl
  have h₆ : Text.places 6 = 1000000 := rfl
  exact .cons (by omega) <| .cons (by omega) <| .cons (by omega) <| .cons (by omega) <|
    .cons (by omega) <| .cons (by omega) <| .cons (by omega) .nil

theorem numbers_lt (h : m.Valid) (h' : m'.Valid) (hlt : m.instant < m'.instant) :
    List.Lex (· < ·) m.numbers m'.numbers := by
  obtain ⟨hdate, hyear, hhour, hminute, hsecond, hmicrosecond⟩ := h
  obtain ⟨hdate', hyear', hhour', hminute', hsecond', hmicrosecond'⟩ := h'
  have hmonth := hdate.month
  have hday := hdate.day
  simp only [instant] at hlt
  rcases Int.lt_trichotomy m.date.number m'.date.number with hnumber | hnumber | hnumber
  · cases (Date.number_lt_iff hdate hdate').1 hnumber with
    | year h => exact .rel (by omega)
    | month same h =>
      rw [numbers, numbers, same]
      exact .cons (.rel (by omega))
    | day same same' h =>
      rw [numbers, numbers, same, same']
      exact .cons (.cons (.rel (by omega)))
  · rw [numbers, numbers, Date.number_inj hdate hdate' hnumber]
    refine .cons (.cons (.cons ?_))
    apply Text.lex_cons_of_le (by omega)
    intro hhours
    apply Text.lex_cons_of_le (by omega)
    intro hminutes
    apply Text.lex_cons_of_le (by omega)
    intro hseconds
    exact .rel (by omega)
  · omega

theorem text_precedes (h : m.Valid) (h' : m'.Valid) (hlt : m.instant < m'.instant) :
    m.text.Precedes m'.text := by
  rw [text_eq, text_eq]
  exact Text.precedes_inColumns (numbers_lt h h' hlt) h.fits h'.fits

theorem instant_eq_of_text (h : m.Valid) (h' : m'.Valid) (htext : m.text = m'.text) :
    m.instant = m'.instant := by
  rcases Int.lt_trichotomy m.instant m'.instant with hlt | heq | hgt
  · have hprecedes := text_precedes h h' hlt
    rw [htext] at hprecedes
    exact absurd hprecedes (Text.not_precedes_self _)
  · exact heq
  · have hprecedes := text_precedes h' h hgt
    rw [htext] at hprecedes
    exact absurd hprecedes (Text.not_precedes_self _)

theorem eq_of_instant (h : m.Valid) (h' : m'.Valid) (heq : m.instant = m'.instant) : m = m' := by
  obtain ⟨date, hour, minute, second, microsecond⟩ := m
  obtain ⟨date', hour', minute', second', microsecond'⟩ := m'
  obtain ⟨hdate, -, hhour, hminute, hsecond, hmicrosecond⟩ := h
  obtain ⟨hdate', -, hhour', hminute', hsecond', hmicrosecond'⟩ := h'
  simp only [instant] at *
  have hnumber : date.number = date'.number := by omega
  have hfields : hour = hour' ∧ minute = minute' ∧ second = second' ∧
      microsecond = microsecond' := by omega
  obtain ⟨rfl, rfl, rfl, rfl⟩ := hfields
  rw [Date.number_inj hdate hdate' hnumber]

theorem text_precedes_iff (h : m.Valid) (h' : m'.Valid) :
    m.text.Precedes m'.text ↔ m.instant < m'.instant := by
  refine ⟨fun hprecedes => Int.not_le.1 fun hle => ?_, text_precedes h h'⟩
  rcases Int.lt_or_eq_of_le hle with hlt | heq
  · exact (text_precedes h' h hlt).asymm hprecedes
  · rw [eq_of_instant h' h heq] at hprecedes
    exact Text.not_precedes_self _ hprecedes

theorem instant_ofSeconds (seconds fraction : Int) :
    (ofSeconds seconds fraction).instant = seconds * 1000000 + fraction := by
  have hnumber := (Date.ofDays_spec (seconds / 86400)).2
  simp only [instant, ofSeconds, hnumber]
  omega

theorem valid_ofSeconds {seconds fraction : Int}
    (h : -9223372037 ≤ seconds ∧ seconds ≤ 9223372037) (h₀ : 0 ≤ fraction)
    (h₁ : fraction < 1000000) : (ofSeconds seconds fraction).Valid := by
  obtain ⟨hdate, hnumber⟩ := Date.ofDays_spec (seconds / 86400)
  have hyear := hdate.number_year
  refine ⟨hdate, ?_, ?_, ?_, ?_, ⟨h₀, h₁⟩⟩
  · simp only [ofSeconds, Date.yearStart] at hyear ⊢
    omega
  all_goals
    simp only [ofSeconds]
    omega

/-- The quotient by a number that is cut toward zero, by the sign of what is divided. -/
theorem tdiv_cases (a : Int) {k : Int} :
    (0 ≤ a ∧ a.tdiv k = a / k) ∨ (a < 0 ∧ a.tdiv k = -(-a / k)) := by
  by_cases h : 0 ≤ a
  · exact .inl ⟨h, Int.tdiv_eq_ediv_of_nonneg h⟩
  · refine .inr ⟨by omega, ?_⟩
    rw [← Int.tdiv_eq_ediv_of_nonneg (by omega), Int.neg_tdiv, Int.neg_neg]

def InRange (t : Int) : Prop := -0x8000000000000000 ≤ t ∧ t < 0x8000000000000000

/-- An instant before 1970 that leaves a part of a second. -/
def Overshoots (t : Int) : Prop := t.tdiv 1000 < 0 ∧ t.tdiv 1000 % 1000000 ≠ 0

instance (t : Int) : Decidable (Overshoots t) :=
  inferInstanceAs (Decidable (t.tdiv 1000 < 0 ∧ t.tdiv 1000 % 1000000 ≠ 0))

/-- The microseconds that the text of an instant in nanoseconds stands for. -/
def shown (t : Int) : Int :=
  if Overshoots t then t.tdiv 1000 + 1000000 else t.tdiv 1000

theorem ofNanoseconds_spec {t : Int} (h : InRange t) :
    (ofNanoseconds t).Valid ∧ (ofNanoseconds t).instant = shown t := by
  obtain ⟨hlow, hhigh⟩ := h
  have hmicro := tdiv_cases t (k := 1000)
  have hsecond := tdiv_cases (t.tdiv 1000) (k := 1000000)
  simp only [ofNanoseconds, instant_ofSeconds]
  refine ⟨valid_ofSeconds (by omega) ?_ ?_, ?_⟩
  · split
    · omega
    · omega
  · split
    · omega
    · omega
  · by_cases hover : Overshoots t
    · rw [shown, if_pos hover]
      obtain ⟨hneg, hpart⟩ := hover
      rw [if_pos (by omega)]
      omega
    · rw [shown, if_neg hover]
      have hwhole : 0 ≤ t.tdiv 1000 ∨ t.tdiv 1000 % 1000000 = 0 := by
        rw [Overshoots] at hover
        omega
      rw [if_neg (by omega)]
      omega

/-- A text denotes an instant in microseconds: it is the text of a moment at that instant. -/
def Denotes (t : Text) (microseconds : Int) : Prop :=
  ∃ m : Moment, m.Valid ∧ t = m.text ∧ m.instant = microseconds

theorem Valid.denotes_text (h : m.Valid) (microseconds : Int) :
    Denotes m.text microseconds ↔ microseconds = m.instant := by
  constructor
  · rintro ⟨m', h', htext, rfl⟩
    exact instant_eq_of_text h' h htext.symm
  · intro heq
    exact ⟨m, h, rfl, heq.symm⟩

theorem shown_eq_iff {t : Int} (hwhole : t % 1000 = 0) : t / 1000 = shown t ↔ ¬ Overshoots t := by
  have hmicro := tdiv_cases t (k := 1000)
  by_cases hover : Overshoots t
  · simp only [shown, hover, if_true, not_true, iff_false]
    omega
  · simp only [shown, hover, if_false, not_false_eq_true, iff_true]
    omega

/-- A later instant is shown as an earlier one only if it follows by less than a second on one that
is shown late, and is not shown late itself. -/
theorem shown_lt_iff {t t' : Int} (h : t ≤ t') :
    shown t' < shown t ↔
      Overshoots t ∧ ¬ Overshoots t' ∧ t'.tdiv 1000 < t.tdiv 1000 + 1000000 := by
  have hle : t.tdiv 1000 ≤ t'.tdiv 1000 := Int.tdiv_le_tdiv (by decide) h
  by_cases hover : Overshoots t
  · by_cases hover' : Overshoots t'
    · simp only [shown, hover, hover', if_true, not_true, false_and, and_false, iff_false]
      omega
    · simp only [shown, hover, hover', if_true, if_false, not_false_eq_true, true_and]
  · by_cases hover' : Overshoots t'
    · simp only [shown, hover, hover', if_true, if_false, false_and, iff_false]
      omega
    · simp only [shown, hover, hover', if_false, false_and, iff_false]
      omega

end Moment

open Moment

/-- The text of a time denotes one instant, which is the time itself in whole microseconds unless it
is before 1970 and leaves a part of a second. The texts of two times are out of order exactly if the
first is such a time and the second, less than a second later, is not. -/
theorem timeText_denotes {t : Int} (h : InRange t) :
    (∀ microseconds, Denotes (timeText t) microseconds ↔ microseconds = shown t) ∧
    (t % 1000 = 0 → (Denotes (timeText t) (t / 1000) ↔ ¬ Overshoots t)) ∧
    ∀ t', InRange t' → t ≤ t' →
      ((timeText t').Precedes (timeText t) ↔
        Overshoots t ∧ ¬ Overshoots t' ∧ t'.tdiv 1000 < t.tdiv 1000 + 1000000) := by
  obtain ⟨hvalid, hinstant⟩ := ofNanoseconds_spec h
  have hdenotes := hvalid.denotes_text
  rw [hinstant] at hdenotes
  refine ⟨hdenotes, ?_, ?_⟩
  · intro hwhole
    exact (hdenotes (t / 1000)).trans (shown_eq_iff hwhole)
  · intro t' h' hle
    obtain ⟨hvalid', hinstant'⟩ := ofNanoseconds_spec h'
    rw [timeText, timeText, text_precedes_iff hvalid' hvalid, hinstant, hinstant']
    exact shown_lt_iff hle

theorem timeText_denotes_late :
    InRange (-1500000000) ∧
    (¬ Denotes (timeText (-1500000000)) (-1500000) ∧ Denotes (timeText (-1500000000)) (-500000)) ∧
    InRange (-1000000000) ∧ (timeText (-1000000000)).Precedes (timeText (-1500000000)) := by
  have hrange : InRange (-1500000000) := by
    constructor <;> decide
  have hrange' : InRange (-1000000000) := by
    constructor <;> decide
  obtain ⟨hdenotes, hwhole, horder⟩ := timeText_denotes hrange
  refine ⟨hrange, ⟨?_, ?_⟩, hrange', ?_⟩
  · intro h
    exact (hwhole (by decide)).1 h (by decide)
  · rw [hdenotes]
    decide
  · rw [horder _ hrange' (by decide)]
    decide

/-- Half a second before 1970 has the text of half a second after, which comes behind the text of
the beginning of 1970. -/
theorem timeText_half_second :
    timeText (-500000000) = ascii "1970-01-01 00:00:00.500000" ∧
    ¬ Denotes (timeText (-500000000)) (-500000) ∧
    timeText 0 = ascii "1970-01-01 00:00:00.000000" ∧
    (timeText 0).Precedes (timeText (-500000000)) := by
  have hrange : InRange (-500000000) := by
    constructor <;> decide
  have hrange' : InRange 0 := by
    constructor <;> decide
  obtain ⟨hvalid, hinstant⟩ := ofNanoseconds_spec hrange
  obtain ⟨hvalid', hinstant'⟩ := ofNanoseconds_spec hrange'
  refine ⟨by decide +kernel, ?_, by decide +kernel, ?_⟩
  · rw [timeText, hvalid.denotes_text, hinstant]
    decide
  · rw [timeText, timeText, text_precedes_iff hvalid' hvalid, hinstant, hinstant']
    decide

end Telemetry
