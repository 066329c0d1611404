import Telemetry.Calendar

namespace Telemetry.Date

/-- Every fourth year has a leap day, except the last of a century that is not the fourth. -/
def leapDay (year : Int) : Int :=
  if year % 4 = 0 ∧ (year % 100 ≠ 0 ∨ year % 400 = 0) then 1 else 0

def monthLength (year month : Int) : Int :=
  if month = 2 then 28 + leapDay year
  else if month = 4 ∨ month = 6 ∨ month = 9 ∨ month = 11 then 30
  else 31

structure Valid (d : Date) : Prop where
  month : 1 ≤ d.month ∧ d.month ≤ 12
  day : 1 ≤ d.day ∧ d.day ≤ monthLength d.year d.month

def next (d : Date) : Date :=
  if d.day < monthLength d.year d.month then ⟨d.year, d.month, d.day + 1⟩
  else if d.month < 12 then ⟨d.year, d.month + 1, 1⟩
  else ⟨d.year + 1, 1, 1⟩

/-- The days from the beginning of 1970 to the beginning of a year: 365 for each year, and the leap
days of the years before. -/
def yearStart (year : Int) : Int :=
  365 * (year - 1970) + (year - 1) / 4 - (year - 1) / 100 + (year - 1) / 400 - 477

def monthsLength (year : Int) : Nat → Int
  | 0 => 0
  | k + 1 => monthsLength year k + monthLength year (k + 1)

def number (d : Date) : Int :=
  yearStart d.year + monthsLength d.year (d.month - 1).toNat + (d.day - 1)

theorem leapDay_eq (year : Int) :
    leapDay year = year / 4 - (year - 1) / 4 - (year / 100 - (year - 1) / 100) +
      (year / 400 - (year - 1) / 400) := by
  rw [leapDay]
  split <;> omega

theorem yearStart_succ (year : Int) :
    yearStart (year + 1) = yearStart year + 365 + leapDay year := by
  rw [leapDay_eq, yearStart, yearStart, Int.add_sub_cancel]
  omega

theorem monthsLength_eq (year : Int) {k : Nat} (h₂ : 2 ≤ k) (h₁₂ : k ≤ 12) :
    monthsLength year k = 59 + leapDay year + (153 * (k - 2) + 2) / 5 := by
  have hk : k = 2 ∨ k = 3 ∨ k = 4 ∨ k = 5 ∨ k = 6 ∨ k = 7 ∨ k = 8 ∨ k = 9 ∨ k = 10 ∨ k = 11 ∨
      k = 12 := by omega
  rcases hk with rfl | rfl | rfl | rfl | rfl | rfl | rfl | rfl | rfl | rfl | rfl <;>
    simp [monthsLength, monthLength] <;> omega

theorem leapDay_bounds (year : Int) : 0 ≤ leapDay year ∧ leapDay year ≤ 1 := by
  rw [leapDay]
  split <;> omega

theorem monthLength_pos (year month : Int) : 0 < monthLength year month := by
  have hleap := leapDay_bounds year
  rw [monthLength]
  split
  · omega
  · split <;> omega

theorem monthsLength_mono (year : Int) {k l : Nat} (h : k ≤ l) :
    monthsLength year k ≤ monthsLength year l := by
  induction h with
  | refl => exact Int.le_refl _
  | @step l _ ih =>
    have hpos := monthLength_pos year (l + 1)
    rw [monthsLength]
    omega

theorem yearStart_mono {year later : Int} (h : year ≤ later) :
    yearStart year ≤ yearStart later := by
  simp only [yearStart]
  omega

theorem Valid.number_bounds {d : Date} (h : d.Valid) :
    yearStart d.year + monthsLength d.year (d.month - 1).toNat ≤ d.number ∧
      d.number < yearStart d.year + monthsLength d.year d.month.toNat := by
  obtain ⟨hmonth, hday⟩ := h
  have hsucc : d.month.toNat = (d.month - 1).toNat + 1 := by omega
  have hcast : ((d.month - 1).toNat : Int) + 1 = d.month := by omega
  rw [hsucc, monthsLength, hcast, number]
  omega

theorem monthsLength_twelve (year : Int) : monthsLength year 12 = 365 + leapDay year := by
  have h := monthsLength_eq year (by decide : 2 ≤ 12) (Nat.le_refl 12)
  omega

theorem Valid.number_year {d : Date} (h : d.Valid) :
    yearStart d.year ≤ d.number ∧ d.number < yearStart (d.year + 1) := by
  obtain ⟨hlow, hhigh⟩ := h.number_bounds
  have hmonth := h.month
  have hbegin := monthsLength_mono d.year (Nat.zero_le (d.month - 1).toNat)
  have hzero : monthsLength d.year 0 = 0 := rfl
  have hend := monthsLength_mono d.year (k := d.month.toNat) (l := 12) (by omega)
  have htwelve := monthsLength_twelve d.year
  have hsucc := yearStart_succ d.year
  omega

inductive Before (d e : Date) : Prop
  | year (h : d.year < e.year)
  | month (same : d.year = e.year) (h : d.month < e.month)
  | day (same : d.year = e.year) (same' : d.month = e.month) (h : d.day < e.day)

theorem number_lt_of_before {d e : Date} (hd : d.Valid) (he : e.Valid) (h : d.Before e) :
    d.number < e.number := by
  obtain ⟨hdlow, hdhigh⟩ := hd.number_bounds
  obtain ⟨helow, hehigh⟩ := he.number_bounds
  have hdmonth := hd.month
  have hemonth := he.month
  cases h with
  | year hyear =>
    have hdyear := hd.number_year
    have heyear := he.number_year
    have hmono : yearStart (d.year + 1) ≤ yearStart e.year := yearStart_mono (by omega)
    omega
  | month same hmonth =>
    have hmono := monthsLength_mono d.year (k := d.month.toNat) (l := (e.month - 1).toNat)
      (by omega)
    rw [← same] at helow
    omega
  | day same same' hday =>
    simp only [number, same, same']
    omega

theorem before_trichotomy (d e : Date) : d.Before e ∨ d = e ∨ e.Before d := by
  obtain ⟨y, m, k⟩ := d
  obtain ⟨y', m', k'⟩ := e
  rcases Int.lt_trichotomy y y' with h | rfl | h
  · exact .inl (.year h)
  · rcases Int.lt_trichotomy m m' with h | rfl | h
    · exact .inl (.month rfl h)
    · rcases Int.lt_trichotomy k k' with h | rfl | h
      · exact .inl (.day rfl rfl h)
      · exact .inr (.inl rfl)
      · exact .inr (.inr (.day rfl rfl h))
    · exact .inr (.inr (.month rfl h))
  · exact .inr (.inr (.year h))

theorem number_lt_iff {d e : Date} (hd : d.Valid) (he : e.Valid) :
    d.number < e.number ↔ d.Before e := by
  refine ⟨fun h => ?_, number_lt_of_before hd he⟩
  rcases before_trichotomy d e with hbefore | rfl | hafter
  · exact hbefore
  · omega
  · have hlt := number_lt_of_before he hd hafter
    omega

theorem number_inj {d e : Date} (hd : d.Valid) (he : e.Valid) (h : d.number = e.number) :
    d = e := by
  rcases before_trichotomy d e with hbefore | heq | hafter
  · have hlt := number_lt_of_before hd he hbefore
    omega
  · exact heq
  · have hlt := number_lt_of_before he hd hafter
    omega

theorem number_next {d : Date} (h : d.Valid) : d.next.Valid ∧ d.next.number = d.number + 1 := by
  obtain ⟨y, m, k⟩ := d
  obtain ⟨⟨hm₁, hm₂⟩, hk₁, hk₂⟩ := h
  dsimp only at hm₁ hm₂ hk₁ hk₂
  have hpos := monthLength_pos
  simp only [next]
  split
  · next hday =>
    refine ⟨⟨⟨hm₁, hm₂⟩, ?_, ?_⟩, ?_⟩
    · dsimp only
      omega
    · dsimp only
      omega
    · simp only [number]
      omega
  · next hday =>
    split
    · next hmonth =>
      have hsucc : (m + 1 - 1).toNat = (m - 1).toNat + 1 := by omega
      have hcast : ((m - 1).toNat : Int) + 1 = m := by omega
      refine ⟨⟨⟨?_, ?_⟩, Int.le_refl 1, hpos y (m + 1)⟩, ?_⟩
      · dsimp only
        omega
      · dsimp only
        omega
      · simp only [number, hsucc, monthsLength, hcast]
        omega
    · next hmonth =>
      obtain rfl : m = 12 := by omega
      have hyear := yearStart_succ y
      have htwelve := monthsLength_twelve y
      have hsplit : monthsLength y 12 = monthsLength y 11 + monthLength y 12 := rfl
      have hlast : (⟨y, 12, k⟩ : Date).number = yearStart y + monthsLength y 11 + (k - 1) := rfl
      have hfirst : (⟨y + 1, 1, 1⟩ : Date).number = yearStart (y + 1) + 0 + (1 - 1) := rfl
      refine ⟨⟨⟨Int.le_refl 1, by simp⟩, Int.le_refl 1, hpos (y + 1) 1⟩, ?_⟩
      omega

section March

variable {year day n : Int}

def fromMarch (year day : Int) : Date :=
  let monthFromMarch := (5 * day + 2) / 153
  let month := if monthFromMarch < 10 then monthFromMarch + 3 else monthFromMarch - 9
  ⟨if month ≤ 2 then year + 1 else year, month, day - (153 * monthFromMarch + 2) / 5 + 1⟩

theorem number_fromMarch (year : Int) (h₀ : 0 ≤ day) (h₁ : day ≤ 365) :
    (fromMarch year day).number = yearStart year + 59 + leapDay year + day := by
  have hsucc := yearStart_succ year
  unfold fromMarch
  dsimp only
  generalize hm : (5 * day + 2) / 153 = month
  by_cases hlate : month < 10
  · have hnot : ¬ month + 3 ≤ 2 := by omega
    have hmonths := monthsLength_eq year (k := (month + 3 - 1).toNat) (by omega) (by omega)
    simp only [if_pos hlate, if_neg hnot, number, hmonths]
    omega
  · have hcase : month = 10 ∨ month = 11 := by omega
    rcases hcase with rfl | rfl <;>
      simp [number, monthsLength, monthLength] <;> omega

theorem valid_fromMarch (year : Int) (h₀ : 0 ≤ day) (h₁ : day ≤ 364 + leapDay (year + 1)) :
    (fromMarch year day).Valid := by
  have hleap := leapDay_bounds (year + 1)
  have hm : (5 * day + 2) / 153 = 0 ∨ (5 * day + 2) / 153 = 1 ∨ (5 * day + 2) / 153 = 2 ∨
      (5 * day + 2) / 153 = 3 ∨ (5 * day + 2) / 153 = 4 ∨ (5 * day + 2) / 153 = 5 ∨
      (5 * day + 2) / 153 = 6 ∨ (5 * day + 2) / 153 = 7 ∨ (5 * day + 2) / 153 = 8 ∨
      (5 * day + 2) / 153 = 9 ∨ (5 * day + 2) / 153 = 10 ∨ (5 * day + 2) / 153 = 11 := by omega
  unfold fromMarch
  rcases hm with h | h | h | h | h | h | h | h | h | h | h | h <;> constructor
  all_goals
    simp [h, monthLength]
  all_goals omega

def firstOfYear (year : Int) : Int := 365 * year + year / 4 - year / 100

/-- The days of a cycle less the leap days before them, so that a year has 365 of them. -/
def leapless (day : Int) : Int := day - day / 1460 + day / 36524 - day / 146096

theorem leapless_mono {a b : Int} (h : a ≤ b) : leapless a ≤ leapless b := by
  have hfours : a - a / 1460 ≤ b - b / 1460 := by omega
  have hcenturies : a / 36524 - a / 146096 ≤ b / 36524 - b / 146096 := by omega
  simp only [leapless]
  omega

theorem leapless_firstOfYear : ∀ year : Fin 400,
    365 * (year.val : Int) ≤ leapless (firstOfYear year) ∧
    leapless (firstOfYear year + 364 + leapDay (year + 1)) < 365 * (year + 1) := by
  decide +kernel

theorem firstOfYear_succ (h₀ : 0 ≤ year) (h₁ : year < 399) :
    firstOfYear (year + 1) = firstOfYear year + 365 + leapDay (year + 1) := by
  rw [leapDay_eq, Int.add_sub_cancel]
  simp only [firstOfYear]
  omega

theorem yearOfCycle_bounds (h₀ : 0 ≤ day) (h₁ : day < 146097) (hyear : year = leapless day / 365) :
    0 ≤ year ∧ year < 400 ∧ firstOfYear year ≤ day ∧
      day ≤ firstOfYear year + 364 + leapDay (year + 1) := by
  have hzero : leapless 0 = 0 := rfl
  have hlast : leapless 146096 = 145999 := by decide
  have hlow := leapless_mono h₀
  have hhigh := leapless_mono (a := day) (b := 146096) (by omega)
  have hyears (k : Int) (hk₀ : 0 ≤ k) (hk₁ : k < 400) : 365 * k ≤ leapless (firstOfYear k) ∧
      leapless (firstOfYear k + 364 + leapDay (k + 1)) < 365 * (k + 1) := by
    have hfin := leapless_firstOfYear ⟨k.toNat, by omega⟩
    rwa [Int.toNat_of_nonneg hk₀] at hfin
  have hrange : 0 ≤ year ∧ year < 400 := by omega
  refine ⟨hrange.1, hrange.2, Int.not_lt.1 fun hlt => ?_, Int.not_lt.1 fun hlt => ?_⟩
  · -- a day before the year would come to the year before
    have hpositive : year ≠ 0 := by
      rintro rfl
      exact absurd h₀ (Int.not_le.2 hlt)
    have hsucc : firstOfYear (year - 1 + 1) =
        firstOfYear (year - 1) + 365 + leapDay (year - 1 + 1) := firstOfYear_succ (by omega) (by omega)
    have hbefore := (hyears (year - 1) (by omega) (by omega)).2
    rw [Int.sub_add_cancel] at hsucc hbefore
    have hmono := leapless_mono (a := day) (b := firstOfYear (year - 1) + 364 + leapDay year)
      (by omega)
    omega
  · by_cases hend : year = 399
    · subst hend
      have hcycle : firstOfYear 399 + 364 + leapDay (399 + 1) = 146096 := by decide
      omega
    · have hsucc : firstOfYear (year + 1) = firstOfYear year + 365 + leapDay (year + 1) :=
        firstOfYear_succ (by omega) (by omega)
      have hafter := (hyears (year + 1) (by omega) (by omega)).1
      have hmono := leapless_mono (a := firstOfYear (year + 1)) (b := day) (by omega)
      omega

theorem yearStart_cycle (year cycle : Int) :
    yearStart (year + cycle * 400) = yearStart year + 146097 * cycle := by
  simp only [yearStart]
  omega

theorem leapDay_cycle (year cycle : Int) : leapDay (year + cycle * 400) = leapDay year := by
  have h₄ : (year + cycle * 400) % 4 = year % 4 := by omega
  have h₁₀₀ : (year + cycle * 400) % 100 = year % 100 := by omega
  have h₄₀₀ : (year + cycle * 400) % 400 = year % 400 := by omega
  simp only [leapDay, h₄, h₁₀₀, h₄₀₀]

/-- The date of a number is a day of the calendar, and it has that number. -/
theorem ofDays_spec (n : Int) : (ofDays n).Valid ∧ (ofDays n).number = n := by
  generalize hcycle : (n + 719468) / 146097 = cycle
  generalize hday : (n + 719468) % 146097 = day
  generalize hyear : leapless day / 365 = year
  obtain ⟨hyear₀, hyear₁, hlow, hhigh⟩ := yearOfCycle_bounds (by omega) (by omega) hyear.symm
  have hdate : ofDays n = fromMarch (year + cycle * 400) (day - firstOfYear year) := by
    rw [← hyear, ← hday, ← hcycle]
    rfl
  have hnext : year + cycle * 400 + 1 = year + 1 + cycle * 400 := by omega
  have hleap := leapDay_bounds (year + 1)
  rw [hdate]
  constructor
  · apply valid_fromMarch
    · omega
    · rw [hnext, leapDay_cycle]
      omega
  · rw [number_fromMarch _ (by omega) (by omega), yearStart_cycle, leapDay_cycle, leapDay_eq]
    simp only [yearStart, firstOfYear]
    omega

theorem ofDays_succ (n : Int) : ofDays (n + 1) = (ofDays n).next := by
  obtain ⟨hvalid, hnumber⟩ := ofDays_spec n
  obtain ⟨hvalid', hnumber'⟩ := ofDays_spec (n + 1)
  obtain ⟨hnext, hnumberNext⟩ := number_next hvalid
  exact number_inj hvalid' hnext (by omega)

end March

end Telemetry.Date
