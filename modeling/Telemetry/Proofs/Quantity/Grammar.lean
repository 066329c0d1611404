import Mathlib.Data.List.Forall2
import Mathlib.Data.List.TakeWhile
import Telemetry.Proofs.Settings.Layers

namespace Telemetry.Quantity

def blanks : Text := [32, 9, 10, 13, 12, 11]

def sizeSuffixes : List (Text × Nat) :=
  [([], 1), (ascii "k", 0x400), (ascii "m", 0x100000), (ascii "g", 0x40000000)]

def durationSuffixes : List (Text × Nat) :=
  [([], 1), (ascii "ns", 1), (ascii "us", 1000), (ascii "ms", 1000000), (ascii "s", 1000000000)]

/-- A name in small letters, each of them written small or capital. -/
def InAnyCase (suffix name : Text) : Prop := List.Forall₂ (fun b c => b = c ∨ b + 32 = c) suffix name

/-- Blanks, digits, a suffix, blanks. -/
inductive Written (suffixes : List (Text × Nat)) : Text → Nat → Prop
  | intro {front digits suffix name back : Text} {unit : Nat}
      (hfront : ∀ b ∈ front, b ∈ blanks) (hback : ∀ b ∈ back, b ∈ blanks)
      (hsome : digits ≠ []) (hdigits : ∀ b ∈ digits, b ∈ ascii "0123456789")
      (hname : (name, unit) ∈ suffixes) (hsuffix : InAnyCase suffix name) :
      Written suffixes (front ++ (digits ++ suffix) ++ back) (Text.numeral digits * unit)

/-- A digit is put behind a number as if there were no largest word. -/
structure AppendExact (n d : Int64) : Prop where
  room : (largest - d).toInt = largest.toInt - d.toInt
  bound : ((largest - d) / 10).toInt = (largest.toInt - d.toInt) / 10
  tenfold : ¬ (largest - d) / 10 < n → (n * 10).toInt = n.toInt * 10
  sum : ¬ (largest - d) / 10 < n → (n * 10 + d).toInt = n.toInt * 10 + d.toInt

/-- A number is multiplied by a unit as if there were no largest word. -/
structure ScaleExact (n unit : Int64) : Prop where
  bound : (largest / unit).toInt = largest.toInt / unit.toInt
  product : ¬ largest / unit < n → (n * unit).toInt = n.toInt * unit.toInt

section Words

theorem largest_eq : largest = Int64.ofNat 0x7FFFFFFFFFFFFFFF := by decide

theorem toInt_ofNat {n : Nat} (h : n ≤ 0x7FFFFFFFFFFFFFFF) : (Int64.ofNat n).toInt = n :=
  Int64.toInt_ofNat_of_lt (by omega)

theorem room_lt_iff {n d : Nat} (hn : n ≤ 0x7FFFFFFFFFFFFFFF) (hd : d ≤ 9) :
    (largest - Int64.ofNat d) / 10 < Int64.ofNat n ↔ 0x7FFFFFFFFFFFFFFF < 10 * n + d := by
  have hten : (10 : Int64) = Int64.ofNat 10 := rfl
  rw [largest_eq, ← Int64.ofNat_sub _ _ (by omega), hten, ← Int64.ofNat_div (by omega) (by omega),
    Int64.ofNat_lt_iff_lt (by omega) (by omega)]
  omega

theorem ofNat_append (n d : Nat) :
    Int64.ofNat n * 10 + Int64.ofNat d = Int64.ofNat (10 * n + d) := by
  rw [Int64.ofNat_add, Int64.ofNat_mul, Int64.mul_comm]
  rfl

theorem append?_ofNat {n d : Nat} (hn : n ≤ 0x7FFFFFFFFFFFFFFF) (hd : d ≤ 9) :
    append? (Int64.ofNat n) (Int64.ofNat d) =
      if 0x7FFFFFFFFFFFFFFF < 10 * n + d then none else some (Int64.ofNat (10 * n + d)) := by
  simp only [append?, room_lt_iff hn hd, ofNat_append]

theorem appendExact_ofNat {n d : Nat} (hn : n ≤ 0x7FFFFFFFFFFFFFFF) (hd : d ≤ 9) :
    AppendExact (Int64.ofNat n) (Int64.ofNat d) := by
  have hten : (10 : Int64) = Int64.ofNat 10 := rfl
  have hroom : largest - Int64.ofNat d = Int64.ofNat (0x7FFFFFFFFFFFFFFF - d) := by
    rw [largest_eq, Int64.ofNat_sub _ _ (by omega)]
  have hlargest : largest.toInt = 0x7FFFFFFFFFFFFFFF := by decide
  refine ⟨?_, ?_, fun h => ?_, fun h => ?_⟩
  · rw [hroom, toInt_ofNat (by omega), toInt_ofNat (by omega), hlargest]
    omega
  · rw [hroom, hten, ← Int64.ofNat_div (by omega) (by omega), toInt_ofNat (by omega),
      toInt_ofNat (by omega), hlargest]
    omega
  · rw [room_lt_iff hn hd] at h
    rw [hten, ← Int64.ofNat_mul, toInt_ofNat (by omega), toInt_ofNat hn]
    omega
  · rw [room_lt_iff hn hd] at h
    rw [ofNat_append, toInt_ofNat (by omega), toInt_ofNat hn, toInt_ofNat (by omega)]
    omega

theorem share_lt_iff {n unit : Nat} (hn : n ≤ 0x7FFFFFFFFFFFFFFF) (hunit : 0 < unit)
    (hword : unit ≤ 0x7FFFFFFFFFFFFFFF) :
    largest / Int64.ofNat unit < Int64.ofNat n ↔ 0x7FFFFFFFFFFFFFFF < n * unit := by
  have hshare : 0x7FFFFFFFFFFFFFFF / unit ≤ 0x7FFFFFFFFFFFFFFF := Nat.div_le_self ..
  rw [largest_eq, ← Int64.ofNat_div (by omega) (by omega),
    Int64.ofNat_lt_iff_lt (by omega) (by omega), Nat.div_lt_iff_lt_mul hunit]

theorem scale_ofNat {n unit : Nat} (hn : n ≤ 0x7FFFFFFFFFFFFFFF) (hunit : 0 < unit)
    (hword : unit ≤ 0x7FFFFFFFFFFFFFFF) (value : Text) :
    scale value (Int64.ofNat n) (Int64.ofNat unit) =
      if 0x7FFFFFFFFFFFFFFF < n * unit then .error (.tooLarge value)
      else .ok (Int64.ofNat (n * unit)) := by
  simp only [scale, share_lt_iff hn hunit hword, Int64.ofNat_mul]

theorem scaleExact_ofNat {n unit : Nat} (hn : n ≤ 0x7FFFFFFFFFFFFFFF) (hunit : 0 < unit)
    (hword : unit ≤ 0x7FFFFFFFFFFFFFFF) : ScaleExact (Int64.ofNat n) (Int64.ofNat unit) := by
  have hlargest : largest.toInt = 0x7FFFFFFFFFFFFFFF := by decide
  have hshare : 0x7FFFFFFFFFFFFFFF / unit ≤ 0x7FFFFFFFFFFFFFFF := Nat.div_le_self ..
  refine ⟨?_, fun h => ?_⟩
  · rw [hlargest, toInt_ofNat hword, largest_eq, ← Int64.ofNat_div (by omega) (by omega),
      toInt_ofNat hshare]
    rfl
  · rw [share_lt_iff hn hunit hword] at h
    rw [← Int64.ofNat_mul, toInt_ofNat (by omega), toInt_ofNat hn, toInt_ofNat hword]
    exact Int.natCast_mul n unit

end Words

section Digits

variable {digits suffix value : Text} {b : Byte} {n : Nat}

theorem isDigit_iff : Text.isDigit b = true ↔ 48 ≤ b.toNat ∧ b.toNat ≤ 57 := by
  simp only [Text.isDigit, Bool.and_eq_true, decide_eq_true_eq, UInt8.le_iff_toNat_le]
  rfl

theorem mem_digits_iff : b ∈ ascii "0123456789" ↔ Text.isDigit b = true := by
  have hall : ascii "0123456789" = [48, 49, 50, 51, 52, 53, 54, 55, 56, 57] := by decide
  simp only [hall, List.mem_cons, List.not_mem_nil, or_false, isDigit_iff, ← UInt8.toNat_inj,
    UInt8.reduceToNat]
  omega

theorem digitValue_eq (h : Text.isDigit b = true) :
    digitValue b = Int64.ofNat (b.toNat - 48) ∧ b.toNat - 48 ≤ 9 := by
  rw [isDigit_iff] at h
  exact ⟨rfl, by omega⟩

theorem le_foldl_digits (digits : Text) (n : Nat) :
    n ≤ digits.foldl (fun n b => 10 * n + (b.toNat - 48)) n := by
  induction digits generalizing n with
  | nil => exact Nat.le_refl n
  | cons b rest ih =>
    have hrest := ih (10 * n + (b.toNat - 48))
    rw [List.foldl_cons]
    omega

/-- Counting on from a number: once the number is too large it stays so, however many digits
follow. -/
theorem foldlM_append? (h : ∀ b ∈ digits, Text.isDigit b = true) (hn : n ≤ 0x7FFFFFFFFFFFFFFF) :
    digits.foldlM (fun n b => append? n (digitValue b)) (Int64.ofNat n) =
      if 0x7FFFFFFFFFFFFFFF < digits.foldl (fun n b => 10 * n + (b.toNat - 48)) n then none
      else some (Int64.ofNat (digits.foldl (fun n b => 10 * n + (b.toNat - 48)) n)) := by
  induction digits generalizing n with
  | nil =>
    rw [List.foldlM_nil, List.foldl_nil, if_neg (Nat.not_lt.2 hn)]
    rfl
  | cons b rest ih =>
    obtain ⟨hvalue, hnine⟩ := digitValue_eq (h b List.mem_cons_self)
    have hgrows := le_foldl_digits rest (10 * n + (b.toNat - 48))
    rw [List.foldlM_cons, List.foldl_cons, hvalue, append?_ofNat hn hnine]
    by_cases hlarge : 0x7FFFFFFFFFFFFFFF < 10 * n + (b.toNat - 48)
    · rw [if_pos hlarge, if_pos (by omega)]
      rfl
    · rw [if_neg hlarge]
      exact ih (fun c hc => h c (List.mem_cons_of_mem _ hc)) (Nat.le_of_not_lt hlarge)

theorem count?_eq (h : ∀ b ∈ digits, Text.isDigit b = true) :
    count? digits = if 0x7FFFFFFFFFFFFFFF < Text.numeral digits then none
      else some (Int64.ofNat (Text.numeral digits)) :=
  foldlM_append? (n := 0) h (by decide)

theorem takeWhile_digits (h : ∀ b ∈ digits, Text.isDigit b = true)
    (hsuffix : ∀ b, suffix.head? = some b → Text.isDigit b = false) :
    (digits ++ suffix).takeWhile Text.isDigit = digits := by
  rw [List.takeWhile_append_of_pos h]
  cases suffix with
  | nil => exact List.append_nil digits
  | cons b rest =>
    have hb : ¬ Text.isDigit b = true := by rw [hsuffix b rfl]; decide
    rw [List.takeWhile_cons_of_neg hb, List.append_nil]

theorem split_eq_ok (h : ∀ b ∈ digits, Text.isDigit b = true) (hsome : digits ≠ [])
    (hsuffix : ∀ b, suffix.head? = some b → Text.isDigit b = false)
    (hword : Text.numeral digits ≤ 0x7FFFFFFFFFFFFFFF) :
    split (digits ++ suffix) = .ok (Int64.ofNat (Text.numeral digits), suffix) := by
  have hempty : ¬ (digits ++ suffix).isEmpty = true := by simp [hsome]
  have hdigits : ¬ digits.isEmpty = true := by simpa using hsome
  have hcount : count? digits = some (Int64.ofNat (Text.numeral digits)) := by
    rw [count?_eq h, if_neg (Nat.not_lt.2 hword)]
  rw [split, if_neg hempty, takeWhile_digits h hsuffix]
  simp only [hcount, if_neg hdigits, List.drop_left]

theorem of_split_eq_ok {w : Int64} (h : split value = .ok (w, suffix)) :
    ∃ digits, value = digits ++ suffix ∧ digits ≠ [] ∧ (∀ b ∈ digits, Text.isDigit b = true) ∧
      Text.numeral digits ≤ 0x7FFFFFFFFFFFFFFF ∧ w = Int64.ofNat (Text.numeral digits) := by
  have hdigits : ∀ b ∈ value.takeWhile Text.isDigit, Text.isDigit b = true :=
    fun b hb => List.mem_takeWhile_imp hb
  have hvalue : value.takeWhile Text.isDigit ++ value.dropWhile Text.isDigit = value :=
    List.takeWhile_append_dropWhile
  have hrest : value.drop (value.takeWhile Text.isDigit).length = value.dropWhile Text.isDigit := by
    calc value.drop (value.takeWhile Text.isDigit).length
        = (value.takeWhile Text.isDigit ++ value.dropWhile Text.isDigit).drop
            (value.takeWhile Text.isDigit).length := by rw [hvalue]
      _ = value.dropWhile Text.isDigit := List.drop_left
  simp only [split, count?_eq hdigits, hrest] at h
  split at h
  · nomatch h
  · by_cases hword : 0x7FFFFFFFFFFFFFFF < Text.numeral (value.takeWhile Text.isDigit)
    · rw [if_pos hword] at h
      nomatch h
    · simp only [if_neg hword] at h
      split at h
      · nomatch h
      · next hsome =>
        cases h
        exact ⟨_, hvalue.symm, fun hnil => hsome (List.isEmpty_iff.2 hnil), hdigits,
          Nat.le_of_not_lt hword, rfl⟩

end Digits

section Blanks

variable {b : Byte} {front core back : Text}

theorem mem_blanks_iff : b ∈ blanks ↔ Text.isBlank b = true := by
  simp only [blanks, Text.isBlank, List.mem_cons, List.not_mem_nil, or_false, Bool.or_eq_true,
    Bool.and_eq_true, beq_iff_eq, decide_eq_true_eq, UInt8.le_iff_toNat_le, ← UInt8.toNat_inj,
    UInt8.reduceToNat]
  omega

theorem trim_append (hfront : ∀ b ∈ front, Text.isBlank b = true)
    (hback : ∀ b ∈ back, Text.isBlank b = true) (hcore : ∀ b ∈ core, ¬ Text.isBlank b = true)
    (hsome : core ≠ []) : Text.trim (front ++ core ++ back) = core := by
  have hstop {t u : Text} (ht : ∀ b ∈ t, ¬ Text.isBlank b = true) (hsome : t ≠ []) :
      (t ++ u).dropWhile Text.isBlank = t ++ u := by
    cases t with
    | nil => exact absurd rfl hsome
    | cons b rest => exact List.dropWhile_cons_of_neg (ht b List.mem_cons_self)
  have hback' : ∀ b ∈ back.reverse, Text.isBlank b = true := fun b hb =>
    hback b (List.mem_reverse.1 hb)
  have hcore' : ∀ b ∈ core.reverse, ¬ Text.isBlank b = true := fun b hb =>
    hcore b (List.mem_reverse.1 hb)
  have hlast := hstop (u := []) hcore' (by simpa using hsome)
  rw [Text.trim, List.append_assoc, List.dropWhile_append_of_pos hfront, hstop hcore hsome,
    List.reverse_append, List.dropWhile_append_of_pos hback']
  rw [List.append_nil] at hlast
  rw [hlast, List.reverse_reverse]

theorem exists_trim (value : Text) : ∃ front back, (∀ b ∈ front, Text.isBlank b = true) ∧
    (∀ b ∈ back, Text.isBlank b = true) ∧ value = front ++ Text.trim value ++ back := by
  let rest := value.dropWhile Text.isBlank
  refine ⟨value.takeWhile Text.isBlank, (rest.reverse.takeWhile Text.isBlank).reverse,
    fun b hb => List.mem_takeWhile_imp hb,
    fun b hb => List.mem_takeWhile_imp (List.mem_reverse.1 hb), ?_⟩
  have hback : Text.trim value ++ (rest.reverse.takeWhile Text.isBlank).reverse = rest := by
    rw [Text.trim, ← List.reverse_append, List.takeWhile_append_dropWhile, List.reverse_reverse]
  rw [List.append_assoc, hback]
  exact List.takeWhile_append_dropWhile.symm

end Blanks

section Suffixes

variable {suffixes : List (Text × Nat)} {suffix name : Text} {b c : Byte} {unit : Nat}

def IsSmall (c : Byte) : Prop := 97 ≤ c.toNat ∧ c.toNat ≤ 122

instance (c : Byte) : Decidable (IsSmall c) := inferInstanceAs (Decidable (_ ∧ _))

/-- Names in small letters, each given once and with a unit that is a word. -/
structure Table (suffixes : List (Text × Nat)) : Prop where
  small : ∀ x ∈ suffixes, ∀ c ∈ x.1, IsSmall c
  lookup : ∀ x ∈ suffixes, suffixes.lookup x.1 = some x.2
  positive : ∀ x ∈ suffixes, 0 < x.2
  word : ∀ x ∈ suffixes, x.2 ≤ 0x7FFFFFFFFFFFFFFF

theorem table_sizeSuffixes : Table sizeSuffixes := by
  constructor <;> decide +kernel

theorem table_durationSuffixes : Table durationSuffixes := by
  constructor <;> decide +kernel

theorem lowerByte_eq_iff (h : IsSmall c) : Text.lowerByte b = c ↔ b = c ∨ b + 32 = c := by
  obtain ⟨hle, hge⟩ := h
  simp only [Text.lowerByte, Bool.and_eq_true, decide_eq_true_eq, UInt8.le_iff_toNat_le,
    ← UInt8.toNat_inj, UInt8.toNat_add, UInt8.reduceToNat]
  split
  · rw [UInt8.toNat_add]
    simp only [UInt8.reduceToNat]
    omega
  · have hb := b.toNat_lt
    omega

theorem inAnyCase_iff (h : ∀ c ∈ name, IsSmall c) :
    InAnyCase suffix name ↔ Text.lower suffix = name := by
  induction name generalizing suffix with
  | nil => simp [InAnyCase, Text.lower]
  | cons c rest ih =>
    cases suffix with
    | nil => simp [InAnyCase, Text.lower]
    | cons b suffix =>
      have hrest : InAnyCase suffix rest ↔ Text.lower suffix = rest :=
        ih fun c hc => h c (List.mem_cons_of_mem _ hc)
      have hhead := lowerByte_eq_iff (b := b) (h c List.mem_cons_self)
      simp only [InAnyCase, List.forall₂_cons, Text.lower, List.map_cons, List.cons.injEq] at hrest ⊢
      rw [hhead, ← hrest]

theorem plain_of_inAnyCase (h : ∀ c ∈ name, IsSmall c) (hsuffix : InAnyCase suffix name)
    (hb : b ∈ suffix) : Text.isDigit b = false ∧ ¬ Text.isBlank b = true := by
  have hlower : Text.lowerByte b ∈ name := by
    rw [← (inAnyCase_iff h).1 hsuffix]
    exact List.mem_map_of_mem hb
  have hletter := (lowerByte_eq_iff (h _ hlower)).1 rfl
  obtain ⟨hle, hge⟩ := h _ hlower
  rw [← mem_blanks_iff, ← Bool.not_eq_true, isDigit_iff]
  simp only [blanks, List.mem_cons, List.not_mem_nil, or_false, ← UInt8.toNat_inj,
    UInt8.reduceToNat, UInt8.toNat_add] at hletter ⊢
  omega

theorem lookup_cons_eq (t name : Text) (unit : Nat) (suffixes : List (Text × Nat)) :
    ((name, unit) :: suffixes).lookup t = if t = name then some unit else suffixes.lookup t := by
  rw [List.lookup_cons]
  split
  · next h => rw [if_pos (eq_of_beq h)]
  · next h => rw [if_neg (fun heq => by simp [heq] at h)]

theorem durationUnit?_eq (suffix : Text) :
    durationUnit? suffix = (durationSuffixes.lookup (Text.lower suffix)).map Int64.ofNat := by
  simp only [durationUnit?, durationSuffixes, lookup_cons_eq, List.lookup_nil]
  generalize Text.lower suffix = t
  split
  · next h =>
    rcases h with rfl | rfl <;> rfl
  · next h =>
    rw [not_or] at h
    rw [if_neg h.1, if_neg h.2]
    simp only [apply_ite (Option.map Int64.ofNat)]
    rfl

theorem sizeUnit?_eq (suffix : Text) :
    sizeUnit? suffix = (sizeSuffixes.lookup (Text.lower suffix)).map Int64.ofNat := by
  have hk : ascii "k" = [107] := by decide
  have hm : ascii "m" = [109] := by decide
  have hg : ascii "g" = [103] := by decide
  simp only [sizeSuffixes, lookup_cons_eq, List.lookup_nil, hk, hm, hg]
  match suffix with
  | [] => rfl
  | [b] =>
    have hsingle (c : Byte) : Text.lower [b] = [c] ↔ Text.lowerByte b = c := by
      simp [Text.lower]
    have hnil : Text.lower [b] ≠ [] := by simp [Text.lower]
    simp only [sizeUnit?, hsingle, if_neg hnil, apply_ite (Option.map Int64.ofNat)]
    rfl
  | b :: c :: rest =>
    have hlong (t : Text) (h : t.length < 2) : Text.lower (b :: c :: rest) ≠ t := by
      intro heq
      have hlength := congrArg List.length heq
      simp only [Text.lower, List.length_map, List.length_cons] at hlength
      omega
    rw [if_neg (hlong _ (by decide)), if_neg (hlong _ (by decide)), if_neg (hlong _ (by decide)),
      if_neg (hlong _ (by decide))]
    rfl

end Suffixes

section Reading

variable {suffixes : List (Text × Nat)} {unit? : Text → Option Int64}
  {unknown : Text → SettingProblem} {value suffix : Text} {n unit : Nat} {w : Int64}

theorem unit?_eq_some_iff (htable : Table suffixes)
    (hunit : ∀ t, unit? t = (suffixes.lookup (Text.lower t)).map Int64.ofNat) :
    unit? suffix = some w ↔
      ∃ name unit, (name, unit) ∈ suffixes ∧ InAnyCase suffix name ∧ w = Int64.ofNat unit := by
  rw [hunit, Option.map_eq_some_iff]
  constructor
  · rintro ⟨unit, hlookup, rfl⟩
    obtain ⟨before, after, hsplit, -⟩ := List.lookup_eq_some_iff.1 hlookup
    have hmem : (Text.lower suffix, unit) ∈ suffixes := by simp [hsplit]
    exact ⟨_, unit, hmem, (inAnyCase_iff (htable.small _ hmem)).2 rfl, rfl⟩
  · rintro ⟨name, unit, hmem, hcase, rfl⟩
    rw [(inAnyCase_iff (htable.small _ hmem)).1 hcase]
    exact ⟨unit, htable.lookup _ hmem, rfl⟩

theorem written_of_read (htable : Table suffixes)
    (hunit : ∀ t, unit? t = (suffixes.lookup (Text.lower t)).map Int64.ofNat)
    (h : read unit? unknown value = .ok n) :
    Written suffixes value n ∧ n ≤ 0x7FFFFFFFFFFFFFFF := by
  obtain ⟨⟨w, suffix⟩, hsplit, h⟩ := Except.bind_eq_ok_iff.1 h
  obtain ⟨digits, htrim, hsome, hdigits, hword, rfl⟩ := of_split_eq_ok hsplit
  obtain ⟨front, back, hfront, hback, hvalue⟩ := exists_trim value
  dsimp only at h
  split at h
  · nomatch h
  · next u hu =>
    obtain ⟨name, unit, hmem, hcase, rfl⟩ := (unit?_eq_some_iff htable hunit).1 hu
    have hpositive : 0 < unit := htable.positive _ hmem
    have hunitWord : unit ≤ 0x7FFFFFFFFFFFFFFF := htable.word _ hmem
    rw [scale_ofNat hword hpositive hunitWord] at h
    by_cases hlarge : 0x7FFFFFFFFFFFFFFF < Text.numeral digits * unit
    · rw [if_pos hlarge] at h
      nomatch h
    · have hproduct : Text.numeral digits * unit ≤ 0x7FFFFFFFFFFFFFFF := Nat.le_of_not_lt hlarge
      rw [if_neg hlarge] at h
      cases h
      rw [Int64.toNatClampNeg_ofNat_of_lt (by omega), hvalue, htrim]
      refine ⟨.intro ?_ ?_ hsome ?_ hmem hcase, hproduct⟩
      · exact fun b hb => mem_blanks_iff.2 (hfront b hb)
      · exact fun b hb => mem_blanks_iff.2 (hback b hb)
      · exact fun b hb => mem_digits_iff.2 (hdigits b hb)

theorem read_of_written (htable : Table suffixes)
    (hunit : ∀ t, unit? t = (suffixes.lookup (Text.lower t)).map Int64.ofNat)
    (h : Written suffixes value n) (hn : n ≤ 0x7FFFFFFFFFFFFFFF) :
    read unit? unknown value = .ok n := by
  obtain ⟨hfront, hback, hsome, hdigits, hmem, hcase⟩ := h
  next front digits suffix name back unit =>
  have hplain := fun b hb => plain_of_inAnyCase (b := b) (htable.small _ hmem) hcase hb
  have hdigits' : ∀ b ∈ digits, Text.isDigit b = true := fun b hb =>
    mem_digits_iff.1 (hdigits b hb)
  have hcore : ∀ b ∈ digits ++ suffix, ¬ Text.isBlank b = true := by
    intro b hb
    rcases List.mem_append.1 hb with hb | hb
    · rw [← mem_blanks_iff]
      have hdigit := isDigit_iff.1 (hdigits' b hb)
      simp only [blanks, List.mem_cons, List.not_mem_nil, or_false, ← UInt8.toNat_inj,
        UInt8.reduceToNat]
      omega
    · exact (hplain b hb).2
  have htrim : Text.trim (front ++ (digits ++ suffix) ++ back) = digits ++ suffix :=
    trim_append (fun b hb => mem_blanks_iff.1 (hfront b hb))
      (fun b hb => mem_blanks_iff.1 (hback b hb)) hcore (by simp [hsome])
  have hpositive := htable.positive _ hmem
  have hword : Text.numeral digits ≤ 0x7FFFFFFFFFFFFFFF :=
    Nat.le_trans (Nat.le_mul_of_pos_right _ hpositive) hn
  have hsplit := split_eq_ok hdigits' hsome
    (fun b hb => (hplain b (List.mem_of_head? hb)).1) hword
  have hu : unit? suffix = some (Int64.ofNat unit) :=
    (unit?_eq_some_iff htable hunit).2 ⟨name, unit, hmem, hcase, rfl⟩
  refine Except.bind_eq_ok_iff.2 ⟨_, htrim ▸ hsplit, ?_⟩
  simp only [hu, scale_ofNat hword hpositive (htable.word _ hmem), if_neg (Nat.not_lt.2 hn)]
  refine congrArg Except.ok (Int64.toNatClampNeg_ofNat_of_lt ?_)
  omega

/-- What reading a quantity answers: the number that was written, if it is a word, and otherwise
that the argument is invalid. -/
structure Reads (suffixes : List (Text × Nat)) (value : Text) (answer : Except Fault Nat) : Prop where
  accepted : ∀ n, answer = .ok n ↔ Written suffixes value n ∧ n ≤ 0x7FFFFFFFFFFFFFFF
  refused : (∀ n, Written suffixes value n → 0x7FFFFFFFFFFFFFFF < n) →
    ∃ e, answer = .error e ∧ e.kind = .invalidArgument

/-- No step of reading a quantity leaves the words: neither the steps from digit to digit, as far as
they are made, nor the one to the unit. -/
structure Exact (value : Text) : Prop where
  digit : ∀ front b rest n, Text.trim value = front ++ b :: rest →
    (∀ c ∈ front, Text.isDigit c = true) → Text.isDigit b = true → count? front = some n →
      AppendExact n (digitValue b)
  unit : ∀ n suffix w, split (Text.trim value) = .ok (n, suffix) →
    (sizeUnit? suffix = some w ∨ durationUnit? suffix = some w) → ScaleExact n w

theorem reads_of_table (htable : Table suffixes)
    (hunit : ∀ t, unit? t = (suffixes.lookup (Text.lower t)).map Int64.ofNat)
    (property value : Text) :
    Reads suffixes value (Settings.under property (read unit? unknown value)) := by
  have haccepted (n : Nat) : Settings.under property (read unit? unknown value) = .ok n ↔
      Written suffixes value n ∧ n ≤ 0x7FFFFFFFFFFFFFFF := by
    rw [Settings.under_eq_ok_iff]
    exact ⟨written_of_read htable hunit, fun h => read_of_written htable hunit h.1 h.2⟩
  refine ⟨haccepted, fun hnone => ?_⟩
  cases hanswer : Settings.under property (read unit? unknown value) with
  | error e => exact ⟨e, rfl, Settings.invalid_under _ _ e hanswer⟩
  | ok n =>
    obtain ⟨hwritten, hword⟩ := (haccepted n).1 hanswer
    exact absurd (hnone n hwritten) (Nat.not_lt.2 hword)

theorem exact_reading (value : Text) : Exact value := by
  refine ⟨fun front b rest n _ hfront hb hcount => ?_, fun n suffix w hsplit hw => ?_⟩
  · rw [count?_eq hfront] at hcount
    obtain ⟨hvalue, hnine⟩ := digitValue_eq hb
    split at hcount
    · nomatch hcount
    · next hword =>
      cases hcount
      rw [hvalue]
      exact appendExact_ofNat (Nat.le_of_not_lt hword) hnine
  · obtain ⟨digits, -, -, -, hword, rfl⟩ := of_split_eq_ok hsplit
    rcases hw with hw | hw
    · obtain ⟨name, unit, hmem, -, rfl⟩ := (unit?_eq_some_iff table_sizeSuffixes sizeUnit?_eq).1 hw
      exact scaleExact_ofNat hword (table_sizeSuffixes.positive _ hmem)
        (table_sizeSuffixes.word _ hmem)
    · obtain ⟨name, unit, hmem, -, rfl⟩ :=
        (unit?_eq_some_iff table_durationSuffixes durationUnit?_eq).1 hw
      exact scaleExact_ofNat hword (table_durationSuffixes.positive _ hmem)
        (table_durationSuffixes.word _ hmem)

end Reading

/-- Sizes and durations are read exactly as they are written, and everything else is an invalid
argument; whatever is read, the arithmetic stays inside the words. -/
theorem reads_grammar (property value : Text) :
    Reads sizeSuffixes value (Settings.under property (size value)) ∧
      Reads durationSuffixes value (Settings.under property (duration value)) ∧ Exact value :=
  ⟨reads_of_table table_sizeSuffixes sizeUnit?_eq property value,
    reads_of_table table_durationSuffixes durationUnit?_eq property value, exact_reading value⟩

end Telemetry.Quantity
