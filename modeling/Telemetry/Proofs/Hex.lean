import Telemetry.Hex

namespace Telemetry.Hex

def IsDigit (b : Byte) : Prop := (48 ≤ b ∧ b ≤ 57) ∨ (97 ≤ b ∧ b ≤ 102) ∨ (65 ≤ b ∧ b ≤ 70)

def smallDigits : Text := ascii "0123456789abcdef"

theorem smallDigits_eq {n : Nat} (h : n < 16) : smallDigits[n]? = some (Text.hexDigit n) := by
  have hall : ∀ k : Fin 16, smallDigits[k.val]? = some (Text.hexDigit k) := by decide
  exact hall ⟨n, h⟩

theorem hexDigit_mod (n : Nat) : Text.hexDigit (n % 16) = Text.hexDigit n := by
  simp [Text.hexDigit]

theorem digitValue?_hexDigit (n : Nat) : digitValue? (Text.hexDigit n) = some (n % 16) := by
  have hall : ∀ k : Fin 16, digitValue? (Text.hexDigit k) = some k.val := by decide
  rw [← hexDigit_mod]
  exact hall ⟨n % 16, Nat.mod_lt n (by decide)⟩

theorem digitValue?_eq_none_iff {b : Byte} : digitValue? b = none ↔ ¬ IsDigit b := by
  unfold digitValue? IsDigit
  split
  · simp [*]
  · split
    · simp [*]
    · split <;> simp [*]

theorem digitValue?_eq_some {b : Byte} {n : Nat} (h : digitValue? b = some n) :
    n < 16 ∧ Text.hexDigit n = Text.lowerByte b := by
  have hall : ∀ k : Fin 256, ∀ v ∈ digitValue? (UInt8.ofNat k),
      v < 16 ∧ Text.hexDigit v = Text.lowerByte (UInt8.ofNat k) := by decide +kernel
  have hb := hall ⟨b.toNat, b.toNat_lt⟩ n
  rw [UInt8.ofNat_toNat] at hb
  exact hb h

theorem isDigit_of_digitValue? {b : Byte} {n : Nat} (h : digitValue? b = some n) : IsDigit b := by
  by_cases hb : IsDigit b
  · exact hb
  · rw [digitValue?_eq_none_iff.mpr hb] at h
    cases h

theorem encode_pair {hi lo : Byte} {h l : Nat} (hhi : digitValue? hi = some h)
    (hlo : digitValue? lo = some l) (bs : List Byte) :
    encode ((16 * h + l).toUInt8 :: bs) = Text.lowerByte hi :: Text.lowerByte lo :: encode bs := by
  obtain ⟨hh, hhigh⟩ := digitValue?_eq_some hhi
  obtain ⟨hl, hlow⟩ := digitValue?_eq_some hlo
  have hbyte : (16 * h + l).toUInt8.toNat = 16 * h + l := by simp; omega
  have hfirst : (16 * h + l) / 16 = h := by omega
  have hlast : (16 * h + l) % 16 = l := by omega
  rw [encode, hbyte, hfirst, ← hexDigit_mod (16 * h + l), hlast, hhigh, hlow]

theorem decodeFrom_encode (index : Nat) (bs : List Byte) :
    decodeFrom index (encode bs) = .ok bs := by
  induction bs generalizing index with
  | nil => rfl
  | cons b bs ih =>
    have hbyte := b.toNat_lt
    have hhalves : 16 * (b.toNat / 16 % 16) + b.toNat % 16 = b.toNat := by omega
    simp [encode, decodeFrom, digitValue?_hexDigit, ih, hhalves, Except.map]

theorem length_encode (bs : List Byte) : (encode bs).length = 2 * bs.length := by
  induction bs with
  | nil => rfl
  | cons b bs ih => simp [encode, ih]; omega

/-- What comes of reading pairs of digits that begin at an index: bytes that are written as the same
text in small letters, or the place of the first byte that is no digit. -/
inductive Reading (index : Nat) (t : Text) : Except Fault (List Byte) → Prop
  | read (digits : ∀ b ∈ t, IsDigit b) (bs : List Byte) (written : encode bs = t.lower) :
    Reading index t (.ok bs)
  | stray (i : Nat) (h : i < t.length) (before : ∀ (j : Nat) (hj : j < i), IsDigit t[j])
    (stray : ¬ IsDigit t[i]) : Reading index t (.error (.badHexDigit (index + i) t[i]))

theorem Reading.cons {index : Nat} {t : Text} {r : Except Fault (List Byte)} {hi lo : Byte}
    {h l : Nat} (hhi : digitValue? hi = some h) (hlo : digitValue? lo = some l)
    (hrest : Reading (index + 2) t r) :
    Reading index (hi :: lo :: t) (r.map ((16 * h + l).toUInt8 :: ·)) := by
  have hfirst := isDigit_of_digitValue? hhi
  have hsecond := isDigit_of_digitValue? hlo
  cases hrest with
  | read digits bs written =>
    refine .read ?_ _ ?_
    · simpa [hfirst, hsecond] using digits
    · rw [encode_pair hhi hlo, written]
      rfl
  | stray i hi before stray =>
    have hindex : index + 2 + i = index + (i + 2) := by omega
    rw [hindex]
    refine .stray (i + 2) (by simpa using hi) ?_ stray
    intro j hj
    match j, hj with
    | 0, _ => exact hfirst
    | 1, _ => exact hsecond
    | j + 2, hj => exact before j (by omega)

theorem decodeFrom_reading (index : Nat) (t : Text) (heven : t.length % 2 = 0) :
    Reading index t (decodeFrom index t) := by
  fun_induction decodeFrom index t with
  | case1 index hi lo rest hnone =>
    exact .stray 0 (by simp) (by simp) (digitValue?_eq_none_iff.mp hnone)
  | case2 index hi lo rest h hhi hnone =>
    refine .stray 1 (by simp) ?_ (digitValue?_eq_none_iff.mp hnone)
    intro j hj
    obtain rfl : j = 0 := by omega
    exact isDigit_of_digitValue? hhi
  | case3 index hi lo rest h hhi l hlo ih =>
    apply (ih ?_).cons hhi hlo
    simp only [List.length_cons] at heven
    omega
  | case4 t index hshort =>
    -- a text of an even length that does not begin with two bytes is empty
    match t with
    | [] => exact .read (by simp) [] rfl
    | [b] => simp at heven
    | hi :: lo :: rest => exact absurd rfl (hshort hi lo rest)

namespace Reading

variable {index : Nat} {t : Text} {r : Except Fault (List Byte)}

theorem ok_iff (hr : Reading index t r) : (∃ bs, r = .ok bs) ↔ ∀ b ∈ t, IsDigit b := by
  cases hr with
  | read digits bs written => simpa using digits
  | stray i h before stray =>
    refine ⟨nofun, ?_⟩
    intro hdigits
    exact absurd (hdigits _ (List.getElem_mem h)) stray

theorem written {bs : List Byte} (hr : Reading index t (.ok bs)) : encode bs = t.lower := by
  cases hr with
  | read digits bs written => exact written

theorem eq_error (hr : Reading index t r) (i : Nat) (h : i < t.length)
    (hbefore : ∀ (j : Nat) (hj : j < i), IsDigit t[j]) (hstray : ¬ IsDigit t[i]) :
    r = .error (.badHexDigit (index + i) t[i]) := by
  cases hr with
  | read digits bs written => exact absurd (digits _ (List.getElem_mem h)) hstray
  | stray k hk before stray =>
    -- both are the first, so that neither stands before the other
    obtain hlt | rfl | hgt := Nat.lt_trichotomy i k
    · exact absurd (before i hlt) hstray
    · rfl
    · exact absurd (hbefore k hgt) stray

end Reading

theorem decode_of_even {t : Text} (heven : t.length % 2 = 0) : decode t = decodeFrom 0 t := by
  unfold decode
  rw [if_pos heven]

theorem decode_reading {t : Text} (heven : t.length % 2 = 0) : Reading 0 t (decode t) := by
  rw [decode_of_even heven]
  exact decodeFrom_reading 0 t heven

theorem decode_of_odd {t : Text} (hodd : t.length % 2 ≠ 0) :
    decode t = .error (.oddHexLength t.length) := by
  unfold decode
  rw [if_neg hodd]

theorem decode_encode (bs : List Byte) : decode (encode bs) = .ok bs := by
  rw [decode_of_even (by simp [length_encode]), decodeFrom_encode]

theorem encode_digits (bs : List Byte) (i : Nat) (h : i < bs.length) :
    (encode bs)[2 * i]? = smallDigits[bs[i].toNat / 16]? ∧
      (encode bs)[2 * i + 1]? = smallDigits[bs[i].toNat % 16]? := by
  induction bs generalizing i with
  | nil => cases h
  | cons b bs ih =>
    cases i with
    | zero =>
      have hbyte := b.toNat_lt
      have hhigh := smallDigits_eq (n := b.toNat / 16) (by omega)
      have hlow := smallDigits_eq (n := b.toNat % 16) (by omega)
      simp [encode, hhigh, hlow, hexDigit_mod]
    | succ i => simpa [encode, Nat.mul_add] using ih i (by simpa using h)

/-- What writing bytes and reading a text come to. Every byte is written as two small digits, the
high one first. A text is read if it has an even length and nothing but digits, and else the fault
says what is wrong with it: an odd length, or the index of the first byte that is no digit and that
byte itself. -/
structure Codec (bs : List Byte) (t : Text) : Prop where
  read_written : decode (encode bs) = .ok bs
  digits : ∀ (i : Nat) (h : i < bs.length), (encode bs)[2 * i]? = smallDigits[bs[i].toNat / 16]? ∧
    (encode bs)[2 * i + 1]? = smallDigits[bs[i].toNat % 16]?
  readable : (∃ r, decode t = .ok r) ↔ t.length % 2 = 0 ∧ ∀ b ∈ t, IsDigit b
  written_read : ∀ r, decode t = .ok r → encode r = t.lower
  odd : t.length % 2 ≠ 0 → decode t = .error (.oddHexLength t.length)
  stray : t.length % 2 = 0 → ∀ (i : Nat) (h : i < t.length),
    (∀ (j : Nat) (hj : j < i), IsDigit t[j]) → ¬ IsDigit t[i] →
      decode t = .error (.badHexDigit i t[i])
  named : ∀ (i : Nat) (b : Byte), (Fault.badHexDigit i b).wording =
    ascii "invalid hex digit at index " ++ Text.natural i ++ ascii ": '" ++ [b] ++ ascii "'"

theorem decode_codec (bs : List Byte) (t : Text) : Codec bs t where
  read_written := decode_encode bs
  digits := encode_digits bs
  readable := by
    by_cases heven : t.length % 2 = 0
    · simpa [heven] using (decode_reading heven).ok_iff
    · simp [heven, decode_of_odd heven]
  written_read := by
    intro r hr
    by_cases heven : t.length % 2 = 0
    · have hreading := decode_reading heven
      rw [hr] at hreading
      exact hreading.written
    · simp [decode_of_odd heven] at hr
  odd := decode_of_odd
  stray := by
    intro heven i h hbefore hstray
    simpa using (decode_reading heven).eq_error i h hbefore hstray
  named := by
    intro i b
    simp [Fault.wording, Text.quoted, ascii]

/-- Of two bytes that are no digits the first is named, here the low one of its pair. -/
example : decode (ascii "0fAxg1") = .error (.badHexDigit 3 120) := rfl

end Telemetry.Hex
