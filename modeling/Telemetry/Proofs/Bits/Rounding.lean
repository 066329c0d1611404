import Mathlib.Order.Bounds.Defs
import Telemetry.Proofs.Bits

namespace Telemetry.Bits

theorem isLeast_multiple {a : Int} (ha : 0 < a) (v : Int) :
    IsLeast {n : Int | a ∣ n ∧ v ≤ n} (v + (a - 1) - (v + (a - 1)) % a) := by
  have hlow := Int.emod_nonneg (v + (a - 1)) (Int.ne_of_gt ha)
  have hhigh := Int.emod_lt_of_pos (v + (a - 1)) ha
  refine ⟨⟨Int.dvd_self_sub_emod, by omega⟩, ?_⟩
  rintro n ⟨⟨q, rfl⟩, hn⟩
  have hquotient : (v + (a - 1)) / a ≤ q := by
    apply Int.le_of_lt_add_one
    apply Int.ediv_lt_of_lt_mul ha
    rw [Int.add_mul, Int.mul_comm q a]
    omega
  have hsplit := Int.mul_ediv_add_emod (v + (a - 1)) a
  have hle := Int.mul_le_mul_of_nonneg_left hquotient (Int.le_of_lt ha)
  omega

section Words

variable {w : Nat} {v a : BitVec w}

theorem toInt_add_pred (hpos : 0 < a.toInt)
    (hfit : v.toInt + a.toInt - 1 ≤ (BitVec.intMax w).toInt) :
    (v + (a - 1#w)).toInt = v.toInt + (a.toInt - 1) := by
  have hlow := v.le_toInt
  rw [BitVec.toInt_intMax] at hfit
  have hexact : ¬ v.saddOverflow (a - 1#w) = true := by
    rw [BitVec.saddOverflow, toInt_pred hpos, Bool.or_eq_true, decide_eq_true_iff,
      decide_eq_true_iff]
    omega
  rw [BitVec.toInt_add_of_not_saddOverflow hexact, toInt_pred hpos]

theorem isLeast_align (ha : a.toInt.toNat.isPowerOfTwo)
    (hfit : v.toInt + a.toInt - 1 ≤ (BitVec.intMax w).toInt) :
    IsLeast {n : Int | a.toInt ∣ n ∧ v.toInt ≤ n} ((v + (a - 1#w)) &&& -a).toInt := by
  rw [toInt_and_neg _ ha, toInt_add_pred (pos_of_power ha) hfit]
  exact isLeast_multiple (pos_of_power ha) v.toInt

/-- A rounded word has room for being rounded again: the last multiple in a word is one alignment
below its end. -/
theorem fits_align (ha : a.toInt.toNat.isPowerOfTwo)
    (hfit : v.toInt + a.toInt - 1 ≤ (BitVec.intMax w).toInt) :
    ((v + (a - 1#w)) &&& -a).toInt + a.toInt - 1 ≤ (BitVec.intMax w).toInt := by
  have hend : a.toInt ∣ (BitVec.intMax w).toInt + 1 := by
    have hlt := BitVec.toInt_lt (x := a)
    have hcast : ((2 ^ (w - 1) : Nat) : Int) = 2 ^ (w - 1) := Int.natCast_pow 2 (w - 1)
    have hvalue := toInt_of_pos (pos_of_power ha)
    rw [BitVec.toInt_intMax, Int.sub_add_cancel, hvalue, ← hcast]
    exact Int.natCast_dvd_natCast.2
      (dvd_of_isPowerOfTwo (toNat_isPowerOfTwo ha) ⟨w - 1, rfl⟩ (by omega))
  have hle := (isLeast_align ha hfit).2 ⟨Int.dvd_sub hend (Int.dvd_refl a.toInt), by omega⟩
  omega

theorem and_neg_add_pred_and_neg (x a : BitVec w) :
    ((x &&& -a) + (a - 1#w)) &&& -a = x &&& -a := by
  have hlow : (a - 1#w) &&& -a = 0#w := by
    rw [neg_eq_not_pred]
    exact BitVec.and_not_self _
  rw [BitVec.add_eq_or_of_and_eq_zero _ _ (and_neg_and_pred x a), BitVec.and_or_distrib_right,
    hlow, BitVec.and_assoc, BitVec.and_self, BitVec.or_zero]

theorem dvd_toNat_of_dvd_toInt {x : BitVec w} (ha : a.toInt.toNat.isPowerOfTwo)
    (h : a.toInt ∣ x.toInt) : a.toInt.toNat ∣ x.toNat := by
  have hzero := Int.emod_eq_zero_of_dvd h
  rw [toInt_emod_power x ha] at hzero
  rw [toInt_of_pos (pos_of_power ha), Int.toNat_natCast]
  exact Nat.dvd_of_mod_eq_zero (Int.ofNat_eq_zero.1 hzero)

end Words

/-- This needs no power of two and no room in the word. -/
theorem align32_align32 (v a : Int32) : align32 (align32 v a) a = align32 v a :=
  Int32.toBitVec_inj.1 (and_neg_add_pred_and_neg (v.toBitVec + (a.toBitVec - 1#32)) a.toBitVec)

theorem align64_align64 (v a : Int64) : align64 (align64 v a) a = align64 v a :=
  Int64.toBitVec_inj.1 (and_neg_add_pred_and_neg (v.toBitVec + (a.toBitVec - 1#64)) a.toBitVec)

/-- The size `n` and the power of two `p` that it is rounded up to. The mask takes the remainder of
any word by that power. -/
structure Sized (n : Int) (p mask : Int64) : Prop where
  power : p.toInt.toNat.isPowerOfTwo
  le : n ≤ p.toInt
  lt : p.toInt < 2 * n
  checked : isPowerOfTwo p = true
  masks : ∀ x : Int64, (x &&& mask).toInt = x.toInt % p.toInt

theorem sized_of_toInt {n : Int} (hn : 2 ≤ n) {p : Int64}
    (hp : p.toInt = (powerCeil n.toNat : Nat)) : Sized n p (p - 1) := by
  have hleast := powerCeil_leastPower n.toNat
  have hle := hleast.le
  have hlt := hleast.lt_two_mul (by omega)
  have hpower : p.toInt.toNat.isPowerOfTwo := by
    rw [hp]
    exact hleast.power
  exact ⟨hpower, by omega, by omega, (isPowerOfTwo_iff p).2 hpower,
    fun x => toInt_and_pred x.toBitVec hpower⟩

theorem sized_nextPowerOfTwo32 {v : Int32} (hlow : 2 ≤ v.toInt) (hhigh : v.toInt ≤ 0x40000000) :
    Sized v.toInt (nextPowerOfTwo32 v).toInt64 (nextPowerOfTwo32 v - 1).toInt64 := by
  have hvalue := toInt_nextPowerOfTwo32 hhigh
  have hle := le_powerCeil v.toInt.toNat
  rw [toInt64_pred (by omega)]
  exact sized_of_toInt hlow ((Int32.toInt_toInt64 _).trans hvalue)

theorem sized_nextPowerOfTwo64 {v : Int64} (hlow : 2 ≤ v.toInt)
    (hhigh : v.toInt ≤ 0x4000000000000000) :
    Sized v.toInt (nextPowerOfTwo64 v) (nextPowerOfTwo64 v - 1) :=
  sized_of_toInt hlow (toInt_nextPowerOfTwo64 hhigh)

/-- `r` is `v` rounded up to a multiple of `a`: the least one that is not below `v`. Its bit pattern
is an address that is aligned to `a`. -/
structure RoundedUp (v a r : Int64) : Prop where
  least : IsLeast {n : Int | a.toInt ∣ n ∧ v.toInt ≤ n} r.toInt
  aligned : isAligned r.toUInt64 a = .ok true

theorem isAligned_of_dvd {address : UInt64} {a : Int64} (ha : a.toInt.toNat.isPowerOfTwo)
    (h : a.toInt.toNat ∣ address.toNat) : isAligned address a = .ok true := by
  rw [isAligned_of_power address ha, decide_eq_true h]

theorem roundedUp_of_isLeast {v a r : Int64} (ha : a.toInt.toNat.isPowerOfTwo)
    (h : IsLeast {n : Int | a.toInt ∣ n ∧ v.toInt ≤ n} r.toInt) : RoundedUp v a r :=
  ⟨h, isAligned_of_dvd ha (dvd_toNat_of_dvd_toInt ha h.1.1)⟩

theorem roundedUp_align64 {v a : Int64} (ha : a.toInt.toNat.isPowerOfTwo)
    (hfit : v.toInt + a.toInt - 1 ≤ Int64.maxValue.toInt) : RoundedUp v a (align64 v a) :=
  roundedUp_of_isLeast ha (isLeast_align ha hfit)

section Narrow

variable {v a : Int32} (ha : a.toInt.toNat.isPowerOfTwo)
  (hfit : v.toInt + a.toInt - 1 ≤ Int32.maxValue.toInt)
include ha hfit

theorem isLeast_align32 :
    IsLeast {n : Int | a.toInt ∣ n ∧ v.toInt ≤ n} (align32 v a).toInt :=
  isLeast_align ha hfit

theorem roundedUp_align32 : RoundedUp v.toInt64 a.toInt64 (align32 v a).toInt64 := by
  have hleast := isLeast_align32 ha hfit
  apply roundedUp_of_isLeast
  · rwa [Int32.toInt_toInt64]
  · rwa [Int32.toInt_toInt64, Int32.toInt_toInt64, Int32.toInt_toInt64]

theorem isAligned_align32 : isAligned (align32 v a).toUInt32.toUInt64 a.toInt64 = .ok true := by
  have hleast := isLeast_align32 ha hfit
  apply isAligned_of_dvd
  · rwa [Int32.toInt_toInt64]
  · rw [Int32.toInt_toInt64, UInt32.toNat_toUInt64]
    exact dvd_toNat_of_dvd_toInt ha hleast.1.1

end Narrow

/-- Rounding of sizes up to `0x40000000` and `0x4000000000000000`, and of every value that stays
within its word when one less than the alignment is added. What was rounded has that room again and
is left as it is. -/
theorem words_rounded :
    (∀ v : Int32, 2 ≤ v.toInt → v.toInt ≤ 0x40000000 →
      Sized v.toInt (nextPowerOfTwo32 v).toInt64 (nextPowerOfTwo32 v - 1).toInt64) ∧
    (∀ v : Int64, 2 ≤ v.toInt → v.toInt ≤ 0x4000000000000000 →
      Sized v.toInt (nextPowerOfTwo64 v) (nextPowerOfTwo64 v - 1)) ∧
    (∀ v a : Int32, a.toInt.toNat.isPowerOfTwo → v.toInt + a.toInt - 1 ≤ Int32.maxValue.toInt →
      RoundedUp v.toInt64 a.toInt64 (align32 v a).toInt64 ∧
      isAligned (align32 v a).toUInt32.toUInt64 a.toInt64 = .ok true ∧
      (align32 v a).toInt + a.toInt - 1 ≤ Int32.maxValue.toInt ∧
      align32 (align32 v a) a = align32 v a) ∧
    (∀ v a : Int64, a.toInt.toNat.isPowerOfTwo → v.toInt + a.toInt - 1 ≤ Int64.maxValue.toInt →
      RoundedUp v a (align64 v a) ∧
      (align64 v a).toInt + a.toInt - 1 ≤ Int64.maxValue.toInt ∧
      align64 (align64 v a) a = align64 v a) := by
  refine ⟨fun v => sized_nextPowerOfTwo32, fun v => sized_nextPowerOfTwo64, ?_, ?_⟩
  · intro v a ha hfit
    exact ⟨roundedUp_align32 ha hfit, isAligned_align32 ha hfit, fits_align ha hfit,
      align32_align32 v a⟩
  · intro v a ha hfit
    exact ⟨roundedUp_align64 ha hfit, fits_align ha hfit, align64_align64 v a⟩

/-- The largest size of four bytes, a size of eight bytes, a value below zero, and the last value of
eight bytes that can be rounded to eight. -/
theorem words_rounded_limits :
    Sized 0x40000000 0x40000000 0x3fffffff ∧ Sized 5000000000 0x200000000 0x1ffffffff ∧
      RoundedUp (-13) 8 (-8) ∧ align32 (align32 (-13) 8) 8 = -8 ∧
      RoundedUp 0x7ffffffffffffff8 8 0x7ffffffffffffff8 := by
  obtain ⟨hsized32, hsized64, halign32, halign64⟩ := words_rounded
  have height : (8 : Int32).toInt.toNat.isPowerOfTwo := ⟨3, by decide⟩
  have hwide : (8 : Int64).toInt.toNat.isPowerOfTwo := ⟨3, by decide⟩
  have hlargest := hsized32 0x40000000 (by decide) (by decide)
  have hlong := hsized64 5000000000 (by decide) (by decide)
  obtain ⟨hbelow, -, -, hagain⟩ := halign32 (-13) 8 height (by decide)
  obtain ⟨hlast, -, -⟩ := halign64 0x7ffffffffffffff8 8 hwide (by decide)
  exact ⟨hlargest, hlong, hbelow, hagain, hlast⟩

end Telemetry.Bits
