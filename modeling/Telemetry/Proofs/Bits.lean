import Telemetry.Bits

namespace Telemetry.Bits

structure LeastPower (n p : Nat) : Prop where
  power : p.isPowerOfTwo
  le : n ≤ p
  least : ∀ r : Nat, r.isPowerOfTwo → n ≤ r → p ≤ r

theorem LeastPower.unique {n p r : Nat} (hp : LeastPower n p) (hr : LeastPower n r) : p = r :=
  Nat.le_antisymm (hp.least r hr.power hr.le) (hr.least p hp.power hp.le)

theorem LeastPower.lt_two_mul {n p : Nat} (h : LeastPower n p) (hn : 1 < n) : p < 2 * n := by
  have hpos := Nat.pos_of_isPowerOfTwo h.power
  obtain ⟨k, hk⟩ := h.power
  cases k with
  | zero =>
    rw [Nat.pow_zero] at hk
    omega
  | succ k =>
    rw [Nat.pow_succ] at hk
    -- half of `p` is a power of two as well, so it does not reach `n`
    have hhalf : ¬ n ≤ p / 2 := by
      intro hle
      have hp := h.least (p / 2) ⟨k, by omega⟩ hle
      omega
    omega

theorem dvd_of_isPowerOfTwo {p r : Nat} (hp : p.isPowerOfTwo) (hr : r.isPowerOfTwo) (h : p ≤ r) :
    p ∣ r := by
  obtain ⟨j, rfl⟩ := hp
  obtain ⟨k, rfl⟩ := hr
  exact Nat.pow_dvd_pow 2 ((Nat.pow_le_pow_iff_right (by decide)).1 h)

theorem powerCeil_isPowerOfTwo (n : Nat) : (powerCeil n).isPowerOfTwo := by
  unfold powerCeil
  split
  · exact ⟨0, rfl⟩
  · exact ⟨(n - 1).log2 + 1, by rw [Nat.shiftLeft_eq, Nat.one_mul]⟩

theorem le_powerCeil (n : Nat) : n ≤ powerCeil n := by
  unfold powerCeil
  split
  · assumption
  · have h := Nat.lt_log2_self (n := n - 1)
    rw [Nat.shiftLeft_eq, Nat.one_mul]
    omega

theorem powerCeil_le {n r : Nat} (hr : r.isPowerOfTwo) (h : n ≤ r) : powerCeil n ≤ r := by
  obtain ⟨k, rfl⟩ := hr
  unfold powerCeil
  split
  · exact Nat.one_le_two_pow
  · rename_i h1
    rw [Nat.shiftLeft_eq, Nat.one_mul]
    -- the logarithm of `n - 1` stays below the exponent of every power that reaches `n`
    have hlog : (n - 1).log2 < k := (Nat.log2_lt (by omega)).mpr (by omega)
    exact Nat.pow_le_pow_right (by decide) hlog

theorem powerCeil_leastPower (n : Nat) : LeastPower n (powerCeil n) :=
  ⟨powerCeil_isPowerOfTwo n, le_powerCeil n, fun _ => powerCeil_le⟩

theorem toInt_nextPowerOfTwo32 {v : Int32} (h : v.toInt ≤ 0x40000000) :
    (nextPowerOfTwo32 v).toInt = (powerCeil v.toInt.toNat : Nat) := by
  have hle : powerCeil v.toInt.toNat ≤ 0x40000000 := powerCeil_le ⟨30, rfl⟩ (by omega)
  unfold nextPowerOfTwo32
  rw [Int32.toInt_ofNat_of_lt (by omega)]

theorem toInt_nextPowerOfTwo64 {v : Int64} (h : v.toInt ≤ 0x4000000000000000) :
    (nextPowerOfTwo64 v).toInt = (powerCeil v.toInt.toNat : Nat) := by
  have hle : powerCeil v.toInt.toNat ≤ 0x4000000000000000 := powerCeil_le ⟨62, rfl⟩ (by omega)
  unfold nextPowerOfTwo64
  rw [Int64.toInt_ofNat_of_lt (by omega)]

section Masks

variable {w : Nat} {a : BitVec w}

theorem msb_of_pos (h : 0 < a.toInt) : a.msb = false := by
  rw [BitVec.msb_eq_toInt, decide_eq_false_iff_not]
  omega

theorem toInt_of_pos (h : 0 < a.toInt) : a.toInt = a.toNat :=
  BitVec.toInt_eq_toNat_of_msb (msb_of_pos h)

theorem toNat_pred (h : 0 < a.toInt) : (a - 1#w).toNat = a.toNat - 1 := by
  have hvalue := toInt_of_pos h
  have hlt := a.isLt
  have hone : (1#w).toNat = 1 := by
    rw [BitVec.toNat_ofNat, Nat.mod_eq_of_lt (by omega)]
  have hle : 1#w ≤ a := by
    rw [BitVec.le_def, hone]
    omega
  rw [BitVec.toNat_sub_of_le hle, hone]

theorem msb_pred (h : 0 < a.toInt) : (a - 1#w).msb = false := by
  have hmsb := msb_of_pos h
  rw [BitVec.msb_eq_false_iff_two_mul_lt] at hmsb ⊢
  rw [toNat_pred h]
  omega

theorem toInt_pred (h : 0 < a.toInt) : (a - 1#w).toInt = a.toInt - 1 := by
  have hvalue := toInt_of_pos h
  rw [BitVec.toInt_eq_toNat_of_msb (msb_pred h), toNat_pred h]
  omega

theorem pos_of_power (ha : a.toInt.toNat.isPowerOfTwo) : 0 < a.toInt := by
  have hpos := Nat.pos_of_isPowerOfTwo ha
  omega

theorem toNat_isPowerOfTwo (ha : a.toInt.toNat.isPowerOfTwo) : a.toNat.isPowerOfTwo := by
  rwa [toInt_of_pos (pos_of_power ha), Int.toNat_natCast] at ha

theorem toNat_and_pred (x : BitVec w) (ha : a.toInt.toNat.isPowerOfTwo) :
    (x &&& (a - 1#w)).toNat = x.toNat % a.toNat := by
  obtain ⟨k, hk⟩ := toNat_isPowerOfTwo ha
  rw [BitVec.toNat_and, toNat_pred (pos_of_power ha), hk, Nat.and_two_pow_sub_one_eq_mod]

theorem toInt_emod_power (x : BitVec w) (ha : a.toInt.toNat.isPowerOfTwo) :
    x.toInt % a.toInt = ((x.toNat % a.toNat : Nat) : Int) := by
  have hpower : a.toNat ∣ 2 ^ w :=
    dvd_of_isPowerOfTwo (toNat_isPowerOfTwo ha) ⟨w, rfl⟩ (Nat.le_of_lt a.isLt)
  have hdvd := Int.natCast_dvd_natCast.2 hpower
  calc x.toInt % a.toInt
      = (x.toNat : Int).bmod (2 ^ w) % (2 ^ w : Nat) % a.toNat := by
        rw [toInt_of_pos (pos_of_power ha), BitVec.toInt_eq_toNat_bmod,
          Int.emod_emod_of_dvd _ hdvd]
    _ = x.toNat % a.toNat := by rw [Int.bmod_emod, Int.emod_emod_of_dvd _ hdvd]
    _ = ((x.toNat % a.toNat : Nat) : Int) := (Int.natCast_emod _ _).symm

theorem toInt_and_pred (x : BitVec w) (ha : a.toInt.toNat.isPowerOfTwo) :
    (x &&& (a - 1#w)).toInt = x.toInt % a.toInt := by
  have hmsb : (x &&& (a - 1#w)).msb = false := by
    rw [BitVec.msb_and, msb_pred (pos_of_power ha), Bool.and_false]
  rw [BitVec.toInt_eq_toNat_of_msb hmsb, toNat_and_pred x ha, toInt_emod_power x ha]

theorem neg_eq_not_pred (a : BitVec w) : -a = ~~~(a - 1#w) := by
  rw [← BitVec.not_neg, BitVec.not_not]

theorem and_neg_and_pred (x a : BitVec w) : (x &&& -a) &&& (a - 1#w) = 0#w := by
  rw [neg_eq_not_pred, BitVec.and_assoc, BitVec.not_and_self]
  exact BitVec.and_zero

theorem toInt_and_neg (x : BitVec w) (ha : a.toInt.toNat.isPowerOfTwo) :
    (x &&& -a).toInt = x.toInt - x.toInt % a.toInt := by
  have hpos := pos_of_power ha
  have hwidth : 0 < w := by
    cases w with
    | zero =>
      rw [BitVec.toInt_zero_length] at hpos
      exact absurd hpos (Int.lt_irrefl 0)
    | succ w => exact Nat.succ_pos w
  have hmsb : (x &&& -a).msb = x.msb := by
    rw [neg_eq_not_pred, BitVec.msb_and, BitVec.msb_not, msb_pred hpos, decide_eq_true hwidth]
    exact Bool.and_true _
  -- the two masks share no bit and leave none out
  have hapart : (x &&& -a) &&& (x &&& (a - 1#w)) = 0#w := by
    rw [BitVec.and_comm x (a - 1#w), ← BitVec.and_assoc, and_neg_and_pred, BitVec.zero_and]
  have hwhole : (x &&& -a) + (x &&& (a - 1#w)) = x := by
    rw [BitVec.add_eq_or_of_and_eq_zero _ _ hapart, ← BitVec.and_or_distrib_left, neg_eq_not_pred,
      BitVec.not_or_self, BitVec.and_allOnes]
  have hsum : (x &&& -a).toNat + x.toNat % a.toNat = x.toNat := by
    rw [← toNat_and_pred x ha, ← BitVec.toNat_add_of_and_eq_zero hapart, hwhole]
  rw [toInt_emod_power x ha, BitVec.toInt_eq_msb_cond, BitVec.toInt_eq_msb_cond, hmsb]
  split <;> omega

end Masks

theorem toInt64_pred {p : Int32} (h : 0 < p.toInt) : (p - 1).toInt64 = p.toInt64 - 1 := by
  have hpred : (p - 1).toInt = p.toInt - 1 := toInt_pred h
  have hpos : 0 < p.toInt64.toInt := by rwa [Int32.toInt_toInt64]
  have hwide : (p.toInt64 - 1).toInt = p.toInt64.toInt - 1 := toInt_pred hpos
  rw [← Int64.toInt_inj, hwide, Int32.toInt_toInt64, Int32.toInt_toInt64, hpred]

theorem isPowerOfTwo_iff (v : Int64) : isPowerOfTwo v = true ↔ v.toInt.toNat.isPowerOfTwo := by
  by_cases hpos : 0 < v.toInt
  · have hvalue : v.toInt = v.toBitVec.toNat := toInt_of_pos hpos
    have hne : v.toBitVec.toNat ≠ 0 := by omega
    have hcheck : isPowerOfTwo v = true ↔ v &&& (v - 1) = 0 := by
      have hlt : 0 < v := Int64.lt_iff_toInt_lt.2 hpos
      unfold isPowerOfTwo
      rw [decide_eq_true hlt, Bool.true_and, beq_iff_eq]
    have hbits : (v &&& (v - 1)).toBitVec.toNat = v.toBitVec.toNat &&& (v.toBitVec.toNat - 1) := by
      rw [← toNat_pred hpos]
      rfl
    rw [hcheck, hvalue, Int.toNat_natCast, ← Nat.and_sub_one_eq_zero_iff_isPowerOfTwo hne, ← hbits,
      ← Int64.toBitVec_inj, ← BitVec.toNat_inj]
    rfl
  · have hnotPower : ¬ v.toInt.toNat.isPowerOfTwo := by
      intro h
      have hnat := Nat.pos_of_isPowerOfTwo h
      omega
    have hcheck : isPowerOfTwo v = false := by
      have hnotLt : ¬ 0 < v := fun h => hpos (Int64.lt_iff_toInt_lt.1 h)
      unfold isPowerOfTwo
      rw [decide_eq_false hnotLt, Bool.false_and]
    rw [hcheck]
    exact ⟨fun h => absurd h Bool.false_ne_true, fun h => absurd h hnotPower⟩

theorem isAligned_of_power (address : UInt64) {alignment : Int64}
    (ha : alignment.toInt.toNat.isPowerOfTwo) :
    isAligned address alignment = .ok (decide (alignment.toInt.toNat ∣ address.toNat)) := by
  have hmask : (address &&& (alignment - 1).toUInt64).toNat =
      address.toNat % alignment.toInt.toNat := by
    have hvalue : alignment.toInt = alignment.toBitVec.toNat := toInt_of_pos (pos_of_power ha)
    rw [hvalue, Int.toNat_natCast]
    exact toNat_and_pred address.toBitVec ha
  unfold isAligned
  rw [if_pos ((isPowerOfTwo_iff alignment).2 ha)]
  congr 1
  rw [Bool.eq_iff_iff, beq_iff_eq, decide_eq_true_iff, ← UInt64.toNat_inj, hmask]
  exact Nat.dvd_iff_mod_eq_zero.symm

theorem isAligned_eight {n : Nat} (h : n % 8 = 0) :
    isAligned (UInt64.ofNat n) (Int64.ofNat 8) = .ok true := by
  have height : (Int64.ofNat 8).toInt.toNat = 8 := by decide
  have hdvd : 8 ∣ (UInt64.ofNat n).toNat := by
    rw [UInt64.toNat_ofNat']
    change 8 ∣ n % 18446744073709551616
    omega
  rw [isAligned_of_power _ ⟨3, height⟩, height, decide_eq_true hdvd]

end Telemetry.Bits
