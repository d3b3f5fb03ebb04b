import Mathlib.Algebra.Order.Ring.Int
import Mathlib.Data.Int.ModEq
import WideDecimal.Coefficient.Bits
import WideDecimal.Proofs.TwosComplement

namespace WideDecimal

namespace Word

variable {n : Nat}

theorem toNat_count (h : n < 64) : (BitVec.ofNat 64 n).toNat % 64 = n := by
  rw [BitVec.toNat_ofNat]
  omega

theorem toBitVec_shiftLeft (w : UInt64) (h : n < 64) :
    (w <<< UInt64.ofNat n).toBitVec = w.toBitVec <<< n := by
  rw [UInt64.toBitVec_shiftLeft, BitVec.shiftLeft_eq', BitVec.toNat_umod, UInt64.toBitVec_ofNat']
  exact congrArg (w.toBitVec <<< ·) (toNat_count h)

theorem toBitVec_shiftRight (w : UInt64) (h : n < 64) :
    (w >>> UInt64.ofNat n).toBitVec = w.toBitVec >>> n := by
  rw [UInt64.toBitVec_shiftRight, BitVec.ushiftRight_eq', BitVec.toNat_umod,
    UInt64.toBitVec_ofNat']
  exact congrArg (w.toBitVec >>> ·) (toNat_count h)

/-- Signed words take the count as a signed number, which is not negative below 64. -/
theorem toNat_signedCount (h : n < 64) : ((Int64.ofNat n).toBitVec.smod 64).toNat = n := by
  have hcount : (BitVec.ofNat 64 n).msb = false := by
    rw [BitVec.msb_eq_false_iff_two_mul_lt, BitVec.toNat_ofNat]
    omega
  have hwidth : (64 : BitVec 64).msb = false := by decide
  rw [Int64.toBitVec_ofNat', BitVec.smod_eq, hcount, hwidth]
  exact toNat_count h

theorem toBitVec_signed_shiftLeft (w : Int64) (h : n < 64) :
    (w <<< Int64.ofNat n).toBitVec = w.toBitVec <<< n := by
  rw [Int64.toBitVec_shiftLeft, BitVec.shiftLeft_eq', toNat_signedCount h]

theorem toBitVec_signed_shiftRight (w : Int64) (h : n < 64) :
    (w >>> Int64.ofNat n).toBitVec = w.toBitVec.sshiftRight n := by
  rw [Int64.toBitVec_shiftRight, BitVec.sshiftRight', toNat_signedCount h]

end Word

namespace Coefficient

theorem bits_shiftLeft (v : Coefficient) (n : Nat) : (v <<< n).bits = v.bits <<< n := by
  change (shiftLeft v n).bits = _
  fun_cases shiftLeft v n with
  | case1 hzero => rw [hzero, BitVec.shiftLeft_zero]
  | case2 _ hwithin =>
    apply bits_eq_of_words
    · intro i hi
      rw [Word.toBitVec_shiftLeft _ hwithin]
      simp only [BitVec.getLsbD_shiftLeft, getLsbD_bits]
      grind
    · -- The first `n` bits of the high word are the last ones of the low word.
      intro i hi
      rw [Int64.toBitVec_or, Word.toBitVec_signed_shiftLeft _ hwithin, UInt64.toBitVec_toInt64,
        Word.toBitVec_shiftRight _ (by omega)]
      simp only [BitVec.getLsbD_or, BitVec.getLsbD_shiftLeft, BitVec.getLsbD_ushiftRight,
        getLsbD_bits]
      grind
  | case3 _ hbeyond hwide =>
    apply bits_eq_of_words
    · intro i hi
      simp only [UInt64.toBitVec_zero, BitVec.getLsbD_zero, BitVec.getLsbD_shiftLeft]
      grind
    · intro i hi
      rw [UInt64.toBitVec_toInt64, Word.toBitVec_shiftLeft _ (by omega)]
      simp only [BitVec.getLsbD_shiftLeft, getLsbD_bits]
      grind
  | case4 _ _ hwide =>
    rw [BitVec.shiftLeft_eq_zero (Nat.le_of_not_lt hwide)]
    rfl

theorem getLsbD_fill (w : Int64) {i : Nat} (h : i < 64) :
    (if w < 0 then (-1 : Int64) else 0).toBitVec.getLsbD i = w.toBitVec.msb := by
  have hneg : w < 0 ↔ w.toBitVec.msb = true := by
    rw [Int64.lt_iff_toInt_lt, Int64.toInt_zero, BitVec.msb_eq_toInt, decide_eq_true_iff]
    rfl
  split
  next hw =>
    have hones : (-1 : Int64).toBitVec = BitVec.allOnes 64 := rfl
    rw [hneg.mp hw, hones, BitVec.getLsbD_allOnes, decide_eq_true h]
  next hw =>
    have hmsb := Bool.eq_false_iff.mpr (mt hneg.mpr hw)
    rw [hmsb, Int64.toBitVec_zero, BitVec.getLsbD_zero]

/-- A bit that would come from beyond both words is a copy of the sign bit. -/
theorem getLsbD_fill_of_beyond (v : Coefficient) {n i j : Nat} (hi : i < 64) (hj : j < 128)
    (hbeyond : 128 ≤ n + j) :
    (if v.high < 0 then (-1 : Int64) else 0).toBitVec.getLsbD i =
      (v.bits.sshiftRight n).getLsbD j := by
  rw [getLsbD_fill v.high hi, BitVec.getLsbD_sshiftRight, msb_bits, if_neg (by omega),
    decide_eq_false (by omega), Bool.not_false, Bool.true_and]

theorem bits_shiftRight (v : Coefficient) (n : Nat) :
    (v >>> n).bits = v.bits.sshiftRight n := by
  change (shiftRight v n).bits = _
  fun_cases shiftRight v n with
  | case1 hzero => rw [hzero, BitVec.sshiftRight_zero]
  | case2 _ hwithin =>
    apply bits_eq_of_words
    · -- The last `n` bits of the low word are the first ones of the high word.
      intro i hi
      rw [UInt64.toBitVec_or, Word.toBitVec_shiftRight _ hwithin,
        Word.toBitVec_shiftLeft _ (by omega), Int64.toBitVec_toUInt64]
      simp only [BitVec.getLsbD_or, BitVec.getLsbD_shiftLeft, BitVec.getLsbD_ushiftRight,
        BitVec.getLsbD_sshiftRight, getLsbD_bits]
      grind
    · intro i hi
      rw [Word.toBitVec_signed_shiftRight _ hwithin]
      simp only [BitVec.getLsbD_sshiftRight, getLsbD_bits, msb_bits]
      grind
  | case3 fill _ hbeyond hwide =>
    apply bits_eq_of_words
    · intro i hi
      rw [Int64.toBitVec_toUInt64, Word.toBitVec_signed_shiftRight _ (by omega)]
      simp only [BitVec.getLsbD_sshiftRight, getLsbD_bits, msb_bits]
      grind
    · intro i hi
      exact getLsbD_fill_of_beyond v hi (by omega) (by omega)
  | case4 fill _ _ hwide =>
    apply bits_eq_of_words
    · intro i hi
      rw [Int64.toBitVec_toUInt64]
      exact getLsbD_fill_of_beyond v hi (by omega) (by omega)
    · intro i hi
      exact getLsbD_fill_of_beyond v hi (by omega) (by omega)

theorem toInt_shiftLeft (v : Coefficient) (n : Nat) :
    (v <<< n).toInt = (v.toInt * 2 ^ n).bmod (2 ^ 128) := by
  rw [← toInt_bits, bits_shiftLeft, BitVec.toInt_shiftLeft, toNat_bits, Nat.shiftLeft_eq]
  apply bmod_congr
  rw [Int.natCast_mul, residue_eq, Int.natCast_pow]
  exact (Int.mod_modEq v.toInt (2 ^ 128)).mul_right (2 ^ n)

theorem toInt_shiftRight (v : Coefficient) (n : Nat) : (v >>> n).toInt = v.toInt / 2 ^ n := by
  rw [← toInt_bits, bits_shiftRight, BitVec.toInt_sshiftRight, toInt_bits,
    Int.shiftRight_eq_div_pow, Int.natCast_pow]
  rfl

theorem shiftLeft_shiftLeft (v : Coefficient) (m n : Nat) : v <<< m <<< n = v <<< (m + n) := by
  rw [← bits_inj, bits_shiftLeft, bits_shiftLeft, bits_shiftLeft, BitVec.shiftLeft_add]

theorem shiftRight_shiftRight (v : Coefficient) (m n : Nat) : v >>> m >>> n = v >>> (m + n) := by
  rw [← bits_inj, bits_shiftRight, bits_shiftRight, bits_shiftRight, BitVec.sshiftRight_add]

theorem two_pow_dvd_shiftLeft (v : Coefficient) (n : Nat) : (2 : Int) ^ n ∣ (v <<< n).toInt := by
  rw [toInt_shiftLeft]
  have hfactor : (2 : Int) ^ n ∣ v.toInt * 2 ^ n := Int.dvd_mul_left _ _
  rcases Nat.le_total n 128 with hn | hn
  · have hlost : (2 : Int) ^ n ∣ (v.toInt * 2 ^ n).bmod (2 ^ 128) - v.toInt * 2 ^ n :=
      Int.dvd_trans (pow_dvd_pow 2 hn) Int.dvd_bmod_sub_self
    exact (Int.dvd_iff_dvd_of_dvd_sub hlost).mpr hfactor
  · have hwide : (2 : Int) ^ 128 ∣ v.toInt * 2 ^ n := Int.dvd_trans (pow_dvd_pow 2 hn) hfactor
    rw [Int.bmod_eq_zero_of_dvd hwide]
    exact Int.dvd_zero _

theorem shiftLeft_shiftRight_eq_iff (v : Coefficient) (n : Nat) :
    v <<< n >>> n = v ↔ Fits (v.toInt * 2 ^ n) := by
  rw [← toInt_inj, toInt_shiftRight]
  constructor
  · intro h
    have hexact := Int.ediv_mul_cancel (two_pow_dvd_shiftLeft v n)
    rw [h] at hexact
    rw [hexact]
    exact fits_toInt _
  · intro h
    have hpos : (2 : Int) ^ n ≠ 0 := pow_ne_zero n (by decide)
    rw [toInt_shiftLeft, bmod_eq_self h, Int.mul_ediv_cancel _ hpos]

/-- To the left a value is multiplied by a power of two modulo `2 ^ 128`, to the right it is divided
by one and rounded down, for any count. So shifts in one direction add up, and a shift to the left
can be taken back exactly where the product has a coefficient. -/
theorem shifts_scale (v : Coefficient) (m n : Nat) :
    (v <<< n).toInt = (v.toInt * 2 ^ n).bmod (2 ^ 128) ∧
      (v >>> n).toInt = v.toInt / 2 ^ n ∧
      v <<< m <<< n = v <<< (m + n) ∧
      v >>> m >>> n = v >>> (m + n) ∧
      (v <<< n >>> n = v ↔ Fits (v.toInt * 2 ^ n)) := by
  refine ⟨toInt_shiftLeft v n, toInt_shiftRight v n, ?_, ?_, ?_⟩
  · exact shiftLeft_shiftLeft v m n
  · exact shiftRight_shiftRight v m n
  · exact shiftLeft_shiftRight_eq_iff v n

end Coefficient

end WideDecimal
