import Mathlib.Data.Nat.Bitwise
import WideDecimal.Proofs.Product
import WideDecimal.Proofs.Shift

namespace WideDecimal

namespace Word

/-- A sum is the digits without carries, and twice the carries. -/
theorem xor_add_two_mul_and (m n : Nat) : (m ^^^ n) + 2 * (m &&& n) = m + n := by
  induction m using Nat.strongRecOn generalizing n with
  | ind m ih =>
    rcases Nat.eq_zero_or_pos m with rfl | hpos
    · rw [Nat.zero_xor, Nat.zero_and, Nat.mul_zero, Nat.add_comm]
    · -- The halves carry among themselves, and the last digits into them.
      have hhalves := ih (m / 2) (by omega) (n / 2)
      rw [← Nat.xor_div_two, ← Nat.and_div_two] at hhalves
      have hdigit := Nat.xor_mod_two_eq (m := m) (n := n)
      have hcarry := Nat.and_mod_two_eq_one (a := m) (b := n)
      omega

variable {w : Nat}

theorem add_eq_xor_add_carries (x y : BitVec w) : x + y = (x ^^^ y) + (x &&& y) <<< 1 := by
  apply BitVec.eq_of_toNat_eq
  rw [BitVec.toNat_add, BitVec.toNat_add, BitVec.toNat_shiftLeft, BitVec.toNat_xor,
    BitVec.toNat_and, Nat.shiftLeft_eq, Nat.add_mod_mod, Nat.pow_one, Nat.mul_comm _ 2,
    xor_add_two_mul_and]

theorem or_eq_xor_add_and (x y : BitVec w) : x ||| y = (x ^^^ y) + (x &&& y) := by
  have hdisjoint : (x ^^^ y) &&& (x &&& y) = 0#w := by
    ext i
    simp only [BitVec.getElem_and, BitVec.getElem_xor, BitVec.getElem_zero]
    cases x[i] <;> cases y[i] <;> rfl
  rw [BitVec.add_eq_or_of_and_eq_zero _ _ hdisjoint]
  ext i
  simp only [BitVec.getElem_or, BitVec.getElem_and, BitVec.getElem_xor]
  cases x[i] <;> cases y[i] <;> rfl

end Word

namespace Coefficient

theorem bits_and (a b : Coefficient) : (a &&& b).bits = a.bits &&& b.bits := by
  change (and a b).bits = _
  rw [bits, bits, bits, BitVec.and_append, and, Int64.toBitVec_and, UInt64.toBitVec_and]

theorem bits_or (a b : Coefficient) : (a ||| b).bits = a.bits ||| b.bits := by
  change (or a b).bits = _
  rw [bits, bits, bits, BitVec.or_append, or, Int64.toBitVec_or, UInt64.toBitVec_or]

theorem bits_xor (a b : Coefficient) : (a ^^^ b).bits = a.bits ^^^ b.bits := by
  change (xor a b).bits = _
  rw [bits, bits, bits, BitVec.xor_append, xor, Int64.toBitVec_xor, UInt64.toBitVec_xor]

theorem bits_not (a : Coefficient) : (~~~a).bits = ~~~a.bits := by
  change (not a).bits = _
  rw [bits, bits, BitVec.not_append, not, Int64.toBitVec_not, UInt64.toBitVec_not]

theorem bits_add (a b : Coefficient) : (a + b).bits = a.bits + b.bits := by
  rw [← BitVec.toInt_inj, BitVec.toInt_add, toInt_bits, toInt_bits, toInt_bits, toInt_add]

theorem bits_sub (a b : Coefficient) : (a - b).bits = a.bits - b.bits := by
  rw [← BitVec.toInt_inj, BitVec.toInt_sub, toInt_bits, toInt_bits, toInt_bits, toInt_sub]

theorem bits_neg (a : Coefficient) : (-a).bits = -a.bits := by
  rw [← BitVec.toInt_inj, BitVec.toInt_neg, toInt_bits, toInt_bits, toInt_neg]

theorem bits_one : one.bits = 1#128 := rfl

theorem add_eq_xor_add_carries (a b : Coefficient) : a + b = (a ^^^ b) + (a &&& b) <<< 1 := by
  rw [← bits_inj, bits_add, bits_add, bits_shiftLeft, bits_xor, bits_and,
    ← Word.add_eq_xor_add_carries]

theorem or_eq_xor_add_and (a b : Coefficient) : a ||| b = (a ^^^ b) + (a &&& b) := by
  rw [← bits_inj, bits_or, bits_add, bits_xor, bits_and, Word.or_eq_xor_add_and]

theorem neg_eq_not_add_one (a : Coefficient) : -a = ~~~a + one := by
  rw [← bits_inj, bits_neg, bits_add, bits_not, bits_one, BitVec.neg_eq_not_add]

theorem sub_eq_add_not_add_one (a b : Coefficient) : a - b = a + ~~~b + one := by
  rw [← bits_inj, bits_sub, bits_add, bits_add, bits_not, bits_one, BitVec.sub_eq_add_neg,
    BitVec.neg_eq_not_add, BitVec.add_assoc]

theorem toInt_sign (v : Coefficient) : v.sign.toInt = v.toInt.sign := by
  have hneg := v.isNegative_iff
  have hzero := v.isZero_iff
  unfold sign
  split
  next h =>
    rw [Int.sign_eq_neg_one_of_neg (hneg.mp h)]
    rfl
  next hnonneg =>
    split
    next h =>
      rw [hzero.mp h]
      rfl
    next hne =>
      have hle := Int.not_lt.mp (mt hneg.mpr hnonneg)
      have hpos := lt_of_le_of_ne hle (Ne.symm (mt hzero.mpr hne))
      rw [Int.sign_eq_one_of_pos hpos]
      rfl

theorem abs_eq_mul_sign (a : Coefficient) : a.abs = a * a.sign := by
  rw [← toInt_inj, toInt_mul, toInt_sign, Int.mul_sign_self, toInt_abs_eq_bmod]

/-- The bitwise operators act on the integers in two's complement, the sign bit among the others. A
sum is that of the bits without carries and of the carries moved up, an opposite is a complement and
one, a difference adds such an opposite, and an absolute value is a product with the sign. All of
these wrap, and none has an exception. -/
theorem bitwise_agrees_arithmetic (a b : Coefficient) :
    (BitVec.ofInt 128 (a &&& b).toInt = BitVec.ofInt 128 a.toInt &&& BitVec.ofInt 128 b.toInt ∧
      BitVec.ofInt 128 (a ||| b).toInt = BitVec.ofInt 128 a.toInt ||| BitVec.ofInt 128 b.toInt ∧
      BitVec.ofInt 128 (a ^^^ b).toInt = BitVec.ofInt 128 a.toInt ^^^ BitVec.ofInt 128 b.toInt ∧
      BitVec.ofInt 128 (~~~a).toInt = ~~~BitVec.ofInt 128 a.toInt) ∧
    a + b = (a ^^^ b) + (a &&& b) <<< 1 ∧
    a ||| b = (a ^^^ b) + (a &&& b) ∧
    -a = ~~~a + one ∧
    a - b = a + ~~~b + one ∧
    a.abs = a * a.sign := by
  simp only [ofInt_toInt_eq_bits]
  refine ⟨⟨bits_and a b, bits_or a b, bits_xor a b, bits_not a⟩, ?_⟩
  refine ⟨add_eq_xor_add_carries a b, or_eq_xor_add_and a b, neg_eq_not_add_one a, ?_⟩
  exact ⟨sub_eq_add_not_add_one a b, abs_eq_mul_sign a⟩

example : -least = least ∧ least.abs = least ∧ least * least.sign = least := by decide

end Coefficient

end WideDecimal
