import WideDecimal.Proofs.CoefficientLimbs
import WideDecimal.Proofs.InPlaceShift

namespace WideDecimal

namespace Limbs

theorem toNat_inj {xs ys : Limbs} (hlength : xs.length = ys.length) :
    toNat xs = toNat ys ↔ xs = ys := by
  refine ⟨fun h => ?_, congrArg toNat⟩
  induction xs generalizing ys with
  | nil => exact (List.length_eq_zero_iff.mp hlength.symm).symm
  | cons x xs ih =>
    cases ys with
    | nil => cases hlength
    | cons y ys =>
      have hrest : xs.length = ys.length := Nat.succ.inj hlength
      have hhead : x = y := by
        rw [← UInt32.toNat_inj, ← toNat_div_weight x xs, ← toNat_div_weight y ys, h, hrest]
      rw [hhead, toNat_cons, toNat_cons, hrest] at h
      rw [hhead, ih hrest (Nat.add_left_cancel h)]

/-- A multiple that wraps is divided into less than it was made of. -/
theorem mul_mod_div_eq_self_iff {n p w : Nat} (hp : 0 < p) (hw : 0 < w) :
    n * p % w / p = n ↔ n * p < w := by
  constructor
  · intro hback
    by_contra hover
    have hwrapped : n * p % w < n * p :=
      Nat.lt_of_lt_of_le (Nat.mod_lt _ hw) (Nat.le_of_not_lt hover)
    have hless := (Nat.div_lt_iff_lt_mul hp).mpr hwrapped
    rw [hback] at hless
    exact Nat.lt_irrefl n hless
  · intro hroom
    rw [Nat.mod_eq_of_lt hroom, Nat.mul_div_cancel _ hp]

section Shift

variable {bits : Nat}

theorem getMsbD_eq_testBit {i : Nat} (h : i < 32) (x : UInt32) :
    x.toBitVec.getMsbD i = x.toNat.testBit (31 - i) := by
  rw [BitVec.getMsbD_eq_getLsbD, ← BitVec.testBit_toNat, UInt32.toNat_toBitVec,
    decide_eq_true h, Bool.true_and]

theorem toNat_lt_two_pow_iff (h : bits < 32) (x : UInt32) :
    x.toNat < 2 ^ (32 - bits) ↔ ∀ i < bits, x.toBitVec.getMsbD i = false := by
  constructor
  · intro hlt i hi
    have hle : 2 ^ (32 - bits) ≤ 2 ^ (31 - i) := Nat.pow_le_pow_right (by decide) (by omega)
    rw [getMsbD_eq_testBit (by omega)]
    exact Nat.testBit_lt_two_pow (Nat.lt_of_lt_of_le hlt hle)
  · intro hzero
    apply Nat.lt_pow_two_of_testBit
    intro j hj
    by_cases hin : j < 32
    · have hbit := hzero (31 - j) (by omega)
      rwa [getMsbD_eq_testBit (by omega), Nat.sub_sub_self (by omega)] at hbit
    · have hle : 2 ^ 32 ≤ 2 ^ j := Nat.pow_le_pow_right (by decide) (by omega)
      exact Nat.testBit_lt_two_pow (Nat.lt_of_lt_of_le x.toNat_lt hle)

/-- A shifted number has room in its limbs where the first of them has room for the shift. -/
theorem shifted_lt_weight_iff (h : bits < 32) (limbs : Limbs) :
    toNat limbs * 2 ^ bits < 2 ^ (32 * limbs.length) ↔
      (limbs.headD 0).toNat < 2 ^ (32 - bits) := by
  rw [← Nat.div_eq_zero_iff_lt (Nat.two_pow_pos _), toNat_shifted_div_weight h,
    Nat.div_eq_zero_iff_lt (Nat.two_pow_pos _)]

theorem shiftLeft_shiftRight_eq_iff (h : bits < 32) (limbs : Limbs) :
    (limbs.shiftLeft bits).shiftRight bits = limbs ↔
      toNat limbs * 2 ^ bits < 2 ^ (32 * limbs.length) := by
  rw [← toNat_inj (by simp), toNat_shiftRight h, toNat_shiftLeft h,
    mul_mod_div_eq_self_iff (Nat.two_pow_pos _) (Nat.two_pow_pos _)]

/-- What a shift loses are the bits that the first limb starts with. -/
theorem shiftLeft_shiftRight_eq_iff_bits (h : bits < 32) (limbs : Limbs) :
    (limbs.shiftLeft bits).shiftRight bits = limbs ↔
      ∀ x ∈ limbs.head?, ∀ i < bits, x.toBitVec.getMsbD i = false := by
  rw [shiftLeft_shiftRight_eq_iff h, shifted_lt_weight_iff h, toNat_lt_two_pow_iff h]
  cases limbs with
  | nil => simp
  | cons x limbs => simp

example : shiftRight (shiftLeft [0x80000001] 1) 1 = [1] := by decide

end Shift

/-- A shift to the left by fewer bits than a limb has multiplies the number modulo what the limbs
have room for, one to the right divides it and rounds down and undoes the first exactly where the
bits that the first limb starts with are zero; in place, with every index and count checked, the
limbs come out the same. The limbs of a coefficient add its magnitude to the limbs they follow,
start with no zero, and with or without one in front build the coefficient of that magnitude modulo
`2 ^ 128`. -/
theorem limbs_shift_and_rebuild {bits : Nat} (h : bits < 32) (limbs : Limbs) (v : Coefficient) :
    ((limbs.shiftLeft bits).length = limbs.length ∧
      toNat (limbs.shiftLeft bits) = toNat limbs * 2 ^ bits % 2 ^ (32 * limbs.length) ∧
      (limbs.shiftRight bits).length = limbs.length ∧
      toNat (limbs.shiftRight bits) = toNat limbs / 2 ^ bits ∧
      ((limbs.shiftLeft bits).shiftRight bits = limbs ↔
        ∀ x ∈ limbs.head?, ∀ i < bits, x.toBitVec.getMsbD i = false) ∧
      (shiftLeftInPlace limbs bits).checked = Part.some (limbs.shiftLeft bits) ∧
      (shiftRightInPlace limbs bits).checked = Part.some (limbs.shiftRight bits)) ∧
    toNat v.limbs = v.toInt.natAbs ∧
    (∀ front, toNat (front ++ v.limbs) =
      toNat front * 2 ^ (32 * v.limbs.length) + v.toInt.natAbs) ∧
    v.limbs.head? ≠ some 0 ∧ (0 :: v.limbs).length ≤ capacity ∧
    ∃ w, toCoefficient? v.limbs = .ok w ∧ toCoefficient? (0 :: v.limbs) = .ok w ∧
      w.toInt = (v.toInt.natAbs : Int).bmod (2 ^ 128) := by
  refine ⟨⟨length_shiftLeft limbs bits, toNat_shiftLeft h limbs, length_shiftRight limbs bits,
    toNat_shiftRight h limbs, shiftLeft_shiftRight_eq_iff_bits h limbs,
    (shiftLeftInPlace_holds h limbs).checked_eq, (shiftRightInPlace_holds h limbs).checked_eq⟩,
    v.toNat_limbs, ?_, v.head?_limbs_ne, Nat.succ_le_succ v.length_limbs_le, ?_⟩
  · intro front
    rw [toNat_append, v.toNat_limbs]
  · obtain ⟨hbuild, hbuild'⟩ := v.toCoefficient?_limbs
    exact ⟨v.abs, hbuild, hbuild', v.toInt_abs_eq_bmod⟩

theorem limbs_shift_and_rebuild_least :
    4 < 32 ∧
    toNat (shiftLeft [0x0FFFFFFF, 0x80000001] 4) =
      toNat [0x0FFFFFFF, 0x80000001] * 2 ^ 4 % 2 ^ (32 * 2) ∧
    shiftRight (shiftLeft [0x0FFFFFFF, 0x80000001] 4) 4 = [0x0FFFFFFF, 0x80000001] ∧
    toNat [0x80000000, 0, 0, 0] = Coefficient.least.toInt.natAbs ∧
    ∃ w, toCoefficient? [0x80000000, 0, 0, 0] = .ok w ∧
      toCoefficient? [0, 0x80000000, 0, 0, 0] = .ok w ∧ w.toInt = -2 ^ 127 := by
  have hbits : 4 < 32 := by decide
  have hlimbs : Coefficient.least.limbs = [0x80000000, 0, 0, 0] := by rfl
  obtain ⟨⟨-, hleft, -, -, hundo, -⟩, hvalue, -, -, -, w, hbuild, hbuild', hw⟩ :=
    limbs_shift_and_rebuild hbits [0x0FFFFFFF, 0x80000001] Coefficient.least
  rw [hlimbs] at hvalue hbuild hbuild'
  refine ⟨hbits, hleft, hundo.mpr ?_, hvalue, w, hbuild, hbuild', hw.trans (by decide)⟩
  rintro x ⟨⟩
  decide

end Limbs

end WideDecimal
