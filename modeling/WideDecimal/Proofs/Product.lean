import Mathlib.Tactic.Ring
import WideDecimal.Coefficient.Product
import WideDecimal.Proofs.Guarded
import WideDecimal.Proofs.TwosComplement

namespace WideDecimal.Coefficient

open Guarded (Holds)

theorem toNat_lowHalf (w : UInt64) : (lowHalf w).toNat = w.toNat % 2 ^ 32 := Word.toNat_low w

theorem toNat_highHalf (w : UInt64) : (highHalf w).toNat = w.toNat / 2 ^ 32 := Word.toNat_high w

theorem toNat_lowHalf_lt (w : UInt64) : (lowHalf w).toNat < 2 ^ 32 := by
  rw [toNat_lowHalf]
  exact Nat.mod_lt _ (by decide)

theorem toNat_highHalf_lt (w : UInt64) : (highHalf w).toNat < 2 ^ 32 := by
  have := w.toNat_lt
  rw [toNat_highHalf]
  omega

theorem mul_halves_le {m n : Nat} (hm : m < 2 ^ 32) (hn : n < 2 ^ 32) :
    m * n ≤ (2 ^ 32 - 1) * (2 ^ 32 - 1) :=
  Nat.mul_le_mul (by omega) (by omega)

theorem holds_mul_halves {x y : UInt64} (hx : x.toNat < 2 ^ 32) (hy : y.toNat < 2 ^ 32) :
    (Guarded.mul x y).Holds fun product => product.toNat = x.toNat * y.toNat :=
  Guarded.holds_mul (Nat.lt_of_le_of_lt (mul_halves_le hx hy) (by decide))

theorem columns_mod {units cross second sum64 sum96 middle carry : Nat}
    (hunits : units < 2 ^ 64) (hsecond : second < 2 ^ 64)
    (hcross : units / 2 ^ 32 + cross < 2 ^ 64)
    (hmiddle : middle = (units / 2 ^ 32 + cross + second) % 2 ^ 64)
    (hcarry : carry = if middle < second then 2 ^ 32 else 0) :
    ((carry + middle / 2 ^ 32 + sum64 % 2 ^ 64 + sum96 % 2 ^ 64 % 2 ^ 32 * 2 ^ 32) % 2 ^ 64 *
      2 ^ 64 + (units % 2 ^ 32 + middle % 2 ^ 32 * 2 ^ 32)) % 2 ^ 128 =
      (units + (cross + second) * 2 ^ 32 + sum64 * 2 ^ 64 + sum96 * 2 ^ 96) % 2 ^ 128 := by
  -- The carry is what the middle column lost.
  have hsum : carry * 2 ^ 32 + middle = units / 2 ^ 32 + cross + second := by
    split at hcarry <;> omega
  omega

theorem words_mod {units middle cross second column64 column96 : UInt64} {sum64 sum96 : Nat}
    (hmiddle : middle.toNat = units.toNat / 2 ^ 32 + cross.toNat)
    (h64 : column64.toNat = sum64 % 2 ^ 64) (h96 : column96.toNat = sum96 % 2 ^ 64) :
    (((if middle + second < second then (0x100000000 : UInt64) else 0) +
      highHalf (middle + second) + column64 + column96 <<< 32).toNat * 2 ^ 64 +
      (lowHalf units ||| (middle + second) <<< 32).toNat) % 2 ^ 128 =
      (units.toNat + (cross.toNat + second.toNat) * 2 ^ 32 + sum64 * 2 ^ 64 + sum96 * 2 ^ 96) %
        2 ^ 128 := by
  have hcross : units.toNat / 2 ^ 32 + cross.toNat < 2 ^ 64 := hmiddle ▸ middle.toNat_lt
  have hsum : (middle + second).toNat =
      (units.toNat / 2 ^ 32 + cross.toNat + second.toNat) % 2 ^ 64 := by
    rw [UInt64.toNat_add, hmiddle]
  have hcarry : (if middle + second < second then (0x100000000 : UInt64) else 0).toNat =
      if (middle + second).toNat < second.toNat then 2 ^ 32 else 0 := by
    simp only [UInt64.lt_iff_toNat_lt]
    split <;> rfl
  rw [← columns_mod units.toNat_lt second.toNat_lt hcross hsum hcarry,
    Word.toNat_or_raised (toNat_lowHalf_lt units), toNat_lowHalf]
  rw [UInt64.toNat_add, UInt64.toNat_add, UInt64.toNat_add, Word.toNat_raised, toNat_highHalf,
    h64, h96]
  omega

theorem residue_eq_halves (v : Coefficient) : v.residue =
    (highHalf v.high.toUInt64).toNat * 2 ^ 96 + (lowHalf v.high.toUInt64).toNat * 2 ^ 64 +
      (highHalf v.low).toNat * 2 ^ 32 + (lowHalf v.low).toNat := by
  simp only [residue, toNat_highHalf, toNat_lowHalf]
  omega

theorem natCast_bmod_congr {m n : Nat} (h : m % 2 ^ 128 = n % 2 ^ 128) :
    (m : Int).bmod (2 ^ 128) = (n : Int).bmod (2 ^ 128) :=
  bmod_congr (by omega)

theorem mul_bmod_residue (a b : Coefficient) :
    (a.toInt * b.toInt).bmod (2 ^ 128) = ((a.residue * b.residue : Nat) : Int).bmod (2 ^ 128) := by
  rw [toInt_eq_bmod_residue a, toInt_eq_bmod_residue b, Int.bmod_mul_bmod, Int.mul_bmod_bmod,
    Int.natCast_mul]

/-- A product in base `2 ^ 32` modulo `2 ^ 128`: six of the sixteen columns drop out. -/
theorem mul_halves_mod (l0 l1 l2 l3 r0 r1 r2 r3 : Nat) :
    (l0 * 2 ^ 96 + l1 * 2 ^ 64 + l2 * 2 ^ 32 + l3) *
        (r0 * 2 ^ 96 + r1 * 2 ^ 64 + r2 * 2 ^ 32 + r3) % 2 ^ 128 =
      (l3 * r3 + (l2 * r3 + l3 * r2) * 2 ^ 32 + (l1 * r3 + l2 * r2 + l3 * r1) * 2 ^ 64 +
        (l0 * r3 + l1 * r2 + l2 * r1 + l3 * r0) * 2 ^ 96) % 2 ^ 128 := by
  have hproduct : (l0 * 2 ^ 96 + l1 * 2 ^ 64 + l2 * 2 ^ 32 + l3) *
        (r0 * 2 ^ 96 + r1 * 2 ^ 64 + r2 * 2 ^ 32 + r3) =
      l3 * r3 + (l2 * r3 + l3 * r2) * 2 ^ 32 + (l1 * r3 + l2 * r2 + l3 * r1) * 2 ^ 64 +
        (l0 * r3 + l1 * r2 + l2 * r1 + l3 * r0) * 2 ^ 96 +
        2 ^ 128 * (l0 * r2 + l1 * r1 + l2 * r0 + (l0 * r1 + l1 * r0) * 2 ^ 32 +
          l0 * r0 * 2 ^ 64) := by
    ring
  rw [hproduct, Nat.add_mul_mod_self_left]

theorem guardedMul_holds (a b : Coefficient) :
    (guardedMul a b).Holds fun c => c.toInt = (a.toInt * b.toInt).bmod (2 ^ 128) := by
  have l0 := toNat_highHalf_lt a.high.toUInt64
  have l1 := toNat_lowHalf_lt a.high.toUInt64
  have l2 := toNat_highHalf_lt a.low
  have l3 := toNat_lowHalf_lt a.low
  have r0 := toNat_highHalf_lt b.high.toUInt64
  have r1 := toNat_lowHalf_lt b.high.toUInt64
  have r2 := toNat_highHalf_lt b.low
  have r3 := toNat_lowHalf_lt b.low
  refine Holds.bind (holds_mul_halves l3 r3) fun units h33 => ?_
  refine Holds.bind (holds_mul_halves l2 r3) fun cross h23 => ?_
  have hcross : (highHalf units).toNat + cross.toNat < 2 ^ 64 := by
    have hhalf := toNat_highHalf_lt units
    have hle := mul_halves_le l2 r3
    have hsquare : (2 ^ 32 - 1) * (2 ^ 32 - 1) + 2 ^ 32 ≤ 2 ^ 64 := by decide
    omega
  refine Holds.bind (Guarded.holds_add hcross) fun middle hmiddle => ?_
  refine Holds.bind (holds_mul_halves l3 r2) fun second h32 => ?_
  refine Holds.bind (holds_mul_halves l1 r3) fun p13 h13 => ?_
  refine Holds.bind (holds_mul_halves l2 r2) fun p22 h22 => ?_
  refine Holds.bind (holds_mul_halves l3 r1) fun p31 h31 => ?_
  refine Holds.bind (holds_mul_halves l0 r3) fun p03 h03 => ?_
  refine Holds.bind (holds_mul_halves l1 r2) fun p12 h12 => ?_
  refine Holds.bind (holds_mul_halves l2 r1) fun p21 h21 => ?_
  refine Holds.bind (holds_mul_halves l3 r0) fun p30 h30 => Holds.pure ?_
  rw [toNat_highHalf] at hmiddle
  have h64 : (p13 + p22 + p31).toNat = (p13.toNat + p22.toNat + p31.toNat) % 2 ^ 64 := by
    simp only [UInt64.toNat_add, Nat.mod_add_mod]
  have h96 : (p03 + p12 + p21 + p30).toNat =
      (p03.toNat + p12.toNat + p21.toNat + p30.toNat) % 2 ^ 64 := by
    simp only [UInt64.toNat_add, Nat.mod_add_mod]
  rw [toInt_ofWords, mul_bmod_residue]
  apply natCast_bmod_congr
  rw [words_mod hmiddle h64 h96, residue_eq_halves a, residue_eq_halves b, mul_halves_mod,
    h33, h23, h32, h13, h22, h31, h03, h12, h21, h30]

theorem toInt_mul (a b : Coefficient) : (a * b).toInt = (a.toInt * b.toInt).bmod (2 ^ 128) :=
  (guardedMul_holds a b).value

/-- The wrapped product has the low bits of the exact product. No step that must not wrap does, so
that checking all of these gives the same product. -/
theorem mul_keeps_low_bits (a b : Coefficient) :
    (guardedMul a b).intact ∧ (guardedMul a b).checked = Part.some (a * b) ∧
      (a * b).bits = BitVec.ofInt 128 (a.toInt * b.toInt) ∧
      (a * b).toInt = (a.toInt * b.toInt).bmod (2 ^ 128) := by
  have hholds := guardedMul_holds a b
  exact ⟨hholds.intact, hholds.checked, bits_eq_ofInt (toInt_mul a b), toInt_mul a b⟩

end WideDecimal.Coefficient
