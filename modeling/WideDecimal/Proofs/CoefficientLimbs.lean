import Mathlib.Data.List.TakeWhile
import WideDecimal.Proofs.Limbs
import WideDecimal.Proofs.TwosComplement

namespace WideDecimal

theorem Limbs.head_ne_zero_of_dropWhile {limbs rest : Limbs} {x : UInt32}
    (h : limbs.dropWhile (· = 0) = x :: rest) : x ≠ 0 := by
  have hhead := List.head?_dropWhile_not (· = (0 : UInt32)) limbs
  rw [h] at hhead
  simpa using hhead

namespace Coefficient

theorem length_limbs_le (v : Coefficient) : v.limbs.length ≤ 4 :=
  List.length_dropWhile_le _ _

theorem head_ne_zero_of_limbs {v : Coefficient} {x : UInt32} {limbs : Limbs}
    (h : v.limbs = x :: limbs) : x ≠ 0 :=
  Limbs.head_ne_zero_of_dropWhile h

theorem head?_limbs_ne (v : Coefficient) : v.limbs.head? ≠ some 0 := by
  intro hzero
  obtain ⟨rest, hlimbs⟩ := List.head?_eq_some_iff.mp hzero
  exact head_ne_zero_of_limbs hlimbs rfl

theorem limbs_eq_nil_iff (v : Coefficient) : v.limbs = [] ↔ v.toInt = 0 := by
  rw [← Int.natAbs_eq_zero, ← v.toNat_limbs]
  constructor
  · intro h
    rw [h]
    rfl
  · intro h
    cases hlimbs : v.limbs with
    | nil => rfl
    | cons x limbs =>
      have hle : 2 ^ (32 * limbs.length) ≤ Limbs.toNat (x :: limbs) :=
        Limbs.weight_le_toNat (head_ne_zero_of_limbs hlimbs)
      have hpos := Nat.two_pow_pos (32 * limbs.length)
      rw [hlimbs] at h
      omega

theorem natAbs_lt_of_length_limbs_lt {a b : Coefficient} (h : a.limbs.length < b.limbs.length) :
    a.toInt.natAbs < b.toInt.natAbs := by
  rw [← a.toNat_limbs, ← b.toNat_limbs]
  cases hlimbs : b.limbs with
  | nil => simp [hlimbs] at h
  | cons x limbs =>
    rw [hlimbs, List.length_cons] at h
    calc Limbs.toNat a.limbs < 2 ^ (32 * a.limbs.length) := Limbs.toNat_lt _
      _ ≤ 2 ^ (32 * limbs.length) := Nat.pow_le_pow_right (by decide) (by omega)
      _ ≤ Limbs.toNat (x :: limbs) := Limbs.weight_le_toNat (head_ne_zero_of_limbs hlimbs)

theorem natAbs_lt (v : Coefficient) : v.toInt.natAbs < 2 ^ 128 := by
  have := v.toInt_bounds
  omega

theorem toInt_ne_zero_of_limbs {v : Coefficient} {x : UInt32} {limbs : Limbs}
    (h : v.limbs = x :: limbs) : v.toInt ≠ 0 := by
  intro hzero
  rw [(limbs_eq_nil_iff v).mpr hzero] at h
  cases h

end Coefficient

/-- Five limbs at most build a coefficient as long as their number takes no more than four. -/
theorem Limbs.toCoefficient?_eq {limbs : Limbs} (hlength : limbs.length ≤ capacity)
    (hlt : toNat limbs < 2 ^ 128) :
    ∃ v, toCoefficient? limbs = .ok v ∧ v.toInt = (toNat limbs : Int).bmod (2 ^ 128) := by
  have hsmall (high low : UInt64) (n : Nat) (h : high.toNat * 2 ^ 64 + low.toNat = n) :
      (⟨high.toInt64, low⟩ : Coefficient).toInt = (n : Int).bmod (2 ^ 128) := by
    rw [Coefficient.toInt_ofWords, h]
  match limbs with
  | [] => exact ⟨_, rfl, rfl⟩
  | [a] => exact ⟨_, rfl, hsmall 0 _ _ (by simp [toNat])⟩
  | [a, b] => exact ⟨_, rfl, hsmall 0 _ _ (by simp [toNat, toNat_join])⟩
  | [a, b, c] =>
    refine ⟨_, rfl, hsmall _ _ _ ?_⟩
    simp only [toNat, toNat_join, UInt32.toNat_toUInt64, List.length_cons, List.length_nil]
    omega
  | [a, b, c, d] =>
    refine ⟨_, rfl, hsmall _ _ _ ?_⟩
    simp only [toNat, toNat_join, List.length_cons, List.length_nil]
    omega
  | [e, a, b, c, d] =>
    obtain rfl : e = 0 := head_eq_zero_of_lt hlt
    refine ⟨_, rfl, hsmall _ _ _ ?_⟩
    simp only [toNat, toNat_join, List.length_cons, List.length_nil, UInt32.toNat_zero]
    omega
  | _ :: _ :: _ :: _ :: _ :: _ :: _ =>
    simp only [List.length_cons, capacity] at hlength
    omega

theorem Limbs.toCoefficient?_eq_abs {limbs : Limbs} {v : Coefficient}
    (hlength : limbs.length ≤ capacity) (h : toNat limbs = v.toInt.natAbs) :
    toCoefficient? limbs = .ok v.abs := by
  obtain ⟨w, hbuild, hw⟩ := toCoefficient?_eq hlength (h ▸ v.natAbs_lt)
  rw [h, ← v.toInt_abs_eq_bmod] at hw
  rw [hbuild, Coefficient.toInt_inj.mp hw]

theorem Coefficient.toCoefficient?_limbs (v : Coefficient) :
    Limbs.toCoefficient? v.limbs = .ok v.abs ∧ Limbs.toCoefficient? (0 :: v.limbs) = .ok v.abs := by
  have hlength := v.length_limbs_le
  refine ⟨Limbs.toCoefficient?_eq_abs (Nat.le_succ_of_le hlength) v.toNat_limbs, ?_⟩
  refine Limbs.toCoefficient?_eq_abs (Nat.succ_le_succ hlength) ?_
  rw [Limbs.toNat_cons, UInt32.toNat_zero, Nat.zero_mul, Nat.zero_add, v.toNat_limbs]

end WideDecimal
