import WideDecimal.Coefficient.Division
import WideDecimal.Proofs.CoefficientLimbs
import WideDecimal.Proofs.LimbDivision
import WideDecimal.Proofs.Product

namespace WideDecimal

open Guarded (Holds)

namespace Coefficient

theorem tdiv_eq_signed (a b : Coefficient) :
    a.toInt.tdiv b.toInt =
      signed (a.isNegative != b.isNegative) (a.toInt.natAbs / b.toInt.natAbs) := by
  rw [← signed_tdiv, signed_natAbs, signed_natAbs]

theorem tmod_eq_signed (a b : Coefficient) :
    a.toInt.tmod b.toInt = signed a.isNegative (a.toInt.natAbs % b.toInt.natAbs) := by
  rw [← signed_tmod a.isNegative b.isNegative, signed_natAbs, signed_natAbs]

/-- What a division answers: the error for a zero divisor, else the wrapped quotient and the
exact remainder. -/
def DivisionResult (a b : Coefficient) (result : Except Error (Coefficient × Coefficient)) :
    Prop :=
  if b.toInt = 0 then result = .error .divisionByZero
  else ∃ q r, result = .ok (q, r) ∧ q.toInt = (a.toInt.tdiv b.toInt).bmod (2 ^ 128) ∧
    r.toInt = a.toInt.tmod b.toInt

theorem divisionResult_withSigns {a b quotient remainder : Coefficient} (hb : b.toInt ≠ 0)
    (hq : quotient.toInt = ((a.toInt.natAbs / b.toInt.natAbs : Nat) : Int).bmod (2 ^ 128))
    (hr : remainder.toInt = ((a.toInt.natAbs % b.toInt.natAbs : Nat) : Int).bmod (2 ^ 128)) :
    DivisionResult a b (withSigns a b (.ok quotient) (.ok remainder)) := by
  rw [DivisionResult, if_neg hb]
  refine ⟨_, _, rfl, ?_, ?_⟩
  · rw [tdiv_eq_signed, ← toInt_signed _ hq]
    cases a.isNegative <;> cases b.isNegative <;> rfl
  · have hlt : a.toInt.natAbs % b.toInt.natAbs < b.toInt.natAbs :=
      Nat.mod_lt _ (Int.natAbs_pos.mpr hb)
    have hbounds := b.toInt_bounds
    have hfits : Fits (signed a.isNegative (a.toInt.natAbs % b.toInt.natAbs)) := by
      unfold Fits signed
      split <;> omega
    rw [toInt_signed _ hr, bmod_eq_self hfits, tmod_eq_signed]

theorem divisionResult_of_length_lt {a b : Coefficient} (h : a.limbs.length < b.limbs.length) :
    DivisionResult a b (.ok (zero, a)) := by
  have hless := natAbs_lt_of_length_limbs_lt h
  rw [DivisionResult, if_neg (by omega)]
  refine ⟨zero, a, rfl, ?_, ?_⟩
  · rw [tdiv_eq_signed, Nat.div_eq_of_lt hless, signed_zero]
    rfl
  · rw [tmod_eq_signed, Nat.mod_eq_of_lt hless, signed_natAbs]

theorem divideByLimb_magnitudes (a : Coefficient) {b : Coefficient} {v : UInt32}
    (h : b.limbs = [v]) :
    (Limbs.divideByLimb v.toUInt64 0 (0 :: a.limbs)).Holds fun result =>
      result.1.length = (0 :: a.limbs).length ∧
      Limbs.toNat result.1 = a.toInt.natAbs / b.toInt.natAbs ∧
      result.2.toNat = a.toInt.natAbs % b.toInt.natAbs := by
  have hb := toInt_ne_zero_of_limbs h
  have hvalue : b.toInt.natAbs = v.toUInt64.toNat := by
    rw [← b.toNat_limbs, h, UInt32.toNat_toUInt64]
    simp [Limbs.toNat]
  have hv : v.toUInt64.toNat < 2 ^ 32 := by
    rw [UInt32.toNat_toUInt64]
    exact v.toNat_lt
  have hpos : (0 : UInt64).toNat < v.toUInt64.toNat := by
    rw [UInt64.toNat_zero]
    omega
  refine (Limbs.divideByLimb_holds hv hpos (0 :: a.limbs)).imp fun result hresult => ?_
  obtain ⟨hlength, hrest, hsplit⟩ := hresult
  rw [UInt64.toNat_zero, Nat.zero_mul, Nat.zero_add, Limbs.toNat_cons, UInt32.toNat_zero,
    Nat.zero_mul, Nat.zero_add, a.toNat_limbs, ← hvalue] at hsplit
  rw [← hvalue] at hrest
  refine ⟨hlength, ?_, ?_⟩
  · rw [hsplit, Nat.mul_comm, Nat.mul_add_div (by omega), Nat.div_eq_of_lt hrest, Nat.add_zero]
  · rw [hsplit, Nat.mul_comm, Nat.mul_add_mod, Nat.mod_eq_of_lt hrest]

theorem divideLong_magnitudes {a b : Coefficient} {v w : UInt32} {divisor : Limbs}
    (h : b.limbs = v :: w :: divisor) (hlong : b.limbs.length ≤ a.limbs.length) :
    (Limbs.divideLong (0 :: a.limbs) b.limbs).Holds fun result =>
      Limbs.toNat result.1 = a.toInt.natAbs / b.toInt.natAbs ∧
      Limbs.toNat result.2 = a.toInt.natAbs % b.toInt.natAbs ∧
      result.1.length = a.limbs.length + 1 - b.limbs.length ∧
      result.2.length = (0 :: a.limbs).length := by
  have hvalue := b.toNat_limbs
  rw [h] at hvalue hlong ⊢
  rw [← hvalue, ← a.toNat_limbs]
  exact Limbs.divideLong_holds (head_ne_zero_of_limbs h) (by simp) hlong

theorem divideByLimb_limbs_holds {a b : Coefficient} {v : UInt32} (h : b.limbs = [v])
    (hcapacity : (0 :: a.limbs).length ≤ Limbs.capacity) :
    (do
      let (quotient, remainder) ← Limbs.divideByLimb v.toUInt64 0 (0 :: a.limbs)
      Guarded.require (quotient.length ≤ Limbs.capacity)
      return withSigns a b (Limbs.toCoefficient? quotient) (.ok (ofWord remainder))).Holds
      (DivisionResult a b) := by
  have hb := toInt_ne_zero_of_limbs h
  refine Holds.bind (divideByLimb_magnitudes a h) fun result hresult => ?_
  obtain ⟨quotient, rest⟩ := result
  obtain ⟨hlength, hquot, hmod⟩ := hresult
  dsimp only at hlength hquot hmod ⊢
  rw [← hlength] at hcapacity
  refine Holds.bind (Guarded.holds_require hcapacity) fun _ _ => Holds.pure ?_
  obtain ⟨q, hq, hqvalue⟩ := Limbs.toCoefficient?_eq hcapacity (by
    rw [hquot]
    exact Nat.lt_of_le_of_lt (Nat.div_le_self _ _) a.natAbs_lt)
  rw [hq]
  refine divisionResult_withSigns hb (hqvalue.trans (by rw [hquot])) ?_
  have hword := rest.toNat_lt
  rw [toInt_ofWord, hmod, bmod_eq_self]
  unfold Fits
  omega

theorem divideLong_limbs_holds {a b : Coefficient} {v w : UInt32} {divisor : Limbs}
    (h : b.limbs = v :: w :: divisor) (hcapacity : (0 :: a.limbs).length ≤ Limbs.capacity)
    (hlong : b.limbs.length ≤ a.limbs.length) :
    (do
      let (quotient, remainder) ← Limbs.divideLong (0 :: a.limbs) b.limbs
      Guarded.require (quotient.length ≤ Limbs.capacity)
      return withSigns a b (Limbs.toCoefficient? quotient)
        (Limbs.toCoefficient? remainder)).Holds (DivisionResult a b) := by
  have hb := toInt_ne_zero_of_limbs h
  refine Holds.bind (divideLong_magnitudes h hlong) fun result hresult => ?_
  obtain ⟨quotient, remainder⟩ := result
  obtain ⟨hquot, hrest, hqlength, hrlength⟩ := hresult
  dsimp only at hquot hrest hqlength hrlength ⊢
  have hqcapacity : quotient.length ≤ Limbs.capacity := by
    rw [List.length_cons] at hcapacity
    omega
  have hrcapacity : remainder.length ≤ Limbs.capacity := by
    rw [hrlength]
    exact hcapacity
  refine Holds.bind (Guarded.holds_require hqcapacity) fun _ _ => Holds.pure ?_
  obtain ⟨q, hq, hqvalue⟩ := Limbs.toCoefficient?_eq hqcapacity (by
    rw [hquot]
    exact Nat.lt_of_le_of_lt (Nat.div_le_self _ _) a.natAbs_lt)
  obtain ⟨r, hr, hrvalue⟩ := Limbs.toCoefficient?_eq hrcapacity (by
    rw [hrest]
    exact Nat.lt_of_le_of_lt (Nat.mod_le _ _) a.natAbs_lt)
  rw [hq, hr]
  exact divisionResult_withSigns hb (hqvalue.trans (by rw [hquot])) (hrvalue.trans (by rw [hrest]))

theorem guardedDivide_holds (a b : Coefficient) :
    (guardedDivide a b).Holds (DivisionResult a b) := by
  have ha := a.length_limbs_le
  have hcapacity : (0 :: a.limbs).length ≤ Limbs.capacity := by
    rw [List.length_cons, Limbs.capacity]
    omega
  refine Holds.bind (Guarded.holds_require hcapacity) fun _ _ => ?_
  split
  next hshort => exact Holds.pure (divisionResult_of_length_lt (Nat.lt_of_succ_le hshort))
  next hlong =>
    simp only [List.length_cons, Nat.not_le, Nat.lt_succ_iff] at hlong
    split
    next hnil =>
      refine Holds.pure ?_
      rw [DivisionResult, if_pos ((limbs_eq_nil_iff b).mp hnil)]
    next v hone => exact divideByLimb_limbs_holds hone hcapacity
    next hnil hone =>
      obtain ⟨v, w, divisor, hlimbs⟩ : ∃ v w rest, b.limbs = v :: w :: rest := by
        cases hlimbs : b.limbs with
        | nil => exact absurd hlimbs hnil
        | cons v rest =>
          cases rest with
          | nil => exact absurd hlimbs (hone v)
          | cons w rest => exact ⟨v, w, rest, rfl⟩
      exact divideLong_limbs_holds hlimbs hcapacity hlong

theorem divide_result (a b : Coefficient) : DivisionResult a b (divide a b) :=
  (guardedDivide_holds a b).value

theorem natAbs_tdiv_le_half {m n : Int} (h : 1 < n.natAbs) :
    (m.tdiv n).natAbs ≤ m.natAbs / 2 := by
  rw [Int.natAbs_tdiv]
  exact Nat.div_le_div_left h (by decide)

theorem DivisionResult.exact {a b : Coefficient} {result : Except Error (Coefficient × Coefficient)}
    (h : DivisionResult a b result) (hb : 1 < b.toInt) :
    ∃ q r, result = .ok (q, r) ∧ q.toInt = a.toInt.tdiv b.toInt ∧
      r.toInt = a.toInt.tmod b.toInt := by
  rw [DivisionResult, if_neg (by omega)] at h
  obtain ⟨q, r, hresult, hq, hr⟩ := h
  have hbounds := a.toInt_bounds
  have hhalf := natAbs_tdiv_le_half (m := a.toInt) (n := b.toInt) (by omega)
  have hfits : Fits (a.toInt.tdiv b.toInt) := by
    unfold Fits
    omega
  exact ⟨q, r, hresult, hq.trans (bmod_eq_self hfits), hr⟩

theorem mul_add_eq_of_divisionResult {a b q r : Coefficient}
    (hq : q.toInt = (a.toInt.tdiv b.toInt).bmod (2 ^ 128))
    (hr : r.toInt = a.toInt.tmod b.toInt) : q * b + r = a := by
  rw [← toInt_inj, toInt_add, toInt_mul, hq, hr, Int.bmod_mul_bmod, Int.bmod_add_bmod,
    Int.add_comm, Int.tmod_add_tdiv_mul, bmod_eq_self a.fits_toInt]

/-- Division stays in bounds and fails for a zero divisor alone. Otherwise the quotient is cut off
toward zero and wraps, which only the quotient of the least value by minus one does, and the
remainder is exact, on the side of the dividend and less than the divisor. -/
theorem divide_eq_tdiv_tmod (a b : Coefficient) :
    (guardedDivide a b).intact ∧
      (if b.toInt = 0 then divide a b = .error .divisionByZero
        else ∃ q r, divide a b = .ok (q, r) ∧
          q.toInt = (a.toInt.tdiv b.toInt).bmod (2 ^ 128) ∧
          a.toInt = a.toInt.tdiv b.toInt * b.toInt + r.toInt ∧
          r.toInt.natAbs < b.toInt.natAbs ∧ (r.toInt = 0 ∨ r.toInt.sign = a.toInt.sign) ∧
          q * b + r = a) ∧
      divide least negOne = .ok (least, zero) := by
  refine ⟨(guardedDivide_holds a b).intact, ?_, by decide⟩
  have hresult := divide_result a b
  unfold DivisionResult at hresult
  split
  next hzero => rwa [if_pos hzero] at hresult
  next hne =>
    rw [if_neg hne] at hresult
    obtain ⟨q, r, hdivide, hq, hr⟩ := hresult
    refine ⟨q, r, hdivide, hq, ?_, ?_, ?_, mul_add_eq_of_divisionResult hq hr⟩
    · rw [hr, Int.add_comm, Int.tmod_add_tdiv_mul]
    · rw [hr, Int.natAbs_tmod]
      exact Nat.mod_lt _ (Int.natAbs_pos.mpr hne)
    · rw [hr, Int.sign_tmod]
      split
      next hdvd => exact Or.inl (Int.tmod_eq_zero_of_dvd hdvd)
      next => exact Or.inr rfl

end Coefficient

end WideDecimal
