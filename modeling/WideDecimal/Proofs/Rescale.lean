import WideDecimal.Coefficient.Rescale
import WideDecimal.Proofs.Division
import WideDecimal.Proofs.OrdinaryNumber

namespace WideDecimal.Coefficient

/-- Whether one power of ten of at most 38 digits lies between two different scales. -/
def InReach (old new : Int32) : Prop :=
  1 ≤ (new.toInt - old.toInt).natAbs ∧ (new.toInt - old.toInt).natAbs ≤ 38

theorem toInt_powersOfTen {k : Nat} (h : k ≤ maxDigits) :
    (powersOfTen.getD k one).toInt = 10 ^ k := by
  have hall : ∀ k < maxDigits + 1, (powersOfTen.getD k one).toInt = 10 ^ k := by decide
  exact hall k (Nat.lt_succ_of_le h)

theorem decimal_inj {a b : Coefficient} {scale : Int32} :
    a.decimal scale = b.decimal scale ↔ a = b := by
  rw [decimal, decimal, mul_left_inj' (ten_zpow_ne_zero _), Int.cast_inj, toInt_inj]

theorem decimal_eq_decimal_iff {v r : Coefficient} {old new : Int32} {k : Nat}
    (h : old.toInt = new.toInt + k) :
    r.decimal new = v.decimal old ↔ r.toInt * 10 ^ k = v.toInt := by
  have hscale : (10 : ℚ) ^ (-new.toInt) = 10 ^ k * 10 ^ (-old.toInt) := by
    rw [← zpow_natCast, ← ten_zpow_add, h]
    refine congrArg ((10 : ℚ) ^ ·) ?_
    omega
  rw [decimal, decimal, hscale, ← mul_assoc, mul_left_inj' (ten_zpow_ne_zero _)]
  norm_cast

/-- Moving to a lower scale divides, and loses digits exactly where there is a remainder. -/
theorem rescale_lower (v : Coefficient) {old new : Int32} {k : Nat}
    (h : old.toInt = new.toInt + k) (hpos : 1 ≤ k) (hle : k ≤ 38) :
    (∃ r, rescale v old new = .ok r ∧ r.decimal new = v.decimal old) ∨
      rescale v old new = .error (.dataLoss (v.scaledText old) old new) ∧
        ∀ r : Coefficient, r.decimal new ≠ v.decimal old := by
  have hdistance : (new.toInt - old.toInt).natAbs = k := by omega
  have hpower := toInt_powersOfTen (show k ≤ maxDigits from hle)
  have hlt : (1 : Int) < 10 ^ k := by
    exact_mod_cast Nat.one_lt_pow (by omega) (show 1 < 10 by decide)
  obtain ⟨q, r, hdivide, hq, hr⟩ := (divide_result v _).exact (hpower ▸ hlt)
  rw [hpower] at hq hr
  have hrescale : rescale v old new =
      if r.isZero then .ok q else .error (.dataLoss (v.scaledText old) old new) := by
    unfold rescale
    simp only [hdistance]
    rw [if_neg (by rw [maxDigits]; omega), if_pos (by omega), hdivide]
  by_cases hzero : r.isZero = true
  · left
    refine ⟨q, hrescale.trans (if_pos hzero), (decimal_eq_decimal_iff h).mpr ?_⟩
    rw [isZero_iff, hr] at hzero
    rw [hq]
    exact Int.tdiv_mul_cancel (Int.dvd_of_tmod_eq_zero hzero)
  · right
    refine ⟨hrescale.trans (if_neg hzero), fun r' heq => hzero ?_⟩
    rw [isZero_iff, hr]
    have hproduct := (decimal_eq_decimal_iff h).mp heq
    exact Int.tmod_eq_zero_of_dvd ⟨r'.toInt, by rw [← hproduct, Int.mul_comm]⟩

/-- Moving to a higher scale multiplies, and loses digits exactly where the product has no
coefficient. -/
theorem rescale_higher (v : Coefficient) {old new : Int32} {k : Nat}
    (h : new.toInt = old.toInt + k) (hpos : 1 ≤ k) (hle : k ≤ 38) :
    (∃ r, rescale v old new = .ok r ∧ r.decimal new = v.decimal old) ∨
      rescale v old new = .error (.dataLoss (v.scaledText old) old new) ∧
        ∀ r : Coefficient, r.decimal new ≠ v.decimal old := by
  have hdistance : (new.toInt - old.toInt).natAbs = k := by omega
  have hmoved (r : Coefficient) : r.decimal new = v.decimal old ↔ v.toInt * 10 ^ k = r.toInt :=
    eq_comm.trans (decimal_eq_decimal_iff h)
  have hmul : checkedMul v (powersOfTen.getD k one) = ofInt? (v.toInt * 10 ^ k) := by
    rw [checkedMul_eq, toInt_powersOfTen (show k ≤ maxDigits from hle)]
  have hrescale : rescale v old new =
      (ofInt? (v.toInt * 10 ^ k)).elim (.error (.dataLoss (v.scaledText old) old new)) .ok := by
    unfold rescale
    simp only [hdistance]
    rw [if_neg (by rw [maxDigits]; omega), if_neg (by omega), hmul]
    cases ofInt? (v.toInt * 10 ^ k) <;> rfl
  cases hproduct : ofInt? (v.toInt * 10 ^ k) with
  | some r =>
    left
    rw [hproduct] at hrescale
    exact ⟨r, hrescale, (hmoved r).mpr (ofInt?_eq_some_iff.mp hproduct).symm⟩
  | none =>
    right
    rw [hproduct] at hrescale
    refine ⟨hrescale, fun r heq => ?_⟩
    rw [ofInt?_eq_none_iff, (hmoved r).mp heq] at hproduct
    exact hproduct r.fits_toInt

theorem rescale_of_inReach (v : Coefficient) {old new : Int32} (h : InReach old new) :
    (∃ r, rescale v old new = .ok r ∧ r.decimal new = v.decimal old) ∨
      rescale v old new = .error (.dataLoss (v.scaledText old) old new) ∧
        ∀ r : Coefficient, r.decimal new ≠ v.decimal old := by
  obtain ⟨hpos, hle⟩ := h
  by_cases hlower : new.toInt ≤ old.toInt
  · exact v.rescale_lower (by omega) hpos hle
  · exact v.rescale_higher (by omega) hpos hle

theorem rescale_of_not_inReach (v : Coefficient) {old new : Int32} (h : ¬InReach old new) :
    rescale v old new = .error (.scaleDistance old new) := by
  unfold InReach at h
  unfold rescale
  dsimp only
  rw [if_pos (by rw [maxDigits]; omega)]

theorem rescale_eq_ok_iff {v r : Coefficient} {old new : Int32} :
    rescale v old new = .ok r ↔ InReach old new ∧ r.decimal new = v.decimal old := by
  by_cases hreach : InReach old new
  · rw [and_iff_right hreach]
    rcases v.rescale_of_inReach hreach with ⟨q, hok, hq⟩ | ⟨herror, hnone⟩
    · rw [hok, Except.ok.injEq, ← hq, decimal_inj, eq_comm]
    · rw [herror]
      constructor
      · intro h
        cases h
      · intro hr
        exact absurd hr (hnone r)
  · rw [v.rescale_of_not_inReach hreach]
    constructor
    · intro h
      cases h
    · intro hr
      exact absurd hr.1 hreach

/-- A value moves to another scale exactly where the two are in reach of each other and the new one
has a coefficient for the number, and there is no other failure than these two. -/
theorem rescale_eq_decimal (v : Coefficient) (old new : Int32) :
    (rescale v old new = .error (.scaleDistance old new) ↔ ¬InReach old new) ∧
    (∀ r, rescale v old new = .ok r ↔ InReach old new ∧ r.decimal new = v.decimal old) ∧
    (rescale v old new = .error (.dataLoss (v.scaledText old) old new) ↔
      InReach old new ∧ ¬∃ r : Coefficient, r.decimal new = v.decimal old) ∧
    ∀ e, rescale v old new = .error e →
      e = .scaleDistance old new ∨ e = .dataLoss (v.scaledText old) old new := by
  by_cases hreach : InReach old new
  · simp only [hreach, not_true_eq_false, true_and, iff_false]
    rcases v.rescale_of_inReach hreach with ⟨r, hok, hr⟩ | ⟨herror, hnone⟩
    · rw [hok]
      refine ⟨nofun, fun r' => ?_, ⟨nofun, fun hnone => absurd ⟨r, hr⟩ hnone⟩, nofun⟩
      rw [Except.ok.injEq, ← hr, decimal_inj, eq_comm]
    · rw [herror]
      refine ⟨nofun, fun r => ⟨nofun, fun hr => absurd hr (hnone r)⟩,
        ⟨fun _ ⟨r, hr⟩ => hnone r hr, fun _ => rfl⟩, fun e he => ?_⟩
      exact Or.inr (Except.error.inj he).symm
  · rw [v.rescale_of_not_inReach hreach]
    refine ⟨iff_of_true rfl hreach, fun r => ⟨nofun, fun hr => absurd hr.1 hreach⟩,
      ⟨nofun, fun hr => absurd hr.1 hreach⟩, fun e he => ?_⟩
    exact Or.inl (Except.error.inj he).symm

end WideDecimal.Coefficient
