import WideDecimal.Proofs.TwosComplement

namespace WideDecimal.Coefficient

theorem compare_eq_compare_toInt (a b : Coefficient) :
    compare a b = compare a.toInt b.toInt := by
  have hlt : compare a b = .lt ↔ a.toInt < b.toInt := lt_iff a b
  have hle : (compare a b).isLE ↔ a.toInt ≤ b.toInt := le_iff a b
  change compare a b = compareOfLessAndEq a.toInt b.toInt
  unfold compareOfLessAndEq
  cases h : compare a b with
  | lt => rw [if_pos (hlt.mp h)]
  | eq =>
    have hnot := mt hlt.mpr (by simp [h])
    have heq : a.toInt = b.toInt := Int.le_antisymm (hle.mp (by simp [h])) (Int.not_lt.mp hnot)
    rw [if_neg hnot, if_pos heq]
  | gt =>
    have hgt := Int.not_le.mp (mt hle.mpr (by simp [h]))
    rw [if_neg (by omega), if_neg (by omega)]

theorem compare_eq_eq_iff (a b : Coefficient) :
    compare a b = .eq ↔ a.high = b.high ∧ a.low = b.low := by
  rw [compare_eq_compare_toInt, Std.compare_eq_iff_eq, toInt_inj]
  cases a
  cases b
  rw [mk.injEq]

theorem isLinearOrder : Std.IsLinearOrder Coefficient where
  le_refl a := (le_iff a a).mpr (Int.le_refl _)
  le_trans a b c hab hbc :=
    (le_iff a c).mpr (Int.le_trans ((le_iff a b).mp hab) ((le_iff b c).mp hbc))
  le_antisymm a b hab hba :=
    toInt_inj.mp (Int.le_antisymm ((le_iff a b).mp hab) ((le_iff b a).mp hba))
  le_total a b := by
    rw [le_iff, le_iff]
    exact Int.le_total _ _

theorem lt_iff_checkedSub (a b : Coefficient) :
    a < b ↔ (∃ d, checkedSub a b = some d ∧ d.toInt < 0) ∨
      checkedSub a b = none ∧ a.toInt < 0 := by
  have ha := a.toInt_bounds
  have hb := b.toInt_bounds
  rw [lt_iff, checkedSub_eq, ofInt?_eq_none_iff]
  by_cases h : Fits (a.toInt - b.toInt)
  · have hvalue := toInt_ofInt_of_bounds h.1 h.2
    constructor
    · intro hlt
      exact .inl ⟨_, if_pos h, by omega⟩
    · rintro (⟨d, hd, hneg⟩ | ⟨hnone, -⟩)
      · have := ofInt?_eq_some_iff.mp hd
        omega
      · exact absurd h hnone
  · have hnone := ofInt?_eq_none_iff.mpr h
    unfold Fits at h
    constructor
    · intro hlt
      exact .inr ⟨h, by omega⟩
    · rintro (⟨d, hd, -⟩ | ⟨-, hneg⟩)
      · rw [hnone] at hd
        cases hd
      · omega

theorem toInt_excess (a b : Coefficient) :
    (excess a b).toInt = (max (a.toInt - b.toInt) 0).bmod (2 ^ 128) := by
  unfold excess
  split
  next h =>
    have hle := (le_iff a b).mp h
    rw [Int.max_eq_right (by omega)]
    rfl
  next h =>
    have hgt := Int.not_le.mp (mt (le_iff a b).mpr h)
    rw [Int.max_eq_left (by omega), toInt_sub]

/-- Coefficients are ordered like the integers they denote, with equal ones in both words alone.
Less is less than a negative difference tells, or than a negative first operand where there is no
difference. The excess is exact up to the greatest coefficient, and negative above it. -/
theorem order_agrees_difference :
    Std.IsLinearOrder Coefficient ∧ ∀ a b : Coefficient,
      compare a b = compare a.toInt b.toInt ∧
      (compare a b = .eq ↔ a.high = b.high ∧ a.low = b.low) ∧
      (a < b ↔ (∃ d, checkedSub a b = some d ∧ d.toInt < 0) ∨
        checkedSub a b = none ∧ a.toInt < 0) ∧
      (a.toInt - b.toInt ≤ 2 ^ 127 - 1 → (excess a b).toInt = max (a.toInt - b.toInt) 0) ∧
      ((excess a b).toInt < 0 ↔ 2 ^ 127 - 1 < a.toInt - b.toInt) := by
  refine ⟨isLinearOrder, fun a b => ⟨compare_eq_compare_toInt a b, compare_eq_eq_iff a b, ?_⟩⟩
  refine ⟨lt_iff_checkedSub a b, ?_, ?_⟩
  · intro h
    rw [toInt_excess, bmod_eq_self]
    unfold Fits
    omega
  · have ha := a.toInt_bounds
    have hb := b.toInt_bounds
    rw [toInt_excess, Int.bmod_def]
    omega

/-- The wrapped difference alone would order these the other way round. -/
example : least < one ∧ checkedSub least one = none ∧ least - one = greatest := by decide

end WideDecimal.Coefficient
