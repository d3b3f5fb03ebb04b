import WideDecimal.Proofs.Division

namespace WideDecimal.Coefficient

/-- What a wrapped and a checked form of one operation make of its exact result. -/
structure Checks (exact : Int) (wrapped : Coefficient) (checked : Option Coefficient) : Prop where
  wraps : wrapped.toInt = exact.bmod (2 ^ 128)
  isSome_iff : checked.isSome ↔ Fits exact
  agrees : ∀ r, checked = some r → r.toInt = exact ∧ r = wrapped

theorem checks_of_eq_ofInt? {exact : Int} {wrapped : Coefficient} {checked : Option Coefficient}
    (hwrapped : wrapped.toInt = exact.bmod (2 ^ 128)) (h : checked = ofInt? exact) :
    Checks exact wrapped checked := by
  subst h
  refine ⟨hwrapped, ?_, ?_⟩
  · rw [Option.isSome_iff_ne_none, ne_eq, ofInt?_eq_none_iff, not_not]
  · intro r hr
    have hvalue := ofInt?_eq_some_iff.mp hr
    have hfits : Fits exact := hvalue ▸ r.fits_toInt
    refine ⟨hvalue, ?_⟩
    apply toInt_inj.mp
    rw [hvalue, hwrapped, bmod_eq_self hfits]

theorem toInt_least : least.toInt = -2 ^ 127 := by decide

theorem toInt_negOne : negOne.toInt = -1 := by decide

theorem fits_neg_iff (a : Coefficient) : Fits (-a.toInt) ↔ a ≠ least := by
  have hbounds := a.toInt_bounds
  rw [ne_eq, ← toInt_inj, toInt_least]
  unfold Fits
  omega

theorem checkedNeg_eq (a : Coefficient) : checkedNeg a = ofInt? (-a.toInt) := by
  have hover : a = least ↔ ¬Fits (-a.toInt) := by
    rw [fits_neg_iff, ne_eq, not_not]
  exact ite_eq_ofInt? hover (toInt_neg a)

theorem fits_tdiv_iff {a b : Coefficient} (hb : b.toInt ≠ 0) :
    Fits (a.toInt.tdiv b.toInt) ↔ ¬(a = least ∧ b = negOne) := by
  have hbounds := a.toInt_bounds
  rw [← toInt_inj, ← toInt_inj, toInt_least, toInt_negOne]
  unfold Fits
  rcases (show b.toInt = 1 ∨ b.toInt = -1 ∨ 1 < b.toInt.natAbs by omega) with hone | hone | hlarge
  · rw [hone, Int.tdiv_one]
    omega
  · rw [hone, Int.tdiv_neg, Int.tdiv_one]
    omega
  · have hhalf := natAbs_tdiv_le_half (m := a.toInt) hlarge
    omega

/-- Division has checked results where the exact quotient has a coefficient, and these are the two
results of the unchecked division. -/
theorem checkedDivision_eq (a b : Coefficient) :
    if b = zero ∨ (a = least ∧ b = negOne) then checkedDiv a b = none ∧ checkedRem a b = none
    else ∃ q r, divide a b = .ok (q, r) ∧ checkedDiv a b = some q ∧ checkedRem a b = some r ∧
      a.div b = .ok q ∧ a.rem b = .ok r ∧
      q.toInt = a.toInt.tdiv b.toInt ∧ r.toInt = a.toInt.tmod b.toInt := by
  have hresult := divide_result a b
  unfold DivisionResult at hresult
  split
  next hnone =>
    by_cases hexcluded : a = least ∧ b = negOne
    · simp [checkedDiv, checkedRem, hexcluded]
    · rw [if_pos (eq_zero_iff.mp (hnone.resolve_right hexcluded))] at hresult
      simp [checkedDiv, checkedRem, hexcluded, hresult, Except.toOption]
  next hsome =>
    obtain ⟨hne, hexcluded⟩ := not_or.mp hsome
    have hb := mt eq_zero_iff.mpr hne
    rw [if_neg hb] at hresult
    obtain ⟨q, r, hdivide, hq, hr⟩ := hresult
    have hexact := hq.trans (bmod_eq_self ((fits_tdiv_iff hb).mpr hexcluded))
    refine ⟨q, r, hdivide, ?_, ?_, ?_, ?_, hexact, hr⟩
    · simp [checkedDiv, hexcluded, hdivide, Except.toOption]
    · simp [checkedRem, hexcluded, hdivide, Except.toOption]
    · simp [div, hdivide]
    · simp [rem, hdivide]

/-- Sum, difference and opposite wrap, and their checked forms are there exactly where the exact
results fit. Quotient and remainder are checked together: they are missing for a zero divisor and
for the least value by minus one. A checked result is always the wrapped one. -/
theorem checked_agrees_wrapped (a b : Coefficient) :
    Checks (a.toInt + b.toInt) (a + b) (checkedAdd a b) ∧
    Checks (a.toInt - b.toInt) (a - b) (checkedSub a b) ∧
    Checks (-a.toInt) (-a) (checkedNeg a) ∧
    if b = zero ∨ (a = least ∧ b = negOne) then checkedDiv a b = none ∧ checkedRem a b = none
    else ∃ q r, divide a b = .ok (q, r) ∧ checkedDiv a b = some q ∧ checkedRem a b = some r ∧
      a.div b = .ok q ∧ a.rem b = .ok r ∧
      q.toInt = a.toInt.tdiv b.toInt ∧ r.toInt = a.toInt.tmod b.toInt := by
  refine ⟨?_, ?_, ?_, checkedDivision_eq a b⟩
  · exact checks_of_eq_ofInt? (toInt_add a b) (checkedAdd_eq a b)
  · exact checks_of_eq_ofInt? (toInt_sub a b) (checkedSub_eq a b)
  · exact checks_of_eq_ofInt? (toInt_neg a) (checkedNeg_eq a)

end WideDecimal.Coefficient
