import WideDecimal.Proofs.OrdinaryNumber
import WideDecimal.Proofs.ScaledText

namespace WideDecimal

open DigitText

namespace Literal

theorem point_not_mem_of_isDigit {digits : List Char} (h : ∀ c ∈ digits, c.isDigit) :
    '.' ∉ digits :=
  fun hmem => absurd (h '.' hmem) (by decide)

theorem Sign.point_not_mem_text (sign : Sign) : '.' ∉ sign.text := by
  cases sign <;> decide

theorem point_not_mem_exponentText (exponent : Option Exponent) :
    '.' ∉ exponentText exponent := by
  cases exponent with
  | none => exact List.not_mem_nil
  | some e =>
    rw [exponentText, Exponent.text, List.mem_cons, List.mem_append, not_or, not_or]
    refine ⟨?_, e.sign.point_not_mem_text, point_not_mem_of_isDigit e.isDigit⟩
    intro hmark
    rcases e.isMark with heq | heq
    · exact absurd (hmark.trans heq) (by decide)
    · exact absurd (hmark.trans heq) (by decide)

theorem Spelling.point_mem_text_iff (f : Spelling) : '.' ∈ f.text ↔ f.fraction ≠ [] := by
  rw [text, tail, List.mem_append, List.mem_append, List.mem_append,
    or_iff_right f.sign.point_not_mem_text,
    or_iff_right (point_not_mem_of_isDigit f.whole_isDigit),
    or_iff_left (point_not_mem_exponentText f.exponent), fractionText]
  split <;> simp_all

theorem Exponent.sign_ofInt_ne_absent (n : Int) : (ofInt n).sign ≠ .absent := by
  unfold ofInt
  split <;> simp

end Literal

open Literal

namespace Coefficient

theorem sign_spelling_iff (v : Coefficient) (scale : Int32) :
    (v.spelling scale).sign = .minus ↔ v.toInt < 0 := by
  have hsign : (v.spelling scale).sign = if v.isNegative then Sign.minus else Sign.absent := rfl
  rw [hsign, ← isNegative_iff]
  split <;> simp_all

theorem sign_spelling_ne_plus (v : Coefficient) (scale : Int32) :
    (v.spelling scale).sign ≠ .plus := by
  have hsign : (v.spelling scale).sign = if v.isNegative then Sign.minus else Sign.absent := rfl
  rw [hsign]
  split <;> simp

theorem whole_eq_zero_of_head {v : Coefficient} {scale : Int32}
    (h : (v.spelling scale).whole.head? = some '0') : (v.spelling scale).whole = ['0'] := by
  by_cases hinside : v.places scale < v.digitCount
  · obtain ⟨whole, hwhole⟩ := List.head?_eq_some_iff.mp h
    have hdigits := v.whole_append_fraction scale
    rw [shown_eq hinside, hwhole] at hdigits
    have hrest := toDigits_eq_zero hdigits.symm
    rw [hwhole, (List.append_eq_nil_iff.mp hrest).1]
  · exact whole_eq_zero (Nat.le_of_not_lt hinside)

theorem exponent_spelling_eq_none_iff (v : Coefficient) (scale : Int32) :
    (v.spelling scale).exponent = none ↔
      scale.toInt = 0 ∨ (0 < scale.toInt ∧ -6 ≤ (v.digitCount : Int) - 1 - scale.toInt) := by
  have huses := v.usesExponent_iff scale
  rw [adjustedExponent_eq, minPlainExponent] at huses
  by_cases hexp : v.usesExponent scale = true
  · rw [exponent_scientific hexp]
    have := huses.mp hexp
    simp only [reduceCtorEq, false_iff]
    omega
  · rw [exponent_plain hexp]
    have := mt huses.mpr hexp
    simp only [true_iff]
    omega

/-- One digit stands before the point, and the first digit counts what the exponent says. -/
theorem scientific_spelling {v : Coefficient} {scale : Int32} {e : Exponent}
    (h : (v.spelling scale).exponent = some e) :
    (v.spelling scale).whole.length = 1 ∧ e.mark = 'E' ∧ e.sign ≠ .absent ∧
      e.value = (v.digitCount : Int) - 1 - scale.toInt := by
  by_cases hexp : v.usesExponent scale = true
  · have hpos := v.digitCount_pos
    have hplaces := places_scientific hexp
    rw [exponent_scientific hexp, Option.some.injEq] at h
    subst h
    refine ⟨?_, rfl, Exponent.sign_ofInt_ne_absent _, ?_⟩
    · rw [length_whole]
      omega
    · rw [Exponent.value_ofInt, adjustedExponent_eq]
  · rw [exponent_plain hexp] at h
    cases h

theorem ordinary_spelling (v : Coefficient) (scale : Int32) :
    (v.spelling scale).ordinary = v.decimal scale := by
  have hpos := v.digitCount_pos
  have hpower : exponentValue (v.spelling scale).exponent - v.places scale = -scale.toInt := by
    by_cases hexp : v.usesExponent scale = true
    · have hplaces := places_scientific hexp
      have hadjusted := v.adjustedExponent_eq scale
      rw [exponent_scientific hexp, exponentValue, Exponent.value_ofInt]
      omega
    · rw [exponent_plain hexp, exponentValue, places_plain hexp, Int.zero_sub]
  rw [Spelling.ordinary_eq, number_spelling, length_fraction, hpower, decimal]

/-- The text of a coefficient at a scale is computed in bounds and denotes the coefficient at that
scale. It is plain for a scale of zero, and for a positive scale that leaves at most five zeros
between the point and the first other digit; then the scale is the number of places. Any other
text is scientific. -/
theorem scaledText_notation (v : Coefficient) (scale : Int32) :
    (guardedScaled v scale).intact ∧
    ∃ f : Spelling, (∀ g : Spelling, g.text = (v.scaledText scale).toList ↔ g = f) ∧
      f.ordinary = v.decimal scale ∧
      (f.sign = .minus ↔ v.toInt < 0) ∧ f.sign ≠ .plus ∧
      ('.' ∈ (v.scaledText scale).toList ↔ f.fraction ≠ []) ∧
      (f.exponent = none ↔
        scale.toInt = 0 ∨ (0 < scale.toInt ∧ -6 ≤ (v.digitCount : Int) - 1 - scale.toInt)) ∧
      (f.exponent = none → (f.fraction.length : Int) = max scale.toInt 0 ∧ f.whole ≠ [] ∧
        (f.whole.head? = some '0' → f.whole = ['0'])) ∧
      ∀ e, f.exponent = some e → f.whole.length = 1 ∧ e.mark = 'E' ∧ e.sign ≠ .absent ∧
        e.value = (v.digitCount : Int) - 1 - scale.toInt := by
  have htext : (v.spelling scale).text = (v.scaledText scale).toList := by
    rw [text_spelling, scaledText, String.toList_ofList]
  refine ⟨(guardedScaled_holds v scale).intact, v.spelling scale, fun g => ?_,
    v.ordinary_spelling scale, v.sign_spelling_iff scale, v.sign_spelling_ne_plus scale, ?_,
    v.exponent_spelling_eq_none_iff scale, fun hplain => ⟨?_, ?_, whole_eq_zero_of_head⟩,
    fun e he => scientific_spelling he⟩
  · rw [← htext]
    exact ⟨Spelling.text_injective, congrArg Spelling.text⟩
  · rw [← htext]
    exact (v.spelling scale).point_mem_text_iff
  · have hnone := (v.exponent_spelling_eq_none_iff scale).mp hplain
    have hexp : ¬v.usesExponent scale = true := fun hexp => by
      rw [exponent_scientific hexp] at hplain
      cases hplain
    rw [length_fraction, places_plain hexp]
    omega
  · rw [← List.length_pos_iff, length_whole]
    omega

end Coefficient

end WideDecimal
