import Mathlib.Data.List.DropRight
import WideDecimal.Proofs.Notation
import WideDecimal.Proofs.Rescale

namespace WideDecimal

open DigitText

namespace Literal

theorem fractionText_append_zeros {fraction : List Char} {k : Nat} (hk : 1 ≤ k) :
    fractionText (fraction ++ List.replicate k '0') =
      fractionText fraction ++ (if fraction = [] then ['.'] else []) ++ List.replicate k '0' := by
  obtain ⟨j, rfl⟩ := Nat.exists_eq_add_of_le' hk
  unfold fractionText
  by_cases hnil : fraction = []
  · simp [hnil, List.replicate_succ]
  · simp [hnil]

namespace Spelling

/-- What stands before the exponent. -/
def mantissa (f : Spelling) : List Char := f.sign.text ++ (f.whole ++ fractionText f.fraction)

theorem text_eq_mantissa_append (f : Spelling) :
    f.text = f.mantissa ++ exponentText f.exponent := by
  simp [text, tail, mantissa]

theorem mark_not_mem_mantissa (f : Spelling) : 'E' ∉ f.mantissa := by
  have hplain := mark_not_mem_text (f := { f with exponent := none }) rfl
  rw [text_eq_mantissa_append] at hplain
  simpa [mantissa, exponentText] using hplain

theorem filter_isDigit_mantissa (f : Spelling) :
    f.mantissa.filter Char.isDigit = f.whole ++ f.fraction := by
  have hsign : f.sign.text.filter Char.isDigit = [] := by
    cases f.sign <;> rfl
  have hwhole : f.whole.filter Char.isDigit = f.whole := List.filter_eq_self.mpr f.whole_isDigit
  have hfraction : (fractionText f.fraction).filter Char.isDigit = f.fraction := by
    have hall := List.filter_eq_self.mpr f.fraction_isDigit
    unfold fractionText
    split
    next hnil => simp [hnil]
    next => simpa [Char.isDigit] using hall
  rw [mantissa, List.filter_append, List.filter_append, hsign, hwhole, hfraction, List.nil_append]

end Spelling

end Literal

open Literal

namespace Coefficient

theorem padded_append_zeros (digits : List Char) (places k : Nat) :
    padded (digits ++ List.replicate k '0') (places + k) =
      padded digits places ++ List.replicate k '0' := by
  have hmissing : places + k + 1 - (digits.length + k) = places + 1 - digits.length := by omega
  simp [padded, List.leftpad, hmissing]

theorem padded_zero (places : Nat) : padded ['0'] places = List.replicate (places + 1) '0' := by
  rw [padded, List.leftpad, List.length_singleton, Nat.add_sub_cancel, List.replicate_succ']

section

variable {v r : Coefficient} {scale finer : Int32} {k : Nat}

theorem natAbs_moved (hr : r.toInt = v.toInt * 10 ^ k) :
    r.toInt.natAbs = v.toInt.natAbs * 10 ^ k := by
  rw [hr, Int.natAbs_mul, Int.natAbs_pow]
  rfl

theorem toDigits_moved (hr : r.toInt = v.toInt * 10 ^ k) (hne : v.toInt ≠ 0) :
    Nat.toDigits 10 r.toInt.natAbs = Nat.toDigits 10 v.toInt.natAbs ++ List.replicate k '0' := by
  rw [natAbs_moved hr, toDigits_mul_pow (Int.natAbs_pos.mpr hne)]

theorem digitCount_moved (hr : r.toInt = v.toInt * 10 ^ k) (hne : v.toInt ≠ 0) :
    r.digitCount = v.digitCount + k := by
  simp [digitCount, toDigits_moved hr hne]

theorem isNegative_moved (hr : r.toInt = v.toInt * 10 ^ k) : r.isNegative = v.isNegative := by
  have hpow : (0 : Int) < 10 ^ k := Int.pow_pos (by decide)
  rw [isNegative_eq_iff, hr]
  constructor
  · intro hneg
    exact neg_of_mul_neg_left hneg hpow.le
  · intro hneg
    exact Int.mul_neg_of_neg_of_pos hneg hpow

/-- The digit count grows with the scale, so that the first digit keeps its exponent. -/
theorem adjustedExponent_moved (hr : r.toInt = v.toInt * 10 ^ k) (hne : v.toInt ≠ 0)
    (hfiner : finer.toInt = scale.toInt + k) :
    r.adjustedExponent finer = v.adjustedExponent scale := by
  have hcount := digitCount_moved hr hne
  rw [adjustedExponent_eq, adjustedExponent_eq]
  omega

theorem usesExponent_moved (hr : r.toInt = v.toInt * 10 ^ k) (hne : v.toInt ≠ 0)
    (hfiner : finer.toInt = scale.toInt + k) (hscale : 0 ≤ scale.toInt) :
    r.usesExponent finer = true ↔ v.usesExponent scale = true := by
  have hpos := v.digitCount_pos
  have hadjusted := v.adjustedExponent_eq scale
  rw [usesExponent_iff, usesExponent_iff, adjustedExponent_moved hr hne hfiner, minPlainExponent]
  omega

theorem places_moved_plain (hfiner : finer.toInt = scale.toInt + k)
    (hv : ¬v.usesExponent scale = true) (hr : ¬r.usesExponent finer = true) :
    r.places finer = v.places scale + k := by
  have hbefore := places_plain hv
  have hafter := places_plain hr
  omega

theorem places_moved (hr : r.toInt = v.toInt * 10 ^ k) (hne : v.toInt ≠ 0)
    (hfiner : finer.toInt = scale.toInt + k) (hscale : 0 ≤ scale.toInt) :
    r.places finer = v.places scale + k := by
  have huses := usesExponent_moved hr hne hfiner hscale
  by_cases hexp : v.usesExponent scale = true
  · have hcount := digitCount_moved hr hne
    have hpos := v.digitCount_pos
    rw [places_scientific hexp, places_scientific (huses.mpr hexp)]
    omega
  · exact places_moved_plain hfiner hexp (mt huses.mp hexp)

theorem shown_moved (hr : r.toInt = v.toInt * 10 ^ k)
    (hplaces : r.places finer = v.places scale + k) :
    r.shown finer = v.shown scale ++ List.replicate k '0' := by
  rw [shown, shown, hplaces]
  by_cases hzero : v.toInt = 0
  · -- A zero is all padding, and grows by it alone.
    have hvalue : r.toInt = 0 := by rw [hr, hzero, Int.zero_mul]
    rw [hvalue, hzero, Int.natAbs_zero, Nat.toDigits_zero, padded_zero, padded_zero,
      List.replicate_append_replicate, Nat.add_right_comm]
  · rw [toDigits_moved hr hzero, padded_append_zeros]

theorem parts_moved (hr : r.toInt = v.toInt * 10 ^ k)
    (hplaces : r.places finer = v.places scale + k) :
    (r.spelling finer).whole = (v.spelling scale).whole ∧
      (r.spelling finer).fraction = (v.spelling scale).fraction ++ List.replicate k '0' := by
  have hshown := shown_moved hr hplaces
  rw [← whole_append_fraction, ← whole_append_fraction, List.append_assoc] at hshown
  apply List.append_inj hshown
  have hlength := congrArg List.length hshown
  have hbefore := v.length_fraction scale
  have hafter := r.length_fraction finer
  simp only [List.length_append, List.length_replicate] at hlength
  omega

theorem mantissa_moved (hr : r.toInt = v.toInt * 10 ^ k)
    (hplaces : r.places finer = v.places scale + k) (hk : 1 ≤ k) :
    (r.spelling finer).mantissa = (v.spelling scale).mantissa ++
      (if (v.spelling scale).fraction = [] then ['.'] else []) ++ List.replicate k '0' := by
  obtain ⟨hwhole, hfraction⟩ := parts_moved hr hplaces
  have hsign : (r.spelling finer).sign = (v.spelling scale).sign := by
    change r.writtenSign = v.writtenSign
    rw [writtenSign, writtenSign, isNegative_moved hr]
  simp only [Spelling.mantissa, hsign, hwhole, hfraction, fractionText_append_zeros hk,
    List.append_assoc]

end

theorem scaled_eq_mantissa_append (v : Coefficient) (scale : Int32) :
    v.scaled scale = (v.spelling scale).mantissa ++ exponentText (v.spelling scale).exponent := by
  rw [← text_spelling, Spelling.text_eq_mantissa_append]

theorem mark_mem_scaled_iff_exponent (v : Coefficient) (scale : Int32) :
    'E' ∈ v.scaled scale ↔ (v.spelling scale).exponent ≠ none := by
  rw [mark_mem_scaled_iff]
  constructor
  · intro hexp
    simp [exponent_scientific hexp]
  · intro hsome
    exact Decidable.of_not_not fun hplain => hsome (exponent_plain hplain)

theorem scaled_plain {v : Coefficient} {scale : Int32} (h : 'E' ∉ v.scaled scale) :
    v.scaled scale = (v.spelling scale).mantissa := by
  rw [mark_mem_scaled_iff] at h
  rw [scaled_eq_mantissa_append, exponent_plain h, exponentText, List.append_nil]

theorem fraction_eq_nil_iff_plain {v : Coefficient} {scale : Int32} (h : 'E' ∉ v.scaled scale) :
    (v.spelling scale).fraction = [] ↔ scale = 0 := by
  rw [mark_mem_scaled_iff] at h
  have hplaces := places_plain h
  rw [← List.length_eq_zero_iff, length_fraction, ← Int32.toInt_inj, Int32.toInt_zero]
  omega

theorem fraction_eq_nil_iff_scientific {v : Coefficient} {scale : Int32}
    (h : 'E' ∈ v.scaled scale) :
    (v.spelling scale).fraction = [] ↔
      ((v.spelling scale).mantissa.filter Char.isDigit).length = 1 := by
  rw [mark_mem_scaled_iff_exponent] at h
  obtain ⟨e, he⟩ := Option.ne_none_iff_exists'.mp h
  have hwhole := (scientific_spelling he).1
  rw [Spelling.filter_isDigit_mantissa, List.length_append, hwhole, ← List.length_eq_zero_iff]
  omega

theorem exists_exponentText {v : Coefficient} {scale : Int32} (h : 'E' ∈ v.scaled scale) :
    ∃ text, exponentText (v.spelling scale).exponent = 'E' :: text := by
  rw [mark_mem_scaled_iff_exponent] at h
  obtain ⟨e, he⟩ := Option.ne_none_iff_exists'.mp h
  obtain ⟨-, hmark, -⟩ := scientific_spelling he
  rw [he, exponentText, Exponent.text, hmark]
  exact ⟨_, rfl⟩

section

variable {v r : Coefficient} {scale finer coarser : Int32} {k : Nat}

theorem toInt_of_rescale_finer (hfiner : finer.toInt = scale.toInt + k)
    (h : rescale v scale finer = .ok r) : r.toInt = v.toInt * 10 ^ k := by
  obtain ⟨-, hdecimal⟩ := rescale_eq_ok_iff.mp h
  exact ((decimal_eq_decimal_iff hfiner).mp hdecimal.symm).symm

theorem scaled_moved_plain (hr : r.toInt = v.toInt * 10 ^ k)
    (hfiner : finer.toInt = scale.toInt + k) (hk : 1 ≤ k) (hplain : 'E' ∉ v.scaled scale)
    (hstays : 'E' ∉ r.scaled finer) :
    r.scaled finer =
      v.scaled scale ++ (if scale = 0 then ['.'] else []) ++ List.replicate k '0' := by
  have hplaces := places_moved_plain hfiner (mt (v.mark_mem_scaled_iff scale).mpr hplain)
    (mt (r.mark_mem_scaled_iff finer).mpr hstays)
  rw [scaled_plain hplain, scaled_plain hstays, mantissa_moved hr hplaces hk,
    if_congr (fraction_eq_nil_iff_plain hplain) rfl rfl]

theorem scaled_moved_scientific (hr : r.toInt = v.toInt * 10 ^ k) (hne : v.toInt ≠ 0)
    (hfiner : finer.toInt = scale.toInt + k) (hscale : 0 ≤ scale.toInt) (hk : 1 ≤ k)
    (hexp : 'E' ∈ v.scaled scale) :
    ∃ mantissa exponent, 'E' ∉ mantissa ∧ v.scaled scale = mantissa ++ 'E' :: exponent ∧
      r.scaled finer = mantissa ++
        (if (mantissa.filter Char.isDigit).length = 1 then ['.'] else []) ++
        List.replicate k '0' ++ 'E' :: exponent := by
  have huses := (v.mark_mem_scaled_iff scale).mp hexp
  have hsame : (r.spelling finer).exponent = (v.spelling scale).exponent := by
    rw [exponent_scientific huses,
      exponent_scientific ((usesExponent_moved hr hne hfiner hscale).mpr huses),
      adjustedExponent_moved hr hne hfiner]
  obtain ⟨exponent, hexponent⟩ := exists_exponentText hexp
  refine ⟨(v.spelling scale).mantissa, exponent, (v.spelling scale).mark_not_mem_mantissa, ?_, ?_⟩
  · rw [scaled_eq_mantissa_append, hexponent]
  · rw [scaled_eq_mantissa_append, hsame, hexponent,
      mantissa_moved hr (places_moved hr hne hfiner hscale) hk,
      if_congr (fraction_eq_nil_iff_scientific hexp) rfl rfl]

theorem rescale_coarser_iff_dvd (hcoarser : scale.toInt = coarser.toInt + k) (hpos : 1 ≤ k)
    (hle : k ≤ 38) :
    (∃ r, rescale v scale coarser = .ok r) ↔ 10 ^ k ∣ v.toInt.natAbs := by
  have hreach : InReach scale coarser := by
    unfold InReach
    omega
  have hok (r : Coefficient) : rescale v scale coarser = .ok r ↔ v.toInt = r.toInt * 10 ^ k := by
    rw [rescale_eq_ok_iff, decimal_eq_decimal_iff hcoarser, and_iff_right hreach, eq_comm]
  simp only [hok]
  constructor
  · rintro ⟨r, hr⟩
    rw [natAbs_moved hr]
    exact Nat.dvd_mul_left _ _
  · intro hdvd
    have hint : ((10 ^ k : Nat) : Int) ∣ v.toInt := Int.natCast_dvd.mpr hdvd
    obtain ⟨q, hq⟩ := hint
    have hfits : Fits q := by
      have hbounds := v.toInt_bounds
      have habs := congrArg Int.natAbs hq
      have hpow : 10 ^ 1 ≤ 10 ^ k := Nat.pow_le_pow_right (by decide) hpos
      have hmul := Nat.mul_le_mul_right q.natAbs hpow
      rw [Int.natAbs_mul, Int.natAbs_natCast] at habs
      unfold Fits
      omega
    refine ⟨ofInt q, ?_⟩
    rw [toInt_ofInt_of_bounds hfits.1 hfits.2, hq, Int.mul_comm]
    norm_cast

/-- The last digits of a plain text are the last digits of the value. -/
theorem dvd_iff_last_digits (hplain : 'E' ∉ v.scaled scale) (hk : (k : Int) ≤ scale.toInt) :
    10 ^ k ∣ v.toInt.natAbs ↔ ∀ c ∈ ((v.scaled scale).filter Char.isDigit).rtake k, c = '0' := by
  have hplaces := places_plain (mt (v.mark_mem_scaled_iff scale).mpr hplain)
  have hlength := v.length_shown scale
  have hback : ((v.shown scale).rtake k).length = k := by
    rw [List.rtake, List.length_drop]
    omega
  have hall : ∀ c ∈ (v.shown scale).rtake k, c.isDigit := by
    intro c hc
    exact isDigit_of_mem_shown (List.mem_of_mem_drop hc)
  have hdvd := pow_dvd_ofDigitChars_iff ((v.shown scale).take ((v.shown scale).length - k)) hall
  rw [hback, List.rtake, List.take_append_drop, ofDigitChars_shown] at hdvd
  rw [scaled_plain hplain, Spelling.filter_isDigit_mantissa, whole_append_fraction]
  exact hdvd

end

/-- A value moved to a scale `k` places finer shows `k` zeros more, after the same digits and in the
same notation; only a zero can change from plain to scientific. Where the text is plain, the value
moves to a scale `k` places coarser exactly when its last `k` digits are zeros. -/
theorem rescale_appends_zeros (v : Coefficient) (scale : Int32) {k : Nat}
    (hscale : 0 ≤ scale.toInt) (hpos : 1 ≤ k) (hle : k ≤ 38) :
    (∀ (finer : Int32) (r : Coefficient), finer.toInt = scale.toInt + k →
      rescale v scale finer = .ok r →
      ('E' ∉ v.scaled scale → 'E' ∉ r.scaled finer → r.scaled finer =
        v.scaled scale ++ (if scale = 0 then ['.'] else []) ++ List.replicate k '0') ∧
      (v.toInt ≠ 0 → ('E' ∈ r.scaled finer ↔ 'E' ∈ v.scaled scale) ∧
        ('E' ∈ v.scaled scale → ∃ mantissa exponent, 'E' ∉ mantissa ∧
          v.scaled scale = mantissa ++ 'E' :: exponent ∧
          r.scaled finer = mantissa ++
            (if (mantissa.filter Char.isDigit).length = 1 then ['.'] else []) ++
            List.replicate k '0' ++ 'E' :: exponent))) ∧
    ∀ coarser : Int32, scale.toInt = coarser.toInt + k → 0 ≤ coarser.toInt →
      'E' ∉ v.scaled scale →
      ((∃ r, rescale v scale coarser = .ok r) ↔
        ∀ c ∈ ((v.scaled scale).filter Char.isDigit).rtake k, c = '0') := by
  refine ⟨fun finer r hfiner h => ?_, fun coarser hcoarser hnonneg hplain => ?_⟩
  · have hr := toInt_of_rescale_finer hfiner h
    refine ⟨scaled_moved_plain hr hfiner hpos, fun hne => ⟨?_, ?_⟩⟩
    · rw [mark_mem_scaled_iff, mark_mem_scaled_iff]
      exact usesExponent_moved hr hne hfiner hscale
    · exact scaled_moved_scientific hr hne hfiner hscale hpos
  · rw [rescale_coarser_iff_dvd hcoarser hpos hle]
    exact dvd_iff_last_digits hplain (by omega)

theorem rescale_appends_zeros_small :
    rescale ⟨-1, -5⟩ 7 9 = .ok ⟨-1, -500⟩ ∧
      (⟨-1, -5⟩ : Coefficient).scaled 7 = "-5E-7".toList ∧
      (⟨-1, -500⟩ : Coefficient).scaled 9 = "-5.00E-7".toList ∧
      (∃ mantissa exponent, 'E' ∉ mantissa ∧
        (⟨-1, -5⟩ : Coefficient).scaled 7 = mantissa ++ 'E' :: exponent ∧
        (⟨-1, -500⟩ : Coefficient).scaled 9 = mantissa ++
          (if (mantissa.filter Char.isDigit).length = 1 then ['.'] else []) ++
          List.replicate 2 '0' ++ 'E' :: exponent) ∧
      ((∃ r, rescale ⟨0, 50⟩ 3 1 = .ok r) ↔
        ∀ c ∈ (((⟨0, 50⟩ : Coefficient).scaled 3).filter Char.isDigit).rtake 2, c = '0') := by
  have hmove : rescale ⟨-1, -5⟩ 7 9 = .ok ⟨-1, -500⟩ := by decide
  have hbefore : (⟨-1, -5⟩ : Coefficient).scaled 7 = "-5E-7".toList := by decide
  have hafter : (⟨-1, -500⟩ : Coefficient).scaled 9 = "-5.00E-7".toList := by decide
  have hplain : (⟨0, 50⟩ : Coefficient).scaled 3 = "0.050".toList := by decide
  have hfiner := (rescale_appends_zeros ⟨-1, -5⟩ 7 (k := 2) (by decide) (by decide)
    (by decide)).1 9 ⟨-1, -500⟩ (by decide) hmove
  have hcoarser := (rescale_appends_zeros ⟨0, 50⟩ 3 (k := 2) (by decide) (by decide)
    (by decide)).2 1 (by decide) (by decide)
  refine ⟨hmove, hbefore, hafter, ?_, ?_⟩
  · exact (hfiner.2 (by decide)).2 (by rw [hbefore]; decide)
  · exact hcoarser (by rw [hplain]; decide)

end Coefficient

end WideDecimal
