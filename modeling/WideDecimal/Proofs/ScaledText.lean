import WideDecimal.Coefficient.Scaled
import WideDecimal.Proofs.Numeral
import WideDecimal.Proofs.Spelling

namespace WideDecimal

open DigitText
open Guarded (Holds holds_require holds_signedWord)

namespace Literal

theorem Sign.mark_not_mem_text (sign : Sign) : 'E' ∉ sign.text := by
  cases sign <;> decide

theorem Spelling.mark_not_mem_text {f : Spelling} (h : f.exponent = none) : 'E' ∉ f.text := by
  have hdigits {digits : List Char} (hall : ∀ c ∈ digits, c.isDigit) : 'E' ∉ digits :=
    fun hmem => absurd (hall 'E' hmem) (by decide)
  have hfraction : 'E' ∉ fractionText f.fraction := by
    unfold fractionText
    split
    next => exact List.not_mem_nil
    next =>
      rw [List.mem_cons, not_or]
      exact ⟨by decide, hdigits f.fraction_isDigit⟩
  rw [text, tail, h, exponentText, List.append_nil]
  simp only [List.mem_append, not_or]
  exact ⟨f.sign.mark_not_mem_text, hdigits f.whole_isDigit, hfraction⟩

/-- The exponent that a text shows. -/
def Exponent.ofInt (n : Int) : Exponent where
  mark := 'E'
  sign := if n < 0 then .minus else .plus
  digits := Nat.toDigits 10 n.natAbs
  isMark := Or.inl rfl
  isDigit _ hc := isDigit_of_mem_toDigits hc
  digits_ne_nil := Nat.toDigits_ne_nil

theorem Exponent.text_ofInt (n : Int) :
    (ofInt n).text = 'E' :: (if n < 0 then '-' else '+') :: Nat.toDigits 10 n.natAbs := by
  unfold text ofInt
  split <;> rfl

theorem Exponent.value_ofInt (n : Int) : (ofInt n).value = n := by
  unfold value ofInt
  dsimp only
  rw [Nat.ofDigitChars_ten_toDigits]
  split
  next h =>
    change -(n.natAbs : Int) = n
    omega
  next h =>
    change (n.natAbs : Int) = n
    omega

end Literal

open Literal

namespace Coefficient

/-- The number of decimal digits of the absolute value. -/
def digitCount (v : Coefficient) : Nat := (Nat.toDigits 10 v.toInt.natAbs).length

/-- The sign that a coefficient is written with. -/
def writtenSign (v : Coefficient) : Sign := if v.isNegative then .minus else .absent

theorem text_writtenSign (v : Coefficient) : v.writtenSign.text = v.signText := by
  unfold writtenSign signText
  split <;> rfl

theorem isMinus_writtenSign (v : Coefficient) : v.writtenSign.isMinus = v.isNegative := by
  unfold writtenSign
  cases v.isNegative <;> rfl

theorem number_eq_toInt {v : Coefficient} {f : Spelling} (hsign : f.sign = v.writtenSign)
    (h : Nat.ofDigitChars 10 (f.whole ++ f.fraction) 0 = v.toInt.natAbs) :
    f.number = v.toInt := by
  rw [Spelling.number_eq, hsign, isMinus_writtenSign, h, signed_natAbs]

theorem digitCount_pos (v : Coefficient) : 0 < v.digitCount := Nat.length_toDigits_pos

theorem adjustedExponent_eq (v : Coefficient) (scale : Int32) :
    v.adjustedExponent scale = v.digitCount - 1 - scale.toInt := by
  rw [adjustedExponent, digits_eq, ← digitCount]
  omega

theorem usesExponent_iff (v : Coefficient) (scale : Int32) :
    v.usesExponent scale = true ↔
      scale.toInt < 0 ∨ (scale.toInt ≠ 0 ∧ v.adjustedExponent scale < minPlainExponent) := by
  have hzero : (0 : Int32).toInt = 0 := rfl
  unfold usesExponent
  rw [Bool.or_eq_true, Bool.and_eq_true, decide_eq_true_eq, decide_eq_true_eq, decide_eq_true_eq,
    Int32.lt_iff_toInt_lt, ne_eq, ← Int32.toInt_inj, hzero]

theorem guardedExponent_holds (v : Coefficient) (scale : Int32) :
    (guardedExponent (Nat.toDigits 10 v.toInt.natAbs) scale).Holds fun exponent =>
      exponent.toInt = v.adjustedExponent scale := by
  have hle := scale.le_toInt
  have hlt := scale.toInt_lt
  have hcount := v.length_toDigits_le
  have hadjusted : v.adjustedExponent scale =
      -scale.toInt + ((Nat.toDigits 10 v.toInt.natAbs).length - 1) := by
    rw [adjustedExponent, digits_eq]
  refine Holds.bind (holds_signedWord (by omega) (by omega)) fun opposite hopposite => ?_
  refine Holds.bind (holds_signedWord (by omega) (by omega)) fun count hlength => ?_
  refine Holds.bind (holds_signedWord (by omega) (by omega)) fun behind hbehind => ?_
  refine (holds_signedWord (by omega) (by omega)).imp fun exponent hexponent => ?_
  omega

theorem guardedUnsigned_holds (v : Coefficient) {scale : Int32} (h : scale ≠ 0) :
    (guardedUnsigned (Nat.toDigits 10 v.toInt.natAbs) scale).Holds fun text =>
      text = if v.usesExponent scale then
          Layout.scientific (Nat.toDigits 10 v.toInt.natAbs) (v.adjustedExponent scale)
        else Layout.positional (Nat.toDigits 10 v.toInt.natAbs) scale.toInt.toNat := by
  have hnonzero : scale.toInt ≠ 0 := fun hzero => h (Int32.toInt_inj.mp hzero)
  refine Holds.bind (v.guardedExponent_holds scale) fun exponent hexponent => ?_
  have hchoice : (scale < 0 ∨ exponent.toInt < minPlainExponent) ↔
      v.usesExponent scale = true := by
    rw [usesExponent_iff, hexponent, Int32.lt_iff_toInt_lt, and_iff_right hnonzero]
    rfl
  split
  next hexp =>
    rw [if_pos (hchoice.mp hexp), ← hexponent]
    exact Holds.bind (holds_require Nat.toDigits_ne_nil) fun _ _ => Holds.pure rfl
  next hplain =>
    rw [if_neg (mt hchoice.mpr hplain)]
    have hplaces : 0 ≤ scale := by
      rw [Int32.le_iff_toInt_le, ← Int.not_lt, ← Int32.lt_iff_toInt_lt]
      exact fun hneg => hplain (Or.inl hneg)
    exact Holds.bind (holds_require hplaces) fun _ _ => Holds.pure rfl

theorem guardedScaled_holds (v : Coefficient) (scale : Int32) :
    (guardedScaled v scale).Holds fun text =>
      text = v.signText ++
        if scale = 0 then Nat.toDigits 10 v.toInt.natAbs
        else if v.usesExponent scale then
          Layout.scientific (Nat.toDigits 10 v.toInt.natAbs) (v.adjustedExponent scale)
        else Layout.positional (Nat.toDigits 10 v.toInt.natAbs) scale.toInt.toNat := by
  refine Holds.bind (guardedNumeral_holds v) fun numeral hnumeral => ?_
  split
  next => exact Holds.pure hnumeral
  next hscale =>
    have hne : numeral ≠ [] := by
      rw [hnumeral]
      exact List.append_ne_nil_of_right_ne_nil _ Nat.toDigits_ne_nil
    have hunsigned : (if v.isNegative then numeral.drop 1 else numeral) =
        Nat.toDigits 10 v.toInt.natAbs := by
      rw [hnumeral, signText]
      split <;> rfl
    refine Holds.bind (holds_require hne) fun _ _ => ?_
    rw [hunsigned]
    refine Holds.bind (v.guardedUnsigned_holds hscale) fun text htext => Holds.pure ?_
    rw [← htext, signText]
    split <;> rfl

theorem scaled_eq (v : Coefficient) (scale : Int32) :
    v.scaled scale = v.signText ++
      if scale = 0 then Nat.toDigits 10 v.toInt.natAbs
      else if v.usesExponent scale then
        Layout.scientific (Nat.toDigits 10 v.toInt.natAbs) (v.adjustedExponent scale)
      else Layout.positional (Nat.toDigits 10 v.toInt.natAbs) scale.toInt.toNat :=
  (guardedScaled_holds v scale).value

theorem scientific_eq (first : Char) (digits : List Char) (exponent : Int) :
    Layout.scientific (first :: digits) exponent =
      [first] ++ (fractionText digits ++ exponentText (some (Exponent.ofInt exponent))) := by
  rw [exponentText, Exponent.text_ofInt]
  cases digits with
  | nil => rfl
  | cons second rest => rfl

/-- Digits with zeros in front where they would not reach the place before the point. -/
def padded (digits : List Char) (places : Nat) : List Char := digits.leftpad (places + 1) '0'

theorem length_padded (digits : List Char) (places : Nat) :
    (padded digits places).length = max (places + 1) digits.length := List.length_leftpad

theorem padded_eq_self {digits : List Char} {places : Nat} (h : places < digits.length) :
    padded digits places = digits := by
  rw [padded, List.leftpad, show places + 1 - digits.length = 0 by omega]
  rfl

theorem padded_eq_cons {digits : List Char} {places : Nat} (h : digits.length ≤ places) :
    padded digits places = '0' :: digits.leftpad places '0' := by
  rw [padded, List.leftpad, List.leftpad,
    show places + 1 - digits.length = places - digits.length + 1 by omega, List.replicate_succ,
    List.cons_append]

theorem positional_eq (digits : List Char) (places : Nat) :
    Layout.positional digits places =
      (padded digits places).take ((padded digits places).length - places) ++
        '.' :: (padded digits places).drop ((padded digits places).length - places) := by
  unfold Layout.positional
  split
  next hinside => rw [padded_eq_self hinside]
  next houtside =>
    have hle := Nat.le_of_not_lt houtside
    rw [length_padded, padded_eq_cons hle,
      show max (places + 1) digits.length - places = 1 by omega]
    rfl

/-- The number of digits that stand behind the point. -/
def places (v : Coefficient) (scale : Int32) : Nat :=
  if v.usesExponent scale then v.digitCount - 1 else scale.toInt.toNat

/-- The digits of the text, before the point and behind it. -/
def shown (v : Coefficient) (scale : Int32) : List Char :=
  padded (Nat.toDigits 10 v.toInt.natAbs) (v.places scale)

theorem isDigit_of_mem_shown {v : Coefficient} {scale : Int32} {c : Char}
    (h : c ∈ v.shown scale) : c.isDigit :=
  isDigit_of_mem_leftpad (fun _ hd => isDigit_of_mem_toDigits hd) h

theorem length_shown (v : Coefficient) (scale : Int32) :
    (v.shown scale).length = max (v.places scale + 1) v.digitCount := length_padded _ _

theorem shown_eq {v : Coefficient} {scale : Int32} (h : v.places scale < v.digitCount) :
    v.shown scale = Nat.toDigits 10 v.toInt.natAbs := padded_eq_self h

theorem ofDigitChars_shown (v : Coefficient) (scale : Int32) :
    Nat.ofDigitChars 10 (v.shown scale) 0 = v.toInt.natAbs := by
  rw [shown, padded, ofDigitChars_leftpad, Nat.mul_zero]
  exact Nat.ofDigitChars_ten_toDigits

/-- The text of a coefficient at a scale, in its parts. -/
def spelling (v : Coefficient) (scale : Int32) : Spelling where
  sign := v.writtenSign
  whole := (v.shown scale).take ((v.shown scale).length - v.places scale)
  fraction := (v.shown scale).drop ((v.shown scale).length - v.places scale)
  exponent :=
    if v.usesExponent scale then some (Exponent.ofInt (v.adjustedExponent scale)) else none
  whole_isDigit _ hc := isDigit_of_mem_shown (List.mem_of_mem_take hc)
  fraction_isDigit _ hc := isDigit_of_mem_shown (List.mem_of_mem_drop hc)
  digits_ne_nil := by
    rintro ⟨hwhole, hfraction⟩
    have hlength := v.length_shown scale
    rw [← List.take_append_drop ((v.shown scale).length - v.places scale) (v.shown scale), hwhole,
      hfraction, List.append_nil, List.length_nil] at hlength
    omega

theorem places_scientific {v : Coefficient} {scale : Int32} (h : v.usesExponent scale = true) :
    v.places scale = v.digitCount - 1 := if_pos h

theorem places_plain {v : Coefficient} {scale : Int32} (h : ¬v.usesExponent scale = true) :
    (v.places scale : Int) = scale.toInt := by
  have hplaces : v.places scale = scale.toInt.toNat := if_neg h
  have hplain := mt (v.usesExponent_iff scale).mpr h
  omega

theorem exponent_scientific {v : Coefficient} {scale : Int32} (h : v.usesExponent scale = true) :
    (v.spelling scale).exponent = some (Exponent.ofInt (v.adjustedExponent scale)) := if_pos h

theorem exponent_plain {v : Coefficient} {scale : Int32} (h : ¬v.usesExponent scale = true) :
    (v.spelling scale).exponent = none := if_neg h

theorem whole_append_fraction (v : Coefficient) (scale : Int32) :
    (v.spelling scale).whole ++ (v.spelling scale).fraction = v.shown scale :=
  List.take_append_drop _ _

theorem length_fraction (v : Coefficient) (scale : Int32) :
    (v.spelling scale).fraction.length = v.places scale := by
  have hlength := v.length_shown scale
  have hdrop : (v.spelling scale).fraction.length =
      (v.shown scale).length - ((v.shown scale).length - v.places scale) := List.length_drop
  omega

theorem length_whole (v : Coefficient) (scale : Int32) :
    (v.spelling scale).whole.length = max 1 (v.digitCount - v.places scale) := by
  have hlength := v.length_shown scale
  have htake : (v.spelling scale).whole.length =
      min ((v.shown scale).length - v.places scale) (v.shown scale).length := List.length_take
  omega

theorem number_spelling (v : Coefficient) (scale : Int32) :
    (v.spelling scale).number = v.toInt := by
  refine number_eq_toInt rfl ?_
  rw [whole_append_fraction, ofDigitChars_shown]

theorem whole_eq_zero {v : Coefficient} {scale : Int32} (h : v.digitCount ≤ v.places scale) :
    (v.spelling scale).whole = ['0'] := by
  have hlength := v.length_shown scale
  have hcut : (v.shown scale).length - v.places scale = 1 := by omega
  change (v.shown scale).take ((v.shown scale).length - v.places scale) = _
  rw [hcut, shown, padded_eq_cons h]
  rfl

theorem precision_spelling (v : Coefficient) (scale : Int32) :
    (v.spelling scale).precision = max v.digitCount (v.places scale) := by
  by_cases hinside : v.places scale < v.digitCount
  · have hdigits := whole_append_fraction v scale
    rw [shown_eq hinside] at hdigits
    rw [Spelling.precision_of_numeral hdigits, ← digitCount]
    omega
  · have hpos := v.digitCount_pos
    have hlength := v.length_fraction scale
    have hsignificand : (v.spelling scale).significand = (v.spelling scale).fraction := by
      rw [Spelling.significand, Spelling.leading, whole_eq_zero (Nat.le_of_not_lt hinside)]
      rfl
    have hne : (v.spelling scale).fraction ≠ [] := by
      rw [← List.length_pos_iff]
      omega
    rw [Spelling.precision, hsignificand, if_neg hne]
    omega

theorem scale_spelling (v : Coefficient) (scale : Int32) :
    (v.spelling scale).scale = scale.toInt := by
  have hpos := v.digitCount_pos
  have hadjusted := v.adjustedExponent_eq scale
  rw [Spelling.scale, length_fraction, precision_spelling]
  by_cases hexp : v.usesExponent scale = true
  · have hplaces := places_scientific hexp
    rw [exponent_scientific hexp, scaleOf, Exponent.value_ofInt]
    omega
  · rw [exponent_plain hexp, scaleOf, places_plain hexp]

theorem unsigned_scientific {v : Coefficient} {scale : Int32} (h : v.usesExponent scale = true) :
    (v.spelling scale).whole ++ (v.spelling scale).tail =
      Layout.scientific (Nat.toDigits 10 v.toInt.natAbs) (v.adjustedExponent scale) := by
  have hpos := v.digitCount_pos
  have hplaces := places_scientific h
  have hlength := v.length_whole scale
  have hdigits := v.whole_append_fraction scale
  obtain ⟨first, rest, hcons⟩ := List.exists_cons_of_ne_nil
    (Nat.toDigits_ne_nil (b := 10) (n := v.toInt.natAbs))
  rw [shown_eq (by omega), hcons] at hdigits
  obtain ⟨hwhole, hfraction⟩ :=
    List.append_inj (show _ = [first] ++ rest from hdigits) (by rw [List.length_singleton]; omega)
  rw [hcons, scientific_eq, Spelling.tail, exponent_scientific h, hwhole, hfraction]

theorem unsigned_plain {v : Coefficient} {scale : Int32} (h : ¬v.usesExponent scale = true) :
    (v.spelling scale).whole ++ (v.spelling scale).tail =
      if scale = 0 then Nat.toDigits 10 v.toInt.natAbs
      else Layout.positional (Nat.toDigits 10 v.toInt.natAbs) scale.toInt.toNat := by
  have hpos := v.digitCount_pos
  have hplaces := places_plain h
  have hlength := v.length_fraction scale
  rw [Spelling.tail, exponent_plain h, exponentText, List.append_nil, fractionText]
  split_ifs with hnil hscale hscale
  · have hdigits := v.whole_append_fraction scale
    have hzero : scale.toInt = 0 := by rw [hscale]; rfl
    rwa [shown_eq (by omega), hnil] at hdigits
  · have hnonzero : scale.toInt ≠ 0 := fun hzero => hscale (Int32.toInt_inj.mp hzero)
    rw [hnil, List.length_nil] at hlength
    omega
  · have hzero : scale.toInt = 0 := by rw [hscale]; rfl
    rw [← List.length_eq_zero_iff] at hnil
    omega
  · rw [positional_eq, show scale.toInt.toNat = v.places scale by omega]
    rfl

theorem text_spelling (v : Coefficient) (scale : Int32) :
    (v.spelling scale).text = v.scaled scale := by
  have hsign : (v.spelling scale).sign.text = v.signText := v.text_writtenSign
  rw [scaled_eq, Spelling.text, hsign]
  refine congrArg (v.signText ++ ·) ?_
  by_cases hexp : v.usesExponent scale = true
  · have hscale : scale ≠ 0 := by
      rintro rfl
      rw [usesExponent_iff, Int32.toInt_zero] at hexp
      omega
    rw [unsigned_scientific hexp, if_neg hscale, if_pos hexp]
  · rw [unsigned_plain hexp, if_neg hexp]

theorem exists_spelling_scaled (v : Coefficient) (scale : Int32) :
    ∃ f : Spelling, f.text = v.scaled scale ∧ f.number = v.toInt ∧ f.scale = scale.toInt ∧
      if v.usesExponent scale then
        f.exponent = some (Exponent.ofInt (v.adjustedExponent scale)) ∧
          f.precision = v.digitCount
      else f.exponent = none ∧ (f.precision : Int) = max (v.digitCount : Int) scale.toInt := by
  have hprecision := v.precision_spelling scale
  refine ⟨v.spelling scale, v.text_spelling scale, v.number_spelling scale,
    v.scale_spelling scale, ?_⟩
  split
  next hexp =>
    have hplaces := places_scientific hexp
    exact ⟨exponent_scientific hexp, by omega⟩
  next hplain =>
    have hplaces := places_plain hplain
    exact ⟨exponent_plain hplain, by omega⟩

theorem mark_mem_scaled_iff (v : Coefficient) (scale : Int32) :
    'E' ∈ v.scaled scale ↔ v.usesExponent scale = true := by
  obtain ⟨f, htext, -, -, hparts⟩ := v.exists_spelling_scaled scale
  rw [← htext]
  split at hparts
  next hexp =>
    refine ⟨fun _ => hexp, fun _ => ?_⟩
    rw [Spelling.text, Spelling.tail, hparts.1, exponentText, Exponent.text_ofInt]
    simp
  next hplain => exact ⟨fun hmem => absurd hmem (Spelling.mark_not_mem_text hparts.1),
    fun hexp => absurd hexp hplain⟩

end Coefficient

end WideDecimal
