import Mathlib.Algebra.Field.Rat
import Mathlib.Algebra.Order.Field.Rat
import Mathlib.Tactic.NormNum
import WideDecimal.Proofs.Reader

namespace WideDecimal

open DigitText

theorem ten_zpow_ne_zero (n : Int) : (10 : ℚ) ^ n ≠ 0 := zpow_ne_zero n (by norm_num)

theorem ten_zpow_add (m n : Int) : (10 : ℚ) ^ (m + n) = 10 ^ m * 10 ^ n :=
  zpow_add₀ (by norm_num) m n

theorem ten_zpow_eq_one_iff {n : Int} : (10 : ℚ) ^ n = 1 ↔ n = 0 :=
  zpow_eq_one_iff_right₀ (by norm_num) (by norm_num)

/-- The number that a coefficient denotes at a scale. -/
def Coefficient.decimal (v : Coefficient) (scale : Int32) : ℚ := v.toInt * 10 ^ (-scale.toInt)

theorem cast_signed (negative : Bool) (n : Nat) :
    ((signed negative n : Int) : ℚ) = (if negative then -1 else 1) * n := by
  cases negative <;> simp [signed]

namespace Literal

theorem Sign.append_inj {s t : Sign} {x y : List Char} (hx : Clear isSign x)
    (hy : Clear isSign y) (h : s.text ++ x = t.text ++ y) : s = t ∧ x = y := by
  have hall (sign : Sign) : ∀ c ∈ sign.text, isSign c := by
    cases sign <;> simp [Sign.text, isSign]
  have hspan := congrArg (List.span isSign) h
  rw [span_append (hall s) hx, span_append (hall t) hy] at hspan
  obtain ⟨htext, hrest⟩ := Prod.mk.inj hspan
  refine ⟨?_, hrest⟩
  cases s <;> cases t <;> simp [Sign.text] at htext ⊢

theorem exponentText_injective {x y : Option Exponent} (h : exponentText x = exponentText y) :
    x = y := by
  cases x with
  | none =>
    cases y with
    | none => rfl
    | some e => cases h
  | some e =>
    cases y with
    | none => cases h
    | some d =>
      obtain ⟨hmark, hrest⟩ := List.cons.inj h
      obtain ⟨hsign, hdigits⟩ := Sign.append_inj e.clear_isSign d.clear_isSign hrest
      cases e
      cases d
      cases hmark
      cases hsign
      cases hdigits
      rfl

theorem Spelling.text_injective {f g : Spelling} (h : f.text = g.text) : f = g := by
  -- Sign and whole digits are maximal runs, and the reader of fractions finds the rest.
  obtain ⟨hsign, hunsigned⟩ := Sign.append_inj f.clear_isSign g.clear_isSign h
  have hspan := congrArg (List.span Char.isDigit) hunsigned
  rw [span_append f.whole_isDigit f.clear_isDigit_tail,
    span_append g.whole_isDigit g.clear_isDigit_tail] at hspan
  obtain ⟨hwhole, htail⟩ := Prod.mk.inj hspan
  have hread := congrArg readFraction htail
  rw [Spelling.tail, Spelling.tail, readFraction_fractionText f.fraction_isDigit,
    readFraction_fractionText g.fraction_isDigit] at hread
  obtain ⟨hfraction, hexponent⟩ := Prod.mk.inj (Except.ok.inj hread)
  have hexponent := exponentText_injective hexponent
  cases f
  cases g
  cases hsign
  cases hwhole
  cases hfraction
  cases hexponent
  rfl

/-- The power of ten that an exponent asks for. -/
def exponentValue : Option Exponent → Int
  | none => 0
  | some e => e.value

namespace Spelling

/-- The number that a spelling denotes in ordinary notation: a fraction counts parts of one, and
an exponent multiplies by a power of ten. -/
def ordinary (f : Spelling) : ℚ :=
  (if f.sign.isMinus then -1 else 1) *
    (Nat.ofDigitChars 10 f.whole 0 + Nat.ofDigitChars 10 f.fraction 0 / 10 ^ f.fraction.length) *
    10 ^ exponentValue f.exponent

theorem ordinary_eq (f : Spelling) :
    f.ordinary = f.number * 10 ^ (exponentValue f.exponent - f.fraction.length) := by
  have hpow : (10 : ℚ) ^ f.fraction.length ≠ 0 := pow_ne_zero _ (by norm_num)
  have hdigits : ((Nat.ofDigitChars 10 (f.whole ++ f.fraction) 0 : Nat) : ℚ) =
      (Nat.ofDigitChars 10 f.whole 0 + Nat.ofDigitChars 10 f.fraction 0 / 10 ^ f.fraction.length) *
        10 ^ f.fraction.length := by
    rw [Nat.ofDigitChars_append, Nat.ofDigitChars_eq_ofDigitChars_zero, add_mul,
      div_mul_cancel₀ _ hpow, mul_comm]
    norm_cast
  rw [ordinary, number_eq, cast_signed, hdigits, sub_eq_neg_add, ten_zpow_add, zpow_neg,
    zpow_natCast, mul_assoc, mul_assoc, mul_assoc, mul_inv_cancel_left₀ hpow]

theorem number_eq_zero_of_significand {f : Spelling} (h : f.significand = []) : f.number = 0 := by
  rw [number, h, Nat.ofDigitChars_nil, signed_zero]

theorem ordinary_eq_zero_iff (f : Spelling) : f.ordinary = 0 ↔ f.number = 0 := by
  rw [ordinary_eq, mul_eq_zero, or_iff_left (ten_zpow_ne_zero _), Int.cast_eq_zero]

theorem number_mul_of_no_exponent {f : Spelling} (h : f.exponent = none) :
    (f.number : ℚ) * 10 ^ (-f.scale) = f.ordinary := by
  rw [ordinary_eq, scale, h, scaleOf, exponentValue, zero_sub]

theorem scale_of_exponent {f : Spelling} {e : Exponent} (h : f.exponent = some e)
    (hne : f.significand ≠ []) : f.scale = f.significand.length - 1 - e.value := by
  rw [scale, h, scaleOf, precision, if_neg hne]
  omega

/-- With an exponent the point moves from behind the whole digits to behind the first one that is
not a zero in front. -/
theorem number_mul_of_exponent {f : Spelling} (h : f.exponent ≠ none) :
    (f.number : ℚ) * 10 ^ (-f.scale) = f.ordinary * 10 ^ (1 - (f.leading.length : Int)) := by
  by_cases hdigits : f.significand = []
  · -- Zeros alone denote zero wherever the point is.
    rw [ordinary_eq, number_eq_zero_of_significand hdigits, Int.cast_zero, zero_mul, zero_mul,
      zero_mul]
  · obtain ⟨e, he⟩ := Option.ne_none_iff_exists'.mp h
    have hscale := scale_of_exponent he hdigits
    rw [significand, List.length_append] at hscale
    rw [ordinary_eq, he, exponentValue, mul_assoc, ← ten_zpow_add]
    refine congrArg (fun n : Int => (f.number : ℚ) * 10 ^ n) ?_
    omega

/-- The digits that count toward the number, with the point behind the first of them. -/
def pointBehindFirst (f : Spelling) (h : f.significand ≠ []) : Spelling where
  sign := f.sign
  whole := f.significand.take 1
  fraction := f.significand.drop 1
  exponent := f.exponent
  whole_isDigit c hc := f.significand_isDigit c (List.mem_of_mem_take hc)
  fraction_isDigit c hc := f.significand_isDigit c (List.mem_of_mem_drop hc)
  digits_ne_nil hnone := by
    rw [← List.take_append_drop 1 f.significand, hnone.1, hnone.2] at h
    exact h rfl

theorem number_pointBehindFirst {f : Spelling} (h : f.significand ≠ []) :
    (f.pointBehindFirst h).number = f.number := by
  have hdigits : (f.pointBehindFirst h).whole ++ (f.pointBehindFirst h).fraction =
      f.significand := List.take_append_drop 1 _
  rw [number_eq, hdigits]
  rfl

theorem number_mul_eq_pointBehindFirst {f : Spelling} (h : f.exponent ≠ none)
    (hdigits : f.significand ≠ []) :
    (f.number : ℚ) * 10 ^ (-f.scale) = (f.pointBehindFirst hdigits).ordinary := by
  obtain ⟨e, he⟩ := Option.ne_none_iff_exists'.mp h
  have hpos := List.length_pos_iff.mpr hdigits
  have hscale := scale_of_exponent he hdigits
  have hpower : exponentValue (f.pointBehindFirst hdigits).exponent = e.value :=
    congrArg exponentValue he
  have hplaces : (f.pointBehindFirst hdigits).fraction.length = f.significand.length - 1 :=
    List.length_drop
  rw [ordinary_eq, number_pointBehindFirst, hpower]
  refine congrArg (fun n : Int => (f.number : ℚ) * 10 ^ n) ?_
  omega

theorem Denotes.decimal_eq {f : Spelling} {l : Literal} (h : f.Denotes l) :
    l.value.decimal l.scale = f.number * 10 ^ (-f.scale) := by
  rw [Coefficient.decimal, h.value_eq, h.scale_eq]

end Spelling

/-- A literal denotes the number that its text denotes in ordinary notation exactly where there is
no exponent, the value is zero, or one digit stands before the point behind the zeros in front. An
exponent counts from the first digit, as if the point stood behind it. -/
theorem decimal_of_ofString {s : String} {l : Literal} (h : ofString s = .ok l) :
    ∃ f : Spelling, (∀ g : Spelling, g.text = s.toList ↔ g = f) ∧
      (l.value.decimal l.scale = f.ordinary ↔
        f.exponent = none ∨ l.value.toInt = 0 ∨ f.leading.length = 1) ∧
      (f.exponent ≠ none →
        l.value.decimal l.scale = f.ordinary * 10 ^ (1 - (f.leading.length : Int)) ∧
        ∀ hdigits : f.significand ≠ [],
          l.value.decimal l.scale = (f.pointBehindFirst hdigits).ordinary) := by
  obtain ⟨f, hf, hdenotes⟩ := ofString_eq_ok_iff.mp h
  refine ⟨f, fun g => ?_, ?_, fun hexponent => ?_⟩
  · rw [← hf]
    exact ⟨Spelling.text_injective, congrArg Spelling.text⟩
  · rw [hdenotes.decimal_eq]
    by_cases hexponent : f.exponent = none
    · exact iff_of_true (Spelling.number_mul_of_no_exponent hexponent) (Or.inl hexponent)
    · rw [Spelling.number_mul_of_exponent hexponent, mul_right_eq_self₀, ten_zpow_eq_one_iff,
        Spelling.ordinary_eq_zero_iff, ← hdenotes.value_eq, or_iff_right hexponent, or_comm]
      exact or_congr_right (by omega)
  · rw [hdenotes.decimal_eq]
    exact ⟨Spelling.number_mul_of_exponent hexponent,
      Spelling.number_mul_eq_pointBehindFirst hexponent⟩

theorem decimal_of_ofString_small :
    ofString "12E0" = .ok ⟨⟨0, 12⟩, 2, 1⟩ ∧ ofString "0.5E1" = .ok ⟨⟨0, 5⟩, 1, -1⟩ ∧
      (⟨0, 12⟩ : Coefficient).decimal 1 = 1.2 ∧ (⟨0, 5⟩ : Coefficient).decimal (-1) = 50 ∧
      (∃ f : Spelling, (∀ g : Spelling, g.text = "12E0".toList ↔ g = f) ∧
        ((⟨0, 12⟩ : Coefficient).decimal 1 = f.ordinary ↔
          f.exponent = none ∨ (⟨0, 12⟩ : Coefficient).toInt = 0 ∨ f.leading.length = 1)) ∧
      ∃ f : Spelling, (∀ g : Spelling, g.text = "0.5E1".toList ↔ g = f) ∧
        ((⟨0, 5⟩ : Coefficient).decimal (-1) = f.ordinary ↔
          f.exponent = none ∨ (⟨0, 5⟩ : Coefficient).toInt = 0 ∨ f.leading.length = 1) := by
  have hfirst : ofString "12E0" = .ok ⟨⟨0, 12⟩, 2, 1⟩ := by decide
  have hsecond : ofString "0.5E1" = .ok ⟨⟨0, 5⟩, 1, -1⟩ := by decide
  obtain ⟨f, hf, hiff, -⟩ := decimal_of_ofString hfirst
  obtain ⟨g, hg, hjff, -⟩ := decimal_of_ofString hsecond
  refine ⟨hfirst, hsecond, ?_, ?_, ⟨f, hf, hiff⟩, ⟨g, hg, hjff⟩⟩
  · have hvalue : (⟨0, 12⟩ : Coefficient).toInt = 12 := by decide
    have hscale : (1 : Int32).toInt = 1 := by decide
    rw [Coefficient.decimal, hvalue, hscale]
    norm_num
  · have hvalue : (⟨0, 5⟩ : Coefficient).toInt = 5 := by decide
    have hscale : (-1 : Int32).toInt = -1 := by decide
    rw [Coefficient.decimal, hvalue, hscale]
    norm_num

end Literal

end WideDecimal
