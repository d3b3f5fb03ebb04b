import WideDecimal.Proofs.Exchange

namespace WideDecimal

open DigitText
open Literal (Sign)

/-- How many fillers may stand before a text and behind it. -/
def Alignment.Allows : Alignment → Nat → Nat → Prop
  | left, before, _ => before = 0
  | centre, before, behind => before ≤ behind ∧ behind ≤ before + 1
  | right, _, behind => behind = 0

namespace Padding

theorem surround_eq (alignment : Alignment) (fill : Char) (missing : Nat) (text : List Char) :
    ∃ before behind, before + behind = missing ∧ alignment.Allows before behind ∧
      surround alignment fill missing text =
        List.replicate before fill ++ text ++ List.replicate behind fill := by
  cases alignment with
  | left => exact ⟨0, missing, Nat.zero_add missing, rfl, rfl⟩
  | centre =>
    have hhalves : missing / 2 + (missing - missing / 2) = missing := by omega
    exact ⟨missing / 2, missing - missing / 2, hhalves, ⟨by omega, by omega⟩, rfl⟩
  | right => exact ⟨missing, 0, rfl, rfl, by rw [surround, Nat.sub_self]⟩

theorem number_of_zeros {p : Padding} (h : p.zeros = true) (negative : Bool) (digits : List Char) :
    p.number negative digits = p.sign negative ++
      List.replicate (p.width - (p.sign negative ++ digits).length) '0' ++ digits := by
  rw [number, if_pos h, List.length_append]

theorem number_of_fill {p : Padding} (h : p.zeros = false) (negative : Bool) (digits : List Char) :
    ∃ before behind, before + behind = p.width - (p.sign negative ++ digits).length ∧
      (p.alignment.getD .right).Allows before behind ∧
      p.number negative digits =
        List.replicate before p.fill ++ (p.sign negative ++ digits) ++
          List.replicate behind p.fill := by
  rw [number, h, if_neg Bool.false_ne_true, ← List.length_append]
  exact surround_eq _ _ _ _

theorem length_number (p : Padding) (negative : Bool) (digits : List Char) :
    (p.number negative digits).length = max p.width (p.sign negative ++ digits).length := by
  cases h : p.zeros with
  | true =>
    rw [number_of_zeros h]
    simp only [List.length_append, List.length_replicate]
    omega
  | false =>
    obtain ⟨before, behind, hmissing, -, hnumber⟩ := number_of_fill h negative digits
    rw [hnumber]
    simp only [List.length_append, List.length_replicate] at hmissing ⊢
    omega

theorem number_of_width_le {p : Padding} {negative : Bool} {digits : List Char}
    (h : p.width ≤ (p.sign negative ++ digits).length) :
    p.number negative digits = p.sign negative ++ digits := by
  have hnone := Nat.sub_eq_zero_of_le h
  cases hzeros : p.zeros with
  | true => rw [number_of_zeros hzeros, hnone, List.replicate_zero, List.append_nil]
  | false =>
    obtain ⟨before, behind, hmissing, -, hnumber⟩ := number_of_fill hzeros negative digits
    obtain ⟨rfl, rfl⟩ := Nat.add_eq_zero_iff.mp (hmissing.trans hnone)
    rw [hnumber, List.replicate_zero, List.nil_append, List.append_nil]

theorem exists_sign (p : Padding) (negative : Bool) :
    ∃ sign : Sign, sign.text = p.sign negative ∧ sign.isMinus = negative := by
  unfold sign
  cases negative with
  | true => exact ⟨.minus, rfl, rfl⟩
  | false =>
    cases p.plus with
    | true => exact ⟨.plus, rfl, rfl⟩
    | false => exact ⟨.absent, rfl, rfl⟩

end Padding

namespace Coefficient

/-- The shortest numeral of the integer, with a plus if one is asked for and there is no minus. -/
def unpadded (v : Coefficient) (plus : Bool) : String :=
  if plus ∧ 0 ≤ v.toInt then "+" ++ toString v.toInt else toString v.toInt

theorem toList_unpadded (v : Coefficient) (p : Padding) :
    (v.unpadded p.plus).toList = p.sign v.isNegative ++ v.digits := by
  have hnegative := v.isNegative_iff
  rw [unpadded, Padding.sign, digits_eq]
  by_cases hneg : v.toInt < 0
  · rw [if_neg fun h => Int.not_lt.mpr h.2 hneg, toList_toString, if_pos hneg,
      if_pos (hnegative.mpr hneg)]
  · have hnonneg := Int.not_lt.mp hneg
    rw [if_neg (mt hnegative.mp hneg)]
    by_cases hplus : p.plus = true
    · rw [if_pos ⟨hplus, hnonneg⟩, if_pos hplus, String.toList_append, toList_toString, if_neg hneg]
      rfl
    · rw [if_neg fun h => hplus h.1, if_neg hplus, toList_toString, if_neg hneg]

theorem length_unpadded_le (v : Coefficient) (plus : Bool) : (v.unpadded plus).length ≤ 40 := by
  have hdigits := v.length_toDigits_le
  have hsign : (Padding.sign { plus } v.isNegative).length ≤ 1 := by
    unfold Padding.sign
    split
    next => exact Nat.le_refl 1
    next => split <;> simp
  rw [← String.length_toList, v.toList_unpadded { plus }, List.length_append, digits_eq]
  omega

theorem length_display (v : Coefficient) (p : Padding) :
    (v.display p).length = max p.width (v.unpadded p.plus).length := by
  rw [display, String.length_ofList, Padding.length_number, ← toList_unpadded,
    String.length_toList]

theorem display_of_width_le {v : Coefficient} {p : Padding}
    (h : p.width ≤ (v.unpadded p.plus).length) : v.display p = v.unpadded p.plus := by
  rw [← String.length_toList, toList_unpadded] at h
  rw [display, Padding.number_of_width_le h, ← toList_unpadded, String.ofList_toList]

theorem isNumeral_zeros (v : Coefficient) (p : Padding) (count : Nat) :
    IsNumeral (p.sign v.isNegative ++ List.replicate count '0' ++ v.digits) v.toInt := by
  obtain ⟨sign, htext, hminus⟩ := p.exists_sign v.isNegative
  rw [digits_eq, List.append_assoc]
  refine ⟨sign, _, by rw [htext], List.append_ne_nil_of_right_ne_nil _ Nat.toDigits_ne_nil, ?_, ?_⟩
  · exact List.forall_mem_append.mpr
      ⟨fun _ => isDigit_of_mem_zeros, fun _ => isDigit_of_mem_toDigits⟩
  · rw [ofDigitChars_zeros fun _ => List.eq_of_mem_replicate, Nat.ofDigitChars_ten_toDigits, hminus,
      signed_natAbs]

theorem isNumeral_display {v : Coefficient} {p : Padding}
    (h : p.zeros = true ∨ p.width ≤ (v.unpadded p.plus).length) :
    IsNumeral (v.display p).toList v.toInt := by
  rcases h with hzeros | hwidth
  · rw [display, String.toList_ofList, Padding.number_of_zeros hzeros]
    exact v.isNumeral_zeros p _
  · have hnumeral := v.isNumeral_zeros p 0
    rw [List.replicate_zero, List.append_nil, ← toList_unpadded] at hnumeral
    rwa [display_of_width_le hwidth]

theorem ofString_display {v : Coefficient} {p : Padding} (hwidth : p.width < 2 ^ 32)
    (h : p.zeros = true ∨ p.width ≤ (v.unpadded p.plus).length) :
    Coefficient.ofString (v.display p) = .ok v := by
  have hlength : (v.display p).toList.length < 2 ^ 32 := by
    have hown := v.length_unpadded_le p.plus
    rw [String.length_toList, length_display]
    omega
  have hread := ofString_of_isNumeral (isNumeral_display h) hlength v.fits_toInt
  rwa [String.ofList_toList, ofInt_toInt] at hread

/-- A coefficient shown in a field is as wide as the field, or as its own text where that is wider,
and shown without a width it is that text. If the field is filled with zeros or not at all, the text
is read as the coefficient again. Otherwise there are only fillers around the numeral and its sign,
on the sides that the alignment says. -/
theorem display_fills_field (v : Coefficient) (p : Padding) :
    (v.display p).length = max p.width (v.unpadded p.plus).length ∧
    v.display { p with width := 0 } = v.unpadded p.plus ∧
    (p.width < 2 ^ 32 → (p.zeros = true ∨ p.width ≤ (v.unpadded p.plus).length) →
      Coefficient.ofString (v.display p) = .ok v) ∧
    (p.zeros = false →
      ∃ before behind, before + behind = p.width - (v.unpadded p.plus).length ∧
        (p.alignment.getD .right).Allows before behind ∧
        (v.display p).toList =
          List.replicate before p.fill ++ (v.unpadded p.plus).toList ++
            List.replicate behind p.fill) := by
  refine ⟨v.length_display p, display_of_width_le (Nat.zero_le _), ofString_display,
    fun hzeros => ?_⟩
  rw [display, String.toList_ofList, ← String.length_toList, toList_unpadded]
  exact Padding.number_of_fill hzeros _ _

/-- The least value behind zeros, and a five with its sign between three fillers. -/
theorem display_fills_field_small :
    Coefficient.ofString (least.display { zeros := true, width := 45 }) = .ok least ∧
    ∃ before behind, before + behind = 3 ∧ before ≤ behind ∧ behind ≤ before + 1 ∧
      ((ofWord 5).display
          { fill := '*', alignment := some .centre, plus := true, width := 5 }).toList =
        List.replicate before '*' ++ ['+', '5'] ++ List.replicate behind '*' := by
  obtain ⟨-, -, hread, -⟩ := display_fills_field least { zeros := true, width := 45 }
  obtain ⟨-, -, -, hfill⟩ := display_fills_field (ofWord 5)
    { fill := '*', alignment := some .centre, plus := true, width := 5 }
  obtain ⟨before, behind, hmissing, ⟨hle, hge⟩, htext⟩ := hfill rfl
  exact ⟨hread (by decide) (Or.inl rfl), before, behind, hmissing, hle, hge, htext⟩

end Coefficient

end WideDecimal
