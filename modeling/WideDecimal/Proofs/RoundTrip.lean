import WideDecimal.Exchange.Value
import WideDecimal.Proofs.Reader
import WideDecimal.Proofs.ScaledText

namespace WideDecimal

open DigitText Literal

namespace Coefficient

/-- The number of digits that a coefficient shows at a scale. -/
def shownDigits (v : Coefficient) (scale : Int32) : Int :=
  if v.usesExponent scale then v.digitCount else max (v.digitCount : Int) scale.toInt

theorem digitCount_le (v : Coefficient) : v.digitCount ≤ 39 := v.length_toDigits_le

theorem ofString_scaledText_iff {v : Coefficient} {scale : Int32} {l : Literal} :
    Literal.ofString (v.scaledText scale) = .ok l ↔
      l.value = v ∧ l.scale = scale ∧ (l.precision.toNat : Int) = v.shownDigits scale ∧
        v.adjustedExponent scale < 2 ^ 31 := by
  have huses := v.usesExponent_iff scale
  have hadjusted := v.adjustedExponent_eq scale
  have hcount := v.digitCount_le
  have hscalelt := scale.toInt_lt
  obtain ⟨f, htext, hnumber, hscale, hparts⟩ := v.exists_spelling_scaled scale
  have hprecision : (f.precision : Int) = v.shownDigits scale := by
    unfold shownDigits
    split at hparts
    next hexp => rw [if_pos hexp, hparts.2]
    next hplain => rw [if_neg hplain, hparts.2]
  have hrange : (∀ e ∈ f.exponent, InScaleRange e.value) ↔ v.adjustedExponent scale < 2 ^ 31 := by
    split at hparts
    next hexp =>
      rw [hparts.1]
      simp only [Option.mem_def, Option.some.injEq, forall_eq', Exponent.value_ofInt]
      unfold InScaleRange
      omega
    next hplain =>
      rw [hparts.1]
      have := mt huses.mpr hplain
      exact ⟨fun _ => by omega, fun _ _ he => nomatch he⟩
  rw [scaledText, ofString_text_iff (String.toList_ofList.trans htext.symm)]
  constructor
  · rintro ⟨hvalue, hdigits, hplaces, hexponent⟩
    refine ⟨?_, ?_, ?_, hrange.mp hexponent⟩
    · exact toInt_inj.mp (hvalue.trans hnumber)
    · exact Int32.toInt_inj.mp (hplaces.trans hscale)
    · rw [hdigits, hprecision]
  · rintro ⟨rfl, rfl, hdigits, hexponent⟩
    exact ⟨hnumber.symm, by omega, hscale.symm, hrange.mpr hexponent⟩

theorem exists_ofString_scaledText {v : Coefficient} {scale : Int32}
    (h : v.adjustedExponent scale < 2 ^ 31) :
    ∃ l, Literal.ofString (v.scaledText scale) = .ok l ∧ l.value = v ∧ l.scale = scale ∧
      (l.precision.toNat : Int) = v.shownDigits scale := by
  have hcount := v.digitCount_le
  have hscalelt := scale.toInt_lt
  have hdigits : ((UInt32.ofNat (v.shownDigits scale).toNat).toNat : Int) =
      v.shownDigits scale := by
    have hbounds : 0 ≤ v.shownDigits scale ∧ v.shownDigits scale < 2 ^ 32 := by
      unfold shownDigits
      split <;> omega
    rw [UInt32.toNat_ofNat']
    omega
  exact ⟨⟨v, UInt32.ofNat (v.shownDigits scale).toNat, scale⟩,
    ofString_scaledText_iff.mpr ⟨rfl, rfl, hdigits, h⟩, rfl, rfl, hdigits⟩

end Coefficient

theorem Literal.display_eq (l : Literal) : l.display {} = l.value.scaledText l.scale := by
  have hunpadded : Padding.text {} l.canonical = l.canonical := by
    simp [Padding.text, Padding.surround]
  rw [display, hunpadded]
  rfl

theorem Exchange.toLiteral_ofLiteral_iff {l m : Literal} :
    toLiteral (ofLiteral l) = .ok m ↔
      Literal.ofString (l.value.scaledText l.scale) = .ok m := by
  change (Literal.ofString (l.value.scaledText l.scale)).mapError _ = .ok m ↔ _
  cases Literal.ofString (l.value.scaledText l.scale) with
  | error e => exact ⟨fun h => (nomatch h), fun h => (nomatch h)⟩
  | ok l => exact ⟨fun h => by cases h; rfl, fun h => by cases h; rfl⟩

namespace Coefficient

theorem exists_ofString_iff (v : Coefficient) (scale : Int32) :
    (∃ l, Literal.ofString (v.scaledText scale) = .ok l ∧ l.value = v ∧ l.scale = scale) ↔
      (v.digitCount : Int) - 1 - scale.toInt ≤ 2 ^ 31 - 1 := by
  have hadjusted := v.adjustedExponent_eq scale
  constructor
  · rintro ⟨l, hl, -, -⟩
    obtain ⟨-, -, -, hlt⟩ := ofString_scaledText_iff.mp hl
    omega
  · intro hle
    obtain ⟨l, hl, hvalue, hscale, -⟩ :=
      exists_ofString_scaledText (show v.adjustedExponent scale < 2 ^ 31 by omega)
    exact ⟨l, hl, hvalue, hscale⟩

/-- The text of a coefficient at a scale is read back exactly where the exponent of its first
digit is in range, and so are the canonical text of a literal and its exchanged value. -/
theorem ofString_scaledText_roundTrip (v : Coefficient) (scale : Int32) :
    (if (v.digitCount : Int) - 1 - scale.toInt ≤ 2 ^ 31 - 1 then
      ∃ l, Literal.ofString (v.scaledText scale) = .ok l ∧ l.value = v ∧ l.scale = scale ∧
        (l.precision.toNat : Int) =
          if 'E' ∈ v.scaled scale then (v.digitCount : Int)
          else max (v.digitCount : Int) scale.toInt
    else ∃ e, Literal.ofString (v.scaledText scale) = .error e) ∧
    ∀ l : Literal,
      ((∃ m, Literal.ofString (l.display {}) = .ok m ∧ m.value = l.value ∧ m.scale = l.scale) ↔
        (l.value.digitCount : Int) - 1 - l.scale.toInt ≤ 2 ^ 31 - 1) ∧
      ((∃ m, Exchange.toLiteral (Exchange.ofLiteral l) = .ok m ∧ m.value = l.value ∧
          m.scale = l.scale) ↔
        (l.value.digitCount : Int) - 1 - l.scale.toInt ≤ 2 ^ 31 - 1) := by
  have hadjusted := v.adjustedExponent_eq scale
  refine ⟨?_, fun l => ⟨?_, ?_⟩⟩
  · split
    next hle =>
      obtain ⟨l, hl, hvalue, hscale, hdigits⟩ :=
        exists_ofString_scaledText (show v.adjustedExponent scale < 2 ^ 31 by omega)
      refine ⟨l, hl, hvalue, hscale, ?_⟩
      rw [hdigits, shownDigits, if_congr (v.mark_mem_scaled_iff scale) rfl rfl]
    next hlt =>
      cases hread : Literal.ofString (v.scaledText scale) with
      | error e => exact ⟨e, rfl⟩
      | ok l =>
        obtain ⟨-, -, -, hrange⟩ := ofString_scaledText_iff.mp hread
        omega
  · rw [Literal.display_eq]
    exact exists_ofString_iff l.value l.scale
  · simp only [Exchange.toLiteral_ofLiteral_iff]
    exact exists_ofString_iff l.value l.scale

end Coefficient

namespace Literal

theorem Spelling.Denotes.digitCount_le {f : Spelling} {l : Literal} (h : f.Denotes l) :
    l.value.digitCount ≤ f.precision := by
  refine (Nat.length_toDigits_le_iff (by decide) f.precision_pos).mpr ?_
  rw [h.value_eq]
  exact f.natAbs_number_lt

/-- A literal that was read shows an exponent that can be read: it has no more digits than were
written, so the exponent is at most the one that was. -/
theorem Spelling.Denotes.adjustedExponent_lt {f : Spelling} {l : Literal} (h : f.Denotes l) :
    l.value.adjustedExponent l.scale < 2 ^ 31 := by
  have hcount := l.value.digitCount_le
  have hdigits := h.digitCount_le
  have hscale := h.scale_eq
  rw [l.value.adjustedExponent_eq]
  unfold scale scaleOf at hscale
  split at hscale
  next =>
    -- Without an exponent the scale counts digits, and a coefficient has 39 at most.
    omega
  next e hexponent =>
    have hrange := h.exponent_range e hexponent
    unfold InScaleRange at hrange
    omega

theorem adjustedExponent_lt_of_ofString {s : String} {l : Literal} (h : ofString s = .ok l) :
    l.value.adjustedExponent l.scale < 2 ^ 31 := by
  obtain ⟨f, -, hdenotes⟩ := ofString_eq_ok_iff.mp h
  exact hdenotes.adjustedExponent_lt

/-- The canonical text of a literal that was read is read again, with the same value and scale
and the same canonical text. Any other literal has another canonical text, unless value and scale
are the same. -/
theorem display_canonical {s : String} {l : Literal} (h : ofString s = .ok l) :
    (∃ k, ofString (l.display {}) = .ok k ∧ k.value = l.value ∧ k.scale = l.scale ∧
      k.display {} = l.display {}) ∧
    InScaleRange (l.value.adjustedExponent l.scale) ∧
    ∀ m : Literal, l.display {} = m.display {} ↔ l.value = m.value ∧ l.scale = m.scale := by
  have hrange := adjustedExponent_lt_of_ofString h
  obtain ⟨k, hk, hvalue, hscale, -⟩ := Coefficient.exists_ofString_scaledText hrange
  refine ⟨⟨k, ?_, hvalue, hscale, ?_⟩, ⟨?_, hrange⟩, fun m => ?_⟩
  · rw [display_eq, hk]
  · rw [display_eq, display_eq, hvalue, hscale]
  · have hpos := l.value.digitCount_pos
    have hlt := l.scale.toInt_lt
    rw [l.value.adjustedExponent_eq]
    omega
  · rw [display_eq, display_eq]
    constructor
    · intro htext
      rw [htext] at hk
      obtain ⟨hvalue', hscale', -, -⟩ := Coefficient.ofString_scaledText_iff.mp hk
      exact ⟨hvalue.symm.trans hvalue', hscale.symm.trans hscale'⟩
    · rintro ⟨heq, hplaces⟩
      rw [heq, hplaces]

theorem display_canonical_small :
    ofString "0.0000001500" = .ok ⟨⟨0, 1500⟩, 10, 10⟩ ∧
      ∃ k, ofString "1.500E-7" = .ok k ∧ k.value = ⟨0, 1500⟩ ∧ k.scale = 10 ∧
        k.display {} = "1.500E-7" := by
  have hread : ofString "0.0000001500" = .ok ⟨⟨0, 1500⟩, 10, 10⟩ := by decide
  exact ⟨hread, (display_canonical hread).1⟩

end Literal

end WideDecimal
