import WideDecimal.Proofs.Format
import WideDecimal.Proofs.NativeInteger
import WideDecimal.Proofs.Reader
import WideDecimal.Proofs.ShortestNumeral

namespace WideDecimal

open Coefficient (Fits ofInt)
open DigitText
open Literal (Spelling)

theorem exists_spelling_of_isNumeral {text : List Char} {n : Int} (h : IsNumeral text n) :
    ∃ f : Spelling, f.text = text ∧ f.number = n ∧ f.exponent = none ∧ f.scale = 0 := by
  obtain ⟨sign, digits, rfl, hne, hdigits, hvalue⟩ := h
  let f : Spelling := ⟨sign, digits, [], none, hdigits, nofun, fun hnone => hne hnone.1⟩
  refine ⟨f, ?_, ?_, rfl, rfl⟩
  · simp [f, Spelling.text, Spelling.tail, Literal.fractionText, Literal.exponentText]
  · rw [f.number_eq, ← hvalue]
    simp [f]

theorem ofString_of_isNumeral {text : List Char} {n : Int} (h : IsNumeral text n)
    (hlength : text.length < 2 ^ 32) (hfits : Fits n) :
    Coefficient.ofString (String.ofList text) = .ok (ofInt n) := by
  obtain ⟨f, htext, rfl, hexponent, hscale⟩ := exists_spelling_of_isNumeral h
  have hprecision : f.precision < 2 ^ 32 := by
    have hcount := f.precision_le_countP
    rw [htext] at hcount
    exact Nat.lt_of_le_of_lt (Nat.le_trans hcount List.countP_le_length) hlength
  have hrange : f.InRange := by
    refine ⟨hprecision, ?_, ?_, hfits⟩
    · rw [hexponent]
      exact nofun
    · rw [hscale]
      unfold Literal.InScaleRange
      omega
  obtain ⟨l, hdenotes⟩ := f.inRange_iff_exists_denotes.mp hrange
  have hread := (Literal.ofString_text_iff (String.toList_ofList.trans htext.symm)).mpr hdenotes
  rw [Coefficient.ofString, hread, ← hdenotes.value_eq, Coefficient.ofInt_toInt]
  rfl

theorem ofString_of_isNumeral_large {text : List Char} {n : Int} (h : IsNumeral text n)
    (hlarge : ¬Fits n) : ∃ e, Coefficient.ofString (String.ofList text) = .error e := by
  obtain ⟨f, htext, rfl, -, -⟩ := exists_spelling_of_isNumeral h
  rw [Coefficient.ofString]
  cases hread : Literal.ofString (String.ofList text) with
  | error e => exact ⟨e, rfl⟩
  | ok l =>
    have hdenotes := (Literal.ofString_text_iff (String.toList_ofList.trans htext.symm)).mp hread
    rw [← hdenotes.value_eq] at hlarge
    exact absurd l.value.fits_toInt hlarge

namespace Exchange

theorem readText_of_ok {α : Type} {reader : String → Except Error α} {expected s : String} {a : α}
    (h : reader s = .ok a) : readText reader expected s = .ok a := by
  rw [readText, h]
  rfl

theorem readText_of_error {α : Type} {reader : String → Except Error α} {expected s : String}
    {e : Error} (h : reader s = .error e) :
    readText reader expected s = .error (.text s expected) := by
  rw [readText, h]
  rfl

theorem plain_of_isDigit {c : Char} (h : c.isDigit) : c ≠ '"' ∧ c ≠ '\\' ∧ 0x20 ≤ c.toNat := by
  have hrange := (isDigit_iff c).mp h
  refine ⟨?_, ?_, by omega⟩
  · rintro rfl
    exact absurd h (by decide)
  · rintro rfl
    exact absurd h (by decide)

theorem plain_toString (v : Coefficient) : Plain (toString v) := by
  intro c hc
  change c ∈ (String.ofList v.numeral).toList at hc
  rw [String.toList_ofList, v.numeral_eq, List.mem_append] at hc
  rcases hc with hc | hc
  · unfold Coefficient.signText at hc
    split at hc
    next =>
      rw [List.mem_singleton.mp hc]
      exact ⟨by decide, by decide, by decide⟩
    next => cases hc
  · exact plain_of_isDigit (isDigit_of_mem_toDigits hc)

theorem text_numeral (v : Coefficient) : coefficientVisitor.text (toString v) = .ok v := by
  have hlength : v.numeral.length < 2 ^ 32 := Nat.lt_of_le_of_lt v.length_numeral_le (by decide)
  have hread := ofString_of_isNumeral v.isNumeral_numeral hlength v.fits_toInt
  rw [Coefficient.ofInt_toInt] at hread
  have htext : toString v = String.ofList v.numeral := rfl
  rw [htext, coefficientVisitor]
  dsimp only
  rw [readText_of_ok hread]

theorem text_toString {n : Int} (h : Fits n) :
    coefficientVisitor.text (toString n) = .ok (ofInt n) := by
  have hread := text_numeral (ofInt n)
  rwa [Coefficient.toString_eq, Coefficient.toInt_ofInt_of_bounds h.1 h.2] at hread

theorem text_toString_large {n : Int} (h : ¬Fits n) :
    coefficientVisitor.text (toString n) = .error (.text (toString n) expectedCoefficient) := by
  obtain ⟨e, hread⟩ := ofString_of_isNumeral_large (isNumeral_toString n) h
  rw [String.ofList_toList] at hread
  exact readText_of_error hread

theorem uint128_of_fits {n : Int} (h : Fits n) : coefficientVisitor.uint128 n = .ok (ofInt n) := by
  rw [coefficientVisitor]
  dsimp only
  rw [Coefficient.ofInteger?_of_fits h]

theorem uint128_large {n : Int} (h : 2 ^ 127 ≤ n) :
    coefficientVisitor.uint128 n = .error (.tooLarge expectedCoefficient) := by
  rw [coefficientVisitor]
  dsimp only
  rw [Coefficient.ofInteger?_large h]

section

variable {visit : Value → Except Refusal Coefficient} (hvisit : coefficientVisitor.Forwards visit)

include hvisit

theorem visit_integer {n : Int} (h : Fits n) (t : IntegerType) :
    visit (.integer t n) = .ok (ofInt n) := by
  by_cases hint : t = .int128
  · rw [hint]
    exact hvisit.int128 n
  by_cases huint : t = .uint128
  · rw [huint, hvisit.uint128, uint128_of_fits h]
  have hword := IntegerType.width_le_word hint huint
  cases hsigned : t.isSigned with
  | true => exact hvisit.signed hsigned hword n
  | false => exact hvisit.unsigned hsigned hword n

theorem visit_numeral (v : Coefficient) : visit (.text (toString v)) = .ok v := by
  rw [hvisit.text, text_numeral]

variable {f : Format} (hf : f.Verbatim)

include hf

theorem read_writeText_numeral (v : Coefficient) :
    f.read visit (f.writeText (toString v)) = .ok v :=
  hf.read_writeText (plain_toString v) (visit_numeral hvisit v)

theorem readList_writeTexts_numerals (vs : List Coefficient) :
    f.readList visit (f.writeTexts (vs.map toString)) = .ok vs := by
  apply hf.readList_writeTexts
  · intro s hs
    obtain ⟨v, -, rfl⟩ := List.mem_map.mp hs
    exact plain_toString v
  · rw [List.forall₂_map_left_iff]
    exact List.forall₂_same.mpr fun v _ => read_writeText_numeral hvisit hf v

end

/-- An integer that a coefficient denotes is read as it from every type that has it and from its
numeral, and one that only the widest type has is refused either way. What a coefficient is written
as is read back, by itself and from a document of any format, alone and in a list. -/
theorem exchange_agrees {visit : Value → Except Refusal Coefficient}
    (hvisit : coefficientVisitor.Forwards visit) {f : Format} (hf : f.Verbatim) (n : Int) :
    (Fits n → (ofInt n).toInt = n ∧
      (∀ t : IntegerType, t.lower ≤ n → n ≤ t.upper → visit (.integer t n) = .ok (ofInt n)) ∧
      visit (.text (toString n)) = .ok (ofInt n) ∧
      ∀ c : Char, toString n = c.toString → visit (.character c) = .ok (ofInt n)) ∧
    (2 ^ 127 ≤ n → n < 2 ^ 128 →
      visit (.integer .uint128 n) = .error (.tooLarge expectedCoefficient) ∧
        visit (.text (toString n)) = .error (.text (toString n) expectedCoefficient)) ∧
    (∀ v, ∃ s, ofCoefficient v = .text s ∧ visit (.text s) = .ok v ∧
      f.read visit (f.writeText s) = .ok v) ∧
    ∀ vs : List Coefficient, ∃ texts, vs.map ofCoefficient = texts.map Value.text ∧
      f.readList visit (f.writeTexts texts) = .ok vs := by
  refine ⟨fun hfits => ⟨?_, fun t _ _ => visit_integer hvisit hfits t, ?_, fun c hc => ?_⟩,
    fun hlarge _ => ⟨?_, ?_⟩, fun v => ?_, fun vs => ?_⟩
  · exact Coefficient.toInt_ofInt_of_bounds hfits.1 hfits.2
  · rw [hvisit.text, text_toString hfits]
  · rw [hvisit.character, ← hc, text_toString hfits]
  · rw [hvisit.uint128, uint128_large hlarge]
  · have hnot : ¬Fits n := fun hfits => Int.not_lt.mpr hlarge hfits.2
    rw [hvisit.text, text_toString_large hnot]
  · exact ⟨toString v, rfl, visit_numeral hvisit v, read_writeText_numeral hvisit hf v⟩
  · exact ⟨vs.map toString, List.map_map.symm, readList_writeTexts_numerals hvisit hf vs⟩

theorem exchange_agrees_greatest :
    (toCoefficient (.integer .uint128 (2 ^ 127 - 1)) = .ok .greatest ∧
      toCoefficient (.text "170141183460469231731687303715884105727") = .ok .greatest) ∧
    (toCoefficient (.integer .uint128 (2 ^ 127)) = .error (.tooLarge expectedCoefficient) ∧
      toCoefficient (.text "170141183460469231731687303715884105728") =
        .error (.text "170141183460469231731687303715884105728" expectedCoefficient)) ∧
    Json.format.read toCoefficient "\"-170141183460469231731687303715884105728\"" = .ok .least ∧
    Json.format.readList toCoefficient "[\"-1\",\"0\"]" = .ok [.negOne, .zero] := by
  have hvisit : coefficientVisitor.Forwards toCoefficient := coefficientVisitor.forwards_visit
  obtain ⟨hsmall, -, hone, hmany⟩ := exchange_agrees hvisit Json.verbatim_format (2 ^ 127 - 1)
  obtain ⟨-, hinteger, htext, -⟩ := hsmall (by decide)
  have hlarge := (exchange_agrees hvisit Json.verbatim_format (2 ^ 127)).2.1
  refine ⟨⟨hinteger .uint128 (by decide) (by decide), htext⟩, hlarge (by decide) (by decide),
    ?_, ?_⟩
  · obtain ⟨s, hs, -, hread⟩ := hone .least
    have htext : toString Coefficient.least = s := Value.text.inj hs
    rw [Coefficient.toString_eq] at htext
    have hwrite : Json.format.writeText s = "\"-170141183460469231731687303715884105728\"" := by
      rw [← htext]
      rfl
    rw [hwrite] at hread
    exact hread
  · obtain ⟨texts, htexts, hread⟩ := hmany [.negOne, .zero]
    have hnumerals : [toString Coefficient.negOne, toString Coefficient.zero] = texts :=
      List.map_injective_iff.mpr (fun _ _ => Value.text.inj) htexts
    have hwrite : Json.format.writeTexts texts = "[\"-1\",\"0\"]" := by
      rw [← hnumerals]
      rfl
    rw [hwrite] at hread
    exact hread

end Exchange

end WideDecimal
