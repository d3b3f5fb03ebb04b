import WideDecimal.Proofs.Exponent

namespace WideDecimal.Literal

open DigitText
open Encoding (bytes bytes_eq_self eq_of_bytes_ascii)

theorem readFraction_append {fraction text : List Char} (h : ∀ c ∈ fraction, c.isDigit)
    (hdigit : Clear Char.isDigit text) (hpoint : fraction = [] → Clear (· == '.') text) :
    readFraction (fractionText fraction ++ text) = .ok (fraction, text) := by
  cases fraction with
  | nil =>
    have hclear := hpoint rfl
    change readFraction text = _
    unfold readFraction
    split
    next => simp [Clear] at hclear
    next => simp [Clear] at hclear
    next => rfl
  | cons c fraction =>
    change (if c.isDigit then Except.ok ((c :: fraction ++ text).span Char.isDigit) else _) = _
    rw [if_pos (h c (by simp)), span_append h hdigit]

theorem readFraction_fractionText {fraction : List Char} (h : ∀ c ∈ fraction, c.isDigit)
    (exponent : Option Exponent) :
    readFraction (fractionText fraction ++ exponentText exponent) =
      .ok (fraction, exponentText exponent) :=
  readFraction_append h (clear_exponentText rfl rfl exponent) fun _ =>
    clear_exponentText rfl rfl exponent

theorem readFraction_shape {text fraction rest : List Char}
    (h : readFraction text = .ok (fraction, rest)) :
    text = fractionText fraction ++ rest ∧ ∀ c ∈ fraction, c.isDigit := by
  unfold readFraction at h
  split at h
  next => cases h
  next c text =>
    split at h
    next hdigit =>
      obtain ⟨hsplit, hdigits, hclear⟩ := span_spec Char.isDigit (c :: text)
      rw [Except.ok.injEq] at h
      rw [h] at hsplit hdigits hclear
      dsimp only at hsplit hdigits hclear
      have hne : fraction ≠ [] := by
        rintro rfl
        rw [List.nil_append] at hsplit
        rw [← hsplit] at hclear
        exact absurd (hclear c rfl) (by simp [hdigit])
      refine ⟨?_, hdigits⟩
      rw [fractionText, if_neg hne, hsplit, List.cons_append]
    next => cases h
  next =>
    cases h
    refine ⟨rfl, ?_⟩
    intro c hc
    cases hc

theorem readFraction_of_finished {text : List Char} (h : Finished (readFraction text)) :
    ∃ parts, readFraction text = .ok parts := by
  unfold readFraction at h ⊢
  split at h
  next => exact (h _ rfl).elim
  next c text =>
    split at h
    next hdigit => exact ⟨_, if_pos hdigit⟩
    next => exact (h _ rfl).elim
  next => exact ⟨_, rfl⟩

theorem readPrecision_of_finished {count : Nat} (h : Finished (readPrecision count)) :
    ∃ precision, readPrecision count = .ok precision := by
  unfold readPrecision at h ⊢
  split at h
  next hlt => exact ⟨_, if_pos hlt⟩
  next => exact (h _ rfl).elim

theorem readPrecision_eq_ok_iff {count : Nat} {precision : UInt32} :
    readPrecision count = .ok precision ↔ precision.toNat = count := by
  unfold readPrecision
  constructor
  · intro h
    split at h
    next hlt =>
      cases h
      exact Nat.mod_eq_of_lt hlt
    next => cases h
  · rintro rfl
    rw [if_pos precision.toNat_lt, UInt32.ofNat_toNat]

theorem readPrecision_eq_error {count : Nat} {fault : Fault (List Char)}
    (h : readPrecision count = .error fault) : fault = .digitCount ∧ 2 ^ 32 ≤ count := by
  unfold readPrecision at h
  split at h
  next => cases h
  next hle =>
    cases h
    exact ⟨rfl, Nat.le_of_not_lt hle⟩

theorem assemble_eq_ok_iff {negative : Bool} {zeros : Nat} {whole fraction : List Char}
    {exponent : Option Exponent} {l : Literal} (h : ∀ c ∈ whole ++ fraction, c.isDigit) :
    assemble negative zeros whole fraction (exponentText exponent) = .ok l ↔
      l.value.toInt = signed negative (Nat.ofDigitChars 10 (whole ++ fraction) 0) ∧
      l.precision.toNat =
        (if whole ++ fraction = [] then zeros else (whole ++ fraction).length) ∧
      l.scale.toInt = scaleOf fraction.length l.precision.toNat exponent ∧
      ∀ e ∈ exponent, InScaleRange e.value := by
  unfold assemble
  dsimp only
  rw [bind_eq_ok_iff]
  constructor
  · rintro ⟨precision, hprecision, hok⟩
    obtain ⟨written, hwritten, hok⟩ := bind_eq_ok_iff.mp hok
    rw [readPrecision_eq_ok_iff] at hprecision
    obtain ⟨hrange, rfl⟩ := readScale_exponentText.mp hwritten
    split at hok
    next scale hscale =>
      split at hok
      next value hvalue =>
        rw [Coefficient.ofDigits?_eq negative h] at hvalue
        cases hok
        exact ⟨Coefficient.ofInt?_eq_some_iff.mp hvalue, hprecision,
          scale?_eq_some_iff.mp hscale, hrange⟩
      next => cases hok
    next => cases hok
  · rintro ⟨hvalue, hprecision, hscale, hrange⟩
    refine ⟨l.precision, readPrecision_eq_ok_iff.mpr hprecision, ?_⟩
    refine bind_eq_ok_iff.mpr ⟨_, readScale_exponentText.mpr ⟨hrange, rfl⟩, ?_⟩
    rw [scale?_eq_some_iff.mpr hscale, Coefficient.ofDigits?_eq negative h,
      Coefficient.ofInt?_eq_some_iff.mpr hvalue]
    rfl

theorem readDigits_text {negative : Bool} {zeros : Nat} {whole fraction : List Char}
    {exponent : Option Exponent} (hwhole : ∀ c ∈ whole, c.isDigit)
    (hfraction : ∀ c ∈ fraction, c.isDigit) (hne : ¬(zeros = 0 ∧ whole = [] ∧ fraction = [])) :
    readDigits negative zeros (whole ++ (fractionText fraction ++ exponentText exponent)) =
      assemble negative zeros whole fraction (exponentText exponent) := by
  have hclear : Clear Char.isDigit (fractionText fraction ++ exponentText exponent) := by
    unfold fractionText
    split
    next => exact clear_exponentText rfl rfl exponent
    next => exact clear_cons rfl _
  unfold readDigits
  rw [span_append hwhole hclear]
  dsimp only
  rw [readFraction_fractionText hfraction]
  change (if zeros = 0 ∧ whole = [] ∧ fraction = [] then _ else _) = _
  rw [if_neg hne]

theorem readDigits_shape {negative : Bool} {zeros : Nat} {text : List Char}
    (h : Finished (readDigits negative zeros text)) :
    ∃ whole fraction exponent,
      text = whole ++ (fractionText fraction ++ exponentText exponent) ∧
      (∀ c ∈ whole, c.isDigit) ∧ (∀ c ∈ fraction, c.isDigit) ∧
      ¬(zeros = 0 ∧ whole = [] ∧ fraction = []) := by
  obtain ⟨hsplit, hwhole, -⟩ := span_spec Char.isDigit text
  unfold readDigits at h
  dsimp only at h
  obtain ⟨⟨fraction, rest⟩, hfraction, h⟩ := finished_bind h readFraction_of_finished
  obtain ⟨hrest, hdigits⟩ := readFraction_shape hfraction
  dsimp only at h
  split at h
  next => exact (h _ rfl).elim
  next hne =>
    unfold assemble at h
    obtain ⟨precision, -, h⟩ := finished_bind h readPrecision_of_finished
    obtain ⟨written, hwritten, -⟩ := finished_bind h readScale_of_finished
    obtain ⟨exponent, rfl⟩ := readScale_shape hwritten
    refine ⟨_, fraction, exponent, ?_, hwhole, hdigits, hne⟩
    rw [← hrest]
    exact hsplit

theorem read_text_eq (f : Spelling) :
    read f.text =
      if f.leading ++ f.tail = [] then do
        return ⟨.zero, ← readPrecision f.zeros.length, 0⟩
      else readDigits f.sign.isMinus f.zeros.length (f.leading ++ f.tail) := by
  have hsplit : splitSign f.text = (f.sign.isMinus, f.whole ++ f.tail) :=
    splitSign_text f.sign fun _ => f.clear_isSign
  have hspan : (f.whole ++ f.tail).span (· = '0') = (f.zeros, f.leading ++ f.tail) := by
    rw [f.whole_eq, List.append_assoc]
    have hzeros : ∀ c ∈ f.zeros, decide (c = '0') := fun c hc =>
      List.mem_takeWhile_imp (p := (· = '0')) hc
    exact span_append hzeros f.clear_zero_leading
  have hne : f.text ≠ [] := fun hnil =>
    f.whole_append_tail_ne_nil (List.append_eq_nil_iff.mp hnil).2
  obtain ⟨first, text, htext⟩ := List.exists_cons_of_ne_nil hne
  rw [htext] at hsplit ⊢
  unfold read
  dsimp only
  rw [hsplit]
  dsimp only
  rw [if_neg f.whole_append_tail_ne_nil, hspan]

theorem significand_eq_nil {f : Spelling} (h : f.leading ++ f.tail = []) : f.significand = [] := by
  obtain ⟨hleading, htail⟩ := List.append_eq_nil_iff.mp h
  obtain ⟨hfraction, -⟩ := f.tail_eq_nil_iff.mp htail
  rw [Spelling.significand, hleading, hfraction, List.append_nil]

/-- Zeros alone stand for zero at scale zero, as precise as there are zeros. -/
theorem denotes_zeros {f : Spelling} (h : f.leading ++ f.tail = []) {precision : UInt32}
    (hprecision : precision.toNat = f.zeros.length) : f.Denotes ⟨.zero, precision, 0⟩ := by
  obtain ⟨-, htail⟩ := List.append_eq_nil_iff.mp h
  obtain ⟨hfraction, hexponent⟩ := f.tail_eq_nil_iff.mp htail
  have hsignificand := significand_eq_nil h
  refine ⟨?_, ?_, ?_, ?_⟩
  · rw [Spelling.number, hsignificand, Nat.ofDigitChars_nil, signed_zero]
    exact show Coefficient.zero.toInt = 0 by decide
  · rw [Spelling.precision, if_pos hsignificand]
    exact hprecision
  · rw [Spelling.scale, hexponent, hfraction]
    rfl
  · rw [hexponent]
    intro e he
    cases he

theorem read_text (f : Spelling) {l : Literal} : read f.text = .ok l ↔ f.Denotes l := by
  rw [read_text_eq]
  split
  next hnil =>
    rw [bind_eq_ok_iff]
    constructor
    · rintro ⟨precision, hprecision, hok⟩
      cases hok
      exact denotes_zeros hnil (readPrecision_eq_ok_iff.mp hprecision)
    · intro h
      have hprecision : l.precision.toNat = f.zeros.length := by
        rw [h.precision_eq, Spelling.precision, if_pos (significand_eq_nil hnil)]
      exact ⟨l.precision, readPrecision_eq_ok_iff.mpr hprecision,
        congrArg Except.ok ((denotes_zeros hnil hprecision).unique h)⟩
  next hne =>
    rw [Spelling.tail, readDigits_text f.leading_isDigit f.fraction_isDigit f.parts_ne_nil,
      assemble_eq_ok_iff f.significand_isDigit]
    constructor
    · rintro ⟨hvalue, hprecision, hscale, hrange⟩
      refine ⟨hvalue, hprecision, ?_, hrange⟩
      rw [hscale, Spelling.scale, hprecision]
      rfl
    · rintro ⟨hvalue, hprecision, hscale, hrange⟩
      refine ⟨hvalue, hprecision, ?_, hrange⟩
      rw [hscale, Spelling.scale, hprecision]

theorem exists_spelling (sign : Sign) {whole fraction : List Char} (exponent : Option Exponent)
    (hwhole : ∀ c ∈ whole, c.isDigit) (hfraction : ∀ c ∈ fraction, c.isDigit)
    (hne : ¬(whole = [] ∧ fraction = [])) :
    ∃ f : Spelling, f.text =
      sign.text ++ (whole ++ (fractionText fraction ++ exponentText exponent)) :=
  ⟨⟨sign, whole, fraction, exponent, hwhole, hfraction, hne⟩, rfl⟩

theorem isDigit_of_zeros {zeros : List Char} (h : ∀ c ∈ zeros, decide (c = '0')) :
    ∀ c ∈ zeros, c.isDigit := by
  intro c hc
  rw [of_decide_eq_true (h c hc)]
  rfl

theorem digits_ne_nil_of_parts {zeros whole fraction : List Char}
    (h : ¬(zeros.length = 0 ∧ whole = [] ∧ fraction = [])) :
    ¬(zeros ++ whole = [] ∧ fraction = []) := by
  rintro ⟨hnone, hnofraction⟩
  obtain ⟨hnozeros, hnowhole⟩ := List.append_eq_nil_iff.mp hnone
  exact h ⟨List.length_eq_zero_iff.mpr hnozeros, hnowhole, hnofraction⟩

/-- Whatever is read to its end has a spelling. -/
theorem read_shape {text : List Char} (h : Finished (read text)) :
    ∃ f : Spelling, f.text = text := by
  unfold read at h
  split at h
  next first rest =>
    obtain ⟨sign, hsign, -⟩ := splitSign_spec (first :: rest)
    generalize splitSign (first :: rest) = parts at h hsign
    obtain ⟨negative, unsigned⟩ := parts
    dsimp only at h hsign
    split at h
    next => exact (h _ rfl).elim
    next hne =>
      obtain ⟨hsplit, hall, -⟩ := span_spec (· = '0') unsigned
      generalize unsigned.span (· = '0') = parts at h hsplit hall
      obtain ⟨zeros, rest⟩ := parts
      dsimp only at h hsplit hall
      have hzeros := isDigit_of_zeros hall
      rw [hsign, hsplit]
      split at h
      next hnil =>
        -- Zeros with nothing behind them are the whole digits themselves.
        rw [hnil, List.append_nil] at hsplit ⊢
        have hsome : ¬(zeros = [] ∧ ([] : List Char) = []) := fun hnone =>
          hne (hsplit.trans hnone.1)
        have hfound := exists_spelling sign none hzeros (List.forall_mem_nil _) hsome
        simpa [fractionText, exponentText] using hfound
      next =>
        -- The zeros in front go back to the whole digits.
        obtain ⟨whole, fraction, exponent, rfl, hwhole, hfraction, hparts⟩ := readDigits_shape h
        have hdigits := List.forall_mem_append.mpr ⟨hzeros, hwhole⟩
        rw [← List.append_assoc zeros]
        exact exists_spelling sign exponent hdigits hfraction (digits_ne_nil_of_parts hparts)
  next => exact (h _ rfl).elim

/-- Through its bytes a text is read as it is read through its characters. -/
theorem read_bytes_eq_ok_iff {text : List Char} {l : Literal} :
    read (bytes text) = .ok l ↔ read text = .ok l := by
  constructor
  · intro h
    obtain ⟨f, hf⟩ := read_shape (finished_of_ok h)
    have htext := eq_of_bytes_ascii f.isAscii_text hf.symm
    rwa [← hf, ← htext] at h
  · intro h
    obtain ⟨f, hf⟩ := read_shape (finished_of_ok h)
    rwa [bytes_eq_self (hf ▸ f.isAscii_text)]

theorem parse_eq_ok_iff {s : String} {l : Literal} : parse s = .ok l ↔ read s.toList = .ok l := by
  rw [← read_bytes_eq_ok_iff, parse, guardedParse]
  cases read (bytes s.toList) with
  | ok m =>
    change (Except.ok m : Except (Fault Char) Literal) = .ok l ↔ _
    rw [Except.ok.injEq, Except.ok.injEq]
  | error fault => exact ⟨fun h => (nomatch h), fun h => (nomatch h)⟩

theorem ofString_eq_ok_iff_read {s : String} {l : Literal} :
    ofString s = .ok l ↔ read s.toList = .ok l := by
  rw [← parse_eq_ok_iff, ofString]
  cases parse s with
  | error fault => exact ⟨fun h => (nomatch h), fun h => (nomatch h)⟩
  | ok m =>
    change Except.ok m = .ok l ↔ _
    rw [Except.ok.injEq, Except.ok.injEq]

theorem ofString_text_iff {f : Spelling} {s : String} (hs : s.toList = f.text) {l : Literal} :
    ofString s = .ok l ↔ f.Denotes l := by
  rw [ofString_eq_ok_iff_read, hs, read_text]

theorem ofString_eq_ok_iff {s : String} {l : Literal} :
    ofString s = .ok l ↔ ∃ f : Spelling, f.text = s.toList ∧ f.Denotes l := by
  rw [ofString_eq_ok_iff_read]
  constructor
  · intro h
    obtain ⟨f, hf⟩ := read_shape (finished_of_ok h)
    rw [← hf] at h
    exact ⟨f, hf, (read_text f).mp h⟩
  · rintro ⟨f, hf, hdenotes⟩
    rw [← hf]
    exact (read_text f).mpr hdenotes

/-- A text is accepted where it is a spelling whose precision, exponent, scale and number are in
range, and it is read as these. -/
theorem ofString_accepts_iff (s : String) :
    ((∃ l, ofString s = .ok l) ↔ ∃ f : Spelling, f.text = s.toList ∧ f.InRange) ∧
      ∀ l, ofString s = .ok l ↔ ∃ f : Spelling, f.text = s.toList ∧ f.InRange ∧
        l.value.toInt = f.number ∧ l.precision.toNat = f.precision ∧ l.scale.toInt = f.scale ∧
        l.value.toInt.natAbs < 10 ^ l.precision.toNat := by
  constructor
  · constructor
    · rintro ⟨l, h⟩
      obtain ⟨f, hf, hdenotes⟩ := ofString_eq_ok_iff.mp h
      exact ⟨f, hf, f.inRange_iff_exists_denotes.mpr ⟨l, hdenotes⟩⟩
    · rintro ⟨f, hf, hrange⟩
      obtain ⟨l, hdenotes⟩ := f.inRange_iff_exists_denotes.mp hrange
      exact ⟨l, ofString_eq_ok_iff.mpr ⟨f, hf, hdenotes⟩⟩
  · intro l
    rw [ofString_eq_ok_iff]
    constructor
    · rintro ⟨f, hf, h⟩
      refine ⟨f, hf, f.inRange_iff_exists_denotes.mpr ⟨l, h⟩, h.value_eq, h.precision_eq,
        h.scale_eq, ?_⟩
      rw [h.value_eq, h.precision_eq]
      exact f.natAbs_number_lt
    · rintro ⟨f, hf, hrange, hvalue, hprecision, hscale, -⟩
      exact ⟨f, hf, hvalue, hprecision, hscale, hrange.exponent_range⟩

end WideDecimal.Literal
