import WideDecimal.Proofs.ViablePrefix

namespace WideDecimal.Literal

open DigitText

theorem readExponent_unexpected {text rest : List Char} {fault : Fault (List Char)}
    (h : readExponent text = .error fault) (hrest : fault.unexpected? = some rest) :
    ∃ (sign : Sign) (digits : List Char) (c : Char) (back : List Char),
      text = sign.text ++ (digits ++ c :: back) ∧ rest = c :: back ∧
      (∀ d ∈ digits, d.isDigit) ∧ ¬c.isDigit ∧
      (sign = .absent → Clear isSign (digits ++ [c])) := by
  obtain ⟨p, rfl⟩ := ExponentParts.exists_of_text text
  cases ExponentParts.readExponent_eq_iff.mp h with
  | empty => cases hrest
  | range => cases hrest
  | character _ hne =>
    cases hrest
    obtain ⟨c, back, hback⟩ := List.exists_cons_of_ne_nil hne
    refine ⟨p.sign, p.digits, c, back, by rw [ExponentParts.text, hback], hback, p.isDigit, ?_,
      fun h => ?_⟩
    · simpa using p.clear_isDigit c (by rw [hback]; rfl)
    · have hclear := p.clear_isSign h
      rw [hback, List.append_cons] at hclear
      exact (clear_append_iff (by simp) back).mp hclear

theorem readFraction_unexpected {text rest : List Char} {fault : Fault (List Char)}
    (h : readFraction text = .error fault) (hrest : fault.unexpected? = some rest) :
    ∃ c back, text = '.' :: c :: back ∧ rest = c :: back ∧ ¬c.isDigit := by
  unfold readFraction at h
  split at h
  next =>
    cases h
    cases hrest
  next c text =>
    split at h
    next => cases h
    next hdigit =>
      cases h
      cases hrest
      exact ⟨c, text, rfl, rfl, hdigit⟩
  next => cases h

/-- What follows a fraction that was read starts with no digit, nor with a point if there was no
fraction. -/
theorem clear_of_readFraction {text fraction rest : List Char}
    (h : readFraction text = .ok (fraction, rest)) (hdigit : Clear Char.isDigit text) :
    Clear Char.isDigit rest ∧ (fraction = [] → ∀ back, rest ≠ '.' :: back) := by
  unfold readFraction at h
  split at h
  next => cases h
  next c text =>
    split at h
    next hc =>
      obtain ⟨hsplit, -, hclear⟩ := span_spec Char.isDigit (c :: text)
      rw [Except.ok.injEq] at h
      rw [h] at hsplit hclear
      refine ⟨hclear, ?_⟩
      rintro rfl back rfl
      obtain ⟨rfl, -⟩ := List.cons.inj hsplit
      exact absurd hc (by decide)
    next => cases h
  next hend hpoint =>
    cases h
    refine ⟨hdigit, ?_⟩
    rintro - back rfl
    cases back with
    | nil => exact hend rfl
    | cons c back => exact hpoint c back rfl

theorem readScale_unexpected {f : Spelling} {places : Nat} {precision : UInt32}
    {text rest : List Char} {fault : Fault (List Char)} (hf : f.exponent = none)
    (hdigit : Clear Char.isDigit text) (hpoint : f.fraction = [] → ∀ back, text ≠ '.' :: back)
    (h : readScale places precision text = .error fault) (hrest : fault.unexpected? = some rest) :
    ∃ front c back, text = front ++ c :: back ∧ rest = c :: back ∧ StopsAt (f.text ++ front) c := by
  cases text with
  | nil => cases h
  | cons c text =>
    rw [readScale] at h
    split at h
    next hmark =>
      rcases bind_eq_error h with h | ⟨result, -, h⟩
      · obtain ⟨sign, digits, d, back, rfl, hback, hdigits, hd, hsign⟩ :=
          readExponent_unexpected h hrest
        refine ⟨c :: (sign.text ++ digits), d, back, ?_, hback,
          stopsAt_exponent hf hmark hdigits hd hsign⟩
        rw [List.cons_append, List.append_assoc]
      · cases h
    next hmark =>
      cases h
      cases hrest
      refine ⟨[], c, text, rfl, rfl, ?_⟩
      rw [List.append_nil]
      refine stopsAt_end hf (by simpa using hdigit c rfl) (fun hnone hc => ?_) hmark
      exact hpoint hnone text (by rw [hc])

theorem assemble_unexpected {negative : Bool} {zeros : Nat} {whole fraction text rest : List Char}
    {fault : Fault (List Char)} (h : assemble negative zeros whole fraction text = .error fault)
    (hrest : fault.unexpected? = some rest) :
    ∃ precision, readScale fraction.length precision text = .error fault := by
  unfold assemble at h
  rcases bind_eq_error h with h | ⟨precision, -, h⟩
  · rw [(readPrecision_eq_error h).1] at hrest
    cases hrest
  · rcases bind_eq_error h with h | ⟨written, -, h⟩
    · exact ⟨precision, h⟩
    · split at h
      next =>
        split at h
        next => cases h
        next =>
          cases h
          cases hrest
      next =>
        cases h
        cases hrest

theorem readDigits_unexpected {negative : Bool} {sign : Sign} {zeros text rest : List Char}
    {fault : Fault (List Char)} (hzeros : ∀ c ∈ zeros, c.isDigit) (hne : text ≠ [])
    (hsign : sign = .absent → Clear isSign (zeros ++ text))
    (h : readDigits negative zeros.length text = .error fault)
    (hrest : fault.unexpected? = some rest) :
    ∃ front c back, text = front ++ c :: back ∧ rest = c :: back ∧
      StopsAt (sign.text ++ (zeros ++ front)) c := by
  obtain ⟨hsplit, hwhole, hclear⟩ := span_spec Char.isDigit text
  unfold readDigits at h
  dsimp only at h
  generalize text.span Char.isDigit = parts at h hsplit hwhole hclear
  obtain ⟨whole, text'⟩ := parts
  dsimp only at h hsplit hwhole hclear
  subst hsplit
  have hdigits := List.forall_mem_append.mpr ⟨hzeros, hwhole⟩
  rcases bind_eq_error h with h | ⟨⟨fraction, text''⟩, hfraction, h⟩
  · obtain ⟨c, back, rfl, hback, hdigit⟩ := readFraction_unexpected h hrest
    refine ⟨whole ++ ['.'], c, back, by simp, hback, ?_⟩
    rw [← List.append_assoc zeros]
    exact stopsAt_fraction hdigits hdigit
  · obtain ⟨rfl, hfractiondigits⟩ := readFraction_shape hfraction
    obtain ⟨hend, hpoint⟩ := clear_of_readFraction hfraction hclear
    dsimp only at h
    split at h
    next hnone =>
      -- Without any digit the text stops in front of the number.
      obtain ⟨hnozeros, rfl, rfl⟩ := hnone
      obtain rfl := List.length_eq_zero_iff.mp hnozeros
      cases h
      cases hrest
      obtain ⟨c, back, rfl⟩ := List.exists_cons_of_ne_nil hne
      refine ⟨[], c, back, rfl, rfl, ?_⟩
      rw [List.append_nil, List.append_nil]
      refine stopsAt_number (by simpa using hend c rfl) (fun hc => ?_) fun h => hsign h c rfl
      exact hpoint rfl back (by rw [hc])
    next hsome =>
      -- What was read so far is a spelling itself, and what follows goes wrong.
      obtain ⟨precision, hscale⟩ := assemble_unexpected h hrest
      let f : Spelling := ⟨sign, zeros ++ whole, fraction, none, hdigits, hfractiondigits,
        digits_ne_nil_of_parts hsome⟩
      have htext : f.text = sign.text ++ (zeros ++ (whole ++ fractionText fraction)) := by
        simp [f, Spelling.text, Spelling.tail, exponentText]
      obtain ⟨front, c, back, rfl, hback, hstops⟩ :=
        readScale_unexpected (show f.exponent = none from rfl) hend hpoint hscale hrest
      refine ⟨whole ++ (fractionText fraction ++ front), c, back, by simp, hback, ?_⟩
      rw [htext] at hstops
      simpa using hstops

/-- The reader quotes what is left where a text stops being the start of a spelling. -/
theorem read_unexpected {text rest : List Char} {fault : Fault (List Char)}
    (h : read text = .error fault) (hrest : fault.unexpected? = some rest) :
    ∃ front c back, text = front ++ c :: back ∧ rest = c :: back ∧ StopsAt front c := by
  unfold read at h
  split at h
  next first others =>
    obtain ⟨sign, hsign, -, hclear⟩ := splitSign_spec (first :: others)
    generalize splitSign (first :: others) = parts at h hsign hclear
    obtain ⟨negative, unsigned⟩ := parts
    dsimp only at h hsign hclear
    split at h
    next =>
      cases h
      cases hrest
    next hne =>
      obtain ⟨hsplit, hall, -⟩ := span_spec (· = '0') unsigned
      generalize unsigned.span (· = '0') = parts at h hsplit hall
      obtain ⟨zeros, digits⟩ := parts
      dsimp only at h hsplit hall
      subst hsplit
      have hzeros := isDigit_of_zeros hall
      split at h
      next hnil =>
        rcases bind_eq_error h with h | ⟨precision, -, h⟩
        · rw [(readPrecision_eq_error h).1] at hrest
          cases hrest
        · cases h
      next hdigits =>
        obtain ⟨front, c, back, rfl, hback, hstops⟩ :=
          readDigits_unexpected hzeros hdigits hclear h hrest
        refine ⟨sign.text ++ (zeros ++ front), c, back, ?_, hback, hstops⟩
        rw [hsign, List.append_assoc, List.append_assoc]
  next =>
    cases h
    cases hrest

end WideDecimal.Literal
