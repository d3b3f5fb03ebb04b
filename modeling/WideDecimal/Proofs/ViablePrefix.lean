import WideDecimal.Proofs.Reader

namespace WideDecimal.Literal

/-- Whether some spelling starts with a text. -/
def Viable (text : List Char) : Prop := ∃ f : Spelling, text <+: f.text

/-- Whether a text is on the way to a spelling and leaves it with the next character. -/
def StopsAt (front : List Char) (c : Char) : Prop := Viable front ∧ ¬Viable (front ++ [c])

theorem not_viable_of_text_ne {front : List Char} {c : Char}
    (h : ∀ (f : Spelling) (back : List Char), f.text ≠ front ++ c :: back) :
    ¬Viable (front ++ [c]) := by
  rintro ⟨f, back, htext⟩
  rw [List.append_assoc, List.singleton_append] at htext
  exact h f back htext.symm

theorem isAscii_of_viable {text : List Char} (h : Viable text) : Encoding.IsAscii text := by
  obtain ⟨f, hf⟩ := h
  intro c hc
  exact f.isAscii_text c (hf.subset hc)

theorem Sign.unsigned_eq {s t : Sign} {x y : List Char} (h : s.text ++ x = t.text ++ y)
    (hx : s = .absent → Clear isSign x) (hy : t = .absent → Clear isSign y) : x = y := by
  have hsplit := splitSign_text s hx
  rw [h, splitSign_text t hy] at hsplit
  exact (Prod.mk.inj hsplit).2.symm

theorem clear_isSign_append {digits text : List Char} (hdigits : ∀ c ∈ digits, c.isDigit)
    (htext : Clear isSign text) : Clear isSign (digits ++ text) := by
  cases digits with
  | nil => exact htext
  | cons c digits =>
    exact clear_cons (isSign_eq_false_of_isDigit (hdigits c List.mem_cons_self)) _

namespace Spelling

theorem tail_eq_of_text {f : Spelling} {sign : Sign} {whole text : List Char}
    (h : f.text = sign.text ++ (whole ++ text)) (hwhole : ∀ c ∈ whole, c.isDigit)
    (hdigit : Clear Char.isDigit text) (hsign : Clear isSign (whole ++ text)) : f.tail = text := by
  have hunsigned : f.whole ++ f.tail = whole ++ text :=
    Sign.unsigned_eq h (fun _ => f.clear_isSign) fun _ => hsign
  have hspan := congrArg (List.span Char.isDigit) hunsigned
  rw [span_append f.whole_isDigit f.clear_isDigit_tail, span_append hwhole hdigit] at hspan
  exact (Prod.mk.inj hspan).2

theorem tail_of_no_exponent {f : Spelling} (h : f.exponent = none) :
    f.tail = fractionText f.fraction := by
  rw [tail, h]
  exact List.append_nil _

theorem text_with_exponent {f : Spelling} (h : f.exponent = none) (e : Exponent) :
    { f with exponent := some e }.text = f.text ++ e.text := by
  rw [text.eq_def f, tail_of_no_exponent h, List.append_assoc, List.append_assoc]
  rfl

/-- What a spelling has behind a shorter one can only be its exponent. -/
theorem exponentText_eq_of_text {f g : Spelling} {text : List Char} (hf : f.exponent = none)
    (h : g.text = f.text ++ text) (hdigit : Clear Char.isDigit text)
    (hpoint : f.fraction = [] → Clear (· == '.') text) : exponentText g.exponent = text := by
  have hclear : Clear isSign (f.whole ++ (f.tail ++ text)) := by
    rw [← List.append_assoc]
    exact (clear_append_iff f.whole_append_tail_ne_nil text).mpr f.clear_isSign
  have hdigits : Clear Char.isDigit (f.tail ++ text) := by
    by_cases hnil : f.tail = []
    · rwa [hnil]
    · exact (clear_append_iff hnil text).mpr f.clear_isDigit_tail
  rw [Spelling.text.eq_def f, List.append_assoc, List.append_assoc] at h
  have hgtail := tail_eq_of_text h f.whole_isDigit hdigits hclear
  -- The reader of fractions divides both the same way.
  have hread : readFraction g.tail = .ok (g.fraction, exponentText g.exponent) :=
    readFraction_fractionText g.fraction_isDigit g.exponent
  rw [hgtail, tail_of_no_exponent hf, readFraction_append f.fraction_isDigit hdigit hpoint] at hread
  exact (Prod.mk.inj (Except.ok.inj hread)).2.symm

theorem head_unsigned {f : Spelling} {c : Char} {back : List Char}
    (h : f.whole ++ f.tail = c :: back) : c.isDigit ∨ c = '.' := by
  cases hwhole : f.whole with
  | cons d whole =>
    rw [hwhole] at h
    obtain ⟨rfl, -⟩ := List.cons.inj h
    exact Or.inl (f.whole_isDigit d (hwhole ▸ List.mem_cons_self))
  | nil =>
    have hfraction : f.fraction ≠ [] := fun hnone => f.digits_ne_nil ⟨hwhole, hnone⟩
    rw [hwhole, tail, fractionText, if_neg hfraction] at h
    exact Or.inr (List.cons.inj h).1.symm

end Spelling

theorem isDigit_of_mem_zero : ∀ c ∈ ['0'], c.isDigit := List.forall_mem_singleton.mpr rfl

/-- In front of the number, only a digit or the point goes on. -/
theorem stopsAt_number {sign : Sign} {c : Char} (hdigit : ¬c.isDigit) (hpoint : c ≠ '.')
    (hsign : sign = .absent → isSign c = false) : StopsAt sign.text c := by
  constructor
  · exact ⟨⟨sign, ['0'], [], none, isDigit_of_mem_zero, List.forall_mem_nil _,
      fun h => nomatch h.1⟩, List.prefix_append _ _⟩
  · apply not_viable_of_text_ne
    intro f back htext
    have hunsigned : f.whole ++ f.tail = c :: back :=
      Sign.unsigned_eq htext (fun _ => f.clear_isSign) fun h => clear_cons (hsign h) back
    rcases Spelling.head_unsigned hunsigned with h | h
    · exact hdigit h
    · exact hpoint h

/-- Behind the point, only a digit goes on. -/
theorem stopsAt_fraction {sign : Sign} {whole : List Char} {c : Char}
    (hwhole : ∀ d ∈ whole, d.isDigit) (hdigit : ¬c.isDigit) :
    StopsAt (sign.text ++ (whole ++ ['.'])) c := by
  constructor
  · refine ⟨⟨sign, whole, ['0'], none, hwhole, isDigit_of_mem_zero, fun h => nomatch h.2⟩,
      ['0'], ?_⟩
    rw [List.append_assoc, List.append_assoc]
    rfl
  · apply not_viable_of_text_ne
    intro f back htext
    rw [List.append_assoc, List.append_assoc, List.singleton_append] at htext
    have htail := Spelling.tail_eq_of_text htext hwhole (clear_cons (by decide) _)
      (clear_isSign_append hwhole (clear_cons (by decide) _))
    have hread : readFraction f.tail = .ok (f.fraction, exponentText f.exponent) :=
      readFraction_fractionText f.fraction_isDigit f.exponent
    rw [htail, readFraction, if_neg hdigit] at hread
    cases hread

/-- Behind a number without an exponent, only a digit, the first point or an exponent goes on. -/
theorem stopsAt_end {f : Spelling} {c : Char} (hf : f.exponent = none) (hdigit : ¬c.isDigit)
    (hpoint : f.fraction = [] → c ≠ '.') (hmark : ¬(c = 'E' ∨ c = 'e')) : StopsAt f.text c := by
  constructor
  · exact ⟨f, List.prefix_rfl⟩
  · apply not_viable_of_text_ne
    intro g back htext
    have hexponent := Spelling.exponentText_eq_of_text hf htext
      (clear_cons (Bool.eq_false_iff.mpr hdigit) back)
      fun h => clear_cons (by simpa using hpoint h) back
    cases hg : g.exponent with
    | none =>
      rw [hg] at hexponent
      cases hexponent
    | some e =>
      rw [hg] at hexponent
      obtain ⟨rfl, -⟩ := List.cons.inj hexponent
      exact hmark e.isMark

/-- Behind the mark of an exponent, only a digit or the first sign goes on. -/
theorem stopsAt_exponent {f : Spelling} {mark c : Char} {sign : Sign} {digits : List Char}
    (hf : f.exponent = none) (hmark : mark = 'E' ∨ mark = 'e') (hdigits : ∀ d ∈ digits, d.isDigit)
    (hdigit : ¬c.isDigit) (hsign : sign = .absent → Clear isSign (digits ++ [c])) :
    StopsAt (f.text ++ mark :: (sign.text ++ digits)) c := by
  constructor
  · let e : Exponent := ⟨mark, sign, digits ++ ['0'], hmark,
      List.forall_mem_append.mpr ⟨hdigits, isDigit_of_mem_zero⟩, by simp⟩
    refine ⟨{ f with exponent := some e }, ['0'], ?_⟩
    rw [Spelling.text_with_exponent hf, List.append_assoc, List.cons_append, List.append_assoc]
    rfl
  · apply not_viable_of_text_ne
    intro g back htext
    rw [List.append_assoc, List.cons_append, List.append_assoc] at htext
    have hexponent := Spelling.exponentText_eq_of_text hf htext
      (clear_cons (by rcases hmark with rfl | rfl <;> decide) _)
      fun _ => clear_cons (by rcases hmark with rfl | rfl <;> decide) _
    cases hg : g.exponent with
    | none =>
      rw [hg] at hexponent
      cases hexponent
    | some e =>
      rw [hg] at hexponent
      have hrest : e.digits = digits ++ c :: back := by
        refine Sign.unsigned_eq (List.cons.inj hexponent).2 (fun _ => e.clear_isSign) fun h => ?_
        have hclear := (clear_append_iff (by simp) back).mpr (hsign h)
        rwa [List.append_assoc, List.singleton_append] at hclear
      exact hdigit (e.isDigit c (by simp [hrest]))

end WideDecimal.Literal
