import WideDecimal.Proofs.Refusal

namespace WideDecimal.Literal

open DigitText
open Encoding (IsAscii bytes)

/-- Why a text writes no exponent. Digits out of range come first, whatever follows them; no sign is
left in front of an unexpected character. -/
inductive ExponentRefused : List Char → Fault (List Char) → Prop
  | range (sign : Sign) {digits : List Char} (others : List Char)
    (hdigits : ∀ c ∈ digits, c.isDigit)
    (hrange : ¬InScaleRange (signed sign.isMinus (Nat.ofDigitChars 10 digits 0))) :
    ExponentRefused (sign.text ++ (digits ++ others)) .exponentRange
  | empty (sign : Sign) : ExponentRefused sign.text .emptyExponent
  | character (sign : Sign) {digits : List Char} {c : Char} (others : List Char)
    (hdigits : ∀ c ∈ digits, c.isDigit)
    (hrange : InScaleRange (signed sign.isMinus (Nat.ofDigitChars 10 digits 0)))
    (hdigit : ¬c.isDigit) (hsign : sign = .absent → Clear isSign (digits ++ c :: others)) :
    ExponentRefused (sign.text ++ (digits ++ c :: others)) (.inExponent (c :: others))

theorem readExponent_eq_ok_iff {text : List Char} {n : Int32} :
    readExponent text = .ok n ↔
      ∃ e : Exponent, text = e.sign.text ++ e.digits ∧ n.toInt = e.value := by
  constructor
  · intro h
    obtain ⟨sign, digits, rfl, hdigits, hne⟩ := readExponent_shape h
    let e : Exponent := ⟨'E', sign, digits, Or.inl rfl, hdigits, hne⟩
    exact ⟨e, rfl, (readExponent_text e).mp h⟩
  · rintro ⟨e, rfl, hvalue⟩
    exact (readExponent_text e).mpr hvalue

theorem readExponent_of_digits_out_of_range (sign : Sign) {digits : List Char} (others : List Char)
    (hdigits : ∀ c ∈ digits, c.isDigit)
    (hrange : ¬InScaleRange (signed sign.isMinus (Nat.ofDigitChars 10 digits 0))) :
    readExponent (sign.text ++ (digits ++ others)) = .error .exponentRange := by
  have hne : digits ≠ [] := by
    rintro rfl
    rw [Nat.ofDigitChars_nil, signed_zero] at hrange
    exact hrange ⟨by decide, by decide⟩
  obtain ⟨hsplit, hmore, hrest⟩ := span_spec Char.isDigit others
  generalize others.span Char.isDigit = parts at hsplit hmore hrest
  obtain ⟨more, rest⟩ := parts
  dsimp only at hsplit hmore hrest
  subst hsplit
  have hall := List.forall_mem_append.mpr ⟨hdigits, hmore⟩
  have hne' := List.append_ne_nil_of_left_ne_nil hne more
  let p : ExponentParts := ⟨sign, digits ++ more, rest, hall, hrest, fun _ =>
    (clear_append_iff hne' rest).mpr (clear_isSign_of_isDigit hall hne')⟩
  have hnumber : ¬InScaleRange p.number := by
    intro hin
    rw [ExponentParts.number, Nat.ofDigitChars_append] at hin
    exact hrange (signed_mono hin (le_ofDigitChars_init more _))
  rw [← List.append_assoc digits]
  exact ExponentParts.readExponent_eq_iff.mpr (.range hnumber)

theorem readExponent_eq_error_iff {text : List Char} {fault : Fault (List Char)} :
    readExponent text = .error fault ↔ ExponentRefused text fault := by
  constructor
  · intro h
    obtain ⟨p, rfl⟩ := ExponentParts.exists_of_text text
    cases ExponentParts.readExponent_eq_iff.mp h with
    | empty hdigits hrest =>
      rw [ExponentParts.text, hdigits, hrest, List.append_nil, List.append_nil]
      exact .empty p.sign
    | range hrange => exact .range p.sign p.rest p.isDigit hrange
    | character hrange hne =>
      obtain ⟨c, others, hrest⟩ := List.exists_cons_of_ne_nil hne
      have hdigit := p.clear_isDigit
      have hsign := p.clear_isSign
      rw [hrest] at hdigit hsign
      rw [ExponentParts.text, hrest]
      exact .character p.sign others p.isDigit hrange (by simpa using hdigit c rfl) hsign
  · intro h
    cases h with
    | range sign others hdigits hrange =>
      exact readExponent_of_digits_out_of_range sign others hdigits hrange
    | empty sign => cases sign <;> rfl
    | character sign others hdigits hrange hdigit hsign =>
      have hclear := clear_cons (by simpa using hdigit) others
      let p : ExponentParts := ⟨sign, _, _, hdigits, hclear, hsign⟩
      refine ExponentParts.readExponent_eq_iff.mpr (.character (p := p) hrange ?_)
      exact List.cons_ne_nil _ _

theorem locate_inExponent {front back rest : List Char} (hfront : IsAscii front)
    (h : readExponent (bytes back) = .error (.inExponent rest)) :
    ∃ (sign : Sign) (digits : List Char) (c : Char) (others : List Char),
      back = sign.text ++ (digits ++ c :: others) ∧ (∀ d ∈ digits, d.isDigit) ∧ ¬c.isDigit ∧
      ((Fault.inExponent rest).locate (front ++ back)).Holds fun located =>
        located = .inExponent c := by
  obtain ⟨sign, digits, b, rest, hbytes, rfl, hdigits, hb, -⟩ := readExponent_unexpected h rfl
  have hread : IsAscii (sign.text ++ digits) :=
    Encoding.isAscii_append.mpr ⟨sign.isAscii_text, isAscii_of_isDigit hdigits⟩
  rw [← List.append_assoc] at hbytes
  obtain ⟨c, others, rfl, hleft, hc⟩ := Encoding.exists_of_bytes_eq_append_cons hread hbytes
  refine ⟨sign, digits, c, others, List.append_assoc _ _ _, hdigits, fun hdigit => ?_, ?_⟩
  · rcases hc with rfl | hc
    · exact hb hdigit
    · exact hc (isAscii_of_isDigit (List.forall_mem_singleton.mpr hdigit) c List.mem_cons_self)
  · refine Fault.locate_holds fun rest hrest => ?_
    cases hrest
    rw [← List.append_assoc, ← hleft]
    exact Encoding.characterAt_holds (Encoding.isAscii_append.mpr ⟨hfront, hread⟩) c others

/-- An exponent is read where all of it is a sign and digits and the integer that they write is in
range, and as that integer. Any other text is refused as out of range if the digits that it starts
with are, and else because digits are missing or for the character that is none. -/
theorem readExponent_decides (text : List Char) :
    (∀ n, readExponent text = .ok n ↔
      ∃ e : Exponent, text = e.sign.text ++ e.digits ∧ n.toInt = e.value) ∧
    ((∃ n, readExponent text = .ok n) ↔
      ∃ e : Exponent, text = e.sign.text ++ e.digits ∧
        -2 ^ 31 ≤ e.value ∧ e.value ≤ 2 ^ 31 - 1) ∧
    (∀ fault, readExponent text = .error fault ↔ ExponentRefused text fault) ∧
    ∀ front back rest, IsAscii front → text = bytes back →
      readExponent text = .error (.inExponent rest) →
        ∃ (sign : Sign) (digits : List Char) (c : Char) (others : List Char),
          back = sign.text ++ (digits ++ c :: others) ∧ (∀ d ∈ digits, d.isDigit) ∧ ¬c.isDigit ∧
          ((Fault.inExponent rest).locate (front ++ back)).Holds fun located =>
            located = .inExponent c := by
  refine ⟨fun n => readExponent_eq_ok_iff, ?_, fun fault => readExponent_eq_error_iff, ?_⟩
  · constructor
    · rintro ⟨n, hn⟩
      obtain ⟨e, htext, hvalue⟩ := readExponent_eq_ok_iff.mp hn
      have hlt := n.toInt_lt
      exact ⟨e, htext, hvalue ▸ n.le_toInt, by omega⟩
    · rintro ⟨e, htext, hlow, hhigh⟩
      have hvalue := Int32.toInt_ofInt_of_le hlow (by omega)
      exact ⟨_, readExponent_eq_ok_iff.mpr ⟨e, htext, hvalue⟩⟩
  · rintro front back rest hfront rfl h
    exact locate_inExponent hfront h

theorem readExponent_decides_edges :
    readExponent "-0002147483648".toList = .ok Int32.minValue ∧
      readExponent "2147483648x".toList = .error .exponentRange := by
  have hleast : ∀ c ∈ "0002147483648".toList, c.isDigit := List.all_eq_true.mp (by rfl)
  have habove : ∀ c ∈ "2147483648".toList, c.isDigit := List.all_eq_true.mp (by rfl)
  obtain ⟨hvalue, -⟩ := readExponent_decides "-0002147483648".toList
  obtain ⟨-, -, hfault, -⟩ := readExponent_decides "2147483648x".toList
  refine ⟨(hvalue _).mpr ⟨⟨'E', .minus, _, Or.inl rfl, hleast, by decide⟩, rfl, by rfl⟩, ?_⟩
  exact (hfault _).mpr (.range .absent ['x'] habove fun hrange => absurd hrange.2 (by decide))

end WideDecimal.Literal
