import WideDecimal.Proofs.Digits
import WideDecimal.Proofs.Spelling

namespace WideDecimal

theorem bind_eq_ok_iff {ε α β : Type} {x : Except ε α} {f : α → Except ε β} {b : β} :
    (x >>= f) = .ok b ↔ ∃ a, x = .ok a ∧ f a = .ok b := by
  constructor
  · intro h
    cases x with
    | error e => cases h
    | ok a => exact ⟨a, rfl, h⟩
  · rintro ⟨a, rfl, h⟩
    exact h

namespace Literal

open DigitText

theorem bind_eq_error {α β : Type} {x : Reading α} {f : α → Reading β} {fault : Fault (List Char)}
    (h : (x >>= f) = .error fault) : x = .error fault ∨ ∃ a, x = .ok a ∧ f a = .error fault := by
  cases x with
  | error other =>
    left
    cases h
    rfl
  | ok a => exact Or.inr ⟨a, rfl, h⟩

/-- Whether a fault is one of the whole text and not of its shape. -/
def Fault.OfWhole {α : Type} : Fault α → Prop
  | scaleRange _ | valueRange => True
  | _ => False

/-- Whether a reading came to the end of the text. -/
def Finished {α : Type} (x : Reading α) : Prop := ∀ fault, x = .error fault → fault.OfWhole

theorem finished_of_ok {α : Type} {x : Reading α} {a : α} (h : x = .ok a) : Finished x := by
  rintro fault rfl
  cases h

theorem finished_bind {α β : Type} {x : Reading α} {f : α → Reading β} (h : Finished (x >>= f))
    (hx : Finished x → ∃ a, x = .ok a) : ∃ a, x = .ok a ∧ Finished (f a) := by
  cases x with
  | ok a => exact ⟨a, rfl, h⟩
  | error fault =>
    obtain ⟨a, ha⟩ := hx fun other hother => h other (by cases hother; rfl)
    cases ha

theorem scale?_eq_some_iff {n : Int} {s : Int32} : scale? n = some s ↔ s.toInt = n := by
  have hgreatest : Int32.maxValue.toInt = 2 ^ 31 - 1 := rfl
  have hlt := s.toInt_lt
  unfold scale?
  constructor
  · intro h
    split at h
    next hrange =>
      cases h
      exact Int32.toInt_ofInt_of_le hrange.1 (by omega)
    next => cases h
  · rintro rfl
    rw [if_pos ⟨s.le_toInt, by omega⟩, Int32.ofInt_toInt]

theorem scale?_eq_none_iff {n : Int} : scale? n = none ↔ ¬InScaleRange n := by
  have hleast : Int32.minValue.toInt = -2 ^ 31 := rfl
  have hgreatest : Int32.maxValue.toInt = 2 ^ 31 - 1 := rfl
  unfold scale? InScaleRange
  rw [hleast, hgreatest]
  split <;> simp <;> omega

theorem pushDigit?_eq {negative : Bool} {exponent : Int32} {n : Nat} (c : Char)
    (h : exponent.toInt = signed negative n) :
    pushDigit? negative exponent c =
      scale? (signed negative (10 * n + (c.toNat - '0'.toNat))) := by
  have hshifted : exponent.toInt * 10 = signed negative (10 * n) := by
    rw [h]
    cases negative <;> simp [signed] <;> omega
  unfold pushDigit?
  rw [hshifted]
  cases hscale : scale? (signed negative (10 * n)) with
  | none =>
    rw [scale?_eq_none_iff] at hscale
    refine (scale?_eq_none_iff.mpr fun hrange => hscale ?_).symm
    exact signed_mono hrange (Nat.le_add_right _ _)
  | some shifted =>
    rw [scale?_eq_some_iff] at hscale
    have hsum : signed negative (10 * n + (c.toNat - '0'.toNat)) =
        if negative then signed negative (10 * n) - digitValue c
        else signed negative (10 * n) + digitValue c := by
      unfold signed digitValue
      split <;> omega
    rw [Option.bind_some, hscale, hsum]
    split <;> rfl

/-- Digits of an exponent are read as one number, whose range is checked before what follows them. A
prefix out of range leaves the whole number out of range. -/
theorem exponentDigits_append {negative : Bool} {exponent : Int32} {n : Nat}
    {digits rest : List Char} (h : exponent.toInt = signed negative n)
    (hdigits : ∀ c ∈ digits, c.isDigit) (hrest : Clear Char.isDigit rest) :
    exponentDigits negative exponent (digits ++ rest) =
      match scale? (signed negative (Nat.ofDigitChars 10 digits n)) with
      | none => .error .exponentRange
      | some result => if rest = [] then .ok result else .error (.inExponent rest) := by
  induction digits generalizing exponent n with
  | nil =>
    rw [List.nil_append, Nat.ofDigitChars_nil, scale?_eq_some_iff.mpr h]
    cases rest with
    | nil => rfl
    | cons c rest =>
      rw [exponentDigits, hrest c rfl]
      rfl
  | cons c digits ih =>
    obtain ⟨hdigit, hothers⟩ := List.forall_mem_cons.mp hdigits
    rw [List.cons_append, exponentDigits, if_pos hdigit, pushDigit?_eq c h, Nat.ofDigitChars_cons]
    cases hscale : scale? (signed negative (10 * n + (c.toNat - '0'.toNat))) with
    | none =>
      rw [scale?_eq_none_iff] at hscale
      have hwhole := fun hrange => hscale (signed_mono hrange (le_ofDigitChars_init digits _))
      rw [scale?_eq_none_iff.mpr hwhole]
    | some next => exact ih (scale?_eq_some_iff.mp hscale) hothers

/-- A sign is told from what follows, unless there is none and that starts with one. -/
theorem splitSign_text (sign : Sign) {text : List Char}
    (h : sign = .absent → Clear isSign text) :
    splitSign (sign.text ++ text) = (sign.isMinus, text) := by
  cases sign with
  | plus => rfl
  | minus => rfl
  | absent =>
    change splitSign text = (false, text)
    unfold splitSign
    split
    next => exact absurd (h rfl '-' rfl) (by decide)
    next => exact absurd (h rfl '+' rfl) (by decide)
    next => rfl

theorem splitSign_spec (text : List Char) :
    ∃ sign : Sign, text = sign.text ++ (splitSign text).2 ∧ sign.isMinus = (splitSign text).1 ∧
      (sign = .absent → Clear isSign (splitSign text).2) := by
  unfold splitSign
  split
  next => exact ⟨.minus, rfl, rfl, nofun⟩
  next => exact ⟨.plus, rfl, rfl, nofun⟩
  next hminus hplus =>
    refine ⟨.absent, rfl, rfl, fun _ c hc => ?_⟩
    obtain ⟨back, rfl⟩ := List.head?_eq_some_iff.mp hc
    have hnotminus : c ≠ '-' := fun h => hminus back (h ▸ rfl)
    have hnotplus : c ≠ '+' := fun h => hplus back (h ▸ rfl)
    simp [isSign, hnotminus, hnotplus]

/-- A text as an exponent is read from it: a sign, the digits up to the first other character, and
the rest. -/
structure ExponentParts where
  sign : Sign
  digits : List Char
  rest : List Char
  isDigit : ∀ c ∈ digits, c.isDigit
  clear_isDigit : Clear Char.isDigit rest
  clear_isSign : sign = .absent → Clear isSign (digits ++ rest)

namespace ExponentParts

def text (p : ExponentParts) : List Char := p.sign.text ++ (p.digits ++ p.rest)

def number (p : ExponentParts) : Int := signed p.sign.isMinus (Nat.ofDigitChars 10 p.digits 0)

/-- What comes of the parts: the range of the digits is checked before what follows them. -/
inductive Reads (p : ExponentParts) : Reading Int32 → Prop
  | empty (hdigits : p.digits = []) (hrest : p.rest = []) : Reads p (.error .emptyExponent)
  | range (hrange : ¬InScaleRange p.number) : Reads p (.error .exponentRange)
  | character (hrange : InScaleRange p.number) (hrest : p.rest ≠ []) :
    Reads p (.error (.inExponent p.rest))
  | value {result : Int32} (hdigits : p.digits ≠ []) (hrest : p.rest = [])
    (hvalue : result.toInt = p.number) : Reads p (.ok result)

theorem exists_of_text (text : List Char) : ∃ p : ExponentParts, p.text = text := by
  obtain ⟨sign, hsign, -, hclear⟩ := splitSign_spec text
  obtain ⟨hsplit, hdigits, hrest⟩ := span_spec Char.isDigit (splitSign text).2
  rw [hsplit] at hsign hclear
  exact ⟨⟨sign, _, _, hdigits, hrest, hclear⟩, hsign.symm⟩

theorem inScaleRange_of_digits_nil {p : ExponentParts} (h : p.digits = []) :
    InScaleRange p.number := by
  rw [number, h, Nat.ofDigitChars_nil, signed_zero]
  exact ⟨by decide, by decide⟩

theorem readExponent_text (p : ExponentParts) :
    readExponent p.text =
      if p.digits = [] ∧ p.rest = [] then .error .emptyExponent
      else match scale? p.number with
        | none => .error .exponentRange
        | some result => if p.rest = [] then .ok result else .error (.inExponent p.rest) := by
  have hzero : (0 : Int32).toInt = signed p.sign.isMinus 0 := by
    rw [signed_zero]
    rfl
  unfold readExponent text
  rw [splitSign_text p.sign p.clear_isSign]
  dsimp only
  rw [exponentDigits_append hzero p.isDigit p.clear_isDigit]
  simp only [List.isEmpty_iff, List.append_eq_nil_iff, number]

theorem readExponent_eq_iff {p : ExponentParts} {r : Reading Int32} :
    readExponent p.text = r ↔ p.Reads r := by
  rw [p.readExponent_text]
  constructor
  · rintro rfl
    split
    next hnil => exact .empty hnil.1 hnil.2
    next hsome =>
      split
      next hscale => exact .range (scale?_eq_none_iff.mp hscale)
      next result hscale =>
        have hvalue := scale?_eq_some_iff.mp hscale
        split
        next hrest => exact .value (fun hdigits => hsome ⟨hdigits, hrest⟩) hrest hvalue
        next hrest => exact .character (hvalue ▸ ⟨result.le_toInt, result.toInt_lt⟩) hrest
  · intro h
    cases h with
    | empty hdigits hrest => rw [if_pos ⟨hdigits, hrest⟩]
    | range hrange =>
      have hdigits : p.digits ≠ [] := fun hnil => hrange (inScaleRange_of_digits_nil hnil)
      rw [if_neg fun h => hdigits h.1, scale?_eq_none_iff.mpr hrange]
    | character hrange hrest =>
      have hvalue := Int32.toInt_ofInt_of_le hrange.1 hrange.2
      rw [if_neg fun h => hrest h.2, scale?_eq_some_iff.mpr hvalue]
      exact if_neg hrest
    | value hdigits hrest hvalue =>
      rw [if_neg fun h => hdigits h.1, scale?_eq_some_iff.mpr hvalue]
      exact if_pos hrest

end ExponentParts

def Exponent.parts (e : Exponent) : ExponentParts where
  sign := e.sign
  digits := e.digits
  rest := []
  isDigit := e.isDigit
  clear_isDigit := clear_nil _
  clear_isSign _ := (List.append_nil e.digits).symm ▸ e.clear_isSign

theorem Exponent.text_parts (e : Exponent) : e.parts.text = e.sign.text ++ e.digits := by
  rw [ExponentParts.text, parts, List.append_nil]

theorem readExponent_text (e : Exponent) {result : Int32} :
    readExponent (e.sign.text ++ e.digits) = .ok result ↔ result.toInt = e.value := by
  rw [← e.text_parts, ExponentParts.readExponent_eq_iff]
  constructor
  · intro h
    cases h with
    | value _ _ hvalue => exact hvalue
  · intro hvalue
    exact .value e.digits_ne_nil rfl hvalue

theorem readExponent_of_finished {text : List Char} (h : Finished (readExponent text)) :
    ∃ result, readExponent text = .ok result := by
  obtain ⟨p, rfl⟩ := ExponentParts.exists_of_text text
  cases hread : readExponent p.text with
  | ok result => exact ⟨result, rfl⟩
  | error fault =>
    have hfault := h fault hread
    cases ExponentParts.readExponent_eq_iff.mp hread <;> cases hfault

theorem readExponent_shape {text : List Char} {result : Int32}
    (h : readExponent text = .ok result) :
    ∃ (sign : Sign) (digits : List Char), text = sign.text ++ digits ∧
      (∀ c ∈ digits, c.isDigit) ∧ digits ≠ [] := by
  obtain ⟨p, rfl⟩ := ExponentParts.exists_of_text text
  cases ExponentParts.readExponent_eq_iff.mp h with
  | value hdigits hrest _ =>
    refine ⟨p.sign, p.digits, ?_, p.isDigit, hdigits⟩
    rw [ExponentParts.text, hrest, List.append_nil]

theorem readScale_exponentText {places : Nat} {precision : UInt32} {exponent : Option Exponent}
    {n : Int} :
    readScale places precision (exponentText exponent) = .ok n ↔
      (∀ e ∈ exponent, InScaleRange e.value) ∧ n = scaleOf places precision.toNat exponent := by
  cases exponent with
  | none =>
    change Except.ok (places : Int) = .ok n ↔ _
    rw [Except.ok.injEq]
    exact ⟨fun h => ⟨fun _ he => (nomatch he), h.symm⟩, fun h => h.2.symm⟩
  | some e =>
    change (if e.mark = 'E' ∨ e.mark = 'e' then _ else _) = _ ↔ _
    rw [if_pos e.isMark, bind_eq_ok_iff]
    constructor
    · rintro ⟨result, hread, hscale⟩
      rw [readExponent_text] at hread
      cases hscale
      refine ⟨fun _ he => ?_, by rw [scaleOf, hread]⟩
      cases he
      rw [← hread]
      exact ⟨result.le_toInt, result.toInt_lt⟩
    · rintro ⟨hrange, rfl⟩
      have hvalue : (Int32.ofInt e.value).toInt = e.value :=
        Int32.toInt_ofInt_of_le (hrange e rfl).1 (hrange e rfl).2
      exact ⟨_, (readExponent_text e).mpr hvalue, by rw [hvalue]; rfl⟩

theorem readScale_of_finished {places : Nat} {precision : UInt32} {text : List Char}
    (h : Finished (readScale places precision text)) :
    ∃ n, readScale places precision text = .ok n := by
  cases text with
  | nil => exact ⟨places, rfl⟩
  | cons c text =>
    rw [readScale] at h ⊢
    split at h
    next hmark =>
      rw [if_pos hmark]
      obtain ⟨result, hresult, -⟩ := finished_bind h readExponent_of_finished
      exact ⟨_, bind_eq_ok_iff.mpr ⟨result, hresult, rfl⟩⟩
    next => exact (h _ rfl).elim

theorem readScale_shape {places : Nat} {precision : UInt32} {text : List Char} {n : Int}
    (h : readScale places precision text = .ok n) : ∃ exponent, text = exponentText exponent := by
  cases text with
  | nil => exact ⟨none, rfl⟩
  | cons c text =>
    rw [readScale] at h
    split at h
    next hmark =>
      obtain ⟨result, hread, -⟩ := bind_eq_ok_iff.mp h
      obtain ⟨sign, digits, rfl, hdigits, hne⟩ := readExponent_shape hread
      exact ⟨some ⟨c, sign, digits, hmark, hdigits, hne⟩, rfl⟩
    next => cases h

end Literal

end WideDecimal
