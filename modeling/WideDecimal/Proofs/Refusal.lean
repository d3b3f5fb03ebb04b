import WideDecimal.Proofs.UnexpectedCharacter

namespace WideDecimal.Literal

open Encoding (bytes)
open Guarded (Holds)

theorem readExponent_eq_error {e : Exponent} {fault : Fault (List Char)}
    (h : readExponent (e.sign.text ++ e.digits) = .error fault) :
    fault = .exponentRange ∧ ¬InScaleRange e.value := by
  rw [← e.text_parts] at h
  cases ExponentParts.readExponent_eq_iff.mp h with
  | empty hdigits _ => exact absurd hdigits e.digits_ne_nil
  | range hrange => exact ⟨rfl, hrange⟩
  | character _ hrest => exact absurd rfl hrest

theorem readScale_eq_error {places : Nat} {precision : UInt32} {exponent : Option Exponent}
    {fault : Fault (List Char)}
    (h : readScale places precision (exponentText exponent) = .error fault) :
    ∃ e, exponent = some e ∧ fault = .exponentRange ∧ ¬InScaleRange e.value := by
  cases exponent with
  | none => cases h
  | some e =>
    change (if e.mark = 'E' ∨ e.mark = 'e' then _ else _) = _ at h
    rw [if_pos e.isMark] at h
    rcases bind_eq_error h with h | ⟨result, -, h⟩
    · exact ⟨e, rfl, readExponent_eq_error h⟩
    · cases h

namespace Spelling

/-- What a spelling is refused for: the first of exponent, scale and number that is out of range. -/
inductive Refused (f : Spelling) {α : Type} : Fault α → Prop
  | exponent {e : Exponent} (he : f.exponent = some e) (hrange : ¬InScaleRange e.value) :
    Refused f .exponentRange
  | scale (hexponent : ∀ e ∈ f.exponent, InScaleRange e.value) (hrange : ¬InScaleRange f.scale) :
    Refused f (.scaleRange f.scale)
  | value (hexponent : ∀ e ∈ f.exponent, InScaleRange e.value) (hscale : InScaleRange f.scale)
    (hrange : ¬Coefficient.Fits f.number) : Refused f .valueRange

theorem Refused.not_inRange {f : Spelling} {α : Type} {fault : Fault α} (h : f.Refused fault) :
    ¬f.InRange := by
  intro hrange
  cases h with
  | exponent he hnot => exact hnot (hrange.exponent_range _ he)
  | scale hexponent hnot => exact hnot hrange.scale_range
  | value hexponent hscale hnot => exact hnot hrange.number_fits

theorem Refused.unique {f : Spelling} {α : Type} {x y : Fault α} (hx : f.Refused x)
    (hy : f.Refused y) : x = y := by
  cases hx with
  | exponent he hnot =>
    cases hy with
    | exponent => rfl
    | scale hexponent => exact absurd (hexponent _ he) hnot
    | value hexponent => exact absurd (hexponent _ he) hnot
  | scale hexponent hnot =>
    cases hy with
    | exponent he hnot' => exact absurd (hexponent _ he) hnot'
    | scale => rfl
    | value _ hscale => exact absurd hscale hnot
  | value hexponent hscale hnot =>
    cases hy with
    | exponent he hnot' => exact absurd (hexponent _ he) hnot'
    | scale _ hnot' => exact absurd hscale hnot'
    | value => rfl

theorem refused_of_assemble {f : Spelling} {fault : Fault (List Char)} (h : f.precision < 2 ^ 32)
    (herror : assemble f.sign.isMinus f.zeros.length f.leading f.fraction
      (exponentText f.exponent) = .error fault) : f.Refused fault := by
  unfold assemble at herror
  rcases bind_eq_error herror with herror | ⟨precision, hprecision, herror⟩
  · have hlarge := (readPrecision_eq_error herror).2
    rw [precision] at h
    exact absurd hlarge (Nat.not_le_of_lt h)
  rw [readPrecision_eq_ok_iff] at hprecision
  rcases bind_eq_error herror with herror | ⟨written, hwritten, herror⟩
  · obtain ⟨e, he, rfl, hrange⟩ := readScale_eq_error herror
    exact .exponent he hrange
  obtain ⟨hexponent, rfl⟩ := readScale_exponentText.mp hwritten
  have hscale : scaleOf f.fraction.length precision.toNat f.exponent = f.scale := by
    rw [hprecision]
    rfl
  rw [hscale] at herror
  have hvalue : Coefficient.ofDigits? f.sign.isMinus (f.leading ++ f.fraction) =
      Coefficient.ofInt? f.number := Coefficient.ofDigits?_eq _ f.significand_isDigit
  rw [hvalue] at herror
  by_cases hrange : InScaleRange f.scale
  · have hinrange := (scale?_eq_some_iff (s := .ofInt f.scale)).mpr
      (Int32.toInt_ofInt_of_le hrange.1 hrange.2)
    rw [hinrange] at herror
    cases hfits : Coefficient.ofInt? f.number with
    | some value =>
      rw [hfits] at herror
      cases herror
    | none =>
      rw [hfits] at herror
      cases herror
      exact .value hexponent hrange (Coefficient.ofInt?_eq_none_iff.mp hfits)
  · rw [scale?_eq_none_iff.mpr hrange] at herror
    cases herror
    exact .scale hexponent hrange

/-- A reader of a spelling that gives only what it denotes, and refuses it only for what is out of
range, refuses it for just that. -/
theorem eq_error_iff {f : Spelling} {α : Type} {x : Except (Fault α) Literal}
    (hok : ∀ l, x = .ok l → f.Denotes l) (herror : ∀ fault, x = .error fault → f.Refused fault)
    {fault : Fault α} : x = .error fault ↔ f.Refused fault := by
  constructor
  · exact herror fault
  · intro hfault
    cases hread : x with
    | ok l =>
      have hrange := f.inRange_iff_exists_denotes.mpr ⟨l, hok l hread⟩
      exact absurd hrange hfault.not_inRange
    | error other => rw [(herror other hread).unique hfault]

theorem read_eq_error_iff {f : Spelling} (h : f.precision < 2 ^ 32) {fault : Fault (List Char)} :
    read f.text = .error fault ↔ f.Refused fault := by
  refine eq_error_iff (fun l => (read_text f).mp) fun fault herror => ?_
  rw [read_text_eq] at herror
  split at herror
  next hnil =>
    rcases bind_eq_error herror with herror | ⟨precision, -, herror⟩
    · have hlarge := (readPrecision_eq_error herror).2
      rw [precision, if_pos (significand_eq_nil hnil)] at h
      exact absurd hlarge (Nat.not_le_of_lt h)
    · cases herror
  next =>
    rw [tail, readDigits_text f.leading_isDigit f.fraction_isDigit f.parts_ne_nil] at herror
    exact refused_of_assemble h herror

end Spelling

namespace Fault

def map {α β : Type} (g : α → β) : Fault α → Fault β
  | emptyText => emptyText
  | loneSign c => loneSign c
  | pointAtEnd => pointAtEnd
  | afterPoint found => afterPoint (g found)
  | noNumber found => noNumber (g found)
  | afterNumber found => afterNumber (g found)
  | emptyExponent => emptyExponent
  | inExponent found => inExponent (g found)
  | exponentRange => exponentRange
  | digitCount => digitCount
  | scaleRange scale => scaleRange scale
  | valueRange => valueRange

variable {α β : Type} {g : α → β}

theorem unexpected?_map (fault : Fault α) :
    (fault.map g).unexpected? = fault.unexpected?.map g := by
  cases fault <;> rfl

theorem ofWhole_map {fault : Fault α} : (fault.map g).OfWhole ↔ fault.OfWhole := by
  cases fault <;> rfl

theorem refused_map {f : Spelling} {fault : Fault α} :
    f.Refused (fault.map g) ↔ f.Refused fault := by
  constructor
  · intro h
    cases fault <;> cases h
    next he hrange => exact .exponent he hrange
    next hexponent hrange => exact .scale hexponent hrange
    next hexponent hscale hrange => exact .value hexponent hscale hrange
  · intro h
    cases h with
    | exponent he hrange => exact .exponent he hrange
    | scale hexponent hrange => exact .scale hexponent hrange
    | value hexponent hscale hrange => exact .value hexponent hscale hrange

/-- Whether a text has a character between quotes in it. -/
def Quotes (text : String) (c : Char) : Prop :=
  ∃ before after : String, text = before ++ "'" ++ c.toString ++ ("'" ++ after)

theorem reason_quotes {fault : Fault Char} {c : Char} (h : fault.unexpected? = some c) :
    Quotes fault.reason c := by
  cases fault with
  | afterPoint d =>
    cases h
    exact ⟨"Decimal point must be followed by a base ten digit. Found ", "", rfl⟩
  | noNumber d =>
    cases h
    exact ⟨"Expected base ten digit or decimal point but found ", " instead", rfl⟩
  | afterNumber d =>
    cases h
    exact ⟨"Found non base ten digit character ", " before the end of the string", rfl⟩
  | inExponent d =>
    cases h
    exact ⟨"Found non decimal digit exponent value ", "", rfl⟩
  | _ => cases h

theorem locate_holds {text : List Char} {fault : Fault (List Char)} {c : Char}
    (h : ∀ rest, fault.unexpected? = some rest →
      (Encoding.characterAt text rest).Holds fun found => found = c) :
    (fault.locate text).Holds fun located => located = fault.map fun _ => c := by
  cases fault with
  | afterPoint rest | noNumber rest | afterNumber rest | inExponent rest =>
    refine Holds.bind (h rest rfl) ?_
    rintro _ rfl
    exact Holds.pure rfl
  | emptyText | loneSign | pointAtEnd | emptyExponent | exponentRange | digitCount | scaleRange
  | valueRange => exact Holds.pure rfl

end Fault

/-- What stops the bytes of a text is a character of it, or the first byte of one. -/
theorem exists_of_bytes_stop {text front rest : List Char} {b : Char}
    (hbytes : bytes text = front ++ b :: rest) (h : StopsAt front b) :
    ∃ c back, text = front ++ c :: back ∧ bytes (c :: back) = b :: rest ∧ StopsAt front c := by
  obtain ⟨c, back, htext, hback, hc⟩ :=
    Encoding.exists_of_bytes_eq_append_cons (isAscii_of_viable h.1) hbytes
  refine ⟨c, back, htext, hback, ?_⟩
  rcases hc with rfl | hc
  · exact h
  · exact ⟨h.1, fun hviable => hc (isAscii_of_viable hviable c (by simp))⟩

/-- A fault of the bytes is located in the text, at the character that stops it. -/
theorem guardedParse_holds {s : String} {fault : Fault (List Char)}
    (h : read (bytes s.toList) = .error fault) :
    ∃ c, ((guardedParse s).Holds fun result => result = .error (fault.map fun _ => c)) ∧
      ∀ rest, fault.unexpected? = some rest →
        ∃ front back, s.toList = front ++ c :: back ∧ StopsAt front c := by
  have hlocated {c : Char} (hc : ∀ rest, fault.unexpected? = some rest →
      (Encoding.characterAt s.toList rest).Holds fun found => found = c) :
      (guardedParse s).Holds fun result => result = .error (fault.map fun _ => c) := by
    unfold guardedParse
    rw [h]
    refine Holds.bind (Fault.locate_holds hc) ?_
    rintro _ rfl
    exact Holds.pure rfl
  cases hrest : fault.unexpected? with
  | none => exact ⟨default, hlocated fun rest h => (nomatch hrest.symm.trans h), nofun⟩
  | some rest =>
    obtain ⟨front, b, others, hbytes, rfl, hstops⟩ := read_unexpected h hrest
    obtain ⟨c, back, htext, hback, hstops⟩ := exists_of_bytes_stop hbytes hstops
    refine ⟨c, hlocated fun rest h => ?_, fun _ _ => ⟨front, back, htext, hstops⟩⟩
    cases hrest.symm.trans h
    rw [htext, ← hback]
    exact Encoding.characterAt_holds (isAscii_of_viable hstops.1) c back

theorem guardedParse_of_read {s : String} {l : Literal} (h : read (bytes s.toList) = .ok l) :
    guardedParse s = pure (.ok l) := by
  unfold guardedParse
  rw [h]

theorem guardedParse_intact (s : String) : (guardedParse s).intact := by
  cases hread : read (bytes s.toList) with
  | ok l =>
    rw [guardedParse_of_read hread]
    exact trivial
  | error fault =>
    obtain ⟨c, hholds, -⟩ := guardedParse_holds hread
    exact hholds.intact

theorem read_of_parse_error {s : String} {fault : Fault Char} (h : parse s = .error fault) :
    ∃ found c, read (bytes s.toList) = .error found ∧ fault = found.map (fun _ => c) ∧
      ∀ rest, found.unexpected? = some rest →
        ∃ front back, s.toList = front ++ c :: back ∧ StopsAt front c := by
  cases hread : read (bytes s.toList) with
  | ok l =>
    rw [parse, guardedParse_of_read hread] at h
    cases h
  | error found =>
    obtain ⟨c, hholds, hstops⟩ := guardedParse_holds hread
    have hvalue := hholds.value
    rw [← parse, h, Except.error.injEq] at hvalue
    exact ⟨found, c, rfl, hvalue, hstops⟩

theorem stopsAt_of_parse_error {s : String} {fault : Fault Char} {c : Char}
    (h : parse s = .error fault) (hc : fault.unexpected? = some c) :
    ∃ front back, s.toList = front ++ c :: back ∧ StopsAt front c := by
  obtain ⟨found, d, -, rfl, hstops⟩ := read_of_parse_error h
  rw [Fault.unexpected?_map, Option.map_eq_some_iff] at hc
  obtain ⟨rest, hrest, rfl⟩ := hc
  exact hstops rest hrest

theorem exists_spelling_of_ofWhole {s : String} {fault : Fault Char} (h : parse s = .error fault)
    (hwhole : fault.OfWhole) : ∃ f : Spelling, f.text = s.toList := by
  obtain ⟨found, c, hread, rfl, -⟩ := read_of_parse_error h
  have hfinished : Finished (read (bytes s.toList)) := by
    intro other hother
    cases hread.symm.trans hother
    exact Fault.ofWhole_map.mp hwhole
  obtain ⟨f, hf⟩ := read_shape hfinished
  exact ⟨f, (Encoding.eq_of_bytes_ascii f.isAscii_text hf.symm).symm⟩

theorem parse_eq_error_iff {s : String} {f : Spelling} (hf : f.text = s.toList)
    (h : f.precision < 2 ^ 32) {fault : Fault Char} :
    parse s = .error fault ↔ f.Refused fault := by
  refine f.eq_error_iff (fun l hparse => ?_) fun fault herror => ?_
  · rwa [parse_eq_ok_iff, ← hf, read_text] at hparse
  · obtain ⟨found, c, hread, rfl, -⟩ := read_of_parse_error herror
    rw [← hf, Encoding.bytes_eq_self f.isAscii_text] at hread
    exact Fault.refused_map.mpr ((Spelling.read_eq_error_iff h).mp hread)

theorem ofString_eq_error_iff {s : String} {e : Error} :
    ofString s = .error e ↔ ∃ fault, parse s = .error fault ∧ e = .malformed s fault.reason := by
  rw [ofString]
  cases parse s with
  | ok l =>
    constructor
    · intro h
      cases h
    · rintro ⟨fault, h, -⟩
      cases h
  | error fault =>
    change Except.error (.malformed s fault.reason) = Except.error e ↔ _
    constructor
    · intro h
      cases h
      exact ⟨fault, rfl, rfl⟩
    · rintro ⟨other, h, rfl⟩
      cases h
      rfl

/-- The character that a text is refused with is where it stops being the start of a spelling, and
looking it up cuts no character; only a spelling is refused for its scale or its value, and one
without too many digits is refused for nothing but its exponent, its scale and its value, in this
order. -/
theorem parse_error_explains (s : String) :
    (∀ e, ofString s = .error e ↔
      ∃ fault, parse s = .error fault ∧ e = .malformed s fault.reason) ∧
      (guardedParse s).intact ∧
      (∀ fault c, parse s = .error fault → fault.unexpected? = some c →
        Fault.Quotes fault.reason c ∧ ∃ front back, s.toList = front ++ c :: back ∧
          Encoding.IsAscii front ∧ Viable front ∧ ¬Viable (front ++ [c])) ∧
      ((¬∃ f : Spelling, f.text = s.toList) →
        parse s ≠ .error .valueRange ∧ ∀ scale, parse s ≠ .error (.scaleRange scale)) ∧
      ∀ f : Spelling, f.text = s.toList → s.toList.countP Char.isDigit < 2 ^ 32 →
        ∀ fault, parse s = .error fault ↔ f.Refused fault := by
  refine ⟨fun e => ofString_eq_error_iff, guardedParse_intact s, fun fault c h hc => ?_,
    fun hnone => ?_, fun f hf hcount fault => ?_⟩
  · obtain ⟨front, back, htext, hviable, hstops⟩ := stopsAt_of_parse_error h hc
    exact ⟨Fault.reason_quotes hc, front, back, htext, isAscii_of_viable hviable, hviable, hstops⟩
  · exact ⟨fun h => hnone (exists_spelling_of_ofWhole h trivial),
      fun scale h => hnone (exists_spelling_of_ofWhole h trivial)⟩
  · rw [← hf] at hcount
    exact parse_eq_error_iff hf (Nat.lt_of_le_of_lt f.precision_le_countP hcount)

theorem parse_error_explains_accent :
    ofString "1é" = .error (.malformed "1é"
        "Found non base ten digit character 'é' before the end of the string") ∧
      ∃ front back, "1é".toList = front ++ 'é' :: back ∧ Encoding.IsAscii front ∧
        Viable front ∧ ¬Viable (front ++ ['é']) := by
  have h : parse "1é" = .error (.afterNumber 'é') := by rfl
  obtain ⟨hreason, -, hstops, -⟩ := parse_error_explains "1é"
  exact ⟨(hreason _).mpr ⟨_, h, rfl⟩, (hstops _ 'é' h rfl).2⟩

end WideDecimal.Literal
