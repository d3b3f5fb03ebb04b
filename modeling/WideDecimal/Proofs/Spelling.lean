import WideDecimal.Literal.Reader
import WideDecimal.Proofs.DigitText
import WideDecimal.Proofs.Encoding
import WideDecimal.Proofs.TextRun
import WideDecimal.Proofs.TwosComplement

namespace WideDecimal.Literal

open DigitText
open Encoding (IsAscii isAscii_append)

/-- A sign in front of digits, or its absence. -/
inductive Sign where
  | absent
  | plus
  | minus

namespace Sign

def text : Sign → List Char
  | absent => []
  | plus => ['+']
  | minus => ['-']

def isMinus : Sign → Bool
  | minus => true
  | _ => false

end Sign

/-- An exponent as it is written. -/
structure Exponent where
  mark : Char
  sign : Sign
  digits : List Char
  isMark : mark = 'E' ∨ mark = 'e'
  isDigit : ∀ c ∈ digits, c.isDigit
  digits_ne_nil : digits ≠ []

/-- A literal as it is written. The whole digits may be missing where the fraction has some; a
fraction without digits comes without its point. -/
structure Spelling where
  sign : Sign
  whole : List Char
  fraction : List Char
  exponent : Option Exponent
  whole_isDigit : ∀ c ∈ whole, c.isDigit
  fraction_isDigit : ∀ c ∈ fraction, c.isDigit
  digits_ne_nil : ¬(whole = [] ∧ fraction = [])

/-- The numbers that a scale or an exponent can be. -/
def InScaleRange (n : Int) : Prop := -2 ^ 31 ≤ n ∧ n < 2 ^ 31

def Exponent.text (e : Exponent) : List Char := e.mark :: (e.sign.text ++ e.digits)

def Exponent.value (e : Exponent) : Int :=
  signed e.sign.isMinus (Nat.ofDigitChars 10 e.digits 0)

def exponentText : Option Exponent → List Char
  | none => []
  | some e => e.text

def fractionText (fraction : List Char) : List Char :=
  if fraction = [] then [] else '.' :: fraction

/-- The scale of a number of digits, `places` of them behind the point. With an exponent it is
the first digit that the exponent counts. -/
def scaleOf (places digits : Nat) : Option Exponent → Int
  | none => places
  | some e => -e.value + (digits - 1)

/-- The characters that a sign can be. -/
def isSign (c : Char) : Bool := c == '-' || c == '+'

theorem isAscii_of_isDigit {digits : List Char} (h : ∀ c ∈ digits, c.isDigit) : IsAscii digits := by
  intro c hc
  have hrange := (isDigit_iff c).mp (h c hc)
  omega

theorem isSign_eq_false_of_isDigit {c : Char} (h : c.isDigit) : isSign c = false := by
  have hrange := (isDigit_iff c).mp h
  have hminus : c ≠ '-' := by
    rintro rfl
    simp at hrange
  have hplus : c ≠ '+' := by
    rintro rfl
    simp at hrange
  simp [isSign, hminus, hplus]

theorem clear_isSign_of_isDigit {digits : List Char} (h : ∀ c ∈ digits, c.isDigit)
    (hne : digits ≠ []) : Clear isSign digits := by
  obtain ⟨c, others, rfl⟩ := List.exists_cons_of_ne_nil hne
  exact clear_cons (isSign_eq_false_of_isDigit (h c List.mem_cons_self)) others

theorem Exponent.clear_isSign (e : Exponent) : Clear isSign e.digits :=
  clear_isSign_of_isDigit e.isDigit e.digits_ne_nil

theorem Sign.isAscii_text (sign : Sign) : IsAscii sign.text := by
  cases sign <;> simp [Sign.text, IsAscii]

theorem Exponent.isAscii_text (e : Exponent) : IsAscii e.text := by
  refine List.forall_mem_cons.mpr
    ⟨?_, isAscii_append.mpr ⟨e.sign.isAscii_text, isAscii_of_isDigit e.isDigit⟩⟩
  rcases e.isMark with hmark | hmark <;> rw [hmark] <;> decide

theorem clear_exponentText {p : Char → Bool} (hupper : p 'E' = false) (hlower : p 'e' = false)
    (exponent : Option Exponent) : Clear p (exponentText exponent) := by
  cases exponent with
  | none => exact clear_nil p
  | some e =>
    refine clear_cons ?_ _
    rcases e.isMark with hmark | hmark <;> rw [hmark]
    · exact hupper
    · exact hlower

namespace Spelling

/-- What follows the whole digits. -/
def tail (f : Spelling) : List Char := fractionText f.fraction ++ exponentText f.exponent

def text (f : Spelling) : List Char := f.sign.text ++ (f.whole ++ f.tail)

/-- The zeros in front. -/
def zeros (f : Spelling) : List Char := f.whole.takeWhile (· = '0')

/-- The whole digits behind the zeros in front. -/
def leading (f : Spelling) : List Char := f.whole.dropWhile (· = '0')

/-- The digits that count toward the number. -/
def significand (f : Spelling) : List Char := f.leading ++ f.fraction

/-- The number of digits that count; where there are none, the zeros do. -/
def precision (f : Spelling) : Nat :=
  if f.significand = [] then f.zeros.length else f.significand.length

def scale (f : Spelling) : Int := scaleOf f.fraction.length f.precision f.exponent

/-- The integer that the digits denote with the sign. -/
def number (f : Spelling) : Int :=
  signed f.sign.isMinus (Nat.ofDigitChars 10 f.significand 0)

/-- Whether precision, exponent, scale and number are small enough for a literal. -/
structure InRange (f : Spelling) : Prop where
  precision_lt : f.precision < 2 ^ 32
  exponent_range : ∀ e ∈ f.exponent, InScaleRange e.value
  scale_range : InScaleRange f.scale
  number_fits : Coefficient.Fits f.number

/-- Whether a literal is what a spelling stands for. -/
structure Denotes (f : Spelling) (l : Literal) : Prop where
  value_eq : l.value.toInt = f.number
  precision_eq : l.precision.toNat = f.precision
  scale_eq : l.scale.toInt = f.scale
  exponent_range : ∀ e ∈ f.exponent, InScaleRange e.value

theorem whole_eq (f : Spelling) : f.whole = f.zeros ++ f.leading :=
  List.takeWhile_append_dropWhile.symm

theorem clear_isDigit_tail (f : Spelling) : Clear Char.isDigit f.tail := by
  unfold Spelling.tail fractionText
  split
  next => exact clear_exponentText rfl rfl f.exponent
  next => exact clear_cons rfl _

theorem clear_zero_leading (f : Spelling) : Clear (· = '0') (f.leading ++ f.tail) := by
  cases hleading : f.leading with
  | nil =>
    intro c hc
    have hdigit := clear_isDigit_tail f c hc
    rw [decide_eq_false_iff_not]
    rintro rfl
    exact absurd hdigit (by decide)
  | cons c leading =>
    have hstop := List.head?_dropWhile_not (· = '0') f.whole
    rw [← Spelling.leading, hleading] at hstop
    exact clear_cons (by simpa using hstop) _

theorem whole_append_tail_ne_nil (f : Spelling) : f.whole ++ f.tail ≠ [] := by
  intro hnil
  obtain ⟨hwhole, htail⟩ := List.append_eq_nil_iff.mp hnil
  obtain ⟨hfraction, -⟩ := List.append_eq_nil_iff.mp htail
  unfold fractionText at hfraction
  split at hfraction
  next hnone => exact f.digits_ne_nil ⟨hwhole, hnone⟩
  next => cases hfraction

theorem clear_isSign (f : Spelling) : Clear isSign (f.whole ++ f.tail) := by
  cases hwhole : f.whole with
  | cons c whole =>
    exact clear_cons (isSign_eq_false_of_isDigit (f.whole_isDigit c (by simp [hwhole]))) _
  | nil =>
    have hfraction : f.fraction ≠ [] := fun hnone => f.digits_ne_nil ⟨hwhole, hnone⟩
    rw [List.nil_append, Spelling.tail, fractionText, if_neg hfraction]
    exact clear_cons rfl _

theorem isAscii_text (f : Spelling) : IsAscii f.text := by
  have hfraction : IsAscii (fractionText f.fraction) := by
    unfold fractionText
    split
    next => exact List.forall_mem_nil _
    next => exact List.forall_mem_cons.mpr ⟨by decide, isAscii_of_isDigit f.fraction_isDigit⟩
  have hexponent : IsAscii (exponentText f.exponent) := by
    cases f.exponent with
    | none => exact List.forall_mem_nil _
    | some e => exact e.isAscii_text
  have htail := isAscii_append.mpr ⟨hfraction, hexponent⟩
  have hunsigned := isAscii_append.mpr ⟨isAscii_of_isDigit f.whole_isDigit, htail⟩
  exact isAscii_append.mpr ⟨f.sign.isAscii_text, hunsigned⟩

theorem tail_eq_nil_iff (f : Spelling) : f.tail = [] ↔ f.fraction = [] ∧ f.exponent = none := by
  unfold Spelling.tail fractionText
  rw [List.append_eq_nil_iff]
  refine and_congr ?_ ?_
  · split <;> simp_all
  · cases f.exponent <;> simp [exponentText, Exponent.text]

theorem leading_isDigit (f : Spelling) : ∀ c ∈ f.leading, c.isDigit := fun c hc =>
  f.whole_isDigit c ((List.dropWhile_suffix _).subset hc)

theorem significand_isDigit (f : Spelling) : ∀ c ∈ f.significand, c.isDigit :=
  List.forall_mem_append.mpr ⟨f.leading_isDigit, f.fraction_isDigit⟩

theorem parts_ne_nil (f : Spelling) :
    ¬(f.zeros.length = 0 ∧ f.leading = [] ∧ f.fraction = []) := by
  rintro ⟨hzeros, hnone, hfraction⟩
  refine f.digits_ne_nil ⟨?_, hfraction⟩
  rw [f.whole_eq, hnone, List.length_eq_zero_iff.mp hzeros]
  rfl

theorem natAbs_number_lt (f : Spelling) : f.number.natAbs < 10 ^ f.precision := by
  rw [number, natAbs_signed, precision]
  split
  next hnone =>
    rw [hnone]
    exact Nat.pow_pos (by decide)
  next => exact ofDigitChars_lt f.significand_isDigit

theorem inRange_iff_exists_denotes (f : Spelling) : f.InRange ↔ ∃ l, f.Denotes l := by
  constructor
  · intro h
    refine ⟨⟨.ofInt f.number, .ofNat f.precision, .ofInt f.scale⟩, ?_, ?_, ?_, h.exponent_range⟩
    · exact Coefficient.toInt_ofInt_of_bounds h.number_fits.1 h.number_fits.2
    · exact Nat.mod_eq_of_lt h.precision_lt
    · exact Int32.toInt_ofInt_of_le h.scale_range.1 h.scale_range.2
  · rintro ⟨l, h⟩
    refine ⟨?_, h.exponent_range, ?_, ?_⟩
    · rw [← h.precision_eq]
      exact l.precision.toNat_lt
    · rw [← h.scale_eq]
      exact ⟨l.scale.le_toInt, l.scale.toInt_lt⟩
    · rw [← h.value_eq]
      exact l.value.fits_toInt

theorem Denotes.unique {f : Spelling} {l m : Literal} (hl : f.Denotes l) (hm : f.Denotes m) :
    l = m := by
  obtain ⟨value, precision, scale⟩ := l
  obtain ⟨value', precision', scale'⟩ := m
  have hvalue := Coefficient.toInt_inj.mp (hl.value_eq.trans hm.value_eq.symm)
  have hprecision := UInt32.toNat_inj.mp (hl.precision_eq.trans hm.precision_eq.symm)
  have hscale := Int32.toInt_inj.mp (hl.scale_eq.trans hm.scale_eq.symm)
  dsimp only at hvalue hprecision hscale
  rw [hvalue, hprecision, hscale]

theorem number_eq (f : Spelling) :
    f.number = signed f.sign.isMinus (Nat.ofDigitChars 10 (f.whole ++ f.fraction) 0) := by
  have hzeros : ∀ c ∈ f.zeros, c = '0' := by
    intro c hc
    have hc' := List.mem_takeWhile_imp hc
    simpa using hc'
  rw [number, significand, whole_eq f, List.append_assoc, ofDigitChars_zeros hzeros]

theorem precision_of_numeral {f : Spelling} {n : Nat}
    (h : f.whole ++ f.fraction = Nat.toDigits 10 n) :
    f.precision = (Nat.toDigits 10 n).length := by
  have hne : Nat.toDigits 10 n ≠ [] := Nat.toDigits_ne_nil
  rcases Nat.eq_zero_or_pos n with rfl | hpos
  · change f.whole ++ f.fraction = ['0'] at h
    rcases List.append_eq_singleton_iff.mp h with ⟨hwhole, hfraction⟩ | ⟨hwhole, hfraction⟩
    · simp [precision, significand, leading, hwhole, hfraction]
    · simp [precision, significand, leading, zeros, hwhole, hfraction]
  · have hleading : f.leading = f.whole := by
      cases hwhole : f.whole with
      | nil => rw [leading, hwhole]; rfl
      | cons c whole =>
        rw [hwhole, List.cons_append] at h
        have hc := toDigits_head_ne_zero hpos h.symm
        rw [leading, hwhole, List.dropWhile_cons_of_neg (by simpa using hc)]
    rw [precision, significand, hleading, h, if_neg hne]

theorem precision_le_countP (f : Spelling) : f.precision ≤ f.text.countP Char.isDigit := by
  have hwhole : f.whole.countP Char.isDigit = f.whole.length :=
    List.countP_eq_length.mpr f.whole_isDigit
  have hfraction : f.fraction.length ≤ (fractionText f.fraction).countP Char.isDigit := by
    have hcount : f.fraction.countP Char.isDigit = f.fraction.length :=
      List.countP_eq_length.mpr f.fraction_isDigit
    unfold fractionText
    split
    next hnone =>
      rw [hnone]
      exact Nat.zero_le _
    next =>
      rw [List.countP_cons]
      omega
  have hsplit := congrArg List.length f.whole_eq
  rw [List.length_append] at hsplit
  rw [text, tail, List.countP_append, List.countP_append, List.countP_append, precision,
    significand, List.length_append]
  split <;> omega

theorem precision_pos (f : Spelling) : 0 < f.precision := by
  unfold precision
  split
  next hnone =>
    obtain ⟨hleading, hfraction⟩ := List.append_eq_nil_iff.mp hnone
    exact Nat.pos_of_ne_zero fun hzeros => f.parts_ne_nil ⟨hzeros, hleading, hfraction⟩
  next hsome => exact List.length_pos_iff.mpr hsome

end Spelling

end WideDecimal.Literal
