import Mathlib.Logic.Relation
import WideDecimal.Proofs.OrdinaryNumber

namespace WideDecimal.Literal

open DigitText
open Relation (ReflTransGen)

/-- A text with so many zeros in front. -/
def prependZeros (k : Nat) (digits : List Char) : List Char := List.replicate k '0' ++ digits

theorem isDigit_prependZeros {digits : List Char} (h : ∀ c ∈ digits, c.isDigit) (k : Nat) :
    ∀ c ∈ prependZeros k digits, c.isDigit := by
  intro c hc
  rcases List.mem_append.mp hc with hc | hc
  · exact isDigit_of_mem_zeros hc
  · exact h c hc

theorem ofDigitChars_prependZeros (k : Nat) (digits : List Char) :
    Nat.ofDigitChars 10 (prependZeros k digits) 0 = Nat.ofDigitChars 10 digits 0 :=
  ofDigitChars_zeros (fun _ => List.eq_of_mem_replicate) digits

theorem prependZeros_eq_nil {k : Nat} {digits : List Char} (h : prependZeros k digits = []) :
    digits = [] := (List.append_eq_nil_iff.mp h).2

namespace Exponent

def withZeros (e : Exponent) (k : Nat) : Exponent :=
  { e with
    digits := prependZeros k e.digits
    isDigit := isDigit_prependZeros e.isDigit k
    digits_ne_nil := fun h => e.digits_ne_nil (prependZeros_eq_nil h) }

/-- One change to how an exponent is written. -/
inductive Respelling (e : Exponent) : Exponent → Prop
  | mark {c : Char} (h : c = 'E' ∨ c = 'e') : Respelling e { e with mark := c, isMark := h }
  | addPlus (h : e.sign = .absent) : Respelling e { e with sign := .plus }
  | dropPlus (h : e.sign = .plus) : Respelling e { e with sign := .absent }
  | zeros (k : Nat) : Respelling e (e.withZeros k)

theorem Respelling.value_eq {e d : Exponent} (h : e.Respelling d) : d.value = e.value := by
  cases h with
  | mark => rfl
  | addPlus h => simp [value, h, Sign.isMinus]
  | dropPlus h => simp [value, h, Sign.isMinus]
  | zeros k => simp [value, withZeros, ofDigitChars_prependZeros]

end Exponent

theorem scaleOf_congr {x y : Option Exponent} (h : x.map Exponent.value = y.map Exponent.value)
    (places digits : Nat) : scaleOf places digits x = scaleOf places digits y := by
  cases x <;> cases y <;> simp_all [scaleOf]

namespace Spelling

def withZeros (f : Spelling) (k : Nat) : Spelling :=
  { f with
    whole := prependZeros k f.whole
    whole_isDigit := isDigit_prependZeros f.whole_isDigit k
    digits_ne_nil := fun h => f.digits_ne_nil ⟨prependZeros_eq_nil h.1, h.2⟩ }

/-- One change to how a literal is written. -/
inductive Respelling (f : Spelling) : Spelling → Prop
  | addPlus (h : f.sign = .absent) : Respelling f { f with sign := .plus }
  | dropPlus (h : f.sign = .plus) : Respelling f { f with sign := .absent }
  | zeros (k : Nat) : Respelling f (f.withZeros k)
  | exponent {e d : Exponent} (he : f.exponent = some e) (h : e.Respelling d) :
    Respelling f { f with exponent := some d }

theorem leading_withZeros (f : Spelling) (k : Nat) : (f.withZeros k).leading = f.leading := by
  have hzeros : ∀ c ∈ List.replicate k '0', decide (c = '0') := by simp
  exact List.dropWhile_append_of_pos hzeros

theorem zeros_withZeros (f : Spelling) (k : Nat) :
    (f.withZeros k).zeros = prependZeros k f.zeros := by
  have hzeros : ∀ c ∈ List.replicate k '0', decide (c = '0') := by simp
  exact List.takeWhile_append_of_pos hzeros

theorem significand_withZeros (f : Spelling) (k : Nat) :
    (f.withZeros k).significand = f.significand := by
  rw [significand, leading_withZeros]
  rfl

/-- Two ways to write the same digits with the same exponent, apart from zeros in front. -/
structure Alike (f g : Spelling) : Prop where
  isMinus_eq : f.sign.isMinus = g.sign.isMinus
  significand_eq : f.significand = g.significand
  places_eq : f.fraction.length = g.fraction.length
  exponent_eq : f.exponent.map Exponent.value = g.exponent.map Exponent.value

theorem Respelling.alike {f g : Spelling} (h : f.Respelling g) : f.Alike g := by
  cases h with
  | addPlus h => exact ⟨by simp [h, Sign.isMinus], rfl, rfl, rfl⟩
  | dropPlus h => exact ⟨by simp [h, Sign.isMinus], rfl, rfl, rfl⟩
  | zeros k => exact ⟨rfl, (f.significand_withZeros k).symm, rfl, rfl⟩
  | exponent he h => exact ⟨rfl, rfl, rfl, by simp [he, h.value_eq]⟩

/-- However often a spelling is changed, it keeps its digits and its exponent. -/
theorem alike_of_reflTransGen {f g : Spelling} (h : ReflTransGen Respelling f g) : f.Alike g := by
  induction h with
  | refl => exact ⟨rfl, rfl, rfl, rfl⟩
  | tail _ hstep ih =>
    have hlast := hstep.alike
    constructor
    · exact ih.isMinus_eq.trans hlast.isMinus_eq
    · exact ih.significand_eq.trans hlast.significand_eq
    · exact ih.places_eq.trans hlast.places_eq
    · exact ih.exponent_eq.trans hlast.exponent_eq

theorem Alike.denotes {f g : Spelling} (h : f.Alike g) (hne : f.significand ≠ []) {l : Literal}
    (hl : f.Denotes l) : g.Denotes l := by
  have hprecision : g.precision = f.precision := by
    rw [precision, precision, ← h.significand_eq, if_neg hne, if_neg hne]
  constructor
  · rw [hl.value_eq, number, number, h.isMinus_eq, h.significand_eq]
  · rw [hl.precision_eq, hprecision]
  · rw [hl.scale_eq, scale, scale, hprecision, h.places_eq, scaleOf_congr h.exponent_eq]
  · intro d hd
    have hvalue : some d.value = f.exponent.map Exponent.value := by
      rw [h.exponent_eq, Option.mem_def.mp hd]
      rfl
    obtain ⟨e, he, heq⟩ := Option.map_eq_some_iff.mp hvalue.symm
    rw [← heq]
    exact hl.exponent_range e he

theorem whole_of_significand_nil {f : Spelling} (h : f.significand = []) :
    f.fraction = [] ∧ f.whole = List.replicate f.precision '0' := by
  obtain ⟨hleading, hfraction⟩ := List.append_eq_nil_iff.mp h
  refine ⟨hfraction, ?_⟩
  rw [precision, if_pos h, whole_eq, hleading, List.append_nil]
  apply List.eq_replicate_of_mem
  intro c hc
  simpa using List.mem_takeWhile_imp hc

theorem precision_withZeros {f : Spelling} (h : f.significand = []) (k : Nat) :
    (f.withZeros k).precision = f.precision + k := by
  rw [precision, precision, significand_withZeros, if_pos h, if_pos h, zeros_withZeros,
    prependZeros, List.length_append, List.length_replicate, Nat.add_comm]

theorem scale_withZeros {f : Spelling} (h : f.significand = []) (k : Nat) :
    (f.withZeros k).scale = if f.exponent = none then 0 else f.scale + k := by
  have hfraction := (whole_of_significand_nil h).1
  have hprecision := precision_withZeros h k
  change scaleOf f.fraction.length (f.withZeros k).precision f.exponent = _
  rw [scale, hprecision, hfraction]
  cases f.exponent with
  | none => rfl
  | some e =>
    simp only [scaleOf, reduceCtorEq, if_false]
    omega

theorem number_withZeros {f : Spelling} (h : f.significand = []) (k : Nat) :
    (f.withZeros k).number = 0 :=
  number_eq_zero_of_significand ((f.significand_withZeros k).trans h)

theorem inRange_withZeros_iff {f : Spelling} (h : f.significand = []) {l : Literal}
    (hl : f.Denotes l) (k : Nat) : (f.withZeros k).InRange ↔
      l.precision.toNat + k < 2 ^ 32 ∧ (f.exponent = none ∨ l.scale.toInt + k < 2 ^ 31) := by
  have hprecision := precision_withZeros h k
  have hscale := scale_withZeros h k
  have hlow := l.scale.le_toInt
  rw [← hl.precision_eq] at hprecision
  rw [← hl.scale_eq] at hscale
  constructor
  · intro hrange
    have hdigits := hrange.precision_lt
    have hplaces := hrange.scale_range.2
    refine ⟨by omega, ?_⟩
    by_cases hexponent : f.exponent = none
    · exact Or.inl hexponent
    · rw [hscale, if_neg hexponent] at hplaces
      exact Or.inr hplaces
  · rintro ⟨hdigits, hplaces⟩
    refine ⟨by omega, hl.exponent_range, ?_, ?_⟩
    · unfold InScaleRange
      split at hscale
      next => omega
      next hsome =>
        have hlt := hplaces.resolve_left hsome
        omega
    · rw [number_withZeros h]
      decide

end Spelling

/-- Zeros alone count: each one more raises the precision, and with an exponent the scale. -/
theorem ofString_withZeros {f : Spelling} (hzero : f.significand = []) {l : Literal}
    (hl : f.Denotes l) {k : Nat} {t : String} (ht : t.toList = (f.withZeros k).text) :
    if l.precision.toNat + k < 2 ^ 32 ∧ (f.exponent = none ∨ l.scale.toInt + k < 2 ^ 31) then
      ∃ m, ofString t = .ok m ∧ m.value = .zero ∧ m.precision.toNat = l.precision.toNat + k ∧
        m.scale.toInt = if f.exponent = none then 0 else l.scale.toInt + k
    else ∃ e, ofString t = .error e := by
  have hiff := f.inRange_withZeros_iff hzero hl k
  rw [Spelling.inRange_iff_exists_denotes] at hiff
  split
  next hrange =>
    obtain ⟨m, hm⟩ := hiff.mpr hrange
    refine ⟨m, (ofString_text_iff ht).mpr hm, ?_, ?_, ?_⟩
    · rw [Coefficient.eq_zero_iff, hm.value_eq, Spelling.number_withZeros hzero]
    · rw [hm.precision_eq, Spelling.precision_withZeros hzero, hl.precision_eq]
    · rw [hm.scale_eq, Spelling.scale_withZeros hzero, hl.scale_eq]
  next hrange =>
    cases hread : ofString t with
    | error e => exact ⟨e, rfl⟩
    | ok m => exact absurd (hiff.mp ⟨m, (ofString_text_iff ht).mp hread⟩) hrange

/-- A text that is read, and has a digit other than the zeros in front, stays the same literal
however often its signs, zeros and mark are changed. Where there are only zeros, each one more
raises the precision by one, and with an exponent the scale, as long as they stay in range. -/
theorem ofString_respelling {s : String} {l : Literal} (h : ofString s = .ok l) :
    ∃ f : Spelling, (∀ g : Spelling, g.text = s.toList ↔ g = f) ∧
      (f.significand ≠ [] → ∀ (g : Spelling) (t : String), ReflTransGen Spelling.Respelling f g →
        t.toList = g.text → ofString t = .ok l) ∧
      (f.significand = [] → f.fraction = [] ∧ f.whole = List.replicate l.precision.toNat '0' ∧
        l.value = .zero ∧ ∀ (k : Nat) (t : String), t.toList = (f.withZeros k).text →
          if l.precision.toNat + k < 2 ^ 32 ∧ (f.exponent = none ∨ l.scale.toInt + k < 2 ^ 31) then
            ∃ m, ofString t = .ok m ∧ m.value = .zero ∧
              m.precision.toNat = l.precision.toNat + k ∧
              m.scale.toInt = if f.exponent = none then 0 else l.scale.toInt + k
          else ∃ e, ofString t = .error e) := by
  obtain ⟨f, hf, hdenotes⟩ := ofString_eq_ok_iff.mp h
  refine ⟨f, fun g => ?_, fun hne g t hchanges ht => ?_, fun hzero => ?_⟩
  · rw [← hf]
    exact ⟨Spelling.text_injective, congrArg Spelling.text⟩
  · have halike := Spelling.alike_of_reflTransGen hchanges
    exact (ofString_text_iff ht).mpr (halike.denotes hne hdenotes)
  · obtain ⟨hfraction, hwhole⟩ := Spelling.whole_of_significand_nil hzero
    refine ⟨hfraction, ?_, ?_, fun k t ht => ofString_withZeros hzero hdenotes ht⟩
    · rw [hwhole, hdenotes.precision_eq]
    · rw [Coefficient.eq_zero_iff, hdenotes.value_eq, Spelling.number_eq_zero_of_significand hzero]

def thousands : Exponent := ⟨'e', .absent, ['3'], Or.inr rfl, by simp, by simp⟩

def halfThousand : Spelling := ⟨.absent, [], ['5'], some thousands, by simp, by simp, by simp⟩

def noThousand : Spelling := ⟨.absent, ['0', '0'], [], some thousands, by simp, by simp, by simp⟩

/-- Half a thousand with signs and zeros that say nothing, and three zeros in place of two, which
move the scale because there is an exponent. -/
theorem ofString_respelling_thousands :
    ofString ".5e3" = .ok ⟨⟨0, 5⟩, 1, -3⟩ ∧ ofString "+00.5E+003" = .ok ⟨⟨0, 5⟩, 1, -3⟩ ∧
      ofString "00e3" = .ok ⟨.zero, 2, -2⟩ ∧
      ∃ m, ofString "000e3" = .ok m ∧ m.value = .zero ∧ m.precision.toNat = 3 ∧
        m.scale.toInt = -1 := by
  have hhalf : ofString ".5e3" = .ok ⟨⟨0, 5⟩, 1, -3⟩ := by decide
  have hzero : ofString "00e3" = .ok ⟨.zero, 2, -2⟩ := by decide
  refine ⟨hhalf, ?_, hzero, ?_⟩
  · obtain ⟨f, hf, hchanges, -⟩ := ofString_respelling hhalf
    obtain rfl : halfThousand = f := (hf halfThousand).mp rfl
    have hsigned := ReflTransGen.single (Spelling.Respelling.addPlus (f := halfThousand) rfl)
    have hmarked := (hsigned.tail (.zeros 2)).tail (.exponent rfl (.mark (Or.inl rfl)))
    have hlonger := (hmarked.tail (.exponent rfl (.addPlus rfl))).tail (.exponent rfl (.zeros 2))
    exact hchanges (by simp [halfThousand, Spelling.significand]) _ _ hlonger rfl
  · obtain ⟨f, hf, -, hzeros⟩ := ofString_respelling hzero
    obtain rfl : noThousand = f := (hf noThousand).mp rfl
    have hnone : noThousand.significand = [] := by decide
    have hlonger := (hzeros hnone).2.2.2 1 "000e3" rfl
    rwa [if_pos (by decide)] at hlonger

end WideDecimal.Literal
