import WideDecimal.Coefficient.Digits
import WideDecimal.Proofs.CheckedProduct
import WideDecimal.Proofs.DigitText
import WideDecimal.Proofs.Guarded

namespace WideDecimal.Coefficient

open DigitText
open Guarded (Holds)

theorem getD_wordPowersOfTen {count : Nat} (h : count ≤ chunkDigits) :
    (wordPowersOfTen.getD count 0).toNat = 10 ^ count := by
  have hall : ∀ count < chunkDigits + 1, (wordPowersOfTen.getD count 0).toNat = 10 ^ count := by
    decide
  exact hall count (by omega)

theorem not_fits_ofDigitChars {negative : Bool} {n : Nat} (h : ¬Fits (signed negative n))
    (digits : List Char) : ¬Fits (signed negative (Nat.ofDigitChars 10 digits n)) :=
  fun hfits => h (signed_mono hfits (le_ofDigitChars_init digits n))

/-- A chunk is appended exactly where the longer number fits: where the shifted value is out of
range already, the sum is too. -/
theorem pushChunk_holds {negative : Bool} {value : Coefficient} {n count : Nat} {chunk : UInt64}
    (hvalue : value.toInt = signed negative n) (hcount : count ≤ chunkDigits) :
    (pushChunk negative value chunk count).Holds fun result =>
      result = ofInt? (signed negative (n * 10 ^ count + chunk.toNat)) := by
  refine Holds.bind (Guarded.holds_require (Nat.lt_succ_of_le hcount)) fun _ _ => Holds.pure ?_
  have hshifted : value.toInt * (ofWord (wordPowersOfTen.getD count 0)).toInt =
      signed negative (n * 10 ^ count) := by
    rw [toInt_ofWord, getD_wordPowersOfTen hcount, hvalue]
    cases negative <;> simp [signed]
  rw [checkedMul_eq, hshifted]
  cases hproduct : ofInt? (signed negative (n * 10 ^ count)) with
  | none =>
    rw [ofInt?_eq_none_iff] at hproduct
    refine (ofInt?_eq_none_iff.mpr fun hfits => hproduct ?_).symm
    exact signed_mono hfits (Nat.le_add_right _ _)
  | some shifted =>
    rw [ofInt?_eq_some_iff] at hproduct
    rw [Option.bind_some, checkedSub_eq, checkedAdd_eq, toInt_ofWord, hproduct]
    have hsum : signed negative (n * 10 ^ count + chunk.toNat) =
        if negative then signed negative (n * 10 ^ count) - chunk.toNat
        else signed negative (n * 10 ^ count) + chunk.toNat := by
      unfold signed
      split <;> omega
    rw [hsum]
    split <;> rfl

theorem guardedAccumulate_holds {negative : Bool} {value : Coefficient} {n count : Nat}
    {chunk : UInt64} {digits : List Char} (hvalue : value.toInt = signed negative n)
    (hchunk : chunk.toNat < 10 ^ count) (hcount : count < chunkDigits)
    (hdigits : ∀ c ∈ digits, c.isDigit) :
    (guardedAccumulate negative value chunk count digits).Holds fun result =>
      result = ofInt? (signed negative
        (Nat.ofDigitChars 10 digits (n * 10 ^ count + chunk.toNat))) := by
  induction digits generalizing value n count chunk with
  | nil =>
    unfold guardedAccumulate
    split
    next => exact pushChunk_holds hvalue (Nat.le_of_lt hcount)
    next hzero =>
      obtain rfl : count = 0 := by omega
      refine Holds.pure ?_
      have hempty : chunk.toNat = 0 := by omega
      rw [Nat.ofDigitChars_nil, hempty, Nat.pow_zero, Nat.mul_one, Nat.add_zero, ← hvalue,
        ofInt?_toInt]
  | cons c digits ih =>
    have hdigit := sub_lt_ten (hdigits c (by simp))
    have hrest : ∀ d ∈ digits, d.isDigit := fun d hd => hdigits d (by simp [hd])
    have hword : (UInt64.ofNat (digitValue c)).toNat = c.toNat - '0'.toNat :=
      Nat.mod_eq_of_lt (Nat.lt_trans hdigit (by decide))
    have hpow : 10 ^ (count + 1) ≤ 10 ^ chunkDigits := Nat.pow_le_pow_right (by decide) hcount
    have hlimit : 10 ^ chunkDigits < 2 ^ 64 := by decide
    rw [Nat.pow_succ] at hpow
    unfold guardedAccumulate
    refine Holds.bind (Guarded.holds_mul (show _ * 10 < 2 ^ 64 by omega)) fun tens htens => ?_
    have htens' : tens.toNat = chunk.toNat * 10 := htens
    refine Holds.bind (Guarded.holds_add (by rw [hword]; omega)) fun longer hlonger => ?_
    rw [hword, htens'] at hlonger
    have hbound : longer.toNat < 10 ^ (count + 1) := by
      rw [Nat.pow_succ]
      omega
    have hnumber : n * 10 ^ (count + 1) + longer.toNat =
        10 * (n * 10 ^ count + chunk.toNat) + (c.toNat - '0'.toNat) := by
      rw [hlonger, Nat.pow_succ, ← Nat.mul_assoc]
      omega
    rw [Nat.ofDigitChars_cons, ← hnumber]
    split
    next hfull =>
      refine Holds.bind (pushChunk_holds hvalue (Nat.le_of_eq hfull)) fun pushed hpushed => ?_
      cases pushed with
      | none =>
        have hnone := ofInt?_eq_none_iff.mp hpushed.symm
        exact Holds.pure (ofInt?_eq_none_iff.mpr (not_fits_ofDigitChars hnone digits)).symm
      | some value =>
        have hnext := ih (ofInt?_eq_some_iff.mp hpushed.symm)
          (show (0 : UInt64).toNat < 10 ^ 0 by decide) (by decide) hrest
        rwa [Nat.pow_zero, Nat.mul_one, UInt64.toNat_zero, Nat.add_zero] at hnext
    next hroom => exact ih hvalue hbound (by omega) hrest

theorem toInt_zero_eq_signed (negative : Bool) : zero.toInt = signed negative 0 := by
  rw [signed_zero]
  rfl

theorem guardedAccumulate_zero_holds (negative : Bool) {digits : List Char}
    (h : ∀ c ∈ digits, c.isDigit) :
    (guardedAccumulate negative zero 0 0 digits).Holds fun result =>
      result = ofInt? (signed negative (Nat.ofDigitChars 10 digits 0)) := by
  have hholds := guardedAccumulate_holds (toInt_zero_eq_signed negative)
    (show (0 : UInt64).toNat < 10 ^ 0 by decide) (by decide) h
  rwa [Nat.zero_mul, UInt64.toNat_zero, Nat.add_zero] at hholds

theorem ofDigits?_eq (negative : Bool) {digits : List Char} (h : ∀ c ∈ digits, c.isDigit) :
    ofDigits? negative digits = ofInt? (signed negative (Nat.ofDigitChars 10 digits 0)) :=
  (guardedAccumulate_zero_holds negative h).value

end WideDecimal.Coefficient
