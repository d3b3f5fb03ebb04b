import WideDecimal.Coefficient.Additive

namespace WideDecimal

/-- A number on the side of zero that a sign says. -/
def signed (negative : Bool) (n : Nat) : Int := if negative then -n else n

@[simp] theorem natAbs_signed (negative : Bool) (n : Nat) : (signed negative n).natAbs = n := by
  cases negative <;> simp [signed]

@[simp] theorem signed_zero (negative : Bool) : signed negative 0 = 0 := by
  cases negative <;> rfl

theorem signed_mono {limit : Int} {negative : Bool} {m n : Nat}
    (h : -limit ≤ signed negative n ∧ signed negative n < limit) (hle : m ≤ n) :
    -limit ≤ signed negative m ∧ signed negative m < limit := by
  unfold signed at *
  cases negative <;> simp only [reduceIte, reduceCtorEq] at * <;> omega

theorem signed_mul (s t : Bool) (m n : Nat) :
    signed s m * signed t n = signed (s != t) (m * n) := by
  cases s <;> cases t <;>
    simp only [signed, reduceIte, reduceCtorEq, bne_self_eq_false, Bool.bne_false, Bool.bne_true,
      Bool.not_false, Int.neg_mul, Int.mul_neg, Int.neg_neg, Int.natCast_mul]

theorem signed_tdiv (s t : Bool) (m n : Nat) :
    (signed s m).tdiv (signed t n) = signed (s != t) (m / n) := by
  cases s <;> cases t <;> simp [signed]

theorem signed_tmod (s t : Bool) (m n : Nat) :
    (signed s m).tmod (signed t n) = signed s (m % n) := by
  rw [signed, signed, signed, Int.ofNat_tmod]
  cases s <;> cases t <;> simp

namespace Coefficient

theorem signed_natAbs (v : Coefficient) : signed v.isNegative v.toInt.natAbs = v.toInt := by
  have hneg := v.isNegative_iff
  unfold signed
  split
  next h =>
    have := hneg.mp h
    omega
  next h =>
    have := mt hneg.mpr h
    omega

/-- Whether an integer is denoted by a coefficient. -/
def Fits (n : Int) : Prop := -2 ^ 127 ≤ n ∧ n < 2 ^ 127

instance (n : Int) : Decidable (Fits n) := inferInstanceAs (Decidable (_ ∧ _))

/-- The coefficient that denotes an integer, where there is one. -/
def ofInt? (n : Int) : Option Coefficient := if Fits n then some (ofInt n) else none

theorem fits_toInt (v : Coefficient) : Fits v.toInt := v.toInt_bounds

theorem bmod_eq_self {n : Int} (h : Fits n) : n.bmod (2 ^ 128) = n := by
  unfold Fits at h
  rw [Int.bmod_def]
  omega

theorem ofInt?_eq_some_iff {n : Int} {v : Coefficient} : ofInt? n = some v ↔ v.toInt = n := by
  unfold ofInt?
  constructor
  · intro h
    split at h
    next hfits =>
      cases h
      exact toInt_ofInt_of_bounds hfits.1 hfits.2
    next => cases h
  · rintro rfl
    rw [if_pos v.fits_toInt, ofInt_toInt]

@[simp] theorem ofInt?_toInt (v : Coefficient) : ofInt? v.toInt = some v :=
  ofInt?_eq_some_iff.mpr rfl

theorem ofInt?_eq_none_iff {n : Int} : ofInt? n = none ↔ ¬Fits n := by
  simp [ofInt?]

theorem ofInt?_of_fits {n : Int} {v : Coefficient} (h : Fits n)
    (hv : v.toInt = n.bmod (2 ^ 128)) : ofInt? n = some v :=
  ofInt?_eq_some_iff.mpr (hv.trans (bmod_eq_self h))

/-- A test for overflow in front of a wrapped result. -/
theorem ite_eq_ofInt? {n : Int} {v : Coefficient} {p : Prop} [Decidable p] (h : p ↔ ¬Fits n)
    (hv : v.toInt = n.bmod (2 ^ 128)) : (if p then none else some v) = ofInt? n := by
  split
  next hover => exact (ofInt?_eq_none_iff.mpr (h.mp hover)).symm
  next hfits => exact (ofInt?_of_fits (Decidable.of_not_not (mt h.mpr hfits)) hv).symm

theorem isNegative_eq_iff (a b : Coefficient) :
    a.isNegative = b.isNegative ↔ (a.toInt < 0 ↔ b.toInt < 0) := by
  rw [← isNegative_iff, ← isNegative_iff, Bool.eq_iff_iff]

theorem checkedAdd_eq (a b : Coefficient) : checkedAdd a b = ofInt? (a.toInt + b.toInt) := by
  obtain ⟨hla, hua⟩ := a.toInt_bounds
  obtain ⟨hlb, hub⟩ := b.toInt_bounds
  have hsum := toInt_add a b
  have hover : (a.isNegative = b.isNegative ∧ (a + b).isNegative ≠ a.isNegative) ↔
      ¬Fits (a.toInt + b.toInt) := by
    rw [ne_eq, isNegative_eq_iff, isNegative_eq_iff, hsum, Int.bmod_def]
    unfold Fits
    omega
  exact ite_eq_ofInt? hover hsum

theorem checkedSub_eq (a b : Coefficient) : checkedSub a b = ofInt? (a.toInt - b.toInt) := by
  obtain ⟨hla, hua⟩ := a.toInt_bounds
  obtain ⟨hlb, hub⟩ := b.toInt_bounds
  have hdiff := toInt_sub a b
  have hover : (a.isNegative ≠ b.isNegative ∧ (a - b).isNegative ≠ a.isNegative) ↔
      ¬Fits (a.toInt - b.toInt) := by
    rw [ne_eq, ne_eq, isNegative_eq_iff, isNegative_eq_iff, hdiff, Int.bmod_def]
    unfold Fits
    omega
  exact ite_eq_ofInt? hover hdiff

theorem bmod_congr {m n : Int} (h : m % 2 ^ 128 = n % 2 ^ 128) :
    m.bmod (2 ^ 128) = n.bmod (2 ^ 128) := by
  rw [← Int.emod_bmod m, ← Int.emod_bmod n]
  exact congrArg (Int.bmod · (2 ^ 128)) h

theorem toInt_signed {v : Coefficient} {n : Nat} (negative : Bool)
    (h : v.toInt = (n : Int).bmod (2 ^ 128)) :
    (if negative then -v else v).toInt = (signed negative n).bmod (2 ^ 128) := by
  cases negative with
  | false => exact h
  | true => exact (toInt_neg v).trans (by rw [h, Int.bmod_neg_bmod]; rfl)

theorem toInt_abs_eq_bmod (v : Coefficient) :
    v.abs.toInt = (v.toInt.natAbs : Int).bmod (2 ^ 128) := by
  have hneg := v.isNegative_iff
  unfold abs
  split
  next h => rw [toInt_neg, ← Int.ofNat_natAbs_of_nonpos (Int.le_of_lt (hneg.mp h))]
  next h => rw [Int.natAbs_of_nonneg (Int.not_lt.mp (mt hneg.mpr h)), bmod_eq_self v.fits_toInt]

/-- The two words of a coefficient as an unsigned number. -/
def residue (v : Coefficient) : Nat := v.high.toUInt64.toNat * 2 ^ 64 + v.low.toNat

theorem toNat_toUInt64 (w : Int64) : (w.toUInt64.toNat : Int) = w.toInt % 2 ^ 64 := by
  have hw := w.toUInt64.toNat_lt
  have he : w.toInt = w.toBitVec.toInt := rfl
  rw [he, BitVec.toInt_eq_toNat_cond, Int64.toNat_toBitVec]
  omega

theorem toInt_toInt64 (w : UInt64) : w.toInt64.toInt = (w.toNat : Int).bmod (2 ^ 64) :=
  BitVec.toInt_eq_toNat_bmod w.toBitVec

theorem residue_eq (v : Coefficient) : (v.residue : Int) = v.toInt % 2 ^ 128 := by
  have hh := toNat_toUInt64 v.high
  have hl := v.low.toNat_lt
  simp only [residue, toInt]
  omega

theorem toInt_eq_bmod_residue (v : Coefficient) : v.toInt = (v.residue : Int).bmod (2 ^ 128) := by
  rw [residue_eq]
  exact (bmod_eq_self v.fits_toInt).symm.trans (bmod_congr (by omega))

theorem residue_inj {a b : Coefficient} (h : a.residue = b.residue) : a = b := by
  rw [← toInt_inj, toInt_eq_bmod_residue, toInt_eq_bmod_residue, h]

theorem toInt_ofWords (high low : UInt64) :
    (⟨high.toInt64, low⟩ : Coefficient).toInt =
      ((high.toNat * 2 ^ 64 + low.toNat : Nat) : Int).bmod (2 ^ 128) := by
  rw [toInt_eq_bmod_residue, residue, UInt64.toUInt64_toInt64]

/-- The bits of the two words, those of the signed one in front. -/
def bits (v : Coefficient) : BitVec 128 := v.high.toBitVec ++ v.low.toBitVec

theorem toNat_bits (v : Coefficient) : v.bits.toNat = v.residue := by
  have hlow := v.low.toNat_lt
  simp only [bits, residue]
  rw [BitVec.toNat_append, Int64.toNat_toBitVec, UInt64.toNat_toBitVec, Nat.shiftLeft_eq,
    Nat.mul_comm, ← Nat.two_pow_add_eq_or_of_lt hlow]

theorem toInt_bits (v : Coefficient) : v.bits.toInt = v.toInt := by
  rw [toInt_eq_bmod_residue, ← toNat_bits]
  exact BitVec.toInt_eq_toNat_bmod v.bits

/-- A wrapped result has the low bits of the exact one. -/
theorem bits_eq_ofInt {v : Coefficient} {n : Int} (h : v.toInt = n.bmod (2 ^ 128)) :
    v.bits = BitVec.ofInt 128 n := by
  apply BitVec.eq_of_toInt_eq
  rw [toInt_bits, h, BitVec.toInt_ofInt]

theorem ofInt_toInt_eq_bits (v : Coefficient) : BitVec.ofInt 128 v.toInt = v.bits := by
  rw [← toInt_bits, BitVec.ofInt_toInt]

theorem bits_inj {a b : Coefficient} : a.bits = b.bits ↔ a = b := by
  rw [← BitVec.toInt_inj, toInt_bits, toInt_bits, toInt_inj]

theorem getLsbD_bits (v : Coefficient) (i : Nat) :
    v.bits.getLsbD i =
      if i < 64 then v.low.toBitVec.getLsbD i else v.high.toBitVec.getLsbD (i - 64) :=
  BitVec.getLsbD_append

theorem msb_bits (v : Coefficient) : v.bits.msb = v.high.toBitVec.msb :=
  BitVec.msb_append

theorem bits_eq_of_words {v : Coefficient} {x : BitVec 128}
    (hlow : ∀ i < 64, v.low.toBitVec.getLsbD i = x.getLsbD i)
    (hhigh : ∀ i < 64, v.high.toBitVec.getLsbD i = x.getLsbD (64 + i)) : v.bits = x := by
  apply BitVec.eq_of_getLsbD_eq
  intro i hi
  rw [getLsbD_bits]
  split
  next h => exact hlow i h
  next h =>
    have hword := hhigh (i - 64) (by omega)
    rwa [show 64 + (i - 64) = i by omega] at hword

theorem toInt_ofWord (w : UInt64) : (ofWord w).toInt = w.toNat := by
  simp [ofWord, toInt]

end Coefficient

end WideDecimal
