import Mathlib.Tactic.Linarith
import Mathlib.Tactic.Ring
import WideDecimal.Limbs.Basic
import WideDecimal.Proofs.Product

namespace WideDecimal.Coefficient

/-- The number that columns denote, the least significant first. -/
def ofColumns : List UInt32 → Nat
  | [] => 0
  | x :: columns => x.toNat + 2 ^ 32 * ofColumns columns

theorem ofColumns_append (xs ys : List UInt32) :
    ofColumns (xs ++ ys) = ofColumns xs + 2 ^ (32 * xs.length) * ofColumns ys := by
  induction xs with
  | nil => simp [ofColumns]
  | cons x xs ih =>
    rw [List.cons_append, ofColumns, ofColumns, ih, List.length_cons]
    ring

theorem ofColumns_zeros (k : Nat) : ofColumns (List.replicate k 0) = 0 := by
  induction k with
  | zero => rfl
  | succ k ih => simp [List.replicate_succ, ofColumns, ih]

theorem ofColumns_pos_iff (columns : List UInt32) :
    0 < ofColumns columns ↔ columns.any (· ≠ 0) = true := by
  induction columns with
  | nil => simp [ofColumns]
  | cons x columns ih =>
    have hx : x ≠ 0 ↔ 0 < x.toNat := by
      rw [ne_eq, ← UInt32.toNat_inj, UInt32.toNat_zero]
      omega
    rw [List.any_cons, Bool.or_eq_true, ← ih, decide_eq_true_eq, hx, ofColumns]
    omega

/-- A row is added to as many columns; the column after them takes the carry. -/
theorem addMultiple_eq (l : UInt32) (carry : UInt64) (hcarry : carry.toNat < 2 ^ 32)
    {row front : List UInt32} (hlength : front.length = row.length) (rest : List UInt32) :
    ∃ sums last, addMultiple l carry row (front ++ 0 :: rest) = sums ++ last :: rest ∧
      sums.length = row.length ∧
      ofColumns (sums ++ [last]) = ofColumns front + l.toNat * ofColumns row + carry.toNat := by
  induction row generalizing front carry with
  | nil =>
    obtain rfl : front = [] := List.length_eq_zero_iff.mp hlength
    refine ⟨[], carry.toUInt32, rfl, rfl, ?_⟩
    have hsmall : carry.toUInt32.toNat = carry.toNat := by
      rw [UInt64.toNat_toUInt32, Nat.mod_eq_of_lt hcarry]
    simp [ofColumns, hsmall]
  | cons r row ih =>
    cases front with
    | nil => simp at hlength
    | cons c front =>
      have hl := l.toNat_lt
      have hr := r.toNat_lt
      have hc := c.toNat_lt
      have hmul := mul_halves_le hl hr
      have htotal : (l.toUInt64 * r.toUInt64 + c.toUInt64 + carry).toNat =
          l.toNat * r.toNat + c.toNat + carry.toNat := by
        simp only [UInt64.toNat_add, UInt64.toNat_mul, UInt32.toNat_toUInt64]
        omega
      have hhigh := Word.toNat_high (l.toUInt64 * r.toUInt64 + c.toUInt64 + carry)
      have hlow := UInt64.toNat_toUInt32 (l.toUInt64 * r.toUInt64 + c.toUInt64 + carry)
      rw [htotal] at hhigh hlow
      have hnext : ((l.toUInt64 * r.toUInt64 + c.toUInt64 + carry) >>> 32).toNat < 2 ^ 32 := by
        omega
      obtain ⟨sums, last, hsums, hlength', hvalue⟩ := ih _ hnext (by simpa using hlength)
      refine ⟨(l.toUInt64 * r.toUInt64 + c.toUInt64 + carry).toUInt32 :: sums, last, ?_,
        by simp [hlength'], ?_⟩
      · rw [List.cons_append, addMultiple, hsums, List.cons_append]
      · rw [List.cons_append, ofColumns, hvalue, ofColumns, ofColumns, hhigh, hlow]
        have hsplit := Nat.mod_add_div (l.toNat * r.toNat + c.toNat + carry.toNat) (2 ^ 32)
        linarith

theorem addProduct_eq (row left : List UInt32) {front : List UInt32} {k : Nat}
    (hlength : front.length = row.length) (hk : left.length ≤ k) :
    (addProduct row left (front ++ List.replicate k 0)).length = row.length + k ∧
      ofColumns (addProduct row left (front ++ List.replicate k 0)) =
        ofColumns front + ofColumns left * ofColumns row := by
  induction left generalizing front k with
  | nil =>
    simp [addProduct, ofColumns_append, ofColumns_zeros, ofColumns, hlength]
  | cons l left ih =>
    obtain ⟨k, rfl⟩ : ∃ j, k = j + 1 := ⟨k - 1, by simp at hk; omega⟩
    -- Skipping a zero half-word comes to the same as adding nothing.
    obtain ⟨sums, last, hsums, hlength', hvalue⟩ : ∃ sums last,
        (if l = 0 then front ++ 0 :: List.replicate k 0
          else addMultiple l 0 row (front ++ 0 :: List.replicate k 0)) =
            sums ++ last :: List.replicate k 0 ∧ sums.length = row.length ∧
        ofColumns (sums ++ [last]) = ofColumns front + l.toNat * ofColumns row := by
      split
      next hzero =>
        refine ⟨front, 0, rfl, hlength, ?_⟩
        simp [hzero, ofColumns_append, ofColumns]
      next => simpa using addMultiple_eq l 0 (by decide) hlength (List.replicate k 0)
    obtain ⟨c, next, hcons⟩ : ∃ c next, sums ++ [last] = c :: next :=
      List.exists_cons_of_ne_nil (by simp)
    have hnext : next.length = row.length := by
      have := congrArg List.length hcons
      simp only [List.length_append, List.length_cons, List.length_nil] at this
      omega
    have hcolumns : sums ++ last :: List.replicate k 0 = c :: (next ++ List.replicate k 0) := by
      rw [← List.cons_append, ← hcons, List.append_assoc, List.singleton_append]
    obtain ⟨hlen, heq⟩ := ih hnext (by simpa using hk)
    rw [List.replicate_succ, addProduct, hsums, hcolumns]
    dsimp only
    rw [hcons, ofColumns] at hvalue
    refine ⟨by rw [List.length_cons, hlen, Nat.add_assoc], ?_⟩
    rw [ofColumns, heq, ofColumns]
    linarith

theorem ofColumns_halves (v : Coefficient) : ofColumns (halves v.magnitude) = v.toInt.natAbs := by
  have hh := v.magnitude.1.toNat_lt
  have hl := v.magnitude.2.toNat_lt
  rw [← v.toNat_magnitude]
  simp only [halves, ofColumns, UInt64.toNat_toUInt32, toNat_highHalf]
  omega

theorem magnitude_exceeds_iff (negative : Bool) (high low : UInt64) :
    (0x7FFFFFFFFFFFFFFF < high ∧ ¬(negative = true ∧ high = 0x8000000000000000 ∧ low = 0)) ↔
      ¬Fits (signed negative (high.toNat * 2 ^ 64 + low.toNat)) := by
  have hlow := low.toNat_lt
  simp only [UInt64.lt_iff_toNat_lt, ← UInt64.toNat_inj]
  change (2 ^ 63 - 1 < high.toNat ∧
    ¬(negative = true ∧ high.toNat = 2 ^ 63 ∧ low.toNat = 0)) ↔ _
  unfold Fits signed
  cases negative <;> simp only [reduceIte, reduceCtorEq, false_and, true_and, not_false_eq_true,
    and_true] <;> omega

theorem withSign_eq (negative : Bool) (high low : UInt64) :
    (if 0x7FFFFFFFFFFFFFFF < high ∧ ¬(negative = true ∧ high = 0x8000000000000000 ∧ low = 0) then
        none
      else some (if negative then -(⟨high.toInt64, low⟩ : Coefficient) else ⟨high.toInt64, low⟩)) =
      ofInt? (signed negative (high.toNat * 2 ^ 64 + low.toNat)) := by
  have hwraps := toInt_signed negative (toInt_ofWords high low)
  exact ite_eq_ofInt? (magnitude_exceeds_iff negative high low) hwraps

theorem checkedMul_eq (a b : Coefficient) : checkedMul a b = ofInt? (a.toInt * b.toInt) := by
  have ha := a.toNat_magnitude
  have hb := b.toNat_magnitude
  obtain ⟨hlength, hvalue⟩ := addProduct_eq (halves b.magnitude) (halves a.magnitude)
    (show (List.replicate 4 0).length = _ from rfl) (show _ ≤ 4 from le_rfl)
  rw [List.replicate_append_replicate] at hlength hvalue
  rw [ofColumns_halves, ofColumns_halves, ofColumns_zeros, Nat.zero_add] at hvalue
  have hmul := signed_mul a.isNegative b.isNegative a.toInt.natAbs b.toInt.natAbs
  rw [signed_natAbs, signed_natAbs] at hmul
  have hwide : 2 ^ 128 ≤ a.toInt.natAbs * b.toInt.natAbs → ¬Fits (a.toInt * b.toInt) := by
    rw [hmul]
    unfold Fits signed
    split <;> omega
  unfold checkedMul
  dsimp only
  split
  next hhigh =>
    have hleft : a.magnitude.1.toNat ≠ 0 := fun e => hhigh.1 (UInt64.toNat_inj.mp e)
    have hright : b.magnitude.1.toNat ≠ 0 := fun e => hhigh.2 (UInt64.toNat_inj.mp e)
    refine (ofInt?_eq_none_iff.mpr (hwide ?_)).symm
    calc 2 ^ 128 = 2 ^ 64 * 2 ^ 64 := by norm_num
      _ ≤ a.toInt.natAbs * b.toInt.natAbs := Nat.mul_le_mul (by omega) (by omega)
  next =>
    generalize addProduct (halves b.magnitude) (halves a.magnitude) (List.replicate 8 0) =
      columns at hlength hvalue ⊢
    match columns, hlength with
    | p0 :: p1 :: p2 :: p3 :: upper, hlength =>
      have hhigh : (p3.toUInt64 <<< 32 ||| p2.toUInt64).toNat = p3.toNat * 2 ^ 32 + p2.toNat :=
        Limbs.toNat_join p3 p2
      have hlow : (p1.toUInt64 <<< 32 ||| p0.toUInt64).toNat = p1.toNat * 2 ^ 32 + p0.toNat :=
        Limbs.toNat_join p1 p0
      have h0 := p0.toNat_lt
      have h1 := p1.toNat_lt
      have h2 := p2.toNat_lt
      have h3 := p3.toNat_lt
      simp only [ofColumns] at hvalue
      dsimp only
      split
      next hupper =>
        refine (ofInt?_eq_none_iff.mpr (hwide ?_)).symm
        have hpos := (ofColumns_pos_iff upper).mpr hupper
        omega
      next hupper =>
        have hzero : ofColumns upper = 0 :=
          Nat.eq_zero_of_not_pos (mt (ofColumns_pos_iff upper).mp hupper)
        have hwords : a.toInt.natAbs * b.toInt.natAbs =
            (p3.toUInt64 <<< 32 ||| p2.toUInt64).toNat * 2 ^ 64 +
              (p1.toUInt64 <<< 32 ||| p0.toUInt64).toNat := by
          omega
        rw [hmul, hwords]
        exact withSign_eq _ _ _

theorem checkedMul_of_eq_least {a b : Coefficient} (h : a.toInt * b.toInt = -2 ^ 127) :
    checkedMul a b = some least := by
  rw [checkedMul_eq, h, ofInt?_eq_some_iff]
  decide

theorem checkedMul_of_above_greatest {a b : Coefficient} (h : a.toInt * b.toInt = 2 ^ 127) :
    checkedMul a b = none := by
  rw [checkedMul_eq, h, ofInt?_eq_none_iff]
  decide

theorem checkedMul_zero (a : Coefficient) : checkedMul a zero = some zero := by
  rw [checkedMul_eq, show zero.toInt = 0 from rfl, Int.mul_zero, ofInt?_eq_some_iff]
  rfl

/-- There is a checked product exactly where the product of the integers is in range, and then it
is the wrapped product, which is exact. -/
theorem checkedMul_eq_mul (a b : Coefficient) :
    (if -2 ^ 127 ≤ a.toInt * b.toInt ∧ a.toInt * b.toInt < 2 ^ 127 then
      checkedMul a b = some (a * b) ∧ (a * b).toInt = a.toInt * b.toInt
    else checkedMul a b = none) ∧
    (a.toInt * b.toInt = -2 ^ 127 → checkedMul a b = some least) ∧
    (a.toInt * b.toInt = 2 ^ 127 → checkedMul a b = none) ∧
    checkedMul least one = some least ∧ checkedMul least negOne = none ∧
    checkedMul a zero = some zero := by
  refine ⟨?_, checkedMul_of_eq_least, checkedMul_of_above_greatest, ?_, ?_, checkedMul_zero a⟩
  · split
    next hfits =>
      have hexact : (a * b).toInt = a.toInt * b.toInt :=
        (toInt_mul a b).trans (bmod_eq_self hfits)
      exact ⟨(checkedMul_eq a b).trans (ofInt?_eq_some_iff.mpr hexact), hexact⟩
    next hfits => exact (checkedMul_eq a b).trans (ofInt?_eq_none_iff.mpr hfits)
  · exact checkedMul_of_eq_least (by decide)
  · exact checkedMul_of_above_greatest (by decide)

end WideDecimal.Coefficient
