import WideDecimal.Native.Integer
import WideDecimal.Proofs.TwosComplement

namespace WideDecimal

namespace IntegerType

/-- The integers that a native type has. -/
def Represents (t : IntegerType) (n : Int) : Prop := t.lower ≤ n ∧ n ≤ t.upper

instance (t : IntegerType) (n : Int) : Decidable (t.Represents n) :=
  inferInstanceAs (Decidable (_ ∧ _))

theorem keep?_eq_some_iff {t : IntegerType} {m n : Int} :
    t.keep? m = some n ↔ m = n ∧ t.Represents n := by
  unfold keep? Represents
  split
  next h =>
    rw [Option.some.injEq]
    exact ⟨fun heq => ⟨heq, heq ▸ h⟩, And.left⟩
  next h => exact ⟨nofun, fun hn => absurd (hn.1 ▸ hn.2) h⟩

theorem Represents.widen {s t : IntegerType} {n : Int} (h : s.Represents n)
    (hsigned : s.isSigned = t.isSigned) (hwidth : s.width ≤ t.width) : t.Represents n := by
  have hwhole : (2 : Int) ^ s.width ≤ 2 ^ t.width := by
    exact_mod_cast Nat.pow_le_pow_right (by decide) hwidth
  have hhalf : (2 : Int) ^ (s.width - 1) ≤ 2 ^ (t.width - 1) := by
    exact_mod_cast Nat.pow_le_pow_right (by decide) (Nat.sub_le_sub_right hwidth 1)
  unfold Represents lower upper at h ⊢
  rw [← hsigned]
  split at h
  next hs =>
    rw [if_pos hs, if_pos hs]
    omega
  next hs =>
    rw [if_neg hs, if_neg hs]
    omega

theorem width_le_widest (t : IntegerType) : t.width ≤ 128 := by
  cases t <;> decide

theorem width_le_word {t : IntegerType} (hsigned : t ≠ .int128) (hunsigned : t ≠ .uint128) :
    t.width ≤ 64 := by
  revert hsigned hunsigned
  cases t <;> decide

end IntegerType

namespace Coefficient

open IntegerType (keep?_eq_some_iff width_le_widest width_le_word)

/-- The high word repeats the sign of the low one where the low one, read with a sign, is all of
the value. -/
theorem signExtends_iff (v : Coefficient) :
    (v.high = 0 ∧ 0 ≤ v.low.toInt64) ∨ (v.high = -1 ∧ v.low.toInt64 < 0) ↔
      v.toInt = v.low.toInt64.toInt := by
  have hlow := v.low.toNat_lt
  have hzero : (0 : Int64).toInt = 0 := rfl
  have hnegOne : (-1 : Int64).toInt = -1 := rfl
  rw [Int64.le_iff_toInt_le, Int64.lt_iff_toInt_lt, ← Int64.toInt_inj, ← Int64.toInt_inj, hzero,
    hnegOne, toInt_toInt64, toInt, Int.bmod_def]
  omega

theorem toInt_low_of_eq {v : Coefficient} {w : Int64} (h : v.toInt = w.toInt) :
    v.toInt = v.low.toInt64.toInt := by
  have hlow := v.low.toNat_lt
  have hle := w.le_toInt
  have hlt := w.toInt_lt
  rw [toInt_toInt64, Int.bmod_def]
  unfold toInt at h ⊢
  omega

theorem toInt64?_eq_some_iff {v : Coefficient} {w : Int64} :
    v.toInt64? = some w ↔ v.toInt = w.toInt := by
  have hextends := v.signExtends_iff
  unfold toInt64?
  dsimp only
  split
  next h => rw [Option.some.injEq, hextends.mp h, Int64.toInt_inj]
  next h => exact ⟨nofun, fun heq => absurd (hextends.mpr (toInt_low_of_eq heq)) h⟩

theorem toUInt64?_eq_some_iff {v : Coefficient} {w : UInt64} :
    v.toUInt64? = some w ↔ v.toInt = w.toNat := by
  have hlow := v.low.toNat_lt
  have hw := w.toNat_lt
  have hzero : (0 : Int64).toInt = 0 := rfl
  unfold toUInt64?
  rw [Option.ite_none_right_eq_some, Option.some.injEq, ← Int64.toInt_inj, ← UInt64.toNat_inj,
    hzero, toInt]
  omega

/-- Nothing of the high word meets the low one where the two are put together. -/
theorem wide_eq_bits (v : Coefficient) : v.wide = v.bits := by
  symm
  apply bits_eq_of_words
  · intro i hi
    simp only [wide, BitVec.getLsbD_or, BitVec.getLsbD_shiftLeft, BitVec.getLsbD_setWidth]
    grind
  · intro i hi
    simp only [wide, BitVec.getLsbD_or, BitVec.getLsbD_shiftLeft, BitVec.getLsbD_setWidth,
      BitVec.getLsbD_signExtend]
    grind

theorem toInt_wide (v : Coefficient) : v.wide.toInt = v.toInt := by
  rw [wide_eq_bits, toInt_bits]

theorem toNat_wide {v : Coefficient} (h : 0 ≤ v.toInt) : (v.wide.toNat : Int) = v.toInt := by
  have hlt := v.toInt_bounds.2
  rw [wide_eq_bits, toNat_bits, residue_eq]
  omega

/-- A type takes its integers from a wider one of which all are there. -/
theorem bind_keep?_eq_some_iff {word? : Option Int} {s t : IntegerType} {m n : Int}
    (hword : ∀ k, word? = some k ↔ m = k ∧ s.Represents k)
    (hwiden : t.Represents m → s.Represents m) :
    word?.bind t.keep? = some n ↔ m = n ∧ t.Represents n := by
  simp only [Option.bind_eq_some_iff, hword, keep?_eq_some_iff]
  constructor
  · rintro ⟨k, ⟨rfl, -⟩, hn⟩
    exact hn
  · rintro ⟨rfl, h⟩
    exact ⟨m, ⟨rfl, hwiden h⟩, rfl, h⟩

theorem represents_int128 (v : Coefficient) : IntegerType.int128.Represents v.toInt := by
  obtain ⟨hle, hlt⟩ := v.toInt_bounds
  exact ⟨hle, Int.le_sub_one_of_lt hlt⟩

theorem represents_uint128_iff (v : Coefficient) :
    IntegerType.uint128.Represents v.toInt ↔ 0 ≤ v.toInt := by
  have hlt := v.toInt_bounds.2
  change 0 ≤ v.toInt ∧ v.toInt ≤ 2 ^ 128 - 1 ↔ _
  omega

/-- What is relied on of conversions to native types: words and wide integers are a coefficient's
own, and a narrow type takes from the word of its signedness what it has. -/
structure Converts (convert : Coefficient → IntegerType → Option Int) : Prop where
  int64 (v : Coefficient) : convert v .int64 = v.toInt64?.map Int64.toInt
  uint64 (v : Coefficient) : convert v .uint64 = v.toUInt64?.map fun w => (w.toNat : Int)
  int128 (v : Coefficient) : convert v .int128 = some v.wide.toInt
  uint128 (v : Coefficient) :
    convert v .uint128 = if v.isNegative then none else some (v.wide.toNat : Int)
  signed (v : Coefficient) {t : IntegerType} (hsigned : t.isSigned = true) (hword : t.width ≤ 64) :
    convert v t = (convert v .int64).bind t.keep?
  unsigned (v : Coefficient) {t : IntegerType} (hunsigned : t.isSigned = false)
    (hword : t.width ≤ 64) : convert v t = (convert v .uint64).bind t.keep?

theorem toInteger?_of_signed (v : Coefficient) {t : IntegerType} (hsigned : t.isSigned = true)
    (hword : t.width ≤ 64) : v.toInteger? t = v.toInt64?.bind fun w => t.keep? w.toInt := by
  cases t with
  | int8 | int16 | int32 | int64 | intSize => rfl
  | int128 => exact absurd hword (by decide)
  | uint8 | uint16 | uint32 | uint64 | uint128 | uintSize => cases hsigned

theorem toInteger?_of_unsigned (v : Coefficient) {t : IntegerType} (hunsigned : t.isSigned = false)
    (hword : t.width ≤ 64) : v.toInteger? t = v.toUInt64?.bind fun w => t.keep? w.toNat := by
  cases t with
  | uint8 | uint16 | uint32 | uint64 | uintSize => rfl
  | uint128 => exact absurd hword (by decide)
  | int8 | int16 | int32 | int64 | int128 | intSize => cases hunsigned

theorem toInteger?_int64 (v : Coefficient) :
    v.toInteger? .int64 = v.toInt64?.map Int64.toInt := by
  rw [v.toInteger?_of_signed rfl (by decide), Option.map_eq_bind]
  congr 1
  funext w
  have hrange : IntegerType.int64.Represents w.toInt :=
    ⟨w.le_toInt, Int.le_sub_one_of_lt w.toInt_lt⟩
  exact keep?_eq_some_iff.mpr ⟨rfl, hrange⟩

theorem toInteger?_uint64 (v : Coefficient) :
    v.toInteger? .uint64 = v.toUInt64?.map fun w => (w.toNat : Int) := by
  rw [v.toInteger?_of_unsigned rfl (by decide), Option.map_eq_bind]
  congr 1
  funext w
  have hrange : IntegerType.uint64.Represents w.toNat := by
    have hlt := w.toNat_lt
    change 0 ≤ (w.toNat : Int) ∧ (w.toNat : Int) ≤ 2 ^ 64 - 1
    omega
  exact keep?_eq_some_iff.mpr ⟨rfl, hrange⟩

theorem converts_toInteger? : Converts toInteger? where
  int64 := toInteger?_int64
  uint64 := toInteger?_uint64
  int128 _ := rfl
  uint128 _ := rfl
  signed v t hsigned hword := by
    rw [toInteger?_int64, toInteger?_of_signed v hsigned hword, Option.bind_map]
    rfl
  unsigned v t hunsigned hword := by
    rw [toInteger?_uint64, toInteger?_of_unsigned v hunsigned hword, Option.bind_map]
    rfl

section Converts

variable {convert : Coefficient → IntegerType → Option Int} (h : Converts convert)
  {v : Coefficient} {t : IntegerType} {n : Int}

include h

theorem Converts.int64_eq_some_iff :
    convert v .int64 = some n ↔ v.toInt = n ∧ IntegerType.int64.Represents n := by
  rw [h.int64, Option.map_eq_some_iff]
  simp only [toInt64?_eq_some_iff]
  constructor
  · rintro ⟨w, hw, rfl⟩
    exact ⟨hw, w.le_toInt, Int.le_sub_one_of_lt w.toInt_lt⟩
  · rintro ⟨rfl, hle, hlt⟩
    have hvalue := Int64.toInt_ofInt_of_le hle (Int.lt_of_le_sub_one hlt)
    exact ⟨Int64.ofInt v.toInt, hvalue.symm, hvalue⟩

theorem Converts.uint64_eq_some_iff :
    convert v .uint64 = some n ↔ v.toInt = n ∧ IntegerType.uint64.Represents n := by
  rw [h.uint64, Option.map_eq_some_iff]
  simp only [toUInt64?_eq_some_iff]
  constructor
  · rintro ⟨w, hw, rfl⟩
    exact ⟨hw, Int.natCast_nonneg _, Int.le_sub_one_of_lt (by exact_mod_cast w.toNat_lt)⟩
  · rintro ⟨rfl, hnonneg, hle⟩
    have hlt : v.toInt.toNat < UInt64.size :=
      (Int.toNat_lt hnonneg).mpr (Int.lt_of_le_sub_one hle)
    have hvalue : ((UInt64.ofNat v.toInt.toNat).toNat : Int) = v.toInt := by
      rw [UInt64.toNat_ofNat_of_lt' hlt, Int.toNat_of_nonneg hnonneg]
    exact ⟨UInt64.ofNat v.toInt.toNat, hvalue.symm, hvalue⟩

theorem Converts.eq_some_iff : convert v t = some n ↔ v.toInt = n ∧ t.Represents n := by
  by_cases hint : t = .int128
  · rw [hint, h.int128, toInt_wide, Option.some.injEq]
    exact ⟨fun hn => ⟨hn, hn ▸ v.represents_int128⟩, And.left⟩
  by_cases huint : t = .uint128
  · rw [huint, h.uint128]
    split
    next hnegative =>
      refine iff_of_false nofun ?_
      rintro ⟨rfl, hn⟩
      exact Int.not_lt.mpr (v.represents_uint128_iff.mp hn) (v.isNegative_iff.mp hnegative)
    next hnonneg =>
      have hvalue := Int.not_lt.mp (mt v.isNegative_iff.mpr hnonneg)
      rw [toNat_wide hvalue, Option.some.injEq]
      exact ⟨fun hn => ⟨hn, hn ▸ v.represents_uint128_iff.mpr hvalue⟩, And.left⟩
  have hword := width_le_word hint huint
  cases hsigned : t.isSigned with
  | true =>
    rw [h.signed v hsigned hword]
    exact bind_keep?_eq_some_iff (fun _ => h.int64_eq_some_iff) fun ht => ht.widen hsigned hword
  | false =>
    rw [h.unsigned v hsigned hword]
    exact bind_keep?_eq_some_iff (fun _ => h.uint64_eq_some_iff) fun ht => ht.widen hsigned hword

theorem Converts.eq_ite (v : Coefficient) (t : IntegerType) :
    convert v t = if t.Represents v.toInt then some v.toInt else none := by
  apply Option.ext
  intro n
  rw [h.eq_some_iff, Option.ite_none_right_eq_some, Option.some.injEq]
  constructor
  · rintro ⟨rfl, hn⟩
    exact ⟨hn, rfl⟩
  · rintro ⟨hn, rfl⟩
    exact ⟨rfl, hn⟩

end Converts

theorem toInt_greatest : greatest.toInt = 2 ^ 127 - 1 := by decide

theorem ofInteger?_of_fits {n : Int} (h : Fits n) (t : IntegerType) :
    ofInteger? t n = some (ofInt n) := by
  have hle : ¬greatest.toInt < n := by
    rw [toInt_greatest]
    exact Int.not_lt.mpr (Int.le_sub_one_of_lt h.2)
  rw [ofInteger?, if_neg fun hlarge => hle hlarge.2]

theorem ofInteger?_large {n : Int} (h : 2 ^ 127 ≤ n) : ofInteger? .uint128 n = none := by
  have hlt : greatest.toInt < n := by
    rw [toInt_greatest]
    exact Int.sub_one_lt_of_le h
  rw [ofInteger?, if_pos ⟨rfl, hlt⟩]

theorem fits_of_represents {t : IntegerType} {n : Int} (h : t.Represents n) (ht : t ≠ .uint128) :
    Fits n := by
  cases hsigned : t.isSigned with
  | true =>
    obtain ⟨hle, hlt⟩ : IntegerType.int128.Represents n := h.widen hsigned (width_le_widest t)
    exact ⟨hle, Int.lt_of_le_sub_one hlt⟩
  | false =>
    have hint : t ≠ .int128 := by
      rintro rfl
      cases hsigned
    obtain ⟨hnonneg, hle⟩ : 0 ≤ n ∧ n ≤ 2 ^ 64 - 1 :=
      h.widen (t := .uint64) hsigned (width_le_word hint ht)
    unfold Fits
    omega

/-- Of the integers of a type only large ones of the widest unsigned type have no coefficient. -/
theorem not_fits_iff_of_represents {t : IntegerType} {n : Int} (h : t.Represents n) :
    ¬Fits n ↔ t = .uint128 ∧ 2 ^ 127 - 1 < n := by
  constructor
  · intro hlarge
    obtain rfl : t = .uint128 :=
      Decidable.of_not_not fun ht => hlarge (fits_of_represents h ht)
    have hnonneg : 0 ≤ n := h.1
    unfold Fits at hlarge
    exact ⟨rfl, by omega⟩
  · rintro ⟨-, hlarge⟩ hfits
    exact Int.not_le.mpr hlarge (Int.le_sub_one_of_lt hfits.2)

theorem ofInteger?_eq_ofInt? {t : IntegerType} {n : Int} (h : t.Represents n) :
    ofInteger? t n = ofInt? n := by
  by_cases hfits : Fits n
  · rw [ofInteger?_of_fits hfits, ofInt?, if_pos hfits]
  · obtain ⟨rfl, hlarge⟩ := (not_fits_iff_of_represents h).mp hfits
    rw [ofInteger?_large (Int.le_of_sub_one_lt hlarge), ofInt?_eq_none_iff.mpr hfits]

/-- A coefficient is converted to its integer in the types that have it and to nothing in the
others. An integer of a type has its coefficient, unless it is of the widest unsigned type and above
the greatest one. So each conversion takes back what the other gives. An address has 64 bits. -/
theorem conversions_keep_integer (v : Coefficient) (t : IntegerType) (n : Int) :
    (v.toInteger? t = if t.Represents v.toInt then some v.toInt else none) ∧
    (t.Represents n →
      (ofInteger? t n = none ↔ t = .uint128 ∧ 2 ^ 127 - 1 < n) ∧
      (ofInteger? t n = some v ↔ v.toInt = n) ∧
      (ofInteger? t n = some v ↔ v.toInteger? t = some n)) ∧
    (∀ convert, Converts convert →
      convert v t = if t.Represents v.toInt then some v.toInt else none) ∧
    (IntegerType.intSize.Represents n ↔ IntegerType.int64.Represents n) ∧
    (IntegerType.uintSize.Represents n ↔ IntegerType.uint64.Represents n) := by
  refine ⟨converts_toInteger?.eq_ite v t, fun h => ?_, fun _ hconvert => hconvert.eq_ite v t,
    Iff.rfl, Iff.rfl⟩
  rw [ofInteger?_eq_ofInt? h, ofInt?_eq_none_iff, ofInt?_eq_some_iff,
    converts_toInteger?.eq_some_iff]
  exact ⟨not_fits_iff_of_represents h, Iff.rfl, (and_iff_left h).symm⟩

/-- The first integer without a coefficient, and a value of which the low word alone is small. -/
theorem conversions_keep_integer_edge :
    (IntegerType.uint128.Represents (2 ^ 127) ∧ ofInteger? .uint128 (2 ^ 127) = none) ∧
    (IntegerType.int64.Represents 5 ∧ ofInteger? .int64 5 ≠ some ⟨-1, 5⟩ ∧
      Converts toInteger? ∧ (⟨-1, 5⟩ : Coefficient).toInteger? .int64 = none) := by
  have hlarge : IntegerType.uint128.Represents (2 ^ 127) := by decide
  have hsmall : IntegerType.int64.Represents 5 := by decide
  obtain ⟨-, hback, hconvert, -⟩ := conversions_keep_integer ⟨-1, 5⟩ .int64 5
  refine ⟨⟨hlarge, ?_⟩, hsmall, ?_, converts_toInteger?, ?_⟩
  · exact ((conversions_keep_integer zero .uint128 (2 ^ 127)).2.1 hlarge).1.mpr (by decide)
  · rw [ne_eq, (hback hsmall).2.1]
    decide
  · exact (hconvert _ converts_toInteger?).trans (if_neg (by decide))

end Coefficient

end WideDecimal
