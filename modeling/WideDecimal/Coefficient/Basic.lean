import WideDecimal.Native.Power

namespace WideDecimal

/-- A 128-bit two's complement integer: the signed word is worth `2^64` times the other. -/
structure Coefficient where
  high : Int64
  low : UInt64
  deriving DecidableEq

namespace Coefficient

def toInt (v : Coefficient) : Int := v.high.toInt * 2 ^ 64 + v.low.toNat

/-- The coefficient that agrees with an integer modulo `2^128`. -/
def ofInt (n : Int) : Coefficient := ⟨Int64.ofInt (n / 2 ^ 64), UInt64.ofInt n⟩

theorem toInt_bounds (v : Coefficient) : -2 ^ 127 ≤ v.toInt ∧ v.toInt < 2 ^ 127 := by
  have hl := Int64.le_toInt v.high
  have hu := Int64.toInt_lt v.high
  have h := v.low.toNat_lt
  simp only [toInt]
  omega

theorem toInt_inj {a b : Coefficient} : a.toInt = b.toInt ↔ a = b := by
  refine ⟨fun h => ?_, fun h => h ▸ rfl⟩
  obtain ⟨ah, al⟩ := a
  obtain ⟨bh, bl⟩ := b
  have ha := al.toNat_lt
  have hb := bl.toNat_lt
  simp only [toInt] at h
  have hh : ah.toInt = bh.toInt := by omega
  have hl : al.toNat = bl.toNat := by omega
  rw [Int64.toInt_inj.mp hh, UInt64.toNat_inj.mp hl]

theorem toInt_ofInt (n : Int) : (ofInt n).toInt = n.bmod (2 ^ 128) := by
  have h : (UInt64.ofInt n).toNat = n % 2 ^ 64 := by
    simp only [UInt64.ofInt, UInt64.toNat_ofNat']
    omega
  simp only [ofInt, toInt, Int64.toInt_ofInt, h, Int64.size, Int.bmod_def]
  omega

theorem toInt_ofInt_of_bounds {n : Int} (hl : -2 ^ 127 ≤ n) (hu : n < 2 ^ 127) :
    (ofInt n).toInt = n := by
  rw [toInt_ofInt, Int.bmod_def]
  omega

@[simp] theorem ofInt_toInt (v : Coefficient) : ofInt v.toInt = v := by
  obtain ⟨hl, hu⟩ := v.toInt_bounds
  exact toInt_inj.mp (toInt_ofInt_of_bounds hl hu)

def ofWord (w : UInt64) : Coefficient := ⟨0, w⟩

def zero : Coefficient := ⟨0, 0⟩

def one : Coefficient := ⟨0, 1⟩

def negOne : Coefficient := ⟨-1, 0xFFFFFFFFFFFFFFFF⟩

/-- The value `-2^127`, the only one without an opposite. -/
def least : Coefficient := ⟨-0x8000000000000000, 0⟩

def greatest : Coefficient := ⟨0x7FFFFFFFFFFFFFFF, 0xFFFFFFFFFFFFFFFF⟩

/-- How many decimal digits always fit, whatever they are. -/
def maxDigits : Nat := 38

instance : Inhabited Coefficient := ⟨zero⟩

def isNegative (v : Coefficient) : Bool := v.high < 0

def isZero (v : Coefficient) : Bool := v.high == 0 && v.low == 0

theorem isNegative_iff (v : Coefficient) : v.isNegative = true ↔ v.toInt < 0 := by
  have h := v.low.toNat_lt
  simp only [isNegative, decide_eq_true_eq, Int64.lt_iff_toInt_lt, Int64.toInt_zero, toInt]
  omega

theorem eq_zero_iff {v : Coefficient} : v = zero ↔ v.toInt = 0 := by
  rw [← toInt_inj]
  rfl

theorem isZero_iff (v : Coefficient) : v.isZero = true ↔ v.toInt = 0 := by
  rw [← eq_zero_iff]
  obtain ⟨a, b⟩ := v
  simp [isZero, zero]

def isPositive (v : Coefficient) : Bool := !v.isNegative && !v.isZero

/-- Two's complement negation; `least` is its own opposite. -/
def neg (v : Coefficient) : Coefficient :=
  let low := ~~~v.low + 1
  ⟨if low = 0 then ~~~v.high + 1 else ~~~v.high, low⟩

instance : Neg Coefficient := ⟨neg⟩

theorem toNat_not_add_one (w : UInt64) : (~~~w + 1).toNat = (2 ^ 64 - w.toNat) % 2 ^ 64 := by
  have h := w.toNat_lt
  rw [UInt64.toNat_add, UInt64.toNat_not, UInt64.toNat_one, UInt64.size]
  omega

theorem toInt_neg (v : Coefficient) : (-v).toInt = (-v.toInt).bmod (2 ^ 128) := by
  have hl := v.low.toNat_lt
  have h0 := Int64.le_toInt v.high
  have h1 := Int64.toInt_lt v.high
  change (neg v).toInt = _
  simp only [neg, toInt, ← UInt64.toNat_inj, toNat_not_add_one, UInt64.toNat_zero]
  split <;> simp only [Int64.toInt_add, Int64.toInt_not, Int64.toInt_one, Int.bmod_def] <;> omega

def abs (v : Coefficient) : Coefficient := if v.isNegative then -v else v

/-- The high and the low word of the absolute value, which as an unsigned number is exact
for `least` too. -/
def magnitude (v : Coefficient) : UInt64 × UInt64 :=
  if v.isNegative then
    let low := ~~~v.low + 1
    (if low = 0 then (~~~v.high).toUInt64 + 1 else (~~~v.high).toUInt64, low)
  else (v.high.toUInt64, v.low)

theorem toNat_magnitude (v : Coefficient) :
    v.magnitude.1.toNat * 2 ^ 64 + v.magnitude.2.toNat = v.toInt.natAbs := by
  have hl := v.low.toNat_lt
  have h0 := Int64.le_toInt v.high
  have h1 := Int64.toInt_lt v.high
  have hh : v.high.toUInt64.toNat = (v.high.toInt % 2 ^ 64).toNat := by
    have hw := v.high.toUInt64.toNat_lt
    have he : v.high.toInt = v.high.toBitVec.toInt := rfl
    rw [he, BitVec.toInt_eq_toNat_cond, Int64.toNat_toBitVec]
    omega
  rw [magnitude]
  split
  next h =>
    rw [isNegative_iff] at h
    simp only [toInt, ← UInt64.toNat_inj, toNat_not_add_one, UInt64.toNat_zero] at h ⊢
    split <;>
      simp only [UInt64.toNat_add, Int64.toUInt64_not, UInt64.toNat_not, UInt64.toNat_one,
        UInt64.size, hh] <;>
      omega
  next h =>
    rw [isNegative_iff] at h
    simp only [toInt, hh] at h ⊢
    omega

def sign (v : Coefficient) : Coefficient :=
  if v.isNegative then negOne else if v.isZero then zero else one

/-- Numbers compare by their high words, and by the low ones where those are equal. -/
protected def compare (a b : Coefficient) : Ordering :=
  (compare a.high b.high).then (compare a.low b.low)

instance : Ord Coefficient := ⟨Coefficient.compare⟩

instance : LT Coefficient := ltOfOrd

instance : LE Coefficient := leOfOrd

instance (a b : Coefficient) : Decidable (a < b) :=
  inferInstanceAs (Decidable (compare a b = .lt))

instance (a b : Coefficient) : Decidable (a ≤ b) :=
  inferInstanceAs (Decidable ((compare a b).isLE))

theorem lt_iff (a b : Coefficient) : a < b ↔ a.toInt < b.toInt := by
  have ha := a.low.toNat_lt
  have hb := b.low.toNat_lt
  change (compareOfLessAndEq a.high b.high).then (compareOfLessAndEq a.low b.low) = .lt ↔ _
  simp only [compareOfLessAndEq, toInt, Int64.lt_iff_toInt_lt, UInt64.lt_iff_toNat_lt,
    ← Int64.toInt_inj, ← UInt64.toNat_inj, Ordering.then_eq_lt]
  grind

theorem le_iff (a b : Coefficient) : a ≤ b ↔ a.toInt ≤ b.toInt := by
  have ha := a.low.toNat_lt
  have hb := b.low.toNat_lt
  change ((compareOfLessAndEq a.high b.high).then (compareOfLessAndEq a.low b.low)).isLE =
    true ↔ _
  simp only [compareOfLessAndEq, toInt, Int64.lt_iff_toInt_lt, UInt64.lt_iff_toNat_lt,
    ← Int64.toInt_inj, ← UInt64.toNat_inj]
  grind [Ordering.then, Ordering.isLE]

instance : Max Coefficient := maxOfLe

instance : Min Coefficient := minOfLe

def sort (vs : List Coefficient) : List Coefficient := vs.mergeSort (· ≤ ·)

def distinct (vs : List Coefficient) : Nat := vs.eraseDups.length

end Coefficient

end WideDecimal
