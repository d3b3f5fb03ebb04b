import WideDecimal.Coefficient.Basic

namespace WideDecimal.Coefficient

/-- The sum modulo `2^128`. -/
def add (a b : Coefficient) : Coefficient :=
  let low := a.low + b.low
  let high := a.high + b.high
  ⟨if low < a.low then high + 1 else high, low⟩

/-- The difference modulo `2^128`. -/
def sub (a b : Coefficient) : Coefficient :=
  let low := a.low - b.low
  let high := a.high - b.high
  ⟨if a.low < low then high - 1 else high, low⟩

instance : Add Coefficient := ⟨add⟩

instance : Sub Coefficient := ⟨sub⟩

theorem toInt_add (a b : Coefficient) : (a + b).toInt = (a.toInt + b.toInt).bmod (2 ^ 128) := by
  have ha := a.low.toNat_lt
  have hb := b.low.toNat_lt
  change (add a b).toInt = _
  simp only [add, toInt, UInt64.lt_iff_toNat_lt, UInt64.toNat_add]
  split <;> simp only [Int64.toInt_add, Int64.toInt_one, Int.bmod_def] <;> omega

theorem toInt_sub (a b : Coefficient) : (a - b).toInt = (a.toInt - b.toInt).bmod (2 ^ 128) := by
  have ha := a.low.toNat_lt
  have hb := b.low.toNat_lt
  change (sub a b).toInt = _
  simp only [sub, toInt, UInt64.lt_iff_toNat_lt, UInt64.toNat_sub]
  split <;> simp only [Int64.toInt_sub, Int64.toInt_one, Int.bmod_def] <;> omega

/-- The exact sum. Operands of one sign whose sum has the other sign have none. -/
def checkedAdd (a b : Coefficient) : Option Coefficient :=
  let sum := a + b
  if a.isNegative = b.isNegative ∧ sum.isNegative ≠ a.isNegative then none else some sum

/-- The exact difference. Operands of different signs whose difference leaves the sign of
the first have none. -/
def checkedSub (a b : Coefficient) : Option Coefficient :=
  let difference := a - b
  if a.isNegative ≠ b.isNegative ∧ difference.isNegative ≠ a.isNegative then none
  else some difference

/-- The exact opposite, which only `least` lacks. -/
def checkedNeg (a : Coefficient) : Option Coefficient := if a = least then none else some (-a)

/-- How far `a` is above `b`, modulo `2^128`, and zero where it is not. -/
def excess (a b : Coefficient) : Coefficient := if a ≤ b then zero else a - b

def sum (vs : List Coefficient) : Coefficient := vs.foldl (· + ·) zero

end WideDecimal.Coefficient
