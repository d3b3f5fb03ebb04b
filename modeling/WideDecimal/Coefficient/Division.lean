import WideDecimal.Limbs.Division
import WideDecimal.Trap

namespace WideDecimal.Coefficient

/-- Quotient and remainder of the magnitudes, given the signs of dividend and divisor. -/
def withSigns (a b : Coefficient) (quotient remainder : Except Error Coefficient) :
    Except Error (Coefficient × Coefficient) := do
  let q ← quotient
  let r ← remainder
  return (if a.isNegative = b.isNegative then q else -q, if a.isNegative then -r else r)

/-- Quotient and remainder. A dividend with fewer limbs than the divisor is its own remainder. -/
def guardedDivide (a b : Coefficient) : Guarded (Except Error (Coefficient × Coefficient)) := do
  let dividend : Limbs := 0 :: a.limbs
  let divisor := b.limbs
  .require (dividend.length ≤ Limbs.capacity)
  if dividend.length ≤ divisor.length then
    return .ok (zero, a)
  else
    match divisor with
    | [] => return .error .divisionByZero
    | [v] =>
      let (quotient, remainder) ← Limbs.divideByLimb v.toUInt64 0 dividend
      .require (quotient.length ≤ Limbs.capacity)
      return withSigns a b (Limbs.toCoefficient? quotient) (.ok (ofWord remainder))
    | divisor =>
      let (quotient, remainder) ← Limbs.divideLong dividend divisor
      .require (quotient.length ≤ Limbs.capacity)
      return withSigns a b (Limbs.toCoefficient? quotient) (Limbs.toCoefficient? remainder)

def divide (a b : Coefficient) : Except Error (Coefficient × Coefficient) :=
  (guardedDivide a b).value

/-- The quotient modulo `2^128`; a zero divisor traps. -/
def div (a b : Coefficient) : Except Trap Coefficient :=
  match divide a b with
  | .ok (quotient, _) => .ok quotient
  | .error _ => .error .divisionByZero

def rem (a b : Coefficient) : Except Trap Coefficient :=
  match divide a b with
  | .ok (_, remainder) => .ok remainder
  | .error _ => .error .divisionByZero

/-- The exact quotient, which a zero divisor and `least` by minus one lack. -/
def checkedDiv (a b : Coefficient) : Option Coefficient :=
  if a = least ∧ b = negOne then none else (divide a b).toOption.map (·.1)

def checkedRem (a b : Coefficient) : Option Coefficient :=
  if a = least ∧ b = negOne then none else (divide a b).toOption.map (·.2)

end WideDecimal.Coefficient
