import WideDecimal.Native.Power

namespace WideDecimal.Binary

/-- A format with one sign bit, then the exponent, then the fraction. -/
structure Format where
  exponentBits : Nat
  fractionBits : Nat

def double : Format := ⟨11, 52⟩

def single : Format := ⟨8, 23⟩

inductive Number where
  | finite (negative : Bool) (m : Nat) (e : Int)
  | infinite (negative : Bool)
  | nan

namespace Format

/-- The exponent of the last place of the smallest numbers. -/
def minExponent (f : Format) : Int := 2 - 2 ^ (f.exponentBits - 1) - f.fractionBits

def infinity (f : Format) : Nat := (2 ^ f.exponentBits - 1) * 2 ^ f.fractionBits

def signBit (f : Format) : Nat := 2 ^ (f.exponentBits + f.fractionBits)

def decode (f : Format) (bits : Nat) : Number :=
  let negative := f.signBit ≤ bits
  let rest := bits % f.signBit
  let exponent := rest / 2 ^ f.fractionBits
  let fraction := rest % 2 ^ f.fractionBits
  if rest = f.infinity then .infinite negative
  else if f.infinity < rest then .nan
  else if exponent = 0 then .finite negative fraction f.minExponent
  else .finite negative (2 ^ f.fractionBits + fraction) (f.minExponent + (exponent - 1))

/-- A quotient of natural numbers, rounded to the nearest one, a half to the even one. -/
def roundQuotient (num den : Nat) : Nat :=
  let q := num / den
  let twice := 2 * (num % den)
  if den < twice ∨ (twice = den ∧ q % 2 = 1) then q + 1 else q

/-- The bits of the number nearest to `num / den`, of two the even one, without a sign. -/
def roundRatio (f : Format) (num den : Nat) : Nat :=
  if num = 0 then 0
  else
    let places := f.fractionBits + 1
    let guess : Int := (num.log2 : Int) - den.log2 - places
    let scaled (e : Int) : Nat × Nat :=
      if e < 0 then (num * 2 ^ (-e).toNat, den) else (num, den * 2 ^ e.toNat)
    let (n, d) := scaled guess
    let e := max (if 2 ^ places * d ≤ n then guess + 1 else guess) f.minExponent
    let (n, d) := scaled e
    min ((e - f.minExponent).toNat * 2 ^ f.fractionBits + roundQuotient n d) f.infinity

def withSign (f : Format) (negative : Bool) (bits : Nat) : Nat :=
  if negative then f.signBit + bits else bits

def ofInt (f : Format) (n : Int) : Nat := f.withSign (n < 0) (f.roundRatio n.natAbs 1)

/-- The bits of the number nearest to a number of another format. -/
def ofNumber (f : Format) : Number → Nat
  | .finite negative m e =>
    f.withSign negative (if e < 0 then f.roundRatio m (2 ^ (-e).toNat)
      else f.roundRatio (m * 2 ^ e.toNat) 1)
  | .infinite negative => f.withSign negative f.infinity
  | .nan => f.infinity + 2 ^ (f.fractionBits - 1)

end Format

/-- The integer next to a number on the side of zero. -/
def Number.truncate? : Number → Option Int
  | .finite negative m e =>
    let n : Nat := if e < 0 then m / 2 ^ (-e).toNat else m * 2 ^ e.toNat
    some (if negative then -n else n)
  | _ => none

end WideDecimal.Binary
