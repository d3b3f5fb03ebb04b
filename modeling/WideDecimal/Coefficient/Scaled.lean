import WideDecimal.Coefficient.Numeral
import WideDecimal.Text.Layout

namespace WideDecimal.Coefficient

/-- Values whose first digit stands further behind the point than this are written with an
exponent. -/
def minPlainExponent : Int := -6

/-- The power of ten that the first digit counts. -/
def adjustedExponent (v : Coefficient) (scale : Int32) : Int :=
  -scale.toInt + (v.digits.length - 1)

def usesExponent (v : Coefficient) (scale : Int32) : Bool :=
  scale < 0 || (scale ≠ 0 && v.adjustedExponent scale < minPlainExponent)

/-- The power of ten that the first of some digits counts, in signed words. -/
def guardedExponent (digits : List Char) (scale : Int32) : Guarded Int64 := do
  let opposite ← .signedWord (-scale.toInt)
  let count ← .signedWord digits.length
  let behind ← .signedWord (count.toInt - 1)
  .signedWord (opposite.toInt + behind.toInt)

/-- Digits at a scale other than zero: with an exponent, which follows the first of them, or with
the scale as the number of places. -/
def guardedUnsigned (digits : List Char) (scale : Int32) : Guarded (List Char) := do
  let exponent ← guardedExponent digits scale
  if scale < 0 ∨ exponent.toInt < minPlainExponent then
    .require (digits ≠ [])
    return Layout.scientific digits exponent.toInt
  else
    .require (0 ≤ scale)
    return Layout.positional digits scale.toInt.toNat

/-- The text of `v * 10 ^ (-scale)`. The sign is cut off the numeral and put back afterwards. -/
def guardedScaled (v : Coefficient) (scale : Int32) : Guarded (List Char) := do
  let numeral ← guardedNumeral v
  if scale = 0 then return numeral
  else
    .require (numeral ≠ [])
    let unsigned ← guardedUnsigned (if v.isNegative then numeral.drop 1 else numeral) scale
    return if v.isNegative then '-' :: unsigned else unsigned

def scaled (v : Coefficient) (scale : Int32) : List Char := (guardedScaled v scale).value

def scaledText (v : Coefficient) (scale : Int32) : String := String.ofList (v.scaled scale)

end WideDecimal.Coefficient
