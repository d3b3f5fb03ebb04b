import WideDecimal.Binary.Format
import WideDecimal.Text.Layout

namespace WideDecimal.Binary

/-- The exponent of the first digit of a positive quotient. -/
def leadingExponent (num den : Nat) : Int :=
  if den ≤ num then ((Nat.toDigits 10 (num / den)).length : Int) - 1
  else -((Nat.toDigits 10 ((den + num - 1) / num - 1)).length : Int)

/-- A decimal number of at most `count` digits, as an integer and its exponent, that lies
between `low / den` and `high / den` and nearest to `num / den`, if one does. -/
def nearestOnGrid (closed : Bool) (low num high den : Nat) (count : Nat) : Option (Nat × Int) :=
  let exponent := leadingExponent num den - (count - 1)
  let up : Nat := 10 ^ (-exponent).toNat
  let unit := den * 10 ^ exponent.toNat
  let below := num * up / unit
  let inside (n : Nat) : Bool :=
    if closed then low * up ≤ n * unit && n * unit ≤ high * up
    else low * up < n * unit && n * unit < high * up
  let above := below + 1
  let nearer := if unit ≤ 2 * (num * up % unit) then above else below
  let other := if nearer = above then below else above
  let normal (n : Nat) : Nat × Int :=
    if n = 10 ^ count then (10 ^ (count - 1), exponent + 1) else (n, exponent)
  if inside nearer then some (normal nearer)
  else if inside other then some (normal other)
  else none

namespace Format

/-- The digits of a positive number, as an integer and its exponent; seventeen of them are
always enough. -/
def shortest (f : Format) (m : Nat) (e : Int) : Nat × Int :=
  let up : Nat := 2 ^ (e - 2).toNat
  let den : Nat := 2 ^ (2 - e).toNat
  let below := if m = 2 ^ f.fractionBits ∧ f.minExponent < e then 1 else 2
  let low := (4 * m - below) * up
  let high := (4 * m + 2) * up
  let grid := nearestOnGrid (m % 2 == 0) low (4 * m * up) high den
  ((List.range 17).findSome? fun i => grid (i + 1)).getD (m, 0)

end Format

/-- A number in full, with a point and at least one digit after it where it is finite. -/
def Number.text (f : Format) : Number → String
  | .finite negative m e =>
    let (n, exponent) := if m = 0 then (0, 0) else f.shortest m e
    let digits := Nat.toDigits 10 n
    let unsigned :=
      if exponent < 0 then Layout.positional digits (-exponent).toNat
      else digits ++ List.replicate exponent.toNat '0' ++ ['.', '0']
    String.ofList (if negative then '-' :: unsigned else unsigned)
  | .infinite negative => if negative then "-inf" else "inf"
  | .nan => "NaN"

/-- Exponents beyond this decide by themselves between zero and infinity, whatever digits a
text of ordinary length has. -/
def decisiveExponent (digits : List Char) : Nat := 2000 + digits.length

namespace Format

/-- The bits of the number nearest to an integer of these digits at an exponent. -/
def ofDigits (f : Format) (digits : List Char) (exponent : Int) : Nat :=
  let n := Nat.ofDigitChars 10 digits 0
  if n = 0 ∨ exponent < -decisiveExponent digits then 0
  else if (decisiveExponent digits : Int) < exponent then f.infinity
  else f.roundRatio (n * 10 ^ exponent.toNat) (10 ^ (-exponent).toNat)

def digits? (text : List Char) : Option Int :=
  if text ≠ [] ∧ text.all Char.isDigit then some (Nat.ofDigitChars 10 text 0) else none

def exponent? : List Char → Option Int
  | '-' :: text => (digits? text).map (- ·)
  | '+' :: text => digits? text
  | text => digits? text

/-- The bits of the number that a text without a sign denotes. -/
def ofUnsigned? (f : Format) (text : List Char) : Option Nat :=
  let name := String.ofList (text.map Char.toLower)
  if name = "inf" ∨ name = "infinity" then some f.infinity
  else if name = "nan" then some (f.ofNumber .nan)
  else
    let (whole, rest) := text.span Char.isDigit
    let (fraction, rest) := match rest with
      | '.' :: rest => rest.span Char.isDigit
      | rest => ([], rest)
    let digits := whole ++ fraction
    if digits = [] then none
    else
      match rest with
      | [] => some (f.ofDigits digits (-fraction.length))
      | c :: rest =>
        if c = 'e' ∨ c = 'E' then
          (exponent? rest).map fun exponent => f.ofDigits digits (exponent - fraction.length)
        else none

def ofText? (f : Format) : List Char → Option Nat
  | '-' :: text => (f.ofUnsigned? text).map (f.withSign true)
  | '+' :: text => f.ofUnsigned? text
  | text => f.ofUnsigned? text

end Format

end WideDecimal.Binary
