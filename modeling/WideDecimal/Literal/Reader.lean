import WideDecimal.Coefficient.Digits
import WideDecimal.Literal.Basic
import WideDecimal.Literal.Fault

namespace WideDecimal

/-- An optional sign, as whether it is a minus, and the text behind it. -/
def splitSign : List Char → Bool × List Char
  | '-' :: text => (true, text)
  | '+' :: text => (false, text)
  | text => (false, text)

namespace Literal

/-- What reading gives, or a fault with what is left to read there. -/
abbrev Reading (α : Type) := Except (Fault (List Char)) α

def scale? (n : Int) : Option Int32 :=
  if Int32.minValue.toInt ≤ n ∧ n ≤ Int32.maxValue.toInt then some (Int32.ofInt n) else none

/-- Appends one digit to an exponent that grows away from zero. -/
def pushDigit? (negative : Bool) (exponent : Int32) (c : Char) : Option Int32 :=
  (scale? (exponent.toInt * 10)).bind fun shifted =>
    if negative then scale? (shifted.toInt - digitValue c)
    else scale? (shifted.toInt + digitValue c)

/-- Appends the digits of an exponent up to the first fault. -/
def exponentDigits (negative : Bool) (exponent : Int32) : List Char → Reading Int32
  | [] => .ok exponent
  | c :: text =>
    if c.isDigit then
      match pushDigit? negative exponent c with
      | some exponent => exponentDigits negative exponent text
      | none => .error .exponentRange
    else .error (.inExponent (c :: text))

def readExponent (text : List Char) : Reading Int32 :=
  let (negative, digits) := splitSign text
  if digits.isEmpty then .error .emptyExponent else exponentDigits negative 0 digits

/-- Reads the digits behind a point, where there is one, and what follows them. -/
def readFraction : List Char → Reading (List Char × List Char)
  | '.' :: [] => .error .pointAtEnd
  | '.' :: c :: text =>
    if c.isDigit then .ok ((c :: text).span Char.isDigit) else .error (.afterPoint (c :: text))
  | text => .ok ([], text)

def readPrecision (count : Nat) : Reading UInt32 :=
  if count < UInt32.size then .ok (UInt32.ofNat count) else .error .digitCount

/-- The scale that the end of a text gives to the digits before it. -/
def readScale (places : Nat) (precision : UInt32) : List Char → Reading Int
  | [] => return places
  | c :: text =>
    if c = 'E' ∨ c = 'e' then return -(← readExponent text).toInt + (precision.toNat - 1)
    else .error (.afterNumber (c :: text))

/-- The literal of the digits before and behind a point, with the text that follows them. The
zeros in front count toward the precision only where there is no other digit. -/
def assemble (negative : Bool) (zeros : Nat) (whole fraction text : List Char) :
    Reading Literal := do
  let digits := whole ++ fraction
  let precision ← readPrecision (if digits = [] then zeros else digits.length)
  let written ← readScale fraction.length precision text
  let some scale := scale? written | throw (.scaleRange written)
  let some value := Coefficient.ofDigits? negative digits | throw .valueRange
  return ⟨value, precision, scale⟩

def readDigits (negative : Bool) (zeros : Nat) (text : List Char) : Reading Literal := do
  let (whole, text) := text.span Char.isDigit
  let (fraction, text) ← readFraction text
  if zeros = 0 ∧ whole = [] ∧ fraction = [] then
    throw (.noNumber text)
  assemble negative zeros whole fraction text

def read (text : List Char) : Reading Literal := do
  let first :: _ := text | throw .emptyText
  let (negative, unsigned) := splitSign text
  if unsigned = [] then throw (.loneSign first)
  let (zeros, rest) := unsigned.span (· = '0')
  if rest = [] then return ⟨.zero, ← readPrecision zeros.length, 0⟩
  readDigits negative zeros.length rest

/-- The literal that a text is, or its fault. -/
def guardedParse (s : String) : Guarded (Except (Fault Char) Literal) := do
  match read (Encoding.bytes s.toList) with
  | .ok l => return .ok l
  | .error fault => return .error (← fault.locate s.toList)

def parse (s : String) : Except (Fault Char) Literal := (guardedParse s).value

/-- The literal that a text is, or the error that names the text and its fault. -/
def ofString (s : String) : Except Error Literal :=
  (parse s).mapError fun fault => .malformed s fault.reason

end Literal

def Coefficient.ofString (s : String) : Except Error Coefficient :=
  (Literal.ofString s).map (·.value)

/-- The value of a literal in a given base, which can only be ten. -/
def Coefficient.ofStringRadix (s : String) (radix : Nat) : Except Error Coefficient :=
  if radix = 10 then Coefficient.ofString s
  else .error (.unsupported "Only radix 10 is supported")

end WideDecimal
