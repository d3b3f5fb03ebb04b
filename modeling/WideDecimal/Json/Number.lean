import WideDecimal.Binary.Format
import WideDecimal.Json.Failure

namespace WideDecimal.Json

/-- A number is an integer if it is written as one and fits a word. -/
inductive Number where
  | integer (n : Int)
  | real
  deriving DecidableEq

/-- The digits of a real number that count, and the power of ten that goes with them. -/
structure Magnitude where
  significand : Nat
  exponent : Int

/-- A number with one more digit. -/
def append (n : Nat) (c : Char) : Nat := n * 10 + (c.toNat - '0'.toNat)

/-- Whether the nearest double to the significand times the nearest one to the power of ten
is above all doubles. -/
def Magnitude.overflows (m : Magnitude) : Bool :=
  let rounded (n : Nat) : Nat :=
    match Binary.double.decode (Binary.double.roundRatio n 1) with
    | .finite _ m e => m * 2 ^ e.toNat / 2 ^ (-e).toNat
    | _ => n
  if m.significand = 0 ∨ m.exponent < 0 then false
  else if 308 < m.exponent then true
  else 2 ^ 1024 - 2 ^ 970 ≤ rounded m.significand * rounded (10 ^ m.exponent.toNat)

/-- A real number and the text behind it. -/
def real (m : Magnitude) (text : List Char) : Except Failure (Number × List Char) :=
  if m.overflows then .error .malformed else .ok (.real, text)

/-- A magnitude with another exponent added to its own. -/
def Magnitude.shift (m : Magnitude) (negative : Bool) (exponent : Nat) : Magnitude :=
  ⟨m.significand, if negative then m.exponent - exponent else m.exponent + exponent⟩

/-- The greatest exponent that counts as a number. -/
def maxExponent : Nat := 2 ^ 31 - 1

/-- Reads the digits of an exponent. One beyond all bounds makes a number too large, or, if
it is negative or there is nothing to make larger, zero. -/
def readExponentDigits (m : Magnitude) (negative : Bool) (exponent : Nat) :
    List Char → Except Failure (Number × List Char)
  | [] => real (m.shift negative exponent) []
  | c :: text =>
    if ¬c.isDigit then real (m.shift negative exponent) (c :: text)
    else if append exponent c ≤ maxExponent then
      readExponentDigits m negative (append exponent c) text
    else if m.significand = 0 ∨ negative then .ok (.real, text.dropWhile Char.isDigit)
    else .error .malformed

def readExponent (m : Magnitude) (text : List Char) : Except Failure (Number × List Char) :=
  let (negative, digits) := match text with
    | '-' :: text => (true, text)
    | '+' :: text => (false, text)
    | text => (false, text)
  match digits with
  | [] => .error .truncated
  | c :: _ => if c.isDigit then readExponentDigits m negative 0 digits else .error .malformed

/-- Reads an exponent, if there is one, behind digits that make the number real. -/
def readRest (m : Magnitude) : List Char → Except Failure (Number × List Char)
  | c :: text => if c = 'e' ∨ c = 'E' then readExponent m text else real m (c :: text)
  | [] => real m []

/-- Reads the digits behind a point. -/
def readFractionDigits (m : Magnitude) : List Char → Except Failure (Number × List Char)
  | c :: text =>
    if ¬c.isDigit then readRest m (c :: text)
    else if append m.significand c < 2 ^ 64 then
      readFractionDigits ⟨append m.significand c, m.exponent - 1⟩ text
    else readRest m (text.dropWhile Char.isDigit)
  | [] => readRest m []

/-- Reads what follows a point, which has to start with a digit. -/
def readFraction (m : Magnitude) (text : List Char) : Except Failure (Number × List Char) :=
  match text with
  | [] => .error .truncated
  | c :: _ => if c.isDigit then readFractionDigits m text else .error .malformed

/-- Reads what follows digits that are too many for a word. -/
def readLong (m : Magnitude) : List Char → Except Failure (Number × List Char)
  | '.' :: text => readFraction m text
  | text => readRest m text

/-- The number that digits alone denote. Zero is no integer with a minus. -/
def whole (negative : Bool) (n : Nat) : Number :=
  if ¬negative then .integer n
  else if 0 < n ∧ n ≤ 2 ^ 63 then .integer (-n)
  else .real

/-- Reads what follows the digits in front of the point. -/
def readShort (negative : Bool) (n : Nat) : List Char → Except Failure (Number × List Char)
  | '.' :: text => readFraction ⟨n, 0⟩ text
  | c :: text =>
    if c = 'e' ∨ c = 'E' then readExponent ⟨n, 0⟩ text else .ok (whole negative n, c :: text)
  | [] => .ok (whole negative n, [])

/-- Reads the digits in front of the point. -/
def readWhole (negative : Bool) (n : Nat) : List Char → Except Failure (Number × List Char)
  | c :: text =>
    if ¬c.isDigit then readShort negative n (c :: text)
    else if append n c < 2 ^ 64 then readWhole negative (append n c) text
    else
      readLong ⟨n, 1 + (text.takeWhile Char.isDigit).length⟩ (text.dropWhile Char.isDigit)
  | [] => readShort negative n []

/-- Reads a number behind its sign. A zero in front takes no other digit. -/
def readNumber (negative : Bool) : List Char → Except Failure (Number × List Char)
  | [] => .error .truncated
  | '0' :: text =>
    if text.head?.any Char.isDigit then .error .malformed else readShort negative 0 text
  | c :: text => if c.isDigit then readWhole negative (append 0 c) text else .error .malformed

end WideDecimal.Json
