import WideDecimal.Text.Encoding

namespace WideDecimal.Literal

/-- Why a text is no literal, with what was found instead. -/
inductive Fault (α : Type) where
  | emptyText
  | loneSign (c : Char)
  | pointAtEnd
  | afterPoint (found : α)
  /-- Neither a digit nor a point starts the number. -/
  | noNumber (found : α)
  /-- Something else than a digit or an exponent follows the number. -/
  | afterNumber (found : α)
  | emptyExponent
  | inExponent (found : α)
  | exponentRange
  | digitCount
  | scaleRange (scale : Int)
  | valueRange
  deriving DecidableEq

namespace Fault

/-- What a fault found because the text could not go on with it. -/
def unexpected? {α : Type} : Fault α → Option α
  | afterPoint found | noNumber found | afterNumber found | inExponent found => some found
  | _ => none

/-- A fault of a text with the character found, from one with the bytes from there on. -/
def locate (text : List Char) : Fault (List Char) → Guarded (Fault Char)
  | emptyText => return emptyText
  | loneSign c => return loneSign c
  | pointAtEnd => return pointAtEnd
  | afterPoint rest => return afterPoint (← Encoding.characterAt text rest)
  | noNumber rest => return noNumber (← Encoding.characterAt text rest)
  | afterNumber rest => return afterNumber (← Encoding.characterAt text rest)
  | emptyExponent => return emptyExponent
  | inExponent rest => return inExponent (← Encoding.characterAt text rest)
  | exponentRange => return exponentRange
  | digitCount => return digitCount
  | scaleRange scale => return scaleRange scale
  | valueRange => return valueRange

def reason : Fault Char → String
  | emptyText => "Empty string cannot be converted to decimal"
  | loneSign c => "Single character '" ++ c.toString ++ "' is not a valid decimal value"
  | pointAtEnd =>
    "Decimal point must be followed by at least one base ten digit. Reached the end of the string"
  | afterPoint c =>
    "Decimal point must be followed by a base ten digit. Found '" ++ c.toString ++ "'"
  | noNumber c =>
    "Expected base ten digit or decimal point but found '" ++ c.toString ++ "' instead"
  | afterNumber c =>
    "Found non base ten digit character '" ++ c.toString ++ "' before the end of the string"
  | emptyExponent => "Exponent must contain at least one base ten digit"
  | inExponent c => "Found non decimal digit exponent value '" ++ c.toString ++ "'"
  | exponentRange => "Exponent is outside the range of a 32 bit integer"
  | digitCount => "Too many digits"
  | scaleRange scale => "Scale " ++ toString scale ++ " is outside the supported range"
  | valueRange => "Value exceeds the range of a 128 bit decimal"

end Fault

end WideDecimal.Literal
