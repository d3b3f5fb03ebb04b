import WideDecimal.Text.Padding

namespace WideDecimal

inductive Error where
  /-- A request outside what the library offers, in its own words. -/
  | unsupported (text : String)
  /-- A text that is no literal, with the reason. -/
  | malformed (input reason : String)
  | divisionByZero
  /-- More limbs than a coefficient has room for. -/
  | limbCount (count : Nat)
  /-- The two scales are equal, or too far apart for one power of ten. -/
  | scaleDistance (old new : Int32)
  /-- The value, written at its old scale, has no equal at the new one. -/
  | dataLoss (value : String) (old new : Int32)
  deriving DecidableEq

/-- Whether a request was wrong or its result would have lost digits. -/
inductive ErrorKind where
  | invalidArgument
  | dataLoss
  deriving DecidableEq

namespace Error

def kind : Error → ErrorKind
  | dataLoss .. => .dataLoss
  | _ => .invalidArgument

/-- The shape of a literal, as a malformed one is told. -/
def expectedShape : String := "[+|-]digits[.digits][(E|e)[+|-]digits]"

def message : Error → String
  | unsupported text => text
  | malformed input reason =>
    "Invalid decimal \"" ++ input ++ "\": " ++ reason ++
      ". Expected a value shaped like " ++ expectedShape
  | divisionByZero => "Division by 0 in Decimal128"
  | limbCount count =>
    "Can't build Decimal128 from " ++ toString count ++ " significant limbs"
  | scaleDistance old new =>
    "Rescaling from scale " ++ toString old.toInt ++ " to scale " ++ toString new.toInt ++
      " must change the scale by 1 to 38 digits"
  | dataLoss value old new =>
    "Rescaling decimal value " ++ value ++ " from original scale of " ++
      toString old.toInt ++ " to new scale of " ++ toString new.toInt ++
      " would cause data loss"

/-- The message as a padded field. Only the messages without parts to fill in are padded. -/
def display (e : Error) (p : Padding) : String :=
  match e with
  | unsupported _ | divisionByZero => String.ofList (p.text e.message.toList)
  | _ => e.message

end Error

end WideDecimal
