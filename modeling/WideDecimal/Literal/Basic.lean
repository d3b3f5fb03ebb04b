import WideDecimal.Coefficient.Scaled

namespace WideDecimal

/-- A coefficient with the number of digits it was written with and the scale that its point and
exponent gave it. -/
structure Literal where
  value : Coefficient
  precision : UInt32
  scale : Int32
  deriving DecidableEq

namespace Literal

/-- The one text that stands for every literal of this value and scale. -/
def canonical (l : Literal) : List Char := l.value.scaled l.scale

instance : ToString Literal := ⟨fun l => String.ofList l.canonical⟩

def display (l : Literal) (p : Padding) : String := String.ofList (p.text l.canonical)

def inspect (l : Literal) : String :=
  "DecimalLiteral \x7b value: " ++ toString l.value ++
    ", precision: " ++ toString l.precision.toNat ++
    ", scale: " ++ toString l.scale.toInt ++ " \x7d"

end Literal

end WideDecimal
