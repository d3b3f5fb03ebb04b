import WideDecimal.Binary.Format
import WideDecimal.Native.Integer

namespace WideDecimal.Coefficient

/-- The integer a coefficient denotes, where it is one of a single word. -/
def toWord? (v : Coefficient) : Option Int :=
  match v.toInt64? with
  | some n => some n.toInt
  | none => v.toUInt64?.map fun n => n.toNat

def toDouble? (v : Coefficient) : Option Nat := v.toWord?.map Binary.double.ofInt

/-- The bits of the single nearest to the nearest double, which need not be the single
nearest to the value. -/
def toSingle? (v : Coefficient) : Option Nat :=
  v.toDouble?.map fun bits => Binary.single.ofNumber (Binary.double.decode bits)

/-- A floating-point number without its fraction, where that leaves an integer of one word. -/
def ofNumber? (x : Binary.Number) : Option Coefficient :=
  x.truncate?.bind fun n =>
    if (IntegerType.int64.keep? n).isSome ∨ (IntegerType.uint64.keep? n).isSome then
      some (ofInt n)
    else none

end WideDecimal.Coefficient
