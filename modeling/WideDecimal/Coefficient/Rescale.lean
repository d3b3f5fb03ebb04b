import WideDecimal.Coefficient.Product
import WideDecimal.Coefficient.Scaled

namespace WideDecimal.Coefficient

/-- The coefficient that denotes at the new scale what `v` denotes at the old one. A
lower scale needs a division without remainder, a higher one a product that fits. -/
def rescale (v : Coefficient) (old new : Int32) : Except Error Coefficient :=
  let distance := new.toInt - old.toInt
  let power := powersOfTen.getD distance.natAbs one
  let loss := Error.dataLoss (v.scaledText old) old new
  if distance.natAbs < 1 ∨ maxDigits < distance.natAbs then
    .error (.scaleDistance old new)
  else if distance < 0 then
    match divide v power with
    | .ok (quotient, remainder) => if remainder.isZero then .ok quotient else .error loss
    | .error e => .error e
  else
    match checkedMul v power with
    | some product => .ok product
    | none => .error loss

end WideDecimal.Coefficient
