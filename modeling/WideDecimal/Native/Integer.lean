import WideDecimal.Coefficient.Basic

namespace WideDecimal

inductive IntegerType where
  | int8 | int16 | int32 | int64 | int128 | intSize
  | uint8 | uint16 | uint32 | uint64 | uint128 | uintSize
  deriving DecidableEq

namespace IntegerType

def isSigned : IntegerType → Bool
  | int8 | int16 | int32 | int64 | int128 | intSize => true
  | _ => false

/-- The number of bits; a machine address has 64. -/
def width : IntegerType → Nat
  | int8 | uint8 => 8
  | int16 | uint16 => 16
  | int32 | uint32 => 32
  | int64 | uint64 | intSize | uintSize => 64
  | int128 | uint128 => 128

def lower (t : IntegerType) : Int := if t.isSigned then -2 ^ (t.width - 1) else 0

def upper (t : IntegerType) : Int := if t.isSigned then 2 ^ (t.width - 1) - 1 else 2 ^ t.width - 1

def keep? (t : IntegerType) (n : Int) : Option Int :=
  if t.lower ≤ n ∧ n ≤ t.upper then some n else none

end IntegerType

namespace Coefficient

/-- The value as a signed word, of which the high word must be the sign extension. -/
def toInt64? (v : Coefficient) : Option Int64 :=
  let low := v.low.toInt64
  if (v.high = 0 ∧ 0 ≤ low) ∨ (v.high = -1 ∧ low < 0) then some low else none

/-- The value as an unsigned word, above which there must be nothing. -/
def toUInt64? (v : Coefficient) : Option UInt64 := if v.high = 0 then some v.low else none

/-- The value as one word of twice the width: the high word, moved up with its sign, and the low
word in the place that it leaves. -/
def wide (v : Coefficient) : BitVec 128 :=
  v.high.toBitVec.signExtend 128 <<< 64 ||| v.low.toBitVec.setWidth 128

/-- The value as an integer of a native type, where it has it. A narrow type is reached through the
word of its signedness. -/
def toInteger? (v : Coefficient) (t : IntegerType) : Option Int :=
  match t with
  | .int128 => some v.wide.toInt
  | .uint128 => if v.isNegative then none else some v.wide.toNat
  | _ =>
    if t.isSigned then v.toInt64?.bind fun n => t.keep? n.toInt
    else v.toUInt64?.bind fun n => t.keep? n.toNat

/-- The coefficient of an integer of a native type. Only the widest unsigned integers have
none. -/
def ofInteger? (t : IntegerType) (n : Int) : Option Coefficient :=
  if t = .uint128 ∧ greatest.toInt < n then none else some (ofInt n)

end Coefficient

end WideDecimal
