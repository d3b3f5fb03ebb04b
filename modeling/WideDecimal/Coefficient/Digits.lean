import WideDecimal.Coefficient.Additive
import WideDecimal.Coefficient.PowersOfTen
import WideDecimal.Coefficient.Product

namespace WideDecimal

def digitValue (c : Char) : Nat := c.toNat - '0'.toNat

namespace Coefficient

/-- Appends a chunk of digits to a value that grows away from zero, so that `least` is within
reach. -/
def pushChunk (negative : Bool) (value : Coefficient) (chunk : UInt64) (count : Nat) :
    Guarded (Option Coefficient) := do
  .require (count < wordPowersOfTen.length)
  let power := wordPowersOfTen.getD count 0
  return (checkedMul value (ofWord power)).bind fun shifted =>
    if negative then checkedSub shifted (ofWord chunk) else checkedAdd shifted (ofWord chunk)

/-- Appends digits to a value, a full chunk at a time, after `count` of them in a chunk that
is not full yet. There is no result from the first chunk on that does not fit. -/
def guardedAccumulate (negative : Bool) :
    Coefficient → UInt64 → Nat → List Char → Guarded (Option Coefficient)
  | value, chunk, count, [] =>
    if 0 < count then pushChunk negative value chunk count else return some value
  | value, chunk, count, c :: digits => do
    let chunk ← .add (← .mul chunk 10) (UInt64.ofNat (digitValue c))
    if count + 1 = chunkDigits then
      match ← pushChunk negative value chunk (count + 1) with
      | some value => guardedAccumulate negative value 0 0 digits
      | none => return none
    else guardedAccumulate negative value chunk (count + 1) digits

def ofDigits? (negative : Bool) (digits : List Char) : Option Coefficient :=
  (guardedAccumulate negative zero 0 0 digits).value

end Coefficient

end WideDecimal
