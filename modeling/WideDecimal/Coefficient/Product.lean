import WideDecimal.Coefficient.Basic
import WideDecimal.Guarded

namespace WideDecimal.Coefficient

def lowHalf (w : UInt64) : UInt64 := w &&& 0xFFFFFFFF

def highHalf (w : UInt64) : UInt64 := w >>> 32

/-- The product modulo `2^128`. Columns 32, 64 and 96 wrap on purpose; the guarded steps
must not. The sum of column 32 loses at most one carry, worth `2^32` in the high word. -/
def guardedMul (a b : Coefficient) : Guarded Coefficient := do
  let l0 := highHalf a.high.toUInt64
  let l1 := lowHalf a.high.toUInt64
  let l2 := highHalf a.low
  let l3 := lowHalf a.low
  let r0 := highHalf b.high.toUInt64
  let r1 := lowHalf b.high.toUInt64
  let r2 := highHalf b.low
  let r3 := lowHalf b.low
  let units ← .mul l3 r3
  let middle ← .add (highHalf units) (← .mul l2 r3)
  let second ← .mul l3 r2
  let middle := middle + second
  let carry : UInt64 := if middle < second then 0x100000000 else 0
  let column64 := (← .mul l1 r3) + (← .mul l2 r2) + (← .mul l3 r1)
  let column96 := (← .mul l0 r3) + (← .mul l1 r2) + (← .mul l2 r1) + (← .mul l3 r0)
  let high := carry + highHalf middle + column64 + column96 <<< 32
  return ⟨high.toInt64, lowHalf units ||| middle <<< 32⟩

def mul (a b : Coefficient) : Coefficient := (guardedMul a b).value

instance : Mul Coefficient := ⟨mul⟩

/-- The half-words of a magnitude, least significant first. -/
def halves (magnitude : UInt64 × UInt64) : List UInt32 :=
  [magnitude.2.toUInt32, (highHalf magnitude.2).toUInt32,
    magnitude.1.toUInt32, (highHalf magnitude.1).toUInt32]

/-- Adds `l` times a row of half-words to the columns, with the carry from the column
before; one column more than the row has takes the last carry. -/
def addMultiple (l : UInt32) (carry : UInt64) : List UInt32 → List UInt32 → List UInt32
  | r :: row, c :: columns =>
    let total := l.toUInt64 * r.toUInt64 + c.toUInt64 + carry
    total.toUInt32 :: addMultiple l (total >>> 32) row columns
  | _, _ :: columns => carry.toUInt32 :: columns
  | _, [] => []

/-- Adds the product of two numbers to the columns; a zero half-word leaves them as they are. -/
def addProduct (row : List UInt32) : List UInt32 → List UInt32 → List UInt32
  | [], columns => columns
  | l :: left, columns =>
    match if l = 0 then columns else addMultiple l 0 row columns with
    | [] => []
    | c :: columns => c :: addProduct row left columns

/-- The exact product. Two magnitudes of more than one word never have one; otherwise the
upper half of the full product must be empty, and the lower half at most `2^127 - 1`, or
`2^127` for a negative product. -/
def checkedMul (a b : Coefficient) : Option Coefficient :=
  let negative := a.isNegative != b.isNegative
  let left := a.magnitude
  let right := b.magnitude
  if left.1 ≠ 0 ∧ right.1 ≠ 0 then none
  else
    match addProduct (halves right) (halves left) (List.replicate 8 0) with
    | p0 :: p1 :: p2 :: p3 :: upper =>
      if upper.any (· ≠ 0) then none
      else
        let high := p3.toUInt64 <<< 32 ||| p2.toUInt64
        let low := p1.toUInt64 <<< 32 ||| p0.toUInt64
        if 0x7FFFFFFFFFFFFFFF < high ∧ ¬(negative ∧ high = 0x8000000000000000 ∧ low = 0) then
          none
        else
          let product : Coefficient := ⟨high.toInt64, low⟩
          some (if negative then -product else product)
    | _ => none

def product (vs : List Coefficient) : Coefficient := vs.foldl (· * ·) one

end WideDecimal.Coefficient
