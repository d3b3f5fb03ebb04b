import WideDecimal.Coefficient.Division
import WideDecimal.Coefficient.PowersOfTen
import WideDecimal.Text.Padding

namespace WideDecimal.Coefficient

/-- The number of characters that a numeral may take. -/
def numeralCapacity : Nat := 48

/-- A chunk as digits: with its own sign where it comes first, else filled with zeros. -/
def chunkText (n : Int) (first : Bool) : List Char :=
  let sign := if n < 0 then ['-'] else []
  let digits := Nat.toDigits 10 n.natAbs
  if first then sign ++ digits
  else sign ++ digits.leftpad (chunkDigits - sign.length) '0'

/-- The text of a chunk, whose low word alone has to hold it. -/
def guardedChunk (v : Coefficient) (first : Bool) : Guarded (List Char) := do
  .require (v.toInt.natAbs < 10 ^ chunkDigits)
  return chunkText v.low.toInt64.toInt first

/-- The multiples of a unit in a coefficient, and the rest. -/
def guardedSplit (v unit : Coefficient) : Guarded (Coefficient × Coefficient) := do
  match ← guardedDivide v unit with
  | .ok parts => return parts
  | .error _ => .fault (zero, zero)

/-- A coefficient below `10 ^ 36`, in two chunks or in one. -/
def guardedLowChunks (v : Coefficient) : Guarded (List Char) := do
  let (middle, tail) ← guardedSplit v tenTo18
  if middle.isZero then guardedChunk tail true
  else return (← guardedChunk middle true) ++ (← guardedChunk tail.abs false)

def guardedChunks (v : Coefficient) : Guarded (List Char) := do
  let (top, rest) ← guardedSplit v tenTo36
  if top.isZero then guardedLowChunks rest
  else
    let (middle, tail) ← guardedSplit rest.abs tenTo18
    return (← guardedChunk top true) ++ (← guardedChunk middle false) ++
      (← guardedChunk tail.abs false)

def guardedNumeral (v : Coefficient) : Guarded (List Char) := do
  let text ← guardedChunks v
  .require (text.length ≤ numeralCapacity)
  return text

/-- The shortest numeral of the integer a coefficient denotes. -/
def numeral (v : Coefficient) : List Char := (guardedNumeral v).value

instance : ToString Coefficient := ⟨fun v => String.ofList v.numeral⟩

def digits (v : Coefficient) : List Char := if v.isNegative then v.numeral.drop 1 else v.numeral

def display (v : Coefficient) (p : Padding) : String :=
  String.ofList (p.number v.isNegative v.digits)

/-- What is shown for inspection is the same. -/
def inspect (v : Coefficient) (p : Padding) : String := v.display p

end WideDecimal.Coefficient
