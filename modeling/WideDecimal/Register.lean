import WideDecimal.Coefficient.Bits
import WideDecimal.Coefficient.Rescale
import WideDecimal.Literal.Reader

namespace WideDecimal

/-- A value with its scale and one cell of memory, worked on step by step. -/
structure Register where
  value : Coefficient := .zero
  scale : Int32 := 0
  memory : Coefficient := .zero

namespace Register

inductive Operand where
  | constant (v : Coefficient)
  | memory

inductive BinaryOp where
  | add | sub | mul | div | rem | and | or | xor
  | checkedAdd | checkedSub | checkedMul | checkedDiv | checkedRem

inductive UnaryOp where
  | not | negate | abs | checkedNeg
  | shiftLeft (n : Nat)
  | shiftRight (n : Nat)

inductive Step where
  | set (x : Operand)
  | setScale (scale : Int32)
  | store
  | swap
  | parse (text : String)
  | reparse
  | rescale (scale : Int32)
  | divide (x : Operand)
  | binary (operation : BinaryOp) (x : Operand)
  | unary (operation : UnaryOp)

inductive Failure where
  | error (e : Error)
  | trap (t : Trap)
  | noResult

/-- What a step tells besides the register after it. -/
inductive Detail where
  | none
  | precision (digits : UInt32)
  | remainder (v : Coefficient)

def text (r : Register) : String := r.value.scaledText r.scale

def operand (r : Register) : Operand → Coefficient
  | .constant v => v
  | .memory => r.memory

def checked : Option Coefficient → Except Failure Coefficient
  | some v => .ok v
  | none => .error .noResult

def BinaryOp.apply (a b : Coefficient) : BinaryOp → Except Failure Coefficient
  | add => .ok (a + b)
  | sub => .ok (a - b)
  | mul => .ok (a * b)
  | div => (a.div b).mapError .trap
  | rem => (a.rem b).mapError .trap
  | and => .ok (a &&& b)
  | or => .ok (a ||| b)
  | xor => .ok (a ^^^ b)
  | checkedAdd => checked (a.checkedAdd b)
  | checkedSub => checked (a.checkedSub b)
  | checkedMul => checked (a.checkedMul b)
  | checkedDiv => checked (a.checkedDiv b)
  | checkedRem => checked (a.checkedRem b)

def UnaryOp.apply (a : Coefficient) : UnaryOp → Except Failure Coefficient
  | not => .ok (~~~a)
  | negate => .ok (-a)
  | abs => .ok a.abs
  | checkedNeg => checked a.checkedNeg
  | shiftLeft n => .ok (a <<< n)
  | shiftRight n => .ok (a >>> n)

def parse (r : Register) (text : String) : Except Failure (Register × Detail) := do
  let l ← (Literal.ofString text).mapError .error
  return ({ r with value := l.value, scale := l.scale }, .precision l.precision)

def step (r : Register) : Step → Except Failure (Register × Detail)
  | .set x => .ok ({ r with value := r.operand x }, .none)
  | .setScale scale => .ok ({ r with scale := scale }, .none)
  | .store => .ok ({ r with memory := r.value }, .none)
  | .swap => .ok ({ r with value := r.memory, memory := r.value }, .none)
  | .parse text => r.parse text
  | .reparse => r.parse r.text
  | .rescale scale => do
    let v ← (r.value.rescale r.scale scale).mapError .error
    return ({ r with value := v, scale := scale }, .none)
  | .divide x => do
    let (quotient, remainder) ← (r.value.divide (r.operand x)).mapError .error
    return ({ r with value := quotient }, .remainder remainder)
  | .binary operation x => do
    let v ← operation.apply r.value (r.operand x)
    return ({ r with value := v }, .none)
  | .unary operation => do
    let v ← operation.apply r.value
    return ({ r with value := v }, .none)

/-- The outcome of every step, with the register after those that succeed. -/
def run (r : Register) : List Step → List (Except Failure (Register × Detail))
  | [] => []
  | s :: steps =>
    match r.step s with
    | .ok (after, detail) => .ok (after, detail) :: run after steps
    | .error e => .error e :: run r steps

end Register

end WideDecimal
