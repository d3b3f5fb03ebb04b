namespace WideDecimal

/-- A request that has no answer and stops its caller. -/
inductive Trap where
  | divisionByZero
  | emptyRange
  /-- A half-open distribution whose bounds leave nothing between them. -/
  | boundsMeet
  /-- A closed distribution whose bounds are in the wrong order. -/
  | boundsCross
  deriving DecidableEq

def Trap.message : Trap → String
  | divisionByZero => "Division by zero"
  | emptyRange => "cannot sample empty range"
  | boundsMeet => "Uniform::new called with `low >= high`"
  | boundsCross => "Uniform::new_inclusive called with `low > high`"

end WideDecimal
