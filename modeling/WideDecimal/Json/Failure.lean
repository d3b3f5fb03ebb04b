namespace WideDecimal.Json

inductive Failure where
  /-- Well formed as far as it was read, but not the value that was asked for. -/
  | data
  /-- The text ends early. -/
  | truncated
  /-- The text is not JSON. -/
  | malformed
  deriving DecidableEq

end WideDecimal.Json
