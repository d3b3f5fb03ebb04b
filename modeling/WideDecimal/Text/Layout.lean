namespace WideDecimal.Layout

/-- Digits with the point before the last `places` of them, after at least one digit. -/
def positional (digits : List Char) (places : Nat) : List Char :=
  if places < digits.length then
    digits.take (digits.length - places) ++ '.' :: digits.drop (digits.length - places)
  else '0' :: '.' :: digits.leftpad places '0'

/-- Digits with the point after the first one, where others follow it, and an exponent that
always shows its sign. -/
def scientific (digits : List Char) (exponent : Int) : List Char :=
  let mantissa := match digits with
    | first :: second :: rest => first :: '.' :: second :: rest
    | digits => digits
  mantissa ++ 'E' :: (if exponent < 0 then '-' else '+') :: Nat.toDigits 10 exponent.natAbs

end WideDecimal.Layout
