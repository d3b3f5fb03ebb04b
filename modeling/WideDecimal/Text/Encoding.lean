import WideDecimal.Guarded

namespace WideDecimal.Encoding

/-- The bytes of a text, each as the character of its code. -/
def bytes (text : List Char) : List Char :=
  text.flatMap fun c => (String.utf8EncodeChar c).map Char.ofUInt8

/-- A text behind so many bytes, unless they end inside a character. -/
def dropBytes? : Nat → List Char → Option (List Char)
  | 0, text => some text
  | _ + 1, [] => none
  | count + 1, c :: text =>
    if c.utf8Size ≤ count + 1 then dropBytes? (count + 1 - c.utf8Size) text else none

/-- The character of a text that its bytes from some place on start with. -/
def characterAt (text rest : List Char) : Guarded Char := do
  .require (rest.length ≤ (bytes text).length)
  match dropBytes? ((bytes text).length - rest.length) text with
  | some left => return left.headD '\uFFFD'
  | none => .fault '\uFFFD'

end WideDecimal.Encoding
