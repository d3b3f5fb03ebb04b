import WideDecimal.Json.Failure

namespace WideDecimal.Json

/-- What the next character of a string is part of. -/
inductive Place where
  | plain
  /-- An escape, of which the backslash has been read. -/
  | escape
  /-- The code of an escape, behind the first half of a pair if there was one, with so many
  digits to come. -/
  | code (first : Option Nat) (digits : Nat) (code : Nat)
  /-- The escape that the first half of a pair requires. -/
  | second (first : Nat)
  /-- That escape behind its backslash. -/
  | secondEscape (first : Nat)

/-- The character that a letter behind a backslash stands for. -/
def escaped? : Char → Option Char
  | '"' => some '"'
  | '\\' => some '\\'
  | '/' => some '/'
  | 'b' => some '\x08'
  | 'f' => some '\x0c'
  | 'n' => some '\n'
  | 'r' => some '\r'
  | 't' => some '\t'
  | _ => none

def hexValue? (c : Char) : Option Nat :=
  if c.isDigit then some (c.toNat - '0'.toNat)
  else if 'a' ≤ c ∧ c ≤ 'f' then some (10 + (c.toNat - 'a'.toNat))
  else if 'A' ≤ c ∧ c ≤ 'F' then some (10 + (c.toNat - 'A'.toNat))
  else none

/-- Whether four bytes are left, which is how far a code is looked for. -/
def hasCode (text : List Char) : Bool := 4 ≤ (String.ofList text).utf8ByteSize

/-- What a full code is: a character, the first half of a pair, or neither. -/
def ofCode (first : Option Nat) (code : Nat) : Except Failure (Char ⊕ Nat) :=
  let isSecond : Bool := 0xDC00 ≤ code && code ≤ 0xDFFF
  match first with
  | none =>
    if isSecond then .error .malformed
    else if 0xD800 ≤ code ∧ code ≤ 0xDBFF then .ok (.inr code)
    else .ok (.inl (Char.ofNat code))
  | some first =>
    if isSecond then
      .ok (.inl (Char.ofNat (0x10000 + (first - 0xD800) * 0x400 + (code - 0xDC00))))
    else .error .malformed

def readString : Place → List Char → Except Failure (List Char × List Char)
  | _, [] => .error .truncated
  | .plain, c :: text =>
    if c = '"' then .ok ([], text)
    else if c = '\\' then readString .escape text
    else if c.toNat < 0x20 then .error .malformed
    else (readString .plain text).map fun (s, rest) => (c :: s, rest)
  | .escape, c :: text =>
    if c = 'u' then
      if hasCode text then readString (.code none 4 0) text else .error .truncated
    else
      match escaped? c with
      | some d => (readString .plain text).map fun (s, rest) => (d :: s, rest)
      | none => .error .malformed
  | .code first digits code, c :: text =>
    match hexValue? c with
    | none => .error .malformed
    | some d =>
      if 1 < digits then readString (.code first (digits - 1) (code * 16 + d)) text
      else
        match ofCode first (code * 16 + d) with
        | .error e => .error e
        | .ok (.inl d) => (readString .plain text).map fun (s, rest) => (d :: s, rest)
        | .ok (.inr first) => readString (.second first) text
  | .second first, c :: text =>
    if c = '\\' then readString (.secondEscape first) text else .error .malformed
  | .secondEscape first, c :: text =>
    if c ≠ 'u' then .error .malformed
    else if hasCode text then readString (.code (some first) 4 0) text
    else .error .truncated

def quote (s : List Char) : List Char := '"' :: s ++ ['"']

end WideDecimal.Json
