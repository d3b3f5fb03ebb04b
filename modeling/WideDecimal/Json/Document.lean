import WideDecimal.Exchange.Format
import WideDecimal.Json.Number
import WideDecimal.Json.Text

namespace WideDecimal.Json

inductive Scalar where
  | number (n : Number)
  | text (s : List Char)
  /-- One of the words for truth, falsehood and nothing. -/
  | word

def isSpace (c : Char) : Bool := c = ' ' || c = '\n' || c = '\t' || c = '\r'

def skipSpace (text : List Char) : List Char := text.dropWhile isSpace

/-- Reads the rest of a word. -/
def readWord : List Char → List Char → Except Failure (Scalar × List Char)
  | [], text => .ok (.word, text)
  | _ :: _, [] => .error .truncated
  | w :: word, c :: text => if w = c then readWord word text else .error .malformed

/-- Reads a value that is neither a list nor a mapping, which are refused unread. -/
def readScalar : List Char → Except Failure (Scalar × List Char)
  | [] => .error .truncated
  | '"' :: text => (readString .plain text).map fun (s, rest) => (.text s, rest)
  | '-' :: text => (readNumber true text).map fun (n, rest) => (.number n, rest)
  | 'n' :: text => readWord ['u', 'l', 'l'] text
  | 't' :: text => readWord ['r', 'u', 'e'] text
  | 'f' :: text => readWord ['a', 'l', 's', 'e'] text
  | '[' :: _ => .error .data
  | '\x7b' :: _ => .error .data
  | c :: text =>
    if c.isDigit then (readNumber false (c :: text)).map fun (n, rest) => (.number n, rest)
    else .error .malformed

/-- Reads a scalar of a certain kind. -/
def readValue {α : Type} (accept : Scalar → Option α) (text : List Char) :
    Except Failure (α × List Char) := do
  let (scalar, rest) ← readScalar (skipSpace text)
  match accept scalar with
  | some a => return (a, rest)
  | none => throw .data

/-- Reads at most `count` elements of a list up to its closing bracket. -/
def readElements {α : Type} (accept : Scalar → Option α) :
    Nat → List Char → Except Failure (List α × List Char)
  | 0, _ => .error .truncated
  | count + 1, text => do
    let (a, rest) ← readValue accept text
    match skipSpace rest with
    | ',' :: rest =>
      let (as, rest) ← readElements accept count rest
      return (a :: as, rest)
    | ']' :: rest => return ([a], rest)
    | [] => throw .truncated
    | _ => throw .malformed

/-- Reads a list of scalars of a certain kind. No text holds more of them than characters. -/
def readList {α : Type} (accept : Scalar → Option α) (text : List Char) :
    Except Failure (List α × List Char) := do
  match skipSpace text with
  | '[' :: text =>
    match skipSpace text with
    | ']' :: rest => return ([], rest)
    | elements => readElements accept elements.length elements
  | text =>
    let _ ← readScalar text
    throw .data

/-- Reads a text to its end. -/
def readDocument {α : Type} (reader : List Char → Except Failure (α × List Char)) (s : String) :
    Except Failure α := do
  let (a, rest) ← reader s.toList
  if skipSpace rest = [] then return a else throw .malformed

/-- What a visit makes of a scalar. Integers of one word and texts are handed to it, and nothing
else is accepted. -/
def Scalar.accept {α : Type} (visit : Exchange.Value → Except Exchange.Refusal α) :
    Scalar → Option α
  | .number (.integer n) => (visit (.integer (if n < 0 then .int64 else .uint64) n)).toOption
  | .text s => (visit (.text (String.ofList s))).toOption
  | _ => none

/-- Texts behind the first one, each after a comma, and the closing bracket. -/
def quoteRest : List String → List Char
  | [] => [']']
  | s :: texts => ',' :: quote s.toList ++ quoteRest texts

def quoteList : List String → List Char
  | [] => ['[', ']']
  | s :: texts => '[' :: quote s.toList ++ quoteRest texts

/-- JSON as a format of texts that need no escapes. A document that is well formed but not accepted
is refused as data, as soon as the kind of what it holds is clear. -/
def format : Exchange.Format where
  Failure := Failure
  writeText s := String.ofList (quote s.toList)
  writeTexts texts := String.ofList (quoteList texts)
  read visit := readDocument (readValue (Scalar.accept visit))
  readList visit := readDocument (readList (Scalar.accept visit))

def coefficientOfString : String → Except Failure Coefficient := format.read Exchange.toCoefficient

def literalOfString : String → Except Failure Literal := format.read Exchange.toLiteral

def coefficientsOfString : String → Except Failure (List Coefficient) :=
  format.readList Exchange.toCoefficient

/-- A coefficient as a JSON string of its numeral. -/
def ofCoefficient (v : Coefficient) : List Char := quote v.numeral

/-- A literal as a JSON string of its canonical text. -/
def ofLiteral (l : Literal) : List Char := quote l.canonical

end WideDecimal.Json
