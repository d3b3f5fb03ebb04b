import WideDecimal.Binary.Decimal
import WideDecimal.Literal.Reader
import WideDecimal.Native.Integer

namespace WideDecimal.Exchange

/-- A value of a self-describing data format. -/
inductive Value where
  | integer (type : IntegerType) (n : Int)
  /-- A double. -/
  | float (x : Binary.Number)
  | boolean (b : Bool)
  | character (c : Char)
  | text (s : String)
  | bytes (bytes : List UInt8)
  | unit
  | sequence
  | mapping

inductive Refusal where
  /-- A value of a kind that is not read at all. -/
  | kind (found : Value) (expected : String)
  /-- A text that is not well formed. -/
  | text (s expected : String)
  /-- An unsigned integer above all coefficients. -/
  | tooLarge (expected : String)

/-- What kind of value was found, with the value itself where it is short. -/
def Value.describe : Value → String
  | integer .int128 n => "integer `" ++ toString n ++ "` as i128"
  | integer .uint128 n => "integer `" ++ toString n ++ "` as u128"
  | integer _ n => "integer `" ++ toString n ++ "`"
  | float x => "floating point `" ++ x.text Binary.double ++ "`"
  | boolean b => "boolean `" ++ toString b ++ "`"
  | character c => "character `" ++ c.toString ++ "`"
  | text s => "string \"" ++ s ++ "\""
  | bytes _ => "byte array"
  | unit => "unit value"
  | sequence => "sequence"
  | mapping => "map"

def Refusal.message : Refusal → String
  | kind found expected => "invalid type: " ++ found.describe ++ ", expected " ++ expected
  | text s expected => "invalid value: string \"" ++ s ++ "\", expected " ++ expected
  | tooLarge expected => "invalid value: 128 bit unsigned integer, expected " ++ expected

/-- A coefficient as a value, which is its numeral. -/
def ofCoefficient (v : Coefficient) : Value := .text (toString v)

/-- A literal as a value, which is its canonical text. -/
def ofLiteral (l : Literal) : Value := .text (toString l)

def expectedCoefficient : String := "a 128 bit integer or an integer string"

def expectedLiteral : String := "a decimal string such as \"123.45\" or \"1.23E+5\""

/-- What a reader makes of a text. -/
def readText {α : Type} (reader : String → Except Error α) (expected s : String) :
    Except Refusal α :=
  (reader s).mapError fun _ => .text s expected

/-- How one kind of value is read: what is made of an integer that has one word or two, and of a
text. Integers are refused unless it says something else. -/
structure Visitor (α : Type) where
  expected : String
  text (s : String) : Except Refusal α
  int64 (n : Int) : Except Refusal α := .error (.kind (.integer .int64 n) expected)
  uint64 (n : Int) : Except Refusal α := .error (.kind (.integer .uint64 n) expected)
  int128 (n : Int) : Except Refusal α := .error (.kind (.integer .int128 n) expected)
  uint128 (n : Int) : Except Refusal α := .error (.kind (.integer .uint128 n) expected)

/-- What a visitor makes of a value. A narrow integer is a word of its signedness, a character is a
text of its own, and other values are refused. -/
def Visitor.visit {α : Type} (r : Visitor α) : Value → Except Refusal α
  | .integer .int128 n => r.int128 n
  | .integer .uint128 n => r.uint128 n
  | .integer type n => if type.isSigned then r.int64 n else r.uint64 n
  | .text s => r.text s
  | .character c => r.text c.toString
  | found => .error (.kind found r.expected)

/-- A coefficient is read from any integer that it can denote and from a text. -/
def coefficientVisitor : Visitor Coefficient where
  expected := expectedCoefficient
  text := readText Coefficient.ofString expectedCoefficient
  int64 n := .ok (.ofInt n)
  uint64 n := .ok (.ofInt n)
  int128 n := .ok (.ofInt n)
  uint128 n :=
    match Coefficient.ofInteger? .uint128 n with
    | some v => .ok v
    | none => .error (.tooLarge expectedCoefficient)

/-- A literal is read from a text only. -/
def literalVisitor : Visitor Literal where
  expected := expectedLiteral
  text := readText Literal.ofString expectedLiteral

def toCoefficient : Value → Except Refusal Coefficient := coefficientVisitor.visit

def toLiteral : Value → Except Refusal Literal := literalVisitor.visit

end WideDecimal.Exchange
