namespace WideDecimal

inductive Alignment where
  | left
  | centre
  | right
  deriving DecidableEq

/-- How a field is to be filled: a width of zero asks for nothing. -/
structure Padding where
  fill : Char := ' '
  alignment : Option Alignment := none
  plus : Bool := false
  zeros : Bool := false
  width : Nat := 0
  precision : Option Nat := none

namespace Padding

/-- The text between its fillers; the smaller half goes in front when it is centred. -/
def surround (alignment : Alignment) (fill : Char) (missing : Nat) (text : List Char) :
    List Char :=
  let before :=
    match alignment with
    | .left => 0
    | .centre => missing / 2
    | .right => missing
  List.replicate before fill ++ text ++ List.replicate (missing - before) fill

/-- The sign of a number, which a positive one shows on request. -/
def sign (p : Padding) (negative : Bool) : List Char :=
  if negative then ['-'] else if p.plus then ['+'] else []

def number (p : Padding) (negative : Bool) (digits : List Char) : List Char :=
  let sign := p.sign negative
  let missing := p.width - (sign.length + digits.length)
  if p.zeros then sign ++ List.replicate missing '0' ++ digits
  else surround (p.alignment.getD .right) p.fill missing (sign ++ digits)

/-- A text, cut to the precision and then filled to the width. -/
def text (p : Padding) (text : List Char) : List Char :=
  let kept := match p.precision with
    | some count => text.take count
    | none => text
  surround (p.alignment.getD .left) p.fill (p.width - kept.length) kept

end Padding

end WideDecimal
