import WideDecimal.Coefficient.Basic

namespace WideDecimal.Coefficient

def and (a b : Coefficient) : Coefficient := ⟨a.high &&& b.high, a.low &&& b.low⟩

def or (a b : Coefficient) : Coefficient := ⟨a.high ||| b.high, a.low ||| b.low⟩

def xor (a b : Coefficient) : Coefficient := ⟨a.high ^^^ b.high, a.low ^^^ b.low⟩

def not (a : Coefficient) : Coefficient := ⟨~~~a.high, ~~~a.low⟩

instance : AndOp Coefficient := ⟨and⟩

instance : OrOp Coefficient := ⟨or⟩

instance : XorOp Coefficient := ⟨xor⟩

instance : Complement Coefficient := ⟨not⟩

/-- The bits move up; those that leave the low word enter the high one. -/
def shiftLeft (v : Coefficient) (n : Nat) : Coefficient :=
  if n = 0 then v
  else if n < 64 then
    ⟨v.high <<< Int64.ofNat n ||| (v.low >>> UInt64.ofNat (64 - n)).toInt64,
      v.low <<< UInt64.ofNat n⟩
  else if n < 128 then ⟨(v.low <<< UInt64.ofNat (n - 64)).toInt64, 0⟩
  else zero

/-- The bits move down, and copies of the sign bit follow them. -/
def shiftRight (v : Coefficient) (n : Nat) : Coefficient :=
  let fill : Int64 := if v.high < 0 then -1 else 0
  if n = 0 then v
  else if n < 64 then
    ⟨v.high >>> Int64.ofNat n,
      v.low >>> UInt64.ofNat n ||| v.high.toUInt64 <<< UInt64.ofNat (64 - n)⟩
  else if n < 128 then ⟨fill, (v.high >>> Int64.ofNat (n - 64)).toUInt64⟩
  else ⟨fill, fill.toUInt64⟩

instance : HShiftLeft Coefficient Nat Coefficient := ⟨shiftLeft⟩

instance : HShiftRight Coefficient Nat Coefficient := ⟨shiftRight⟩

end WideDecimal.Coefficient
