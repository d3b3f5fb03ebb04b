import WideDecimal.Coefficient.Basic

namespace WideDecimal

namespace Bytes

/-- The last `count` base-256 digits of a number, least significant first. -/
def ofNat : Nat → Nat → List UInt8
  | 0, _ => []
  | count + 1, n => UInt8.ofNat n :: ofNat count (n / 256)

/-- The number with these base-256 digits, least significant first. -/
def toNat : List UInt8 → Nat
  | [] => 0
  | b :: bytes => b.toNat + 256 * toNat bytes

@[simp] theorem length_ofNat (count n : Nat) : (ofNat count n).length = count := by
  induction count generalizing n with
  | zero => rfl
  | succ count ih => simp [ofNat, ih]

theorem toNat_ofNat (count n : Nat) : toNat (ofNat count n) = n % 256 ^ count := by
  induction count generalizing n with
  | zero => simp [ofNat, toNat, Nat.mod_one]
  | succ count ih =>
    rw [ofNat, toNat, ih, Nat.pow_succ', Nat.mod_mul]
    simp

theorem ofNat_toNat (bytes : List UInt8) : ofNat bytes.length (toNat bytes) = bytes := by
  induction bytes with
  | nil => rfl
  | cons b bytes ih =>
    have hb := b.toNat_lt
    rw [List.length_cons, toNat, ofNat]
    congr 1
    · simp [UInt8.ofNat_add, UInt8.ofNat_mul]
    · rw [show (b.toNat + 256 * toNat bytes) / 256 = toNat bytes by omega, ih]

def ofWord (w : UInt64) : List UInt8 := ofNat 8 w.toNat

def toWord (bytes : List UInt8) : UInt64 := .ofNat (toNat bytes)

/-- Why bytes are not the layout of one coefficient. -/
inductive Failure where
  | tooShort
  | tooLong
  deriving DecidableEq

def Failure.message : Failure → String
  | tooShort => "failed to fill whole buffer"
  | tooLong => "Not all bytes read"

end Bytes

namespace Coefficient

def byteSize : Nat := 16

/-- The bytes of the low word, then those of the high word. -/
def toBytes (v : Coefficient) : List UInt8 := Bytes.ofWord v.low ++ Bytes.ofWord v.high.toUInt64

def ofBytes (bytes : List UInt8) : Coefficient :=
  ⟨(Bytes.toWord ((bytes.drop 8).take 8)).toInt64, Bytes.toWord (bytes.take 8)⟩

def takeBytes (bytes : List UInt8) : Except Bytes.Failure (Coefficient × List UInt8) :=
  if bytes.length < byteSize then .error .tooShort
  else .ok (ofBytes (bytes.take byteSize), bytes.drop byteSize)

/-- The coefficient of which bytes are the whole layout. -/
def ofAllBytes (bytes : List UInt8) : Except Bytes.Failure Coefficient :=
  match takeBytes bytes with
  | .ok (v, []) => .ok v
  | .ok (_, _ :: _) => .error .tooLong
  | .error e => .error e

end Coefficient

end WideDecimal
