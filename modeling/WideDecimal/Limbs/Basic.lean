import WideDecimal.Coefficient.Basic
import WideDecimal.Error

namespace WideDecimal

/-- A number in base `2 ^ 32`, most significant limb first. -/
abbrev Limbs := List UInt32

namespace Limbs

def toNat : Limbs → Nat
  | [] => 0
  | x :: limbs => x.toNat * 2 ^ (32 * limbs.length) + toNat limbs

theorem toNat_lt (limbs : Limbs) : toNat limbs < 2 ^ (32 * limbs.length) := by
  induction limbs with
  | nil => simp [toNat]
  | cons x limbs ih =>
    have hx : x.toNat + 1 ≤ 2 ^ 32 := x.toNat_lt
    have h := Nat.mul_le_mul_right (2 ^ (32 * limbs.length)) hx
    rw [Nat.add_mul, Nat.one_mul, ← Nat.pow_add] at h
    rw [toNat, List.length_cons, show 32 * (limbs.length + 1) = 32 + 32 * limbs.length by omega]
    omega

theorem toNat_dropWhile_zero (limbs : Limbs) : toNat (limbs.dropWhile (· = 0)) = toNat limbs := by
  induction limbs with
  | nil => rfl
  | cons x limbs ih =>
    by_cases h : x = 0
    · simp [h, ih, toNat]
    · simp [h]

/-- The longest limbs that division handles: a magnitude, and one more in front. -/
def capacity : Nat := 5

def join (high low : UInt32) : UInt64 := high.toUInt64 <<< 32 ||| low.toUInt64

theorem toNat_join (high low : UInt32) :
    (join high low).toNat = high.toNat * 2 ^ 32 + low.toNat := by
  have hh := high.toNat_lt
  have hl := low.toNat_lt
  have hs : (high.toUInt64 <<< 32).toNat = high.toNat <<< 32 := by
    rw [UInt64.toNat_shiftLeft, UInt32.toNat_toUInt64, Nat.shiftLeft_eq, Nat.shiftLeft_eq]
    exact Nat.mod_eq_of_lt (by simp; omega)
  rw [join, UInt64.toNat_or, hs, UInt32.toNat_toUInt64, ← Nat.shiftLeft_add_eq_or_of_lt hl,
    Nat.shiftLeft_eq]

def leadingZeros (x : UInt32) : Nat := if x = 0 then 32 else 31 - x.toNat.log2

/-- Each limb takes in the high bits of the next; those of the first are lost. -/
def pushLeft (bits : Nat) : Limbs → Limbs
  | [] => []
  | x :: limbs =>
    (x <<< UInt32.ofNat bits ||| limbs.headD 0 >>> UInt32.ofNat (32 - bits)) ::
      pushLeft bits limbs

/-- Each limb takes in the low bits of the one before, the first those of `before`. -/
def pushRight (bits : Nat) (before : UInt32) : Limbs → Limbs
  | [] => []
  | x :: limbs =>
    (x >>> UInt32.ofNat bits ||| before <<< UInt32.ofNat (32 - bits)) :: pushRight bits x limbs

/-- A shift by fewer bits than a limb has that keeps the number of limbs. -/
def shiftLeft (limbs : Limbs) (bits : Nat) : Limbs :=
  if bits = 0 then limbs else pushLeft bits limbs

/-- A shift by fewer bits than a limb has that keeps the number of limbs. -/
def shiftRight (limbs : Limbs) (bits : Nat) : Limbs :=
  if bits = 0 then limbs else pushRight bits 0 limbs

/-- The coefficient that limbs build: up to four of them, or five after a zero. -/
def toCoefficient? : Limbs → Except Error Coefficient
  | [] => .ok .zero
  | [a] => .ok ⟨0, a.toUInt64⟩
  | [a, b] => .ok ⟨0, join a b⟩
  | [a, b, c] => .ok ⟨a.toUInt64.toInt64, join b c⟩
  | [a, b, c, d] => .ok ⟨(join a b).toInt64, join c d⟩
  | [0, a, b, c, d] => .ok ⟨(join a b).toInt64, join c d⟩
  | limbs => .error (.limbCount limbs.length)

end Limbs

/-- The limbs of the absolute value, without zeros in front; zero has none. -/
def Coefficient.limbs (v : Coefficient) : Limbs :=
  let (high, low) := v.magnitude
  [(high >>> 32).toUInt32, high.toUInt32, (low >>> 32).toUInt32, low.toUInt32].dropWhile (· = 0)

theorem Coefficient.toNat_limbs (v : Coefficient) : v.limbs.toNat = v.toInt.natAbs := by
  have hh := v.magnitude.1.toNat_lt
  have hl := v.magnitude.2.toNat_lt
  rw [limbs, Limbs.toNat_dropWhile_zero, ← v.toNat_magnitude]
  simp [Limbs.toNat, UInt64.toNat_shiftRight, Nat.shiftRight_eq_div_pow]
  omega

end WideDecimal
