import Mathlib.Tactic.Linarith
import Mathlib.Tactic.Ring
import WideDecimal.Limbs.Basic
import WideDecimal.Proofs.Guarded

namespace WideDecimal

namespace Limbs

theorem weight_succ (n : Nat) : 2 ^ (32 * (n + 1)) = 2 ^ 32 * 2 ^ (32 * n) := by
  rw [Nat.mul_add, Nat.pow_add, Nat.mul_comm]

theorem toNat_cons (x : UInt32) (limbs : Limbs) :
    toNat (x :: limbs) = x.toNat * 2 ^ (32 * limbs.length) + toNat limbs := rfl

theorem toNat_append (xs ys : Limbs) :
    toNat (xs ++ ys) = toNat xs * 2 ^ (32 * ys.length) + toNat ys := by
  induction xs with
  | nil => simp [toNat]
  | cons x xs ih =>
    rw [List.cons_append, toNat_cons, toNat_cons, ih, List.length_append, Nat.mul_add,
      Nat.pow_add]
    ring

theorem toNat_concat (limbs : Limbs) (x : UInt32) :
    toNat (limbs ++ [x]) = toNat limbs * 2 ^ 32 + x.toNat := by
  simp [toNat_append, toNat]

theorem toNat_div_weight (x : UInt32) (limbs : Limbs) :
    toNat (x :: limbs) / 2 ^ (32 * limbs.length) = x.toNat := by
  have hpos : 0 < 2 ^ (32 * limbs.length) := Nat.two_pow_pos _
  rw [toNat_cons, Nat.mul_comm, Nat.mul_add_div hpos, Nat.div_eq_of_lt (toNat_lt limbs),
    Nat.add_zero]

theorem toNat_headD (limbs : Limbs) :
    (limbs.headD 0).toNat = toNat limbs / 2 ^ (32 * (limbs.length - 1)) := by
  cases limbs with
  | nil => simp [toNat]
  | cons x limbs => exact (toNat_div_weight x limbs).symm

theorem head_eq_zero_of_lt {x : UInt32} {limbs : Limbs}
    (h : toNat (x :: limbs) < 2 ^ (32 * limbs.length)) : x = 0 := by
  have hx := toNat_div_weight x limbs
  rw [Nat.div_eq_of_lt h] at hx
  exact UInt32.toNat_inj.mp hx.symm

theorem weight_le_toNat {x : UInt32} {limbs : Limbs} (h : x ≠ 0) :
    2 ^ (32 * limbs.length) ≤ toNat (x :: limbs) := by
  by_contra hlt
  exact h (head_eq_zero_of_lt (Nat.lt_of_not_le hlt))

@[simp] theorem length_pushLeft (bits : Nat) (limbs : Limbs) :
    (pushLeft bits limbs).length = limbs.length := by
  induction limbs with
  | nil => rfl
  | cons x limbs ih => simp [pushLeft, ih]

@[simp] theorem length_pushRight (bits : Nat) (before : UInt32) (limbs : Limbs) :
    (pushRight bits before limbs).length = limbs.length := by
  induction limbs generalizing before with
  | nil => rfl
  | cons x limbs ih => simp [pushRight, ih]

@[simp] theorem length_shiftLeft (limbs : Limbs) (bits : Nat) :
    (limbs.shiftLeft bits).length = limbs.length := by
  unfold shiftLeft
  split <;> simp

@[simp] theorem length_shiftRight (limbs : Limbs) (bits : Nat) :
    (limbs.shiftRight bits).length = limbs.length := by
  unfold shiftRight
  split <;> simp

section Shift

variable {bits : Nat}

theorem toNat_limb_shiftLeft (h : bits < 32) (x : UInt32) :
    (x <<< UInt32.ofNat bits).toNat = x.toNat * 2 ^ bits % 2 ^ 32 := by
  have hb : (UInt32.ofNat bits).toNat % 32 = bits := by
    rw [UInt32.toNat_ofNat']
    omega
  rw [UInt32.toNat_shiftLeft, hb, Nat.shiftLeft_eq]

theorem toNat_limb_shiftRight (h : bits < 32) (x : UInt32) :
    (x >>> UInt32.ofNat bits).toNat = x.toNat / 2 ^ bits := by
  have hb : (UInt32.ofNat bits).toNat % 32 = bits := by
    rw [UInt32.toNat_ofNat']
    omega
  rw [UInt32.toNat_shiftRight, hb, Nat.shiftRight_eq_div_pow]

theorem weight_split (h : bits < 32) : 2 ^ 32 = 2 ^ (32 - bits) * 2 ^ bits := by
  rw [← Nat.pow_add, Nat.sub_add_cancel h.le]

theorem shiftedLeft_eq (h : bits < 32) (n : Nat) :
    n * 2 ^ bits % 2 ^ 32 = n % 2 ^ (32 - bits) * 2 ^ bits := by
  rw [weight_split h, Nat.mul_mod_mul_right]

theorem pushedOut_lt (h : bits < 32) (x : UInt32) : x.toNat / 2 ^ (32 - bits) < 2 ^ bits := by
  apply Nat.div_lt_of_lt_mul
  rw [← weight_split h]
  exact x.toNat_lt

theorem toNat_takeIn_left (hpos : 0 < bits) (h : bits < 32) (x y : UInt32) :
    (x <<< UInt32.ofNat bits ||| y >>> UInt32.ofNat (32 - bits)).toNat =
      (x.toNat * 2 ^ bits + y.toNat / 2 ^ (32 - bits)) % 2 ^ 32 := by
  have hy := pushedOut_lt h y
  have hlt : x.toNat % 2 ^ (32 - bits) * 2 ^ bits + y.toNat / 2 ^ (32 - bits) < 2 ^ 32 := by
    have hx : x.toNat % 2 ^ (32 - bits) + 1 ≤ 2 ^ (32 - bits) :=
      Nat.mod_lt _ (Nat.two_pow_pos _)
    have hmul := Nat.mul_le_mul_right (2 ^ bits) hx
    rw [← weight_split h, Nat.add_mul, Nat.one_mul] at hmul
    omega
  rw [UInt32.toNat_or, toNat_limb_shiftLeft h, toNat_limb_shiftRight (by omega),
    shiftedLeft_eq h, ← Nat.shiftLeft_eq, ← Nat.shiftLeft_add_eq_or_of_lt hy, Nat.shiftLeft_eq,
    ← Nat.mod_eq_of_lt hlt, ← shiftedLeft_eq h, Nat.mod_add_mod]

theorem toNat_takeIn_right (hpos : 0 < bits) (h : bits < 32) (x before : UInt32) :
    (x >>> UInt32.ofNat bits ||| before <<< UInt32.ofNat (32 - bits)).toNat =
      (before.toNat * 2 ^ (32 - bits) + x.toNat / 2 ^ bits) % 2 ^ 32 := by
  have hback : 32 - (32 - bits) = bits := by omega
  rw [UInt32.or_comm]
  have hleft := toNat_takeIn_left (show 0 < 32 - bits by omega) (by omega) before x
  rwa [hback] at hleft

/-- What leaves limbs at the top comes from the first limb alone. -/
theorem toNat_shifted_div_weight (h : bits < 32) (limbs : Limbs) :
    toNat limbs * 2 ^ bits / 2 ^ (32 * limbs.length) =
      (limbs.headD 0).toNat / 2 ^ (32 - bits) := by
  cases limbs with
  | nil =>
    simp [toNat]
  | cons x limbs =>
    have hweight : 2 ^ (32 * (limbs.length + 1)) =
        2 ^ (32 * limbs.length) * 2 ^ (32 - bits) * 2 ^ bits := by
      rw [weight_succ, weight_split h]
      ring
    rw [List.length_cons, hweight, Nat.mul_div_mul_right _ _ (Nat.two_pow_pos bits),
      ← Nat.div_div_eq_div_mul, toNat_div_weight, List.headD_cons]

theorem mul_weight_add_mod {a t w m : Nat} (h : t < w) : (a * w + t) % (m * w) = a % m * w + t := by
  have hw : 0 < w := by omega
  rw [Nat.mul_comm m w, Nat.mod_mul, Nat.mul_comm a w, Nat.mul_add_mod, Nat.mod_eq_of_lt h,
    Nat.mul_add_div hw, Nat.div_eq_of_lt h, Nat.add_zero]
  ring

theorem toNat_pushLeft (hpos : 0 < bits) (h : bits < 32) (limbs : Limbs) :
    toNat (pushLeft bits limbs) = toNat limbs * 2 ^ bits % 2 ^ (32 * limbs.length) := by
  induction limbs with
  | nil => simp [pushLeft, toNat]
  | cons x limbs ih =>
    have hsplit := Nat.div_add_mod (toNat limbs * 2 ^ bits) (2 ^ (32 * limbs.length))
    have hlt := Nat.mod_lt (toNat limbs * 2 ^ bits) (Nat.two_pow_pos (32 * limbs.length))
    rw [toNat_shifted_div_weight h] at hsplit
    calc toNat (pushLeft bits (x :: limbs))
        = (x.toNat * 2 ^ bits + (limbs.headD 0).toNat / 2 ^ (32 - bits)) % 2 ^ 32 *
            2 ^ (32 * limbs.length) + toNat limbs * 2 ^ bits % 2 ^ (32 * limbs.length) := by
          rw [pushLeft, toNat_cons, length_pushLeft, ih, toNat_takeIn_left hpos h]
      _ = ((x.toNat * 2 ^ bits + (limbs.headD 0).toNat / 2 ^ (32 - bits)) *
            2 ^ (32 * limbs.length) + toNat limbs * 2 ^ bits % 2 ^ (32 * limbs.length)) %
              (2 ^ 32 * 2 ^ (32 * limbs.length)) := (mul_weight_add_mod hlt).symm
      _ = toNat (x :: limbs) * 2 ^ bits % 2 ^ (32 * (x :: limbs).length) := by
          rw [List.length_cons, weight_succ, toNat_cons]
          congr 1
          linarith only [hsplit]

/-- A shift to the left loses what goes beyond the limbs. -/
theorem toNat_shiftLeft (h : bits < 32) (limbs : Limbs) :
    toNat (limbs.shiftLeft bits) = toNat limbs * 2 ^ bits % 2 ^ (32 * limbs.length) := by
  unfold shiftLeft
  split
  next hzero => rw [hzero, Nat.pow_zero, Nat.mul_one, Nat.mod_eq_of_lt (toNat_lt limbs)]
  next hpos => exact toNat_pushLeft (Nat.pos_of_ne_zero hpos) h limbs

theorem toNat_pushRight (hpos : 0 < bits) (h : bits < 32) (before : UInt32) (limbs : Limbs) :
    toNat (pushRight bits before limbs) =
      (before.toNat * 2 ^ (32 * limbs.length) + toNat limbs) / 2 ^ bits %
        2 ^ (32 * limbs.length) := by
  induction limbs generalizing before with
  | nil => simp [pushRight, toNat, Nat.mod_one]
  | cons x limbs ih =>
    have hbits := Nat.two_pow_pos bits
    have hweight := Nat.two_pow_pos (32 * limbs.length)
    -- The quotient by `2 ^ bits` splits into that of the first limb and that of the others.
    have hsplit := Nat.div_add_mod (toNat (x :: limbs) / 2 ^ bits) (2 ^ (32 * limbs.length))
    rw [Nat.div_div_eq_div_mul, Nat.mul_comm (2 ^ bits), ← Nat.div_div_eq_div_mul,
      toNat_div_weight] at hsplit
    have hlt := Nat.mod_lt (toNat (x :: limbs) / 2 ^ bits) hweight
    have hbefore : (before.toNat * 2 ^ (32 * (limbs.length + 1)) + toNat (x :: limbs)) / 2 ^ bits =
        before.toNat * 2 ^ (32 - bits) * 2 ^ (32 * limbs.length) +
          toNat (x :: limbs) / 2 ^ bits := by
      rw [weight_succ, weight_split h, show before.toNat * (2 ^ (32 - bits) * 2 ^ bits *
        2 ^ (32 * limbs.length)) = 2 ^ bits * (before.toNat * 2 ^ (32 - bits) *
          2 ^ (32 * limbs.length)) by ring, Nat.mul_add_div hbits]
    calc toNat (pushRight bits before (x :: limbs))
        = (before.toNat * 2 ^ (32 - bits) + x.toNat / 2 ^ bits) % 2 ^ 32 *
            2 ^ (32 * limbs.length) + toNat (x :: limbs) / 2 ^ bits % 2 ^ (32 * limbs.length) := by
          rw [pushRight, toNat_cons, length_pushRight, ih, toNat_takeIn_right hpos h, ← toNat_cons]
      _ = ((before.toNat * 2 ^ (32 - bits) + x.toNat / 2 ^ bits) * 2 ^ (32 * limbs.length) +
            toNat (x :: limbs) / 2 ^ bits % 2 ^ (32 * limbs.length)) %
              (2 ^ 32 * 2 ^ (32 * limbs.length)) := (mul_weight_add_mod hlt).symm
      _ = _ := by
          rw [List.length_cons, hbefore, weight_succ]
          congr 1
          linarith only [hsplit]

theorem toNat_shiftRight (h : bits < 32) (limbs : Limbs) :
    toNat (limbs.shiftRight bits) = toNat limbs / 2 ^ bits := by
  unfold shiftRight
  split
  next hzero => rw [hzero, Nat.pow_zero, Nat.div_one]
  next hpos =>
    have hlt : toNat limbs / 2 ^ bits < 2 ^ (32 * limbs.length) :=
      Nat.lt_of_le_of_lt (Nat.div_le_self _ _) (toNat_lt limbs)
    rw [toNat_pushRight (Nat.pos_of_ne_zero hpos) h, UInt32.toNat_zero, Nat.zero_mul,
      Nat.zero_add, Nat.mod_eq_of_lt hlt]

end Shift

end Limbs

end WideDecimal
