import Mathlib.Tactic.Linarith
import Mathlib.Tactic.Ring

namespace WideDecimal

/-- The two leading digits of a divisor in base `B` and the three of a window that is less
than `B` times as large, with `P` the weight of the last of them. The first digit of the
divisor is at least half the base. -/
structure Leading (B P divisor window v0 v1 u0 u1 u2 : Nat) : Prop where
  divisor_le : (v0 * B + v1) * P ≤ divisor
  lt_divisor : divisor < (v0 * B + v1 + 1) * P
  window_le : ((u0 * B + u1) * B + u2) * P ≤ window
  lt_window : window < ((u0 * B + u1) * B + u2 + 1) * P
  window_lt : window < B * divisor
  half_le : B ≤ 2 * v0
  v1_lt : v1 < B
  u2_lt : u2 < B

namespace Leading

variable {B P divisor window v0 v1 u0 u1 u2 : Nat}

theorem first_pos (h : Leading B P divisor window v0 v1 u0 u1 u2) : 0 < v0 := by
  have := h.half_le
  have := h.v1_lt
  omega

theorem divisor_pos (h : Leading B P divisor window v0 v1 u0 u1 u2) : 0 < divisor := by
  have hlt := h.window_lt
  rcases Nat.eq_zero_or_pos divisor with rfl | hpos
  · simp at hlt
  · exact hpos

theorem quotient_lt (h : Leading B P divisor window v0 v1 u0 u1 u2) : window / divisor < B := by
  apply Nat.div_lt_of_lt_mul
  rw [Nat.mul_comm]
  exact h.window_lt

theorem first_le (h : Leading B P divisor window v0 v1 u0 u1 u2) : u0 ≤ v0 := by
  by_contra hlt
  have hfirst : (v0 + 1) * (B * B * P) ≤ u0 * (B * B * P) := Nat.mul_le_mul_right _ (by omega)
  have hdivisor : B * divisor ≤ B * ((v0 * B + v1 + 1) * P) :=
    Nat.mul_le_mul_left B h.lt_divisor.le
  have hsecond : B * P * (v1 + 1) ≤ B * P * B := Nat.mul_le_mul_left _ h.v1_lt
  have hwindow := h.window_le
  have hbound := h.window_lt
  have hrest : 0 ≤ (u1 * B + u2) * P := Nat.zero_le _
  nlinarith

/-- A guess is not too small once its multiple of the first digit is within one digit of the
two leading digits of the window. -/
theorem quotient_le_of_lt (h : Leading B P divisor window v0 v1 u0 u1 u2) {guess : Nat}
    (hguess : u0 * B + u1 < (guess + 1) * v0) : window / divisor ≤ guess := by
  have hlead : (u0 * B + u1 + 1) * (B * P) ≤ (guess + 1) * v0 * (B * P) :=
    Nat.mul_le_mul_right _ hguess
  have hwindow : window < (u0 * B + u1 + 1) * (B * P) := by
    have hlt := h.lt_window
    have hu2 : (u2 + 1) * P ≤ B * P := Nat.mul_le_mul_right P h.u2_lt
    linarith [hlt, hu2, show ((u0 * B + u1) * B + u2 + 1) * P =
      (u0 * B + u1) * (B * P) + (u2 + 1) * P by ring]
  have hdivisor : (guess + 1) * v0 * (B * P) ≤ (guess + 1) * divisor := by
    have hle : v0 * (B * P) ≤ divisor := by
      have := h.divisor_le
      linarith [Nat.zero_le (v1 * P), show (v0 * B + v1) * P = v0 * (B * P) + v1 * P by ring]
    rw [Nat.mul_assoc]
    exact Nat.mul_le_mul_left _ hle
  have hlt : window < (guess + 1) * divisor := by omega
  exact Nat.lt_succ_iff.mp (Nat.div_lt_of_lt_mul (by rwa [Nat.mul_comm]))

/-- A guess that leaves too little for its multiple of the second digit is too large. -/
theorem quotient_lt_of_overshoot (h : Leading B P divisor window v0 v1 u0 u1 u2)
    {guess left : Nat} (hlead : guess * v0 + left = u0 * B + u1)
    (hover : left * B + u2 < v1 * guess) : window / divisor < guess := by
  apply Nat.div_lt_of_lt_mul
  have hwindow := h.lt_window
  rw [← hlead] at hwindow
  have hsecond : (left * B + u2 + 1) * P ≤ v1 * guess * P := Nat.mul_le_mul_right P hover
  have hdivisor : (v0 * B + v1) * P * guess ≤ divisor * guess :=
    Nat.mul_le_mul_right guess h.divisor_le
  linarith [show ((guess * v0 + left) * B + u2 + 1) * P =
      guess * v0 * B * P + (left * B + u2 + 1) * P by ring,
    show (v0 * B + v1) * P * guess = guess * v0 * B * P + v1 * guess * P by ring]

/-- A guess of one digit that leaves enough for its multiple of the second digit is too large
by at most one. -/
theorem guess_le_of_fits (h : Leading B P divisor window v0 v1 u0 u1 u2) {guess left : Nat}
    (hlead : guess * v0 + left = u0 * B + u1) (hguess : guess < B)
    (hfits : B ≤ left ∨ v1 * guess ≤ left * B + u2) : guess ≤ window / divisor + 1 := by
  have hsecond : v1 * guess ≤ left * B + u2 := by
    rcases hfits with hleft | hfits
    · calc v1 * guess ≤ B * B := Nat.mul_le_mul h.v1_lt.le hguess.le
        _ ≤ left * B := Nat.mul_le_mul_right B hleft
        _ ≤ left * B + u2 := Nat.le_add_right _ _
    · exact hfits
  have hwindow := h.window_le
  rw [← hlead] at hwindow
  -- What the guess takes beyond the leading digits stays below one more divisor.
  have hrest : guess * divisor ≤ window + divisor := by
    have hdivisor : guess * divisor ≤ guess * ((v0 * B + v1) * P + P) := by
      apply Nat.mul_le_mul_left
      have := h.lt_divisor
      linarith [show (v0 * B + v1 + 1) * P = (v0 * B + v1) * P + P by ring]
    have hsmall : guess * P ≤ divisor := by
      have hfirst : B * P ≤ v0 * (B * P) := Nat.le_mul_of_pos_left _ h.first_pos
      have hle := h.divisor_le
      have hguessP : guess * P ≤ B * P := Nat.mul_le_mul_right P hguess.le
      linarith [Nat.zero_le (v1 * P), show (v0 * B + v1) * P = v0 * (B * P) + v1 * P by ring]
    have hsecondP : v1 * guess * P ≤ (left * B + u2) * P := Nat.mul_le_mul_right P hsecond
    linarith [show guess * ((v0 * B + v1) * P + P) =
        guess * v0 * B * P + v1 * guess * P + guess * P by ring,
      show ((guess * v0 + left) * B + u2) * P =
        guess * v0 * B * P + (left * B + u2) * P by ring]
  rcases Nat.eq_zero_or_pos guess with rfl | hpos
  · exact Nat.zero_le _
  · have hpred : (guess - 1) * divisor ≤ window := by
      rw [Nat.sub_mul, Nat.one_mul]
      omega
    have := (Nat.le_div_iff_mul_le h.divisor_pos).mpr hpred
    omega

end Leading

end WideDecimal
