import Mathlib.Algebra.Order.Floor.Div
import Mathlib.Data.Nat.Count
import Mathlib.Data.Set.Card
import Mathlib.Order.Interval.Finset.Nat
import WideDecimal.Proofs.TwosComplement
import WideDecimal.Sampling

namespace WideDecimal.Sampling

/-- A stretch of multiples that is itself a multiple long. -/
theorem stretch_iff {size start count n : Nat} (hpos : 0 < size) :
    start ≤ n * size ∧ n * size < start + size * count ↔
      n ∈ Finset.Ico (start ⌈/⌉ size) (start ⌈/⌉ size + count) := by
  have hend : (start + size * count) ⌈/⌉ size = start ⌈/⌉ size + count := by
    rw [Nat.ceilDiv_eq_add_pred_div, Nat.ceilDiv_eq_add_pred_div, ← Nat.add_mul_div_left _ _ hpos]
    congr 1
    omega
  rw [Finset.mem_Ico, ← hend, ceilDiv_le_iff_le_mul hpos, ← Nat.not_le (a := _ ⌈/⌉ _),
    ceilDiv_le_iff_le_mul hpos, Nat.mul_comm n, Nat.not_le]

/-- The multiple `n * size` falls into stretch `k`, close enough to its start. -/
def InStretch (m size k n : Nat) : Prop := n * size / m = k ∧ n * size % m < size * (m / size)

instance (m size k n : Nat) : Decidable (InStretch m size k n) :=
  inferInstanceAs (Decidable (_ ∧ _))

theorem inStretch_iff {m size k n : Nat} :
    InStretch m size k n ↔ k * m ≤ n * size ∧ n * size < k * m + size * (m / size) := by
  have hzone : size * (m / size) ≤ m := Nat.mul_div_le m size
  have hdiv := Nat.div_add_mod' (n * size) m
  constructor
  · rintro ⟨rfl, hlt⟩
    omega
  · rintro ⟨hle, hlt⟩
    have hquotient : n * size / m = k := Nat.div_eq_of_lt_le hle (by rw [Nat.succ_mul]; omega)
    rw [hquotient] at hdiv
    exact ⟨hquotient, by omega⟩

/-- Each of the `size` stretches of length `m` has equally many multiples close to its start. -/
theorem count_inStretch {m size k : Nat} (hpos : 0 < size) (hk : k < size) :
    Nat.count (InStretch m size k) m = m / size := by
  have hzone : size * (m / size) ≤ m := Nat.mul_div_le m size
  have hkept : (Finset.range m).filter (InStretch m size k) =
      Finset.Ico (k * m ⌈/⌉ size) (k * m ⌈/⌉ size + m / size) := by
    ext n
    rw [Finset.mem_filter, Finset.mem_range, inStretch_iff, ← stretch_iff hpos,
      and_iff_right_iff_imp]
    rintro ⟨-, hlt⟩
    -- The stretch of the greatest value ends with the multiples.
    have hlast : (k + 1) * m ≤ size * m := Nat.mul_le_mul_right m hk
    rw [Nat.succ_mul] at hlast
    apply Nat.lt_of_mul_lt_mul_right (a := size)
    rw [Nat.mul_comm m]
    omega
  rw [Nat.count_eq_card_filter_range, hkept, Nat.card_Ico, Nat.add_sub_cancel_left]

namespace Range

variable {r : Range}

theorem isSome_pick_zero (r : Range) : (r.pick 0).isSome := by
  unfold pick
  split
  · rfl
  · simp

theorem le_zone_iff (hpos : 0 < r.size) (hle : r.size ≤ modulus) (n : Nat) :
    n ≤ r.zone ↔ n < r.size * (modulus / r.size) := by
  have hdiv := Nat.div_add_mod modulus r.size
  have hreject : (modulus - r.size) % r.size = modulus % r.size := by
    rw [Nat.mod_eq_sub_mod hle]
  have hlt := Nat.mod_lt modulus hpos
  unfold zone
  omega

/-- A range whose integers all have coefficients. -/
structure Proper (r : Range) : Prop where
  pos : 0 < r.size
  lower : -2 ^ 127 ≤ r.low
  upper : r.low + r.size ≤ 2 ^ 127

theorem Proper.size_le (h : r.Proper) : r.size ≤ modulus := by
  have hlower := h.lower
  have hupper := h.upper
  unfold modulus
  omega

theorem Proper.bmod_eq (h : r.Proper) {k : Nat} (hk : k < r.size) :
    (r.low + k).bmod modulus = r.low + k := by
  have hlower := h.lower
  have hupper := h.upper
  rw [Int.bmod_def, modulus]
  omega

theorem Proper.quotient_lt (h : r.Proper) {n : Nat} (hn : n < modulus) :
    n * r.size / modulus < r.size :=
  Nat.div_lt_of_lt_mul (Nat.mul_lt_mul_of_pos_right hn h.pos)

/-- A number is kept for the value whose stretch it falls into. -/
theorem Proper.pick_eq_some_iff (h : r.Proper) {n : Nat} (hn : n < modulus) {m : Int} :
    r.pick n = some m ↔ ∃ k < r.size, m = r.low + k ∧ InStretch modulus r.size k n := by
  have hquotient := h.quotient_lt hn
  have hvalue := h.bmod_eq hquotient
  rw [pick, if_neg (Nat.ne_of_gt h.pos)]
  simp only [le_zone_iff h.pos h.size_le]
  split
  next hkept =>
    rw [Option.some.injEq, hvalue]
    constructor
    · rintro rfl
      exact ⟨_, hquotient, rfl, rfl, hkept⟩
    · rintro ⟨k, -, rfl, rfl, -⟩
      rfl
  next hagain =>
    constructor
    · intro hm
      cases hm
    · rintro ⟨k, -, -, -, hkept⟩
      exact absurd hkept hagain

theorem Proper.bounds_of_pick (h : r.Proper) {n : Nat} (hn : n < modulus) {m : Int}
    (hm : r.pick n = some m) : r.low ≤ m ∧ m < r.low + r.size := by
  obtain ⟨k, hk, rfl, -⟩ := (h.pick_eq_some_iff hn).mp hm
  omega

theorem Proper.count_pick (h : r.Proper) {m : Int} (hlow : r.low ≤ m)
    (hhigh : m < r.low + r.size) :
    Nat.count (fun n => r.pick n = some m) modulus = modulus / r.size := by
  obtain ⟨k, rfl⟩ := Int.le.dest hlow
  have hk : k < r.size := by omega
  have hstretch : (Finset.range modulus).filter (fun n => r.pick n = some (r.low + k)) =
      (Finset.range modulus).filter (InStretch modulus r.size k) := by
    apply Finset.filter_congr
    intro n hn
    rw [h.pick_eq_some_iff (Finset.mem_range.mp hn)]
    constructor
    · rintro ⟨j, -, hj, hin⟩
      obtain rfl : j = k := by omega
      exact hin
    · intro hin
      exact ⟨k, hk, rfl, hin⟩
  rw [Nat.count_eq_card_filter_range, hstretch, ← Nat.count_eq_card_filter_range,
    count_inStretch h.pos hk]

end Range

end WideDecimal.Sampling
