import WideDecimal.Proofs.Division
import WideDecimal.Proofs.InPlaceShift

namespace WideDecimal

namespace Limbs

/-- The windows that the rounds of a long division work on. -/
inductive Visits (divisor : Limbs) : Limbs → Limbs → Limbs → Prop
  | here (window limbs : Limbs) : Visits divisor window limbs window
  | later {window rest limbs visited : Limbs} {q top x : UInt32}
    (hround : (round divisor window).value = (q, top :: rest))
    (h : Visits divisor (rest ++ [x]) limbs visited) : Visits divisor window (x :: limbs) visited

theorem Visits.ready {divisor window limbs visited : Limbs}
    (h : Visits divisor window limbs visited) (hready : Ready divisor window) :
    Ready divisor visited := by
  induction h with
  | here => exact hready
  | later hround _ ih =>
    obtain ⟨-, hrest, hlength⟩ := hround ▸ (round_holds hready).value
    exact ih (hready.next hrest hlength _).2

/-- Five limbs start with a zero where their number takes no more than four. -/
theorem head?_of_toNat_lt {limbs : Limbs} (hlength : limbs.length = capacity)
    (hlt : toNat limbs < 2 ^ 128) : limbs.head? = some 0 := by
  cases limbs with
  | nil => cases hlength
  | cons x limbs =>
    have hrest : limbs.length = 4 := Nat.succ.inj hlength
    have hx : x = 0 := head_eq_zero_of_lt (by rwa [hrest])
    rw [hx, List.head?_cons]

end Limbs

namespace Coefficient

open Limbs (Visits Ready)

/-- The limbs that a division builds its results from. -/
inductive Builds (a b : Coefficient) : Limbs → Prop
  | byLimb {v : UInt32} {quotient : Limbs} {remainder : UInt64} (h : b.limbs = [v])
    (hlong : b.limbs.length ≤ a.limbs.length)
    (hdivide : (Limbs.divideByLimb v.toUInt64 0 (0 :: a.limbs)).value = (quotient, remainder)) :
    Builds a b quotient
  | quotient {v w : UInt32} {divisor quotient remainder : Limbs} (h : b.limbs = v :: w :: divisor)
    (hlong : b.limbs.length ≤ a.limbs.length)
    (hdivide : (Limbs.divideLong (0 :: a.limbs) b.limbs).value = (quotient, remainder)) :
    Builds a b quotient
  | remainder {v w : UInt32} {divisor quotient remainder : Limbs} (h : b.limbs = v :: w :: divisor)
    (hlong : b.limbs.length ≤ a.limbs.length)
    (hdivide : (Limbs.divideLong (0 :: a.limbs) b.limbs).value = (quotient, remainder)) :
    Builds a b remainder

/-- The divisor and the windows of the rounds in a division, both moved to the left until the top
bit of the divisor is set. -/
inductive Rounds (a b : Coefficient) : Limbs → Limbs → Prop
  | intro {v w : UInt32} {divisor visited : Limbs} (h : b.limbs = v :: w :: divisor)
    (hlong : b.limbs.length ≤ a.limbs.length)
    (hvisits : Visits (b.limbs.shiftLeft (Limbs.leadingZeros v))
      ((Limbs.shiftLeft (0 :: a.limbs) (Limbs.leadingZeros v)).take (b.limbs.length + 1))
      ((Limbs.shiftLeft (0 :: a.limbs) (Limbs.leadingZeros v)).drop (b.limbs.length + 1))
      visited) :
    Rounds a b (b.limbs.shiftLeft (Limbs.leadingZeros v)) visited

variable {a b : Coefficient}

theorem length_cons_limbs_le (v : Coefficient) : (0 :: v.limbs).length ≤ Limbs.capacity :=
  Nat.succ_le_succ v.length_limbs_le

theorem Builds.bounds {limbs : Limbs} (h : Builds a b limbs) :
    limbs.length ≤ Limbs.capacity ∧ Limbs.toNat limbs < 2 ^ 128 := by
  have hcapacity := a.length_cons_limbs_le
  cases h with
  | byLimb h _ hdivide =>
    obtain ⟨hlength, hquot, -⟩ := hdivide ▸ (divideByLimb_magnitudes a h).value
    refine ⟨hlength ▸ hcapacity, ?_⟩
    rw [hquot]
    exact Nat.lt_of_le_of_lt (Nat.div_le_self _ _) a.natAbs_lt
  | quotient h hlong hdivide =>
    obtain ⟨hquot, -, hlength, -⟩ := hdivide ▸ (divideLong_magnitudes h hlong).value
    dsimp only at hlength
    rw [List.length_cons] at hcapacity
    refine ⟨by omega, ?_⟩
    rw [hquot]
    exact Nat.lt_of_le_of_lt (Nat.div_le_self _ _) a.natAbs_lt
  | remainder h hlong hdivide =>
    obtain ⟨-, hrest, -, hlength⟩ := hdivide ▸ (divideLong_magnitudes h hlong).value
    refine ⟨hlength ▸ hcapacity, ?_⟩
    rw [hrest]
    exact Nat.lt_of_le_of_lt (Nat.mod_le _ _) a.natAbs_lt

theorem Rounds.ready {divisor window : Limbs} (h : Rounds a b divisor window) :
    Ready divisor window := by
  obtain ⟨h, hlong, hvisits⟩ := h
  apply hvisits.ready
  rw [h] at hlong ⊢
  exact Limbs.ready_normalized (head_ne_zero_of_limbs h) (by simp) hlong

/-- Checking the bounds at every step changes nothing about a division, and only a zero divisor
leaves it without a result. What it builds results from are at most five limbs, and five start with
a zero; a divisor has a first limb, and the shift that it asks for is by fewer bits than a limb has,
so that it can be made in place; a round finds a divisor of two limbs at least and a window of one
more, less than `2 ^ 32` times the divisor. -/
theorem divide_stays_in_bounds (a b : Coefficient) :
    (guardedDivide a b).checked = Part.some (divide a b) ∧
    (b ≠ zero → ∃ q r, divide a b = .ok (q, r)) ∧
    (∀ count, divide a b ≠ .error (.limbCount count)) ∧
    (0 :: a.limbs).length ≤ Limbs.capacity ∧ b.limbs.length ≤ Limbs.capacity ∧
    (∀ limbs, Builds a b limbs → limbs.length ≤ Limbs.capacity ∧
      (limbs.length = Limbs.capacity → limbs.head? = some 0) ∧
      ∃ v, Limbs.toCoefficient? limbs = .ok v) ∧
    (b ≠ zero → ∃ v divisor, b.limbs = v :: divisor) ∧
    (∀ v divisor, b.limbs = v :: divisor → Limbs.leadingZeros v < 32 ∧ ∀ limbs,
      (Limbs.shiftLeftInPlace limbs (Limbs.leadingZeros v)).checked =
        Part.some (Limbs.shiftLeft limbs (Limbs.leadingZeros v)) ∧
      (Limbs.shiftRightInPlace limbs (Limbs.leadingZeros v)).checked =
        Part.some (Limbs.shiftRight limbs (Limbs.leadingZeros v))) ∧
    ∀ divisor window, Rounds a b divisor window → Ready divisor window := by
  have hresult := divide_result a b
  unfold DivisionResult at hresult
  refine ⟨(guardedDivide_holds a b).checked, ?_, ?_, a.length_cons_limbs_le, ?_, ?_, ?_, ?_, ?_⟩
  · intro hne
    rw [if_neg (mt eq_zero_iff.mpr hne)] at hresult
    obtain ⟨q, r, hdivide, -⟩ := hresult
    exact ⟨q, r, hdivide⟩
  · intro count hdivide
    rw [hdivide] at hresult
    split at hresult
    next => cases hresult
    next =>
      obtain ⟨q, r, hok, -⟩ := hresult
      cases hok
  · exact Nat.le_of_succ_le b.length_cons_limbs_le
  · intro limbs hlimbs
    obtain ⟨hlength, hlt⟩ := hlimbs.bounds
    obtain ⟨v, hv, -⟩ := Limbs.toCoefficient?_eq hlength hlt
    exact ⟨hlength, fun hfive => Limbs.head?_of_toNat_lt hfive hlt, v, hv⟩
  · intro hne
    have hvalue : b.toInt ≠ 0 := mt eq_zero_iff.mpr hne
    exact List.exists_cons_of_ne_nil (mt b.limbs_eq_nil_iff.mp hvalue)
  · intro v divisor hlimbs
    have hbits := (Limbs.leadingZeros_spec (head_ne_zero_of_limbs hlimbs)).1
    exact ⟨hbits, fun limbs => ⟨(Limbs.shiftLeftInPlace_holds hbits limbs).checked_eq,
      (Limbs.shiftRightInPlace_holds hbits limbs).checked_eq⟩⟩
  · exact fun _ _ hround => hround.ready

theorem divide_stays_in_bounds_greatest :
    (∃ limbs window, Builds greatest ⟨1, 0⟩ limbs ∧ limbs.length ≤ Limbs.capacity ∧
      Rounds greatest ⟨1, 0⟩ [0x80000000, 0, 0] window ∧ Ready [0x80000000, 0, 0] window) ∧
    (⟨1, 0⟩ : Coefficient).limbs = [1, 0, 0] ∧
      (Limbs.shiftLeftInPlace [1, 0, 0] 31).checked = Part.some [0x80000000, 0, 0] := by
  have hdivisor : (⟨1, 0⟩ : Coefficient).limbs = [1, 0, 0] := by rfl
  have hlong : (⟨1, 0⟩ : Coefficient).limbs.length ≤ greatest.limbs.length := by decide
  have hbuilds : Builds greatest ⟨1, 0⟩ _ := .quotient hdivisor hlong rfl
  have hrounds : Rounds greatest ⟨1, 0⟩ [0x80000000, 0, 0] _ := .intro hdivisor hlong (.here _ _)
  have hbits : Limbs.leadingZeros 1 = 31 := by decide
  obtain ⟨-, -, -, -, -, hlimbs, -, hshift, hready⟩ := divide_stays_in_bounds greatest ⟨1, 0⟩
  refine ⟨⟨_, _, hbuilds, (hlimbs _ hbuilds).1, hrounds, hready _ _ hrounds⟩, hdivisor, ?_⟩
  have hinPlace := ((hshift 1 [0, 0] hdivisor).2 [1, 0, 0]).1
  rw [hbits] at hinPlace
  exact hinPlace

end Coefficient

end WideDecimal
