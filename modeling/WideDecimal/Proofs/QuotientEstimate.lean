import WideDecimal.Limbs.Division
import WideDecimal.Proofs.Guarded
import WideDecimal.Proofs.QuotientDigit

namespace WideDecimal.Limbs

open Guarded (Holds)

theorem estimate_holds {u0 u1 v0 : UInt32} (hpos : 0 < v0.toNat) (hle : u0.toNat ≤ v0.toNat) :
    (estimate u0 u1 v0).Holds fun result =>
      result.1.toNat < 2 ^ 32 ∧
      result.1.toNat * v0.toNat + result.2.toNat = u0.toNat * 2 ^ 32 + u1.toNat ∧
      (result.1.toNat = 2 ^ 32 - 1 ∨ result.2.toNat < v0.toNat) := by
  have hu1 := u1.toNat_lt
  have hv0 := v0.toNat_lt
  have hjoin := toNat_join u0 u1
  have hleft : ∀ guess : UInt64, guess.toNat < 2 ^ 32 ∧
      guess.toNat * v0.toNat ≤ u0.toNat * 2 ^ 32 + u1.toNat ∧ (guess.toNat = 2 ^ 32 - 1 ∨
        u0.toNat * 2 ^ 32 + u1.toNat < guess.toNat * v0.toNat + v0.toNat) →
      Holds (Guarded.mul guess v0.toUInt64 >>= fun product =>
        Guarded.sub (join u0 u1) product >>= fun left => pure (guess, left)) fun result =>
          result.1.toNat < 2 ^ 32 ∧
          result.1.toNat * v0.toNat + result.2.toNat = u0.toNat * 2 ^ 32 + u1.toNat ∧
          (result.1.toNat = 2 ^ 32 - 1 ∨ result.2.toNat < v0.toNat) := by
    rintro guess ⟨hlt, hmul, hbound⟩
    refine Holds.bind (Guarded.holds_mul ?_) fun product hp => ?_
    · rw [UInt32.toNat_toUInt64]
      omega
    rw [UInt32.toNat_toUInt64] at hp
    refine Holds.bind (Guarded.holds_sub (by omega)) fun left hl => Holds.pure ?_
    rw [hjoin, hp] at hl
    dsimp only
    omega
  unfold estimate
  dsimp only
  split
  next heq =>
    subst heq
    have hmax : (0xFFFFFFFF : UInt64).toNat = 2 ^ 32 - 1 := rfl
    refine Holds.bind (Holds.pure ⟨?_, ?_, Or.inl hmax⟩) hleft
    · omega
    · rw [hmax]
      omega
  next hne =>
    have hlt : u0.toNat < v0.toNat := by
      have : u0.toNat ≠ v0.toNat := fun e => hne (UInt32.toNat_inj.mp e)
      omega
    refine Holds.bind ((Guarded.holds_div (by simpa using hpos)).imp fun guess hdiv => ?_) hleft
    rw [hjoin, UInt32.toNat_toUInt64] at hdiv
    have hmul := Nat.div_mul_le_self (u0.toNat * 2 ^ 32 + u1.toNat) v0.toNat
    have hmod := Nat.lt_div_mul_add hpos (a := u0.toNat * 2 ^ 32 + u1.toNat)
    rw [← hdiv] at hmul hmod
    refine ⟨?_, hmul, Or.inr hmod⟩
    rw [hdiv]
    exact Nat.div_lt_of_lt_mul (by omega)

/-- The first guess takes what it leaves of the leading limbs and is not below the limb that is
sought. -/
theorem firstGuess_holds {P divisor window : Nat} {u0 u1 u2 v0 v1 : UInt32}
    (h : Leading (2 ^ 32) P divisor window v0.toNat v1.toNat u0.toNat u1.toNat u2.toNat) :
    (estimate u0 u1 v0).Holds fun result =>
      result.1.toNat < 2 ^ 32 ∧
      result.1.toNat * v0.toNat + result.2.toNat = u0.toNat * 2 ^ 32 + u1.toNat ∧
      window / divisor ≤ result.1.toNat := by
  refine (estimate_holds h.first_pos h.first_le).imp fun result hresult => ?_
  obtain ⟨hlt, hparts, hexact⟩ := hresult
  refine ⟨hlt, hparts, ?_⟩
  rcases hexact with hmax | hsmall
  · have := h.quotient_lt
    omega
  · apply h.quotient_le_of_lt
    rw [Nat.add_mul, Nat.one_mul]
    omega

theorem overshoots_holds {u2 v1 : UInt32} {guess left : UInt64} (hguess : guess.toNat < 2 ^ 32) :
    (overshoots u2 v1 guess left).Holds fun result =>
      result = true ↔
        left.toNat < 2 ^ 32 ∧ left.toNat * 2 ^ 32 + u2.toNat < v1.toNat * guess.toNat := by
  have hu2 := u2.toNat_lt
  have hv1 := v1.toNat_lt
  unfold overshoots
  split
  next hle =>
    have hleft : left.toNat ≤ 2 ^ 32 - 1 := hle
    refine Holds.bind (Guarded.holds_raise (by omega)) fun raised hr => ?_
    refine Holds.bind (Guarded.holds_add ?_) fun sum hs => ?_
    · rw [hr, UInt32.toNat_toUInt64]
      omega
    refine Holds.bind (Guarded.holds_mul ?_) fun product hp => Holds.pure ?_
    · rw [UInt32.toNat_toUInt64]
      exact show v1.toNat * guess.toNat < 2 ^ 32 * 2 ^ 32 from Nat.mul_lt_mul'' hv1 hguess
    rw [hr, UInt32.toNat_toUInt64] at hs
    rw [UInt32.toNat_toUInt64] at hp
    rw [decide_eq_true_eq, UInt64.lt_iff_toNat_lt, hs, hp]
    omega
  next hnot =>
    have hleft : ¬left.toNat ≤ 2 ^ 32 - 1 := hnot
    refine Holds.pure ⟨fun h => absurd h (by decide), fun h => ?_⟩
    omega

/-- Lowering stops at most one above the quotient digit. The second disjunct of the last part
bounds how often it happens: what is left grows by half the base each time. -/
theorem refine_holds {P divisor window u0 u1 : Nat} {u2 v0 v1 : UInt32} {guess left : UInt64}
    (h : Leading (2 ^ 32) P divisor window v0.toNat v1.toNat u0 u1 u2.toNat)
    (hlead : guess.toNat * v0.toNat + left.toNat = u0 * 2 ^ 32 + u1)
    (hlt : guess.toNat < 2 ^ 32) (hle : window / divisor ≤ guess.toNat) :
    (refine u2 v0 v1 guess left).Holds fun result =>
      window / divisor ≤ result.toNat ∧ result.toNat ≤ window / divisor + 1 ∧
      (result.toNat = guess.toNat ∨ ∃ k, guess.toNat = result.toNat + k + 1 ∧
        left.toNat + k * v0.toNat < 2 ^ 32) := by
  induction hn : guess.toNat using Nat.strong_induction_on generalizing guess left with
  | _ n ih =>
    subst hn
    have htest := @overshoots_holds u2 v1 guess left hlt
    have hv0 := v0.toNat_lt
    obtain ⟨digit, hdigit⟩ : ∃ digit, window / divisor = digit := ⟨_, rfl⟩
    simp only [hdigit] at hle ih ⊢
    rw [refine]
    by_cases hover : (overshoots u2 v1 guess left).value = true
    · obtain ⟨hleft, hsecond⟩ := htest.value.mp hover
      have hqlt := hdigit ▸ h.quotient_lt_of_overshoot hlead hsecond
      obtain ⟨hlower, hguess⟩ := Guarded.holds_sub (a := guess) (b := 1)
        (show 1 ≤ guess.toNat by omega)
      obtain ⟨hmore, hraised⟩ := Guarded.holds_add (a := left) (b := v0.toUInt64) (by
        rw [UInt32.toNat_toUInt64]
        omega)
      change (guess - 1).toNat = guess.toNat - 1 at hguess
      change (left + v0.toUInt64).toNat = _ at hraised
      rw [UInt32.toNat_toUInt64] at hraised
      have hlead' : (guess - 1).toNat * v0.toNat + (left + v0.toUInt64).toNat =
          u0 * 2 ^ 32 + u1 := by
        have hg : guess.toNat * v0.toNat = (guess.toNat - 1) * v0.toNat + v0.toNat := by
          rw [← Nat.succ_mul, Nat.succ_eq_add_one, Nat.sub_add_cancel (by omega)]
        rw [hguess, hraised]
        omega
      obtain ⟨hintact, hq, hq', hcount⟩ :=
        ih (guess - 1).toNat (by omega) hlead' (by omega) (by omega) rfl
      rw [if_pos hover]
      unfold Holds
      dsimp only
      refine ⟨⟨htest.intact, hlower, hmore, hintact⟩, hq, hq', Or.inr ?_⟩
      rcases hcount with heq | ⟨k, hk, hbound⟩
      · exact ⟨0, by omega, by omega⟩
      · refine ⟨k + 1, by omega, ?_⟩
        rw [Nat.succ_mul]
        omega
    · have hfits : 2 ^ 32 ≤ left.toNat ∨
          v1.toNat * guess.toNat ≤ left.toNat * 2 ^ 32 + u2.toNat := by
        have := mt htest.value.mpr hover
        omega
      rw [if_neg hover]
      exact ⟨htest.intact, hle, hdigit ▸ h.guess_le_of_fits hlead hlt hfits, Or.inl rfl⟩

end WideDecimal.Limbs
