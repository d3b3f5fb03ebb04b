import WideDecimal.Proofs.DivisionRound

namespace WideDecimal.Limbs

open Guarded (Holds)

/-- The emptied first limb of a window is zero, and the next window is ready for a round. -/
theorem Ready.next {divisor window rest : Limbs} {top : UInt32} (h : Ready divisor window)
    (hrest : toNat (top :: rest) = toNat window % toNat divisor)
    (hlength : (top :: rest).length = window.length) (x : UInt32) :
    top = 0 ∧ Ready divisor (rest ++ [x]) := by
  have hwindow := h.length_window
  have hpos : 0 < toNat divisor := by
    have := h.window_lt
    omega
  have hlt := Nat.mod_lt (toNat window) hpos
  have hsame : rest.length = divisor.length := by
    rw [List.length_cons] at hlength
    omega
  have htop : top = 0 := by
    refine head_eq_zero_of_lt (show toNat (top :: rest) < 2 ^ (32 * rest.length) from ?_)
    rw [hsame]
    exact Nat.lt_trans (hrest ▸ hlt) (toNat_lt divisor)
  refine ⟨htop, h.two_le, h.top_bit, by simp [hsame], ?_⟩
  have hx := x.toNat_lt
  rw [htop, toNat_cons, UInt32.toNat_zero, Nat.zero_mul, Nat.zero_add] at hrest
  rw [toNat_concat]
  omega

theorem rounds_holds {divisor window : Limbs} (h : Ready divisor window) (limbs : Limbs) :
    (rounds divisor window limbs).Holds fun result =>
      toNat result.1 = toNat (window ++ limbs) / toNat divisor ∧
      toNat result.2 = toNat (window ++ limbs) % toNat divisor ∧
      result.1.length = limbs.length + 1 ∧ result.2.length = window.length + limbs.length := by
  induction limbs generalizing window with
  | nil =>
    refine Holds.bind (round_holds h) fun result hresult => Holds.pure ?_
    obtain ⟨hquot, hrest, hlength⟩ := hresult
    simp [toNat, hquot, hrest, hlength]
  | cons x limbs ih =>
    refine Holds.bind (round_holds h) fun result hresult => ?_
    obtain ⟨q, rest⟩ := result
    obtain ⟨hquot, hrest, hlength⟩ := hresult
    cases rest with
    | nil =>
      have := h.length_window
      simp only [List.length_nil] at hlength
      omega
    | cons top rest =>
      obtain ⟨htop, hready⟩ := h.next hrest hlength x
      refine Holds.bind (ih hready) fun result hresult => Holds.pure ?_
      obtain ⟨quotient, remainder⟩ := result
      obtain ⟨hquot', hrest', hlength', hlength''⟩ := hresult
      dsimp only at hquot hrest hlength hquot' hrest' hlength' hlength'' ⊢
      have hpos : 0 < toNat divisor := by
        have := h.window_lt
        omega
      rw [htop, toNat_cons, UInt32.toNat_zero, Nat.zero_mul, Nat.zero_add] at hrest
      -- What the round leaves, followed by the other limbs, is what the later rounds divide.
      have hnumber : toNat (window ++ x :: limbs) =
          toNat divisor * (q.toNat * 2 ^ (32 * (limbs.length + 1))) +
            toNat (rest ++ [x] ++ limbs) := by
        have hsplit := Nat.div_add_mod (toNat window) (toNat divisor)
        rw [← hquot, ← hrest] at hsplit
        rw [List.append_assoc, List.singleton_append, toNat_append, toNat_append,
          List.length_cons, ← hsplit]
        ring
      refine ⟨?_, ?_, by simp [hlength'], ?_⟩
      · rw [hnumber, Nat.mul_add_div hpos, toNat_cons, hlength', hquot']
      · rw [hnumber, Nat.mul_add_mod, htop, toNat_cons, UInt32.toNat_zero, Nat.zero_mul,
          Nat.zero_add, hrest']
      · simp only [List.length_append, List.length_cons, List.length_nil] at hlength hlength'' ⊢
        omega

theorem leadingZeros_spec {x : UInt32} (h : x ≠ 0) :
    leadingZeros x < 32 ∧ 2 ^ 31 ≤ x.toNat * 2 ^ leadingZeros x ∧
      (x.toNat + 1) * 2 ^ leadingZeros x ≤ 2 ^ 32 := by
  have hne : x.toNat ≠ 0 := fun e => h (UInt32.toNat_inj.mp e)
  have hle := Nat.log2_self_le hne
  have hlt := Nat.lt_log2_self (n := x.toNat)
  have hlog : x.toNat.log2 < 32 := (Nat.log2_lt hne).mpr x.toNat_lt
  have hexp : x.toNat.log2 + (31 - x.toNat.log2) = 31 := by omega
  rw [leadingZeros, if_neg h]
  refine ⟨by omega, ?_, ?_⟩
  · calc 2 ^ 31 = 2 ^ x.toNat.log2 * 2 ^ (31 - x.toNat.log2) := by rw [← Nat.pow_add, hexp]
      _ ≤ x.toNat * 2 ^ (31 - x.toNat.log2) := Nat.mul_le_mul_right _ hle
  · calc (x.toNat + 1) * 2 ^ (31 - x.toNat.log2)
        ≤ 2 ^ (x.toNat.log2 + 1) * 2 ^ (31 - x.toNat.log2) := Nat.mul_le_mul_right _ hlt
      _ = 2 ^ 32 := by
        rw [← Nat.pow_add]
        congr 1
        omega

/-- Moving the top bit of a divisor to the front loses nothing. -/
theorem normalized_divisor {v : UInt32} (h : v ≠ 0) (divisor : Limbs) :
    toNat (shiftLeft (v :: divisor) (leadingZeros v)) =
        toNat (v :: divisor) * 2 ^ leadingZeros v ∧
      2 ^ 31 ≤ ((shiftLeft (v :: divisor) (leadingZeros v)).headD 0).toNat := by
  obtain ⟨hbits, hlow, hhigh⟩ := leadingZeros_spec h
  have hrest := toNat_lt divisor
  have hlt : toNat (v :: divisor) * 2 ^ leadingZeros v < 2 ^ (32 * (divisor.length + 1)) := by
    calc toNat (v :: divisor) * 2 ^ leadingZeros v
        < (v.toNat + 1) * 2 ^ (32 * divisor.length) * 2 ^ leadingZeros v := by
          apply Nat.mul_lt_mul_of_pos_right _ (Nat.two_pow_pos _)
          rw [toNat_cons, Nat.add_mul, Nat.one_mul]
          omega
      _ = (v.toNat + 1) * 2 ^ leadingZeros v * 2 ^ (32 * divisor.length) := by ring
      _ ≤ 2 ^ 32 * 2 ^ (32 * divisor.length) := Nat.mul_le_mul_right _ hhigh
      _ = 2 ^ (32 * (divisor.length + 1)) := (weight_succ _).symm
  have hvalue : toNat (shiftLeft (v :: divisor) (leadingZeros v)) =
      toNat (v :: divisor) * 2 ^ leadingZeros v := by
    rw [toNat_shiftLeft hbits, List.length_cons, Nat.mod_eq_of_lt hlt]
  refine ⟨hvalue, ?_⟩
  rw [toNat_headD, length_shiftLeft, hvalue, Nat.le_div_iff_mul_le (Nat.two_pow_pos _)]
  calc 2 ^ 31 * 2 ^ (32 * divisor.length)
      ≤ v.toNat * 2 ^ leadingZeros v * 2 ^ (32 * divisor.length) :=
        Nat.mul_le_mul_right _ hlow
    _ = v.toNat * 2 ^ (32 * divisor.length) * 2 ^ leadingZeros v := by ring
    _ ≤ toNat (v :: divisor) * 2 ^ leadingZeros v := by
        apply Nat.mul_le_mul_right
        rw [toNat_cons]
        exact Nat.le_add_right _ _

theorem toNat_shiftLeft_zero_cons {bits : Nat} (h : bits < 32) (limbs : Limbs) :
    toNat (shiftLeft (0 :: limbs) bits) = toNat limbs * 2 ^ bits ∧
      toNat limbs * 2 ^ bits < 2 ^ bits * 2 ^ (32 * limbs.length) := by
  have hlt : toNat limbs * 2 ^ bits < 2 ^ bits * 2 ^ (32 * limbs.length) := by
    rw [Nat.mul_comm]
    exact Nat.mul_lt_mul_of_pos_left (toNat_lt limbs) (Nat.two_pow_pos _)
  have hbits : 2 ^ bits * 2 ^ (32 * limbs.length) ≤ 2 ^ (32 * (limbs.length + 1)) := by
    rw [weight_succ]
    exact Nat.mul_le_mul_right _ (Nat.pow_le_pow_right (by decide) h.le)
  refine ⟨?_, hlt⟩
  rw [toNat_shiftLeft h, toNat_cons, UInt32.toNat_zero, Nat.zero_mul, Nat.zero_add,
    List.length_cons, Nat.mod_eq_of_lt (Nat.lt_of_lt_of_le hlt hbits)]

theorem ready_normalized {v : UInt32} {divisor dividend : Limbs} (h : v ≠ 0)
    (htwo : 2 ≤ (v :: divisor).length) (hlength : (v :: divisor).length ≤ dividend.length) :
    Ready (shiftLeft (v :: divisor) (leadingZeros v))
      ((shiftLeft (0 :: dividend) (leadingZeros v)).take ((v :: divisor).length + 1)) := by
  obtain ⟨hbits, -, -⟩ := leadingZeros_spec h
  obtain ⟨hvalue, hhead⟩ := normalized_divisor h divisor
  obtain ⟨hshifted, hlt⟩ := toNat_shiftLeft_zero_cons hbits dividend
  refine ⟨by simpa using htwo, hhead, ?_, ?_⟩
  · simp only [List.length_take, length_shiftLeft, List.length_cons] at hlength ⊢
    omega
  · have hsplit := toNat_append
      ((shiftLeft (0 :: dividend) (leadingZeros v)).take ((v :: divisor).length + 1))
      ((shiftLeft (0 :: dividend) (leadingZeros v)).drop ((v :: divisor).length + 1))
    rw [List.take_append_drop, List.length_drop, length_shiftLeft, hshifted] at hsplit
    have hdrop : (0 :: dividend).length - ((v :: divisor).length + 1) =
        dividend.length - (v :: divisor).length := by
      rw [List.length_cons]
      omega
    rw [hdrop] at hsplit
    have hweight : 2 ^ (32 * dividend.length) =
        2 ^ (32 * (v :: divisor).length) *
          2 ^ (32 * (dividend.length - (v :: divisor).length)) := by
      rw [← Nat.pow_add, ← Nat.mul_add, Nat.add_sub_cancel' hlength]
    have hwindow : toNat ((shiftLeft (0 :: dividend) (leadingZeros v)).take
        ((v :: divisor).length + 1)) < 2 ^ leadingZeros v * 2 ^ (32 * (v :: divisor).length) := by
      apply Nat.lt_of_mul_lt_mul_right
        (a := 2 ^ (32 * (dividend.length - (v :: divisor).length)))
      rw [Nat.mul_assoc, ← hweight]
      omega
    have hsmall : 2 ^ leadingZeros v ≤ 2 ^ 31 := Nat.pow_le_pow_right (by decide) (by omega)
    have hlarge := Nat.mul_le_mul_right (2 ^ (32 * (v :: divisor).length)) hsmall
    rw [toNat_headD, length_shiftLeft, Nat.le_div_iff_mul_le (Nat.two_pow_pos _)] at hhead
    have hnormal : 2 ^ (32 * (v :: divisor).length) = 2 ^ 32 * 2 ^ (32 * divisor.length) :=
      weight_succ _
    change 2 ^ 31 * 2 ^ (32 * divisor.length) ≤ _ at hhead
    rw [hnormal] at hwindow hlarge
    omega

/-- Division by at least two limbs: the quotient and the remainder of the numbers. -/
theorem divideLong_holds {v : UInt32} {divisor dividend : Limbs} (h : v ≠ 0)
    (htwo : 2 ≤ (v :: divisor).length) (hlength : (v :: divisor).length ≤ dividend.length) :
    (divideLong (0 :: dividend) (v :: divisor)).Holds fun result =>
      toNat result.1 = toNat dividend / toNat (v :: divisor) ∧
      toNat result.2 = toNat dividend % toNat (v :: divisor) ∧
      result.1.length = dividend.length + 1 - (v :: divisor).length ∧
      result.2.length = dividend.length + 1 := by
  obtain ⟨hbits, -, -⟩ := leadingZeros_spec h
  obtain ⟨hvalue, -⟩ := normalized_divisor h divisor
  obtain ⟨hshifted, -⟩ := toNat_shiftLeft_zero_cons hbits dividend
  have hready := ready_normalized h htwo hlength
  have hpow : 0 < 2 ^ leadingZeros v := Nat.two_pow_pos _
  refine Holds.bind (rounds_holds hready _) fun result hresult => Holds.pure ?_
  obtain ⟨quotient, remainder⟩ := result
  obtain ⟨hquot, hrest, hqlength, hrlength⟩ := hresult
  simp only [List.take_append_drop, hvalue, hshifted, List.headD_cons] at hquot hrest
  simp only [List.length_take, List.length_drop, length_shiftLeft, List.length_cons]
    at hqlength hrlength hlength
  dsimp only [List.headD_cons]
  refine ⟨?_, ?_, ?_, ?_⟩
  · rw [hquot, Nat.mul_div_mul_right _ _ hpow]
  · rw [toNat_shiftRight hbits, hrest, Nat.mul_mod_mul_right, Nat.mul_div_cancel _ hpow]
  · rw [hqlength, List.length_cons]
    omega
  · rw [length_shiftRight, hrlength]
    omega

/-- Division by a single limb, for a remainder carried into the limbs that is less than it. -/
theorem divideByLimb_holds {divisor remainder : UInt64} (hlt : divisor.toNat < 2 ^ 32)
    (hrem : remainder.toNat < divisor.toNat) (limbs : Limbs) :
    (divideByLimb divisor remainder limbs).Holds fun result =>
      result.1.length = limbs.length ∧ result.2.toNat < divisor.toNat ∧
      remainder.toNat * 2 ^ (32 * limbs.length) + toNat limbs =
        toNat result.1 * divisor.toNat + result.2.toNat := by
  induction limbs generalizing remainder with
  | nil => exact Holds.pure ⟨rfl, hrem, by simp [toNat]⟩
  | cons x limbs ih =>
    have hpos : 0 < divisor.toNat := by omega
    have hx := x.toNat_lt
    refine Holds.bind (Guarded.holds_raise (by omega)) fun raised hraised => ?_
    have htotal : (raised ||| x.toUInt64).toNat = remainder.toNat * 2 ^ 32 + x.toNat := by
      rw [UInt64.toNat_or, hraised, UInt32.toNat_toUInt64, ← Nat.shiftLeft_eq,
        ← Nat.shiftLeft_add_eq_or_of_lt hx]
    refine Holds.bind (Guarded.holds_div hpos) fun limb hlimb => ?_
    rw [htotal] at hlimb
    have hsmall : limb.toNat < 2 ^ 32 := by
      rw [hlimb]
      apply Nat.div_lt_of_lt_mul
      have := Nat.mul_le_mul_right (2 ^ 32) hrem
      rw [Nat.succ_mul] at this
      omega
    refine Holds.bind (Guarded.holds_narrow hsmall) fun q hq => ?_
    refine Holds.bind (Guarded.holds_mod hpos) fun left hleft => ?_
    rw [htotal] at hleft
    have hleftlt : left.toNat < divisor.toNat := hleft ▸ Nat.mod_lt _ hpos
    refine Holds.bind (ih hleftlt) fun result hresult => Holds.pure ?_
    obtain ⟨quotient, rest⟩ := result
    obtain ⟨hlength, hrest, hvalue⟩ := hresult
    dsimp only at hlength hrest hvalue ⊢
    have hsplit := Nat.div_add_mod' (remainder.toNat * 2 ^ 32 + x.toNat) divisor.toNat
    rw [← hlimb, ← hleft, ← hq] at hsplit
    refine ⟨by simp [hlength], hrest, ?_⟩
    rw [toNat_cons, toNat_cons, hlength, List.length_cons, weight_succ]
    calc remainder.toNat * (2 ^ 32 * 2 ^ (32 * limbs.length)) +
          (x.toNat * 2 ^ (32 * limbs.length) + toNat limbs)
        = (remainder.toNat * 2 ^ 32 + x.toNat) * 2 ^ (32 * limbs.length) + toNat limbs := by
          ring
      _ = q.toNat * divisor.toNat * 2 ^ (32 * limbs.length) +
            (left.toNat * 2 ^ (32 * limbs.length) + toNat limbs) := by
          rw [← hsplit]
          ring
      _ = (q.toNat * 2 ^ (32 * limbs.length) + toNat quotient) * divisor.toNat +
            rest.toNat := by
          rw [hvalue]
          ring

end WideDecimal.Limbs
