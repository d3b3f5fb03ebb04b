import WideDecimal.Proofs.Limbs
import WideDecimal.Proofs.QuotientEstimate

namespace WideDecimal.Limbs

open Guarded (Holds)

/-- A divisor of at least two limbs with its top bit set, and a window of one limb more that
is less than `2 ^ 32` times as large. -/
structure Ready (divisor window : Limbs) : Prop where
  two_le : 2 ≤ divisor.length
  top_bit : 2 ^ 31 ≤ (divisor.headD 0).toNat
  length_window : window.length = divisor.length + 1
  window_lt : toNat window < 2 ^ 32 * toNat divisor

theorem Ready.exists_limbs {divisor window : Limbs} (h : Ready divisor window) :
    ∃ v0 v1 divisor' u0 u1 u2 window', divisor = v0 :: v1 :: divisor' ∧
      window = u0 :: u1 :: u2 :: window' := by
  have hlength := h.length_window
  have htwo := h.two_le
  obtain ⟨v0, v1, divisor', rfl⟩ : ∃ v0 v1 rest, divisor = v0 :: v1 :: rest :=
    match divisor, htwo with
    | v0 :: v1 :: rest, _ => ⟨v0, v1, rest, rfl⟩
  obtain ⟨u0, u1, u2, window', rfl⟩ : ∃ u0 u1 u2 rest, window = u0 :: u1 :: u2 :: rest :=
    match window, hlength with
    | u0 :: u1 :: u2 :: rest, _ => ⟨u0, u1, u2, rest, rfl⟩
  exact ⟨v0, v1, divisor', u0, u1, u2, window', rfl, rfl⟩

theorem Ready.length_tail {u0 : UInt32} {divisor window : Limbs}
    (h : Ready divisor (u0 :: window)) : divisor.length = window.length :=
  Nat.succ.inj h.length_window.symm

theorem Ready.leading {v0 v1 u0 u1 u2 : UInt32} {divisor window : Limbs}
    (h : Ready (v0 :: v1 :: divisor) (u0 :: u1 :: u2 :: window)) :
    Leading (2 ^ 32) (2 ^ (32 * divisor.length)) (toNat (v0 :: v1 :: divisor))
      (toNat (u0 :: u1 :: u2 :: window)) v0.toNat v1.toNat u0.toNat u1.toNat u2.toNat := by
  have hlength : window.length = divisor.length :=
    Nat.succ.inj (Nat.succ.inj h.length_tail.symm)
  have hdivisor : toNat (v0 :: v1 :: divisor) =
      (v0.toNat * 2 ^ 32 + v1.toNat) * 2 ^ (32 * divisor.length) + toNat divisor := by
    rw [toNat_cons, toNat_cons, List.length_cons, weight_succ]
    ring
  have hwindow : toNat (u0 :: u1 :: u2 :: window) =
      ((u0.toNat * 2 ^ 32 + u1.toNat) * 2 ^ 32 + u2.toNat) * 2 ^ (32 * divisor.length) +
        toNat window := by
    rw [toNat_cons, toNat_cons, toNat_cons, List.length_cons, List.length_cons, weight_succ,
      weight_succ, hlength]
    ring
  have hrest := toNat_lt divisor
  have hrest' := toNat_lt window
  rw [hlength] at hrest'
  have htop : 2 ^ 31 ≤ v0.toNat := h.top_bit
  constructor
  · omega
  · linarith
  · omega
  · linarith
  · exact h.window_lt
  · omega
  · exact v1.toNat_lt
  · exact u2.toNat_lt

theorem subtractMultiple_holds {guess : UInt64} (hguess : guess.toNat < 2 ^ 32)
    {divisor window : Limbs} (hlength : divisor.length = window.length) :
    (subtractMultiple guess divisor window).Holds fun result =>
      result.1.length = window.length ∧ result.2.toNat ≤ guess.toNat ∧
      toNat result.1 + guess.toNat * toNat divisor =
        toNat window + result.2.toNat * 2 ^ (32 * window.length) := by
  induction divisor generalizing window with
  | nil =>
    obtain rfl : window = [] := List.length_eq_zero_iff.mp hlength.symm
    exact Holds.pure ⟨rfl, Nat.zero_le _, by simp [toNat]⟩
  | cons v divisor ih =>
    cases window with
    | nil => simp at hlength
    | cons u window =>
      have hlength' : divisor.length = window.length := by simpa using hlength
      refine Holds.bind (ih hlength') fun result hresult => ?_
      obtain ⟨limbs, borrow⟩ := result
      obtain ⟨hlimbs, hborrow, hvalue⟩ := hresult
      dsimp only at hlimbs hborrow hvalue ⊢
      have hv := v.toNat_lt
      have hu := u.toNat_lt
      have hproduct : guess.toNat * v.toNat ≤ guess.toNat * (2 ^ 32 - 1) :=
        Nat.mul_le_mul_left _ (by omega)
      refine Holds.bind (Guarded.holds_mul ?_) fun product hp => ?_
      · rw [UInt32.toNat_toUInt64]
        omega
      rw [UInt32.toNat_toUInt64] at hp
      refine Holds.bind (Guarded.holds_add (by omega)) fun total ht => ?_
      rw [hp] at ht
      have hlimb : (u - total.toUInt32).toNat =
          (2 ^ 32 - total.toNat % 2 ^ 32 + u.toNat) % 2 ^ 32 := by
        rw [UInt32.toNat_sub, UInt64.toNat_toUInt32]
      have hcarry := Word.toNat_high total
      have hless : (if u < u - total.toUInt32 then (1 : UInt64) else 0).toNat =
          if u.toNat < (u - total.toUInt32).toNat then 1 else 0 := by
        simp only [UInt32.lt_iff_toNat_lt]
        split <;> rfl
      refine Holds.bind (Guarded.holds_add ?_) fun borrow' hb => Holds.pure ?_
      · rw [hcarry, hless]
        split <;> omega
      rw [hcarry, hless, hlimb] at hb
      dsimp only
      have hlimblt := (u - total.toUInt32).toNat_lt
      -- The borrow makes up for what the limb lacks.
      have hstep : (u - total.toUInt32).toNat + (borrow.toNat + guess.toNat * v.toNat) =
          u.toNat + borrow'.toNat * 2 ^ 32 := by
        rw [hlimb]
        split at hb <;> omega
      refine ⟨by simp [hlimbs], by omega, ?_⟩
      rw [toNat_cons, toNat_cons, toNat_cons, hlimbs, hlength', List.length_cons, weight_succ]
      calc (u - total.toUInt32).toNat * 2 ^ (32 * window.length) + toNat limbs +
            guess.toNat * (v.toNat * 2 ^ (32 * window.length) + toNat divisor)
          = (u - total.toUInt32).toNat * 2 ^ (32 * window.length) +
              guess.toNat * v.toNat * 2 ^ (32 * window.length) +
                (toNat limbs + guess.toNat * toNat divisor) := by ring
        _ = ((u - total.toUInt32).toNat + (borrow.toNat + guess.toNat * v.toNat)) *
              2 ^ (32 * window.length) + toNat window := by
            rw [hvalue]
            ring
        _ = u.toNat * 2 ^ (32 * window.length) + toNat window +
              borrow'.toNat * (2 ^ 32 * 2 ^ (32 * window.length)) := by
            rw [hstep]
            ring

theorem addBack_holds {divisor window : Limbs} (hlength : divisor.length = window.length) :
    (addBack divisor window).Holds fun result =>
      result.1.length = window.length ∧ result.2.toNat ≤ 1 ∧
      toNat result.1 + result.2.toNat * 2 ^ (32 * window.length) =
        toNat divisor + toNat window := by
  induction divisor generalizing window with
  | nil =>
    obtain rfl : window = [] := List.length_eq_zero_iff.mp hlength.symm
    exact Holds.pure ⟨rfl, Nat.zero_le _, by simp [toNat]⟩
  | cons v divisor ih =>
    cases window with
    | nil => simp at hlength
    | cons u window =>
      have hlength' : divisor.length = window.length := by simpa using hlength
      refine Holds.bind (ih hlength') fun result hresult => ?_
      obtain ⟨limbs, carry⟩ := result
      obtain ⟨hlimbs, hcarry, hvalue⟩ := hresult
      dsimp only at hlimbs hcarry hvalue ⊢
      have hv := v.toNat_lt
      have hu := u.toNat_lt
      refine Holds.bind (Guarded.holds_add ?_) fun sum hs => ?_
      · rw [UInt32.toNat_toUInt64, UInt32.toNat_toUInt64]
        omega
      rw [UInt32.toNat_toUInt64, UInt32.toNat_toUInt64] at hs
      refine Holds.bind (Guarded.holds_add (by omega)) fun total ht => Holds.pure ?_
      rw [hs] at ht
      have hlow := UInt64.toNat_toUInt32 total
      have hhigh := Word.toNat_high total
      have hstep : total.toUInt32.toNat + (total >>> 32).toNat * 2 ^ 32 =
          v.toNat + u.toNat + carry.toNat := by omega
      refine ⟨by simp [hlimbs], by simp only [hhigh]; omega, ?_⟩
      dsimp only
      rw [toNat_cons, toNat_cons, toNat_cons, hlimbs, hlength', List.length_cons, weight_succ]
      calc total.toUInt32.toNat * 2 ^ (32 * window.length) + toNat limbs +
            (total >>> 32).toNat * (2 ^ 32 * 2 ^ (32 * window.length))
          = (total.toUInt32.toNat + (total >>> 32).toNat * 2 ^ 32) * 2 ^ (32 * window.length) +
              toNat limbs := by ring
        _ = v.toNat * 2 ^ (32 * window.length) + u.toNat * 2 ^ (32 * window.length) +
              (toNat limbs + carry.toNat * 2 ^ (32 * window.length)) := by
            rw [hstep]
            ring
        _ = v.toNat * 2 ^ (32 * window.length) + toNat divisor +
              (u.toNat * 2 ^ (32 * window.length) + toNat window) := by
            rw [hvalue]
            ring

/-- A digit whose multiple of the divisor leaves no borrow is the quotient digit. -/
theorem digit_of_no_borrow {divisor top tail limbs borrow guess weight : Nat}
    (hpos : 0 < divisor) (hle : (top * weight + tail) / divisor ≤ guess)
    (hborrow : borrow ≤ top) (hvalue : limbs + guess * divisor = tail + borrow * weight) :
    guess = (top * weight + tail) / divisor ∧
      (top - borrow) * weight + limbs = (top * weight + tail) % divisor := by
  have hsplit : (top - borrow) * weight + borrow * weight = top * weight := by
    rw [← Nat.add_mul, Nat.sub_add_cancel hborrow]
  have hmul : guess * divisor ≤ top * weight + tail := by omega
  have hguess : guess = (top * weight + tail) / divisor :=
    Nat.le_antisymm ((Nat.le_div_iff_mul_le hpos).mpr hmul) hle
  have hmod := Nat.div_add_mod' (top * weight + tail) divisor
  rw [← hguess] at hmod
  exact ⟨hguess, by omega⟩

/-- A digit whose multiple of the divisor borrows more than there is at the top is too large. -/
theorem quotient_lt_of_borrow {divisor top tail limbs borrow guess weight : Nat}
    (hlimbs : limbs < weight) (hborrow : top < borrow)
    (hvalue : limbs + guess * divisor = tail + borrow * weight) :
    (top * weight + tail) / divisor < guess := by
  have hmore : (top + 1) * weight ≤ borrow * weight := Nat.mul_le_mul_right weight hborrow
  rw [Nat.add_mul, Nat.one_mul] at hmore
  apply Nat.div_lt_of_lt_mul
  rw [Nat.mul_comm divisor]
  omega

/-- A digit one too large borrows from the top limb, and adding the divisor back returns what
was borrowed. -/
theorem digit_of_borrow {divisor top tail limbs limbs' borrow carry guess weight : Nat}
    (hpos : 0 < divisor) (hle : guess ≤ (top * weight + tail) / divisor + 1)
    (hdivisor : divisor < weight) (hlimbs : limbs < weight) (hlimbs' : limbs' < weight)
    (hborrow : top < borrow) (hvalue : limbs + guess * divisor = tail + borrow * weight)
    (hback : limbs' + carry * weight = divisor + limbs) :
    guess = (top * weight + tail) / divisor + 1 ∧ top + carry = borrow ∧
      limbs' = (top * weight + tail) % divisor := by
  have hlt := quotient_lt_of_borrow hlimbs hborrow hvalue
  have hguess : guess = (top * weight + tail) / divisor + 1 := by omega
  have hmod := Nat.div_add_mod' (top * weight + tail) divisor
  have hrest := Nat.mod_lt (top * weight + tail) hpos
  have hmul : guess * divisor = (top * weight + tail) / divisor * divisor + divisor := by
    rw [hguess, Nat.add_mul, Nat.one_mul]
  have hsum : limbs' + (top + carry) * weight =
      (top * weight + tail) % divisor + borrow * weight := by
    rw [Nat.add_mul]
    omega
  have hcarry : top + carry = borrow := by
    rcases Nat.lt_trichotomy (top + carry) borrow with h | h | h
    · have := Nat.mul_le_mul_right weight h
      rw [Nat.succ_mul] at this
      omega
    · exact h
    · have := Nat.mul_le_mul_right weight h
      rw [Nat.succ_mul] at this
      omega
  rw [hcarry] at hsum
  exact ⟨hguess, hcarry, by omega⟩

/-- One round divides the window by the divisor. -/
theorem round_holds {divisor window : Limbs} (h : Ready divisor window) :
    (round divisor window).Holds fun result =>
      result.1.toNat = toNat window / toNat divisor ∧
      toNat result.2 = toNat window % toNat divisor ∧ result.2.length = window.length := by
  obtain ⟨v0, v1, divisor, u0, u1, u2, window, rfl, rfl⟩ := h.exists_limbs
  have hlead := h.leading
  have htail := h.length_tail
  have hwindow := toNat_cons u0 (u1 :: u2 :: window)
  have hdivisor := toNat_lt (v0 :: v1 :: divisor)
  rw [htail] at hdivisor
  have hu0 := u0.toNat_lt
  refine Holds.bind (firstGuess_holds hlead) fun estimated he => ?_
  obtain ⟨guess, left⟩ := estimated
  obtain ⟨hlt, hparts, hle⟩ := he
  dsimp only at hlt hparts hle ⊢
  refine Holds.bind (refine_holds hlead hparts hlt hle) fun digit hd => ?_
  obtain ⟨hlow, hhigh, hcount⟩ := hd
  have hdigit : digit.toNat < 2 ^ 32 := by
    rcases hcount with h | ⟨k, hk, -⟩ <;> omega
  refine Holds.bind (subtractMultiple_holds hdigit htail) fun subtracted hs => ?_
  obtain ⟨limbs, borrow⟩ := subtracted
  obtain ⟨hlimbs, hborrow, hvalue⟩ := hs
  dsimp only [List.tail_cons] at hlimbs hborrow hvalue ⊢
  have hlimbslt := toNat_lt limbs
  rw [hlimbs] at hlimbslt
  have htop : (u0.toUInt64 - borrow).toUInt32.toNat =
      (2 ^ 64 - borrow.toNat + u0.toNat) % 2 ^ 64 % 2 ^ 32 := by
    rw [UInt64.toNat_toUInt32, UInt64.toNat_sub, UInt32.toNat_toUInt64]
  have hless : u0.toUInt64 < borrow ↔ u0.toNat < borrow.toNat := by
    rw [UInt64.lt_iff_toNat_lt, UInt32.toNat_toUInt64]
  rw [hwindow] at hlow hhigh ⊢
  split
  next hlt' =>
    -- The digit was one too large.
    rw [hless] at hlt'
    refine Holds.bind (addBack_holds (htail.trans hlimbs.symm)) fun added ha => ?_
    obtain ⟨limbs', carry⟩ := added
    obtain ⟨hlimbs', hcarry, hback⟩ := ha
    dsimp only at hlimbs' hcarry hback ⊢
    have hlimbslt' := toNat_lt limbs'
    rw [hlimbs', hlimbs] at hlimbslt'
    rw [hlimbs] at hback
    obtain ⟨hquot, hsum, hrest⟩ := digit_of_borrow hlead.divisor_pos hhigh hdivisor hlimbslt
      hlimbslt' hlt' hvalue hback
    refine Holds.bind (Guarded.holds_sub ?_) fun lowered hl => ?_
    · change 1 ≤ digit.toNat
      omega
    change lowered.toNat = digit.toNat - 1 at hl
    refine Holds.bind (Guarded.holds_narrow (by omega)) fun limb hn => Holds.pure ?_
    have htop' : ((u0.toUInt64 - borrow).toUInt32 + carry.toUInt32).toNat = 0 := by
      rw [UInt32.toNat_add, htop, UInt64.toNat_toUInt32]
      omega
    dsimp only
    refine ⟨by omega, ?_, by simp [hlimbs', hlimbs]⟩
    rw [toNat_cons, htop', Nat.zero_mul, Nat.zero_add, hrest]
  next hnot =>
    rw [hless] at hnot
    obtain ⟨hquot, hrest⟩ := digit_of_no_borrow hlead.divisor_pos hlow (by omega) hvalue
    refine Holds.bind (Guarded.holds_narrow hdigit) fun limb hn => Holds.pure ?_
    have htop' : (u0.toUInt64 - borrow).toUInt32.toNat = u0.toNat - borrow.toNat := by
      rw [htop]
      omega
    dsimp only
    refine ⟨by omega, ?_, by simp [hlimbs]⟩
    rw [toNat_cons, htop', hlimbs, hrest]

end WideDecimal.Limbs
