import WideDecimal.Proofs.LimbDivision

namespace WideDecimal.Limbs

/-- The loop that lowers a guess: how often its body runs, and the guess it ends with. -/
inductive Lowers (u2 v0 v1 : UInt32) : Nat → UInt64 → UInt64 → UInt64 → Prop
  | stop {guess left : UInt64} (h : ¬(overshoots u2 v1 guess left).value = true) :
    Lowers u2 v0 v1 0 guess left guess
  | lower {count : Nat} {guess left result : UInt64}
    (h : (overshoots u2 v1 guess left).value = true)
    (hmore : Lowers u2 v0 v1 count (guess - 1) (left + v0.toUInt64) result) :
    Lowers u2 v0 v1 (count + 1) guess left result

/-- The guess of a round before it is subtracted, and how often it was lowered. -/
def Guesses (u0 u1 u2 v0 v1 : UInt32) (lowerings : Nat) (guess : UInt64) : Prop :=
  ∃ first left, (estimate u0 u1 v0).value = (first, left) ∧
    Lowers u2 v0 v1 lowerings first left guess

/-- One round: how often its guess is lowered, the guess then, whether the divisor is added back,
and what the round gives. -/
inductive RoundRun : Limbs → Limbs → Nat → UInt64 → Bool → UInt32 × Limbs → Prop
  | kept {v0 v1 u0 u1 u2 : UInt32} {divisor window limbs : Limbs} {lowerings : Nat}
    {guess borrow : UInt64} (hguess : Guesses u0 u1 u2 v0 v1 lowerings guess)
    (hsubtract : (subtractMultiple guess (v0 :: v1 :: divisor) (u1 :: u2 :: window)).value =
      (limbs, borrow))
    (h : ¬u0.toUInt64 < borrow) :
    RoundRun (v0 :: v1 :: divisor) (u0 :: u1 :: u2 :: window) lowerings guess false
      (guess.toUInt32, (u0.toUInt64 - borrow).toUInt32 :: limbs)
  | addedBack {v0 v1 u0 u1 u2 : UInt32} {divisor window limbs limbs' : Limbs} {lowerings : Nat}
    {guess borrow carry : UInt64} (hguess : Guesses u0 u1 u2 v0 v1 lowerings guess)
    (hsubtract : (subtractMultiple guess (v0 :: v1 :: divisor) (u1 :: u2 :: window)).value =
      (limbs, borrow))
    (h : u0.toUInt64 < borrow)
    (hback : (addBack (v0 :: v1 :: divisor) limbs).value = (limbs', carry)) :
    RoundRun (v0 :: v1 :: divisor) (u0 :: u1 :: u2 :: window) lowerings guess true
      ((guess - 1).toUInt32, ((u0.toUInt64 - borrow).toUInt32 + carry.toUInt32) :: limbs')

theorem exists_lowers (u2 v0 v1 : UInt32) (guess left : UInt64) :
    ∃ count, Lowers u2 v0 v1 count guess left (refine u2 v0 v1 guess left).value := by
  induction guess, left using refine.induct u2 v0 v1 with
  | case1 guess left _ hover ih =>
    obtain ⟨count, hmore⟩ := ih
    rw [refine, if_pos hover]
    exact ⟨count + 1, .lower hover hmore⟩
  | case2 guess left _ hover =>
    rw [refine, if_neg hover]
    exact ⟨0, .stop hover⟩

theorem Lowers.value_refine {u2 v0 v1 : UInt32} {count : Nat} {guess left result : UInt64}
    (h : Lowers u2 v0 v1 count guess left result) :
    (refine u2 v0 v1 guess left).value = result := by
  induction h with
  | stop hover => rw [refine, if_neg hover]
  | lower hover _ ih => rw [refine, if_pos hover, ih]

theorem left_lt_of_overshoots {u2 v1 : UInt32} {guess left : UInt64}
    (h : (overshoots u2 v1 guess left).value = true) : left.toNat < 2 ^ 32 := by
  unfold overshoots at h
  split at h
  next hle => exact Nat.lt_succ_of_le hle
  next => cases h

/-- Each time that the guess is lowered, what is left grows by the first limb of the divisor, and
it was less than the base before. -/
theorem Lowers.left_lt {u2 v0 v1 : UInt32} {count : Nat} {guess left result : UInt64}
    (h : Lowers u2 v0 v1 count guess left result) :
    ∀ k < count, left.toNat + k * v0.toNat < 2 ^ 32 := by
  induction h with
  | stop => exact fun k hk => absurd hk (Nat.not_lt_zero k)
  | @lower _ _ left _ hover _ ih =>
    intro k hk
    have hleft := left_lt_of_overshoots hover
    cases k with
    | zero => omega
    | succ k =>
      have hv0 := v0.toNat_lt
      have hsum : (left + v0.toUInt64).toNat = left.toNat + v0.toNat := by
        rw [UInt64.toNat_add, UInt32.toNat_toUInt64]
        omega
      have hrest := ih k (Nat.lt_of_succ_lt_succ hk)
      rw [hsum] at hrest
      rw [Nat.succ_mul]
      omega

/-- A divisor with its top bit set lets a guess be lowered twice at most. -/
theorem Lowers.count_le {u2 v0 v1 : UInt32} {count : Nat} {guess left result : UInt64}
    (h : Lowers u2 v0 v1 count guess left result) (htop : 2 ^ 31 ≤ v0.toNat) : count ≤ 2 := by
  by_contra hmore
  have hlt := h.left_lt 2 (Nat.lt_of_not_le hmore)
  omega

theorem RoundRun.value_round {divisor window : Limbs} {lowerings : Nat} {guess : UInt64}
    {added : Bool} {result : UInt32 × Limbs}
    (h : RoundRun divisor window lowerings guess added result) :
    (round divisor window).value = result := by
  cases h with
  | kept hguess hsubtract hless =>
    obtain ⟨first, left, hfirst, hlower⟩ := hguess
    simp only [round, Guarded.value_bind, hfirst, hlower.value_refine, List.tail_cons, hsubtract,
      if_neg hless]
    rfl
  | addedBack hguess hsubtract hless hback =>
    obtain ⟨first, left, hfirst, hlower⟩ := hguess
    simp only [round, Guarded.value_bind, hfirst, hlower.value_refine, List.tail_cons, hsubtract,
      if_pos hless, hback]
    rfl

theorem exists_guesses (u0 u1 u2 v0 v1 : UInt32) :
    ∃ lowerings guess, Guesses u0 u1 u2 v0 v1 lowerings guess := by
  obtain ⟨lowerings, hlower⟩ := exists_lowers u2 v0 v1 (estimate u0 u1 v0).value.1
    (estimate u0 u1 v0).value.2
  exact ⟨lowerings, _, _, _, rfl, hlower⟩

theorem exists_roundRun (v0 v1 u0 u1 u2 : UInt32) (divisor window : Limbs) :
    ∃ lowerings guess added result,
      RoundRun (v0 :: v1 :: divisor) (u0 :: u1 :: u2 :: window) lowerings guess added result := by
  obtain ⟨lowerings, guess, hguess⟩ := exists_guesses u0 u1 u2 v0 v1
  by_cases hless : u0.toUInt64 <
      (subtractMultiple guess (v0 :: v1 :: divisor) (u1 :: u2 :: window)).value.2
  · exact ⟨lowerings, guess, true, _, .addedBack hguess rfl hless rfl⟩
  · exact ⟨lowerings, guess, false, _, .kept hguess rfl hless⟩

section Ready

variable {v0 v1 u0 u1 u2 : UInt32} {divisor window : Limbs} {lowerings : Nat} {guess : UInt64}

theorem Guesses.bounds (hguess : Guesses u0 u1 u2 v0 v1 lowerings guess)
    (h : Ready (v0 :: v1 :: divisor) (u0 :: u1 :: u2 :: window)) :
    lowerings ≤ 2 ∧ guess.toNat < 2 ^ 32 ∧
      toNat (u0 :: u1 :: u2 :: window) / toNat (v0 :: v1 :: divisor) ≤ guess.toNat ∧
      guess.toNat ≤ toNat (u0 :: u1 :: u2 :: window) / toNat (v0 :: v1 :: divisor) + 1 := by
  obtain ⟨first, left, hfirst, hlower⟩ := hguess
  have hlead := h.leading
  have hestimate := (firstGuess_holds hlead).value
  rw [hfirst] at hestimate
  obtain ⟨hlt, hparts, hle⟩ := hestimate
  have hrefine := (refine_holds hlead hparts hlt hle).value
  rw [hlower.value_refine] at hrefine
  obtain ⟨hlow, hhigh, hcount⟩ := hrefine
  refine ⟨hlower.count_le h.top_bit, ?_, hlow, hhigh⟩
  rcases hcount with heq | ⟨k, hk, -⟩ <;> omega

/-- The divisor is added back where the guess is one above the quotient limb. -/
theorem RoundRun.guess_eq {divisor window : Limbs} {added : Bool} {result : UInt32 × Limbs}
    (hrun : RoundRun divisor window lowerings guess added result) (h : Ready divisor window) :
    lowerings ≤ 2 ∧ guess.toNat = toNat window / toNat divisor + added.toNat := by
  cases hrun with
  | @kept _ _ u0 _ _ _ _ _ _ _ _ hguess hsubtract hless =>
    obtain ⟨hcount, hlt, hlow, -⟩ := hguess.bounds h
    refine ⟨hcount, ?_⟩
    have hvalue := (subtractMultiple_holds hlt h.length_tail).value
    rw [hsubtract] at hvalue
    rw [UInt64.lt_iff_toNat_lt, UInt32.toNat_toUInt64, Nat.not_lt] at hless
    rw [toNat_cons u0] at hlow ⊢
    exact (digit_of_no_borrow h.leading.divisor_pos hlow hless hvalue.2.2).1
  | @addedBack _ _ u0 _ _ _ _ limbs _ _ _ _ _ hguess hsubtract hless =>
    obtain ⟨hcount, hlt, -, hhigh⟩ := hguess.bounds h
    refine ⟨hcount, Nat.le_antisymm hhigh ?_⟩
    have hvalue := (subtractMultiple_holds hlt h.length_tail).value
    rw [hsubtract] at hvalue
    have hlimbs := toNat_lt limbs
    rw [hvalue.1] at hlimbs
    rw [UInt64.lt_iff_toNat_lt, UInt32.toNat_toUInt64] at hless
    rw [toNat_cons u0]
    exact quotient_lt_of_borrow hlimbs hless hvalue.2.2

end Ready

/-- A round of a window less than `2 ^ 32` times the divisor finds its quotient limb. The guess is
lowered twice at most, to that limb or to one above it, and only in the second case is the divisor
added back. What is left starts with a zero, and the next window is ready for a round again. -/
theorem round_finds_limb {divisor window : Limbs} (h : Ready divisor window) :
    (round divisor window).intact ∧
    (∃ lowerings guess added result, RoundRun divisor window lowerings guess added result) ∧
    ∀ lowerings guess added q rest, RoundRun divisor window lowerings guess added (q, rest) →
      (round divisor window).value = (q, rest) ∧
      lowerings ≤ 2 ∧
      (guess.toNat = toNat window / toNat divisor ∨
        guess.toNat = toNat window / toNat divisor + 1) ∧
      (added = true ↔ guess.toNat = toNat window / toNat divisor + 1) ∧
      q.toNat = toNat window / toNat divisor ∧
      toNat window = q.toNat * toNat divisor + toNat rest ∧
      ∃ limbs, rest = 0 :: limbs ∧ ∀ x, Ready divisor (limbs ++ [x]) := by
  have hround := round_holds h
  refine ⟨hround.intact, ?_, ?_⟩
  · obtain ⟨v0, v1, divisor, u0, u1, u2, window, rfl, rfl⟩ := h.exists_limbs
    exact exists_roundRun v0 v1 u0 u1 u2 divisor window
  · intro lowerings guess added q rest hrun
    have hvalue := hrun.value_round
    obtain ⟨hcount, hguess⟩ := hrun.guess_eq h
    obtain ⟨hquot, hrest, hlength⟩ := hvalue ▸ hround.value
    have hsplit := Nat.div_add_mod' (toNat window) (toNat divisor)
    rw [← hquot, ← hrest] at hsplit
    refine ⟨hvalue, hcount, ?_, ?_, hquot, hsplit.symm, ?_⟩
    · cases added
      · exact Or.inl hguess
      · exact Or.inr hguess
    · cases added <;> simp [hguess]
    · cases rest with
      | nil =>
        rw [h.length_window] at hlength
        cases hlength
      | cons top limbs =>
        obtain ⟨rfl, -⟩ := h.next hrest hlength 0
        exact ⟨limbs, rfl, fun x => (h.next hrest hlength x).2⟩

/-- A guess that is lowered once, and still one too large. -/
theorem round_finds_limb_added_back :
    ∃ rest, RoundRun [0x80000000, 0x80000001, 0xFFFFFFFF] [0x7FFFFFFF, 0, 0, 0x40000000] 1
        0xFFFFFFFD true (0xFFFFFFFC, 0 :: rest) ∧
      (0xFFFFFFFC : UInt32).toNat = toNat [0x7FFFFFFF, 0, 0, 0x40000000] /
        toNat [0x80000000, 0x80000001, 0xFFFFFFFF] := by
  have hready : Ready [0x80000000, 0x80000001, 0xFFFFFFFF] [0x7FFFFFFF, 0, 0, 0x40000000] :=
    ⟨by decide, by decide, by decide, by decide⟩
  have hover : (overshoots 0 0x80000001 0xFFFFFFFE 0).value = true := by decide
  have hfits : ¬(overshoots 0 0x80000001 (0xFFFFFFFE - 1) (0 + UInt32.toUInt64 0x80000000)).value =
    true := by decide
  have hguess : Guesses 0x7FFFFFFF 0 0 0x80000000 0x80000001 1 0xFFFFFFFD :=
    ⟨0xFFFFFFFE, 0, rfl, .lower hover (.stop hfits)⟩
  have hsubtract : (subtractMultiple 0xFFFFFFFD [0x80000000, 0x80000001, 0xFFFFFFFF]
      [0, 0, 0x40000000]).value = ([0xFFFFFFFF, 0x80000007, 0x3FFFFFFD], 0x80000000) := by decide
  have hless : UInt32.toUInt64 0x7FFFFFFF < 0x80000000 := by decide
  have hback : (addBack [0x80000000, 0x80000001, 0xFFFFFFFF]
      [0xFFFFFFFF, 0x80000007, 0x3FFFFFFD]).value = ([0x80000000, 0x9, 0x3FFFFFFC], 1) := by decide
  have hrun : RoundRun [0x80000000, 0x80000001, 0xFFFFFFFF] [0x7FFFFFFF, 0, 0, 0x40000000] 1
      0xFFFFFFFD true (0xFFFFFFFC, [0, 0x80000000, 0x9, 0x3FFFFFFC]) :=
    .addedBack hguess hsubtract hless hback
  obtain ⟨-, -, hfinds⟩ := round_finds_limb hready
  obtain ⟨-, -, -, -, hquot, -⟩ := hfinds _ _ _ _ _ hrun
  exact ⟨_, hrun, hquot⟩

end WideDecimal.Limbs
