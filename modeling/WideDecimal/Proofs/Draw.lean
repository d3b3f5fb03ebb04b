import WideDecimal.Proofs.Rejection

namespace WideDecimal.Sampling

namespace Source

/-- The number of 128 bits in the next two words, the low one first. -/
def number (s : Source) : Nat × Source :=
  let (low, s) := s.next
  let (high, s) := s.next
  (high.toNat * 2 ^ 64 + low.toNat, s)

theorem number_pair (low high : UInt64) (words : List UInt64) (used : Nat) :
    (⟨low :: high :: words, used⟩ : Source).number =
      (high.toNat * 2 ^ 64 + low.toNat, ⟨words, used + 2⟩) :=
  rfl

theorem number_single (low : UInt64) (used : Nat) :
    (⟨[low], used⟩ : Source).number = (low.toNat, ⟨[], used + 2⟩) := by
  simp [number, next]

theorem number_nil (used : Nat) :
    (⟨[], used⟩ : Source).number = (0, ⟨[], used + 2⟩) := by
  simp [number, next]

theorem number_lt (s : Source) : s.number.1 < modulus := by
  have hlow := s.next.1.toNat_lt
  have hhigh := s.next.2.next.1.toNat_lt
  change s.next.2.next.1.toNat * 2 ^ 64 + s.next.1.toNat < 2 ^ 128
  omega

theorem used_number (s : Source) : s.number.2.used = s.used + 2 := rfl

/-- A source that gives a number first. -/
def withNumber (s : Source) (n : Nat) : Source :=
  ⟨.ofNat n :: .ofNat (n / 2 ^ 64) :: s.words, s.used⟩

theorem number_withNumber (s : Source) {n : Nat} (h : n < modulus) :
    (s.withNumber n).number = (n, ⟨s.words, s.used + 2⟩) := by
  have hhigh : n / 2 ^ 64 < UInt64.size := Nat.div_lt_of_lt_mul h
  rw [withNumber, number_pair, UInt64.toNat_ofNat_of_lt' hhigh, UInt64.toNat_ofNat',
    Nat.div_add_mod']

end Source

namespace Range

/-- The loop of a draw: numbers are taken from the source until one is kept. -/
inductive Draws (r : Range) : Source → Int → Source → Prop
  | kept {s rest : Source} {n : Nat} {m : Int} (hs : s.number = (n, rest))
      (h : r.pick n = some m) : Draws r s m rest
  | again {s next rest : Source} {n : Nat} {m : Int} (hs : s.number = (n, next))
      (h : r.pick n = none) (hnext : Draws r next m rest) : Draws r s m rest

variable {r : Range}

/-- Once the words have ended, the next number is zero and ends the loop. -/
theorem draws_of_no_words (r : Range) (used : Nat) (m : Int) :
    r.Draws ⟨[], used⟩ ((r.pick 0).getD m) ⟨[], used + 2⟩ := by
  obtain ⟨k, hk⟩ := Option.isSome_iff_exists.mp r.isSome_pick_zero
  rw [hk]
  exact .kept (Source.number_nil used) hk

theorem draws_drawFrom (r : Range) (used : Nat) (words : List UInt64) :
    r.Draws ⟨words, used⟩ (r.drawFrom used words).1 (r.drawFrom used words).2 := by
  fun_induction drawFrom r used words with
  | case1 used low high words m h => exact .kept (Source.number_pair low high words used) h
  | case2 used low high words h ih => exact .again (Source.number_pair low high words used) h ih
  | case3 used low m h => exact .kept (Source.number_single low used) h
  | case4 used low h =>
    exact .again (Source.number_single low used) h (draws_of_no_words r (used + 2) _)
  | case5 used => exact draws_of_no_words r used _

/-- The loop ends whatever the source: it keeps the number zero, which comes when there are no words
any more. -/
theorem draws_draw (r : Range) (s : Source) : r.Draws s (r.draw s).1 (r.draw s).2 :=
  draws_drawFrom r s.used s.words

theorem Draws.unique {s rest rest' : Source} {m k : Int} (h : r.Draws s m rest)
    (h' : r.Draws s k rest') : m = k ∧ rest = rest' := by
  induction h with
  | kept hs hkept =>
    cases h' with
    | kept hs' hkept' =>
      obtain ⟨rfl, rfl⟩ := Prod.mk.inj (hs.symm.trans hs')
      exact ⟨Option.some.inj (hkept.symm.trans hkept'), rfl⟩
    | again hs' hagain =>
      obtain ⟨rfl, rfl⟩ := Prod.mk.inj (hs.symm.trans hs')
      cases hkept.symm.trans hagain
  | again hs hagain _ ih =>
    cases h' with
    | kept hs' hkept =>
      obtain ⟨rfl, rfl⟩ := Prod.mk.inj (hs.symm.trans hs')
      cases hkept.symm.trans hagain
    | again hs' _ hnext =>
      obtain ⟨rfl, rfl⟩ := Prod.mk.inj (hs.symm.trans hs')
      exact ih hnext

/-- What a draw gives was drawn by some number. -/
theorem Draws.exists_pick {s rest : Source} {m : Int} (h : r.Draws s m rest) :
    ∃ n < modulus, r.pick n = some m := by
  induction h with
  | @kept s _ _ _ hs hkept =>
    have hlt := s.number_lt
    rw [hs] at hlt
    exact ⟨_, hlt, hkept⟩
  | again _ _ _ ih => exact ih

theorem Draws.used_le {s rest : Source} {m : Int} (h : r.Draws s m rest) :
    s.used + 2 ≤ rest.used := by
  induction h with
  | @kept s _ _ _ hs _ =>
    have hused := s.used_number
    rw [hs] at hused
    exact Nat.le_of_eq hused.symm
  | @again s _ _ _ _ hs _ _ ih =>
    have hused := s.used_number
    rw [hs] at hused
    dsimp only at hused
    omega

/-- A draw that takes no more than one number keeps it. -/
theorem draws_withNumber_iff {s : Source} {n : Nat} (h : n < modulus) {m : Int} :
    r.Draws (s.withNumber n) m ⟨s.words, s.used + 2⟩ ↔ r.pick n = some m := by
  have hnumber := s.number_withNumber h
  constructor
  · intro hdraws
    cases hdraws with
    | kept hs hkept =>
      obtain ⟨rfl, -⟩ := Prod.mk.inj (hnumber.symm.trans hs)
      exact hkept
    | again hs _ hnext =>
      obtain ⟨-, rfl⟩ := Prod.mk.inj (hnumber.symm.trans hs)
      exact absurd hnext.used_le (Nat.not_le_of_lt (Nat.lt_add_of_pos_right Nat.two_pos))
  · exact .kept hnumber

theorem fits_of_pick {n : Nat} {m : Int} (h : r.pick n = some m) : Coefficient.Fits m := by
  have hbmod (k : Int) : Coefficient.Fits (k.bmod modulus) := by
    rw [Coefficient.Fits, Int.bmod_def, modulus]
    omega
  unfold pick at h
  split at h
  next => exact Option.some.inj h ▸ hbmod _
  next =>
    dsimp only at h
    split at h
    next => exact Option.some.inj h ▸ hbmod _
    next => cases h

theorem distribution_eq_ok_iff {low high : Int} {inclusive : Bool} :
    distribution low high inclusive = .ok r ↔
      (if inclusive then low ≤ high else low < high) ∧ between low high inclusive = r := by
  unfold distribution
  cases inclusive with
  | false => by_cases h : low < high <;> simp [h]
  | true => by_cases h : low ≤ high <;> simp [h]

theorem distribution_eq_error_iff {low high : Int} {inclusive : Bool} :
    (∃ trap, distribution low high inclusive = .error trap) ↔
      ¬if inclusive then low ≤ high else low < high := by
  unfold distribution
  cases inclusive with
  | false => by_cases h : low < high <;> simp [h]
  | true => by_cases h : low ≤ high <;> simp [h]

end Range

/-- What is relied on of a sampler: bounds that leave nothing to draw are refused, and where the
loop of a draw ends, the draw gives what it ends with. -/
structure Sampler.Lawful (u : Sampler) : Prop where
  refuses_iff (low high : Int) (inclusive : Bool) :
    (∃ trap, u.ofBounds low high inclusive = .error trap) ↔
      ¬if inclusive then low ≤ high else low < high
  draw_eq {low high : Int} {inclusive : Bool} {state : u.State}
    (hstate : u.ofBounds low high inclusive = .ok state) {s rest : Source} {n : Int}
    (h : (Range.between low high inclusive).Draws s n rest) : u.draw state s = (n, rest)

theorem lawful_widening : Sampler.widening.Lawful where
  refuses_iff _ _ _ := Range.distribution_eq_error_iff
  draw_eq hstate _ _ _ h := by
    obtain ⟨-, rfl⟩ := Range.distribution_eq_ok_iff.mp hstate
    obtain ⟨rfl, rfl⟩ := h.unique (Range.draws_draw _ _)
    rfl

end WideDecimal.Sampling
