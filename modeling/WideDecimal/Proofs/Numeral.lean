import WideDecimal.Coefficient.Numeral
import WideDecimal.Proofs.DigitText
import WideDecimal.Proofs.Division

namespace WideDecimal.Coefficient

open DigitText
open Guarded (Holds)

/-- The sign that a numeral shows. -/
def signText (v : Coefficient) : List Char := if v.isNegative then ['-'] else []

theorem natAbs_tenTo18 : tenTo18.toInt.natAbs = 10 ^ chunkDigits := by decide

theorem natAbs_tenTo36 : tenTo36.toInt.natAbs = 10 ^ (2 * chunkDigits) := by decide

theorem guardedSplit_holds (v : Coefficient) {unit : Coefficient} (h : 1 < unit.toInt) :
    (guardedSplit v unit).Holds fun parts =>
      parts.1.toInt = v.toInt.tdiv unit.toInt ∧ parts.2.toInt = v.toInt.tmod unit.toInt := by
  refine Holds.bind (guardedDivide_holds v unit) fun result hresult => ?_
  obtain ⟨q, r, rfl, hq, hr⟩ := hresult.exact h
  exact Holds.pure ⟨hq, hr⟩

theorem toInt_low {v : Coefficient} (h : v.toInt.natAbs < 10 ^ chunkDigits) :
    v.low.toInt64.toInt = v.toInt := by
  have hl := v.low.toNat_lt
  rw [chunkDigits] at h
  rw [toInt_toInt64, Int.bmod_def]
  simp only [toInt] at h ⊢
  omega

theorem guardedChunk_holds {v : Coefficient} (h : v.toInt.natAbs < 10 ^ chunkDigits)
    (first : Bool) :
    (guardedChunk v first).Holds fun text => text = chunkText v.toInt first := by
  refine Holds.bind (Guarded.holds_require h) fun _ _ => Holds.pure ?_
  rw [toInt_low h]

theorem chunkText_first (v : Coefficient) :
    chunkText v.toInt true = v.signText ++ Nat.toDigits 10 v.toInt.natAbs := by
  have h := v.isNegative_iff
  unfold chunkText signText
  simp only [if_true]
  by_cases hneg : v.toInt < 0
  · rw [if_pos hneg, if_pos (h.mpr hneg)]
  · rw [if_neg hneg, if_neg (mt h.mp hneg)]

theorem chunkText_later {n : Int} (h : 0 ≤ n) :
    chunkText n false = (Nat.toDigits 10 n.natAbs).leftpad chunkDigits '0' := by
  simp [chunkText, Int.not_lt.mpr h]

theorem toInt_abs {v : Coefficient} (h : v.toInt.natAbs < 2 ^ 127) :
    v.abs.toInt = v.toInt.natAbs := by
  have hfits : Fits v.toInt.natAbs := ⟨by omega, by omega⟩
  rw [toInt_abs_eq_bmod, bmod_eq_self hfits]

/-- A chunk that is not the first is written with all its digits, whatever its sign. -/
theorem guardedChunk_abs_holds {v : Coefficient} (h : v.toInt.natAbs < 10 ^ chunkDigits) :
    (guardedChunk v.abs false).Holds fun text =>
      text = (Nat.toDigits 10 v.toInt.natAbs).leftpad chunkDigits '0' := by
  have habs : v.abs.toInt = v.toInt.natAbs := toInt_abs (Nat.lt_trans h (by decide))
  refine (guardedChunk_holds (by rw [habs, Int.natAbs_natCast]; exact h) false).imp
    fun text htext => ?_
  rw [htext, habs, chunkText_later (by omega), Int.natAbs_natCast]

theorem neg_iff_of_tdiv {v q : Coefficient} {unit : Int} (hunit : 0 < unit)
    (hq : q.toInt = v.toInt.tdiv unit) (hne : q.toInt ≠ 0) : q.toInt < 0 ↔ v.toInt < 0 := by
  rcases Int.lt_or_le v.toInt 0 with hneg | hpos
  · have hle := Int.tdiv_nonneg (Int.neg_nonneg_of_nonpos (Int.le_of_lt hneg))
      (Int.le_of_lt hunit)
    rw [Int.neg_tdiv] at hle
    omega
  · have hle := Int.tdiv_nonneg hpos (Int.le_of_lt hunit)
    omega

theorem signText_of_tdiv {v q : Coefficient} {unit : Int} (hunit : 0 < unit)
    (hq : q.toInt = v.toInt.tdiv unit) (hne : q.toInt ≠ 0) : q.signText = v.signText := by
  rw [signText, signText, (isNegative_eq_iff q v).mpr (neg_iff_of_tdiv hunit hq hne)]

theorem natAbs_of_tdiv {v q : Coefficient} {unit : Int} (hq : q.toInt = v.toInt.tdiv unit) :
    q.toInt.natAbs = v.toInt.natAbs / unit.natAbs := by
  rw [hq, Int.natAbs_tdiv]
  rfl

theorem natAbs_lt_of_tdiv_isZero {v q : Coefficient} {unit : Int}
    (hq : q.toInt = v.toInt.tdiv unit) (hunit : 0 < unit.natAbs) (hzero : q.isZero = true) :
    v.toInt.natAbs < unit.natAbs := by
  have hquot := natAbs_of_tdiv hq
  rw [(isZero_iff q).mp hzero, Int.natAbs_zero] at hquot
  exact Nat.lt_of_div_eq_zero hunit hquot.symm

theorem natAbs_of_tmod {v r : Coefficient} {unit : Int} (hr : r.toInt = v.toInt.tmod unit) :
    r.toInt.natAbs = v.toInt.natAbs % unit.natAbs := by
  rw [hr, Int.natAbs_tmod]

theorem eq_of_tmod {v r : Coefficient} {unit : Int} (hr : r.toInt = v.toInt.tmod unit)
    (h : v.toInt.natAbs < unit.natAbs) : r = v := by
  have hquot : v.toInt.tdiv unit = 0 := by
    rw [← Int.natAbs_eq_zero, Int.natAbs_tdiv]
    exact Nat.div_eq_of_lt h
  have hsum := Int.tmod_add_tdiv_mul v.toInt unit
  rw [hquot, Int.zero_mul, Int.add_zero] at hsum
  rw [← toInt_inj, hr, hsum]

theorem guardedLowChunks_holds {v : Coefficient} (h : v.toInt.natAbs < 10 ^ (2 * chunkDigits)) :
    (guardedLowChunks v).Holds fun text =>
      text = v.signText ++ Nat.toDigits 10 v.toInt.natAbs := by
  refine Holds.bind (guardedSplit_holds v (by decide)) fun parts hparts => ?_
  obtain ⟨middle, tail⟩ := parts
  obtain ⟨hmiddle, htail⟩ := hparts
  have hquot := natAbs_of_tdiv hmiddle
  have hmod := natAbs_of_tmod htail
  rw [natAbs_tenTo18] at hquot hmod
  have hsmall : tail.toInt.natAbs < 10 ^ chunkDigits := by
    rw [hmod]
    exact Nat.mod_lt _ (by decide)
  dsimp only
  split
  next hzero =>
    have hlt := natAbs_lt_of_tdiv_isZero hmiddle (by decide) hzero
    obtain rfl : tail = v := eq_of_tmod htail hlt
    rw [natAbs_tenTo18] at hlt
    exact (guardedChunk_holds hlt true).imp fun text htext => htext.trans (chunkText_first tail)
  next hne =>
    rw [isZero_iff] at hne
    have hlt : middle.toInt.natAbs < 10 ^ chunkDigits := by
      rw [hquot]
      exact Nat.div_lt_of_lt_mul (by rwa [← Nat.pow_add, ← Nat.two_mul])
    refine Holds.bind (guardedChunk_holds hlt true) fun front hfront => ?_
    refine Holds.bind (guardedChunk_abs_holds hsmall) fun back hback => Holds.pure ?_
    have hpos : 0 < middle.toInt.natAbs := Int.natAbs_pos.mpr hne
    rw [hmod] at hsmall
    rw [hfront, hback, chunkText_first, signText_of_tdiv (by decide) hmiddle hne,
      List.append_assoc, ← toDigits_mul_pow_add hpos (by decide) (hmod ▸ hsmall), hquot, hmod,
      Nat.div_add_mod']

/-- A value that fills a third chunk: below the first chunk, the other two show all their digits
whatever their signs. -/
theorem guardedHighChunks_holds {v top rest : Coefficient}
    (htop : top.toInt = v.toInt.tdiv tenTo36.toInt)
    (hrest : rest.toInt = v.toInt.tmod tenTo36.toInt) (hne : top.toInt ≠ 0) :
    (do
      let (middle, tail) ← guardedSplit rest.abs tenTo18
      return (← guardedChunk top true) ++ (← guardedChunk middle false) ++
        (← guardedChunk tail.abs false)).Holds fun text =>
      text = v.signText ++ Nat.toDigits 10 v.toInt.natAbs := by
  have hbounds := v.toInt_bounds
  have hquot := natAbs_of_tdiv htop
  have hmod := natAbs_of_tmod hrest
  rw [natAbs_tenTo36] at hquot hmod
  have hrestlt : rest.toInt.natAbs < 10 ^ (2 * chunkDigits) := by
    rw [hmod]
    exact Nat.mod_lt _ (by decide)
  have habs : rest.abs.toInt = rest.toInt.natAbs := toInt_abs (Nat.lt_trans hrestlt (by decide))
  refine Holds.bind (guardedSplit_holds rest.abs (by decide)) fun parts hparts => ?_
  obtain ⟨middle, tail⟩ := parts
  obtain ⟨hmiddle, htail⟩ := hparts
  have hfirst := natAbs_of_tdiv hmiddle
  have hlast := natAbs_of_tmod htail
  rw [natAbs_tenTo18, habs, Int.natAbs_natCast] at hfirst hlast
  have htoplt : top.toInt.natAbs < 10 ^ chunkDigits := by
    rw [hquot]
    exact Nat.div_lt_of_lt_mul (Nat.lt_of_le_of_lt (show _ ≤ 2 ^ 127 by omega) (by decide))
  have hmiddlelt : middle.toInt.natAbs < 10 ^ chunkDigits := by
    rw [hfirst]
    exact Nat.div_lt_of_lt_mul (by rwa [← Nat.pow_add, ← Nat.two_mul])
  have htaillt : tail.toInt.natAbs < 10 ^ chunkDigits := by
    rw [hlast]
    exact Nat.mod_lt _ (by decide)
  have hnonneg : 0 ≤ middle.toInt := by
    rw [hmiddle, habs]
    exact Int.tdiv_nonneg (Int.natCast_nonneg _) (by decide)
  have hpos : 0 < top.toInt.natAbs := Int.natAbs_pos.mpr hne
  dsimp only
  refine Holds.bind (guardedChunk_holds htoplt true) fun front hfront => ?_
  refine Holds.bind (guardedChunk_holds hmiddlelt false) fun inner hinner => ?_
  refine Holds.bind (guardedChunk_abs_holds htaillt) fun back hback => Holds.pure ?_
  have hvalue : v.toInt.natAbs =
      (top.toInt.natAbs * 10 ^ chunkDigits + middle.toInt.natAbs) * 10 ^ chunkDigits +
        tail.toInt.natAbs := by
    rw [hquot, hfirst, hlast, hmod, chunkDigits]
    omega
  rw [hfront, hinner, hback, chunkText_first, chunkText_later hnonneg,
    signText_of_tdiv (by decide) htop hne, hvalue,
    toDigits_mul_pow_add (Nat.add_pos_left (Nat.mul_pos hpos (by decide)) _) (by decide) htaillt,
    toDigits_mul_pow_add hpos (by decide) hmiddlelt, List.append_assoc, List.append_assoc,
    List.append_assoc]

theorem guardedChunks_holds (v : Coefficient) :
    (guardedChunks v).Holds fun text =>
      text = v.signText ++ Nat.toDigits 10 v.toInt.natAbs := by
  refine Holds.bind (guardedSplit_holds v (by decide)) fun parts hparts => ?_
  obtain ⟨top, rest⟩ := parts
  obtain ⟨htop, hrest⟩ := hparts
  dsimp only
  split
  next hzero =>
    have hlt := natAbs_lt_of_tdiv_isZero htop (by decide) hzero
    obtain rfl : rest = v := eq_of_tmod hrest hlt
    rw [natAbs_tenTo36] at hlt
    exact guardedLowChunks_holds hlt
  next hne =>
    rw [isZero_iff] at hne
    exact guardedHighChunks_holds htop hrest hne

theorem length_toDigits_le (v : Coefficient) : (Nat.toDigits 10 v.toInt.natAbs).length ≤ 39 := by
  have hbounds := v.toInt_bounds
  exact (Nat.length_toDigits_le_iff (by decide) (by decide)).mpr
    (Nat.lt_of_le_of_lt (show _ ≤ 2 ^ 127 by omega) (by decide))

theorem guardedNumeral_holds (v : Coefficient) :
    (guardedNumeral v).Holds fun text =>
      text = v.signText ++ Nat.toDigits 10 v.toInt.natAbs := by
  refine Holds.bind (guardedChunks_holds v) fun text htext => ?_
  have hlength : text.length ≤ numeralCapacity := by
    have hdigits := v.length_toDigits_le
    have hsign : v.signText.length ≤ 1 := by
      unfold signText
      split <;> simp
    rw [htext, List.length_append, numeralCapacity]
    omega
  exact Holds.bind (Guarded.holds_require hlength) fun _ _ => Holds.pure htext

theorem numeral_eq (v : Coefficient) :
    v.numeral = v.signText ++ Nat.toDigits 10 v.toInt.natAbs :=
  (guardedNumeral_holds v).value

theorem digits_eq (v : Coefficient) : v.digits = Nat.toDigits 10 v.toInt.natAbs := by
  unfold digits
  rw [numeral_eq, signText]
  split <;> rfl

end WideDecimal.Coefficient
