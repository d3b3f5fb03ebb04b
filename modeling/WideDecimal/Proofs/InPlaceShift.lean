import Mathlib.Data.List.GetD
import WideDecimal.Proofs.Limbs

namespace WideDecimal

namespace Limbs

open Guarded (Holds)

/-- A move to the left by fewer bits than a limb has. -/
def moveLeft (bits : Nat) (x : UInt32) : Guarded UInt32 := ⟨x <<< UInt32.ofNat bits, bits < 32⟩

/-- A move to the right by fewer bits than a limb has. -/
def moveRight (bits : Nat) (x : UInt32) : Guarded UInt32 := ⟨x >>> UInt32.ofNat bits, bits < 32⟩

/-- A limb moved to the left, with the bits that its neighbour pushes out. -/
def takeInLeft (bits : Nat) (x neighbour : UInt32) : Guarded UInt32 := do
  return (← moveLeft bits x) ||| (← moveRight (32 - bits) neighbour)

/-- A limb moved to the right, with the bits that its neighbour pushes out. -/
def takeInRight (bits : Nat) (x neighbour : UInt32) : Guarded UInt32 := do
  return (← moveRight bits x) ||| (← moveLeft (32 - bits) neighbour)

/-- Overwrites a limb with what comes of it and of its neighbour as they stand. -/
def overwrite (takeIn : UInt32 → UInt32 → Guarded UInt32) (neighbour : Nat → Nat) (limbs : Limbs)
    (i : Nat) : Guarded Limbs := do
  .require (i < limbs.length ∧ neighbour i < limbs.length)
  return limbs.set i (← takeIn (limbs.getD i 0) (limbs.getD (neighbour i) 0))

/-- Overwrites limbs in the order of their indices, and after them the one that has no neighbour. -/
def overwriteAll (takeIn : UInt32 → UInt32 → Guarded UInt32) (neighbour : Nat → Nat)
    (indices : List Nat) (move : UInt32 → Guarded UInt32) (edge : Nat) (limbs : Limbs) :
    Guarded Limbs := do
  let limbs ← indices.foldlM (overwrite takeIn neighbour) limbs
  .require (edge < limbs.length)
  return limbs.set edge (← move (limbs.getD edge 0))

/-- An order of indices in which no limb is overwritten twice or before another one takes bits from
it, all of them and their neighbours among so many limbs. -/
structure Sweeps (neighbour : Nat → Nat) (indices : List Nat) (length : Nat) : Prop where
  within : ∀ i ∈ indices, i < length ∧ neighbour i < length
  untouched : indices.Pairwise fun i j => i ≠ j ∧ i ≠ neighbour j

/-- A shift to the left in place, from the first limb to the last. -/
def shiftLeftInPlace (limbs : Limbs) (bits : Nat) : Guarded Limbs :=
  if limbs = [] ∨ bits = 0 then return limbs
  else
    let last := limbs.length - 1
    overwriteAll (takeInLeft bits) (· + 1) (List.range last) (moveLeft bits) last limbs

/-- A shift to the right in place, from the last limb to the first. -/
def shiftRightInPlace (limbs : Limbs) (bits : Nat) : Guarded Limbs :=
  if limbs = [] ∨ bits = 0 then return limbs
  else
    let last := limbs.length - 1
    overwriteAll (takeInRight bits) (· - 1) (List.range' 1 last).reverse (moveRight bits) 0 limbs

theorem getD_set {limbs : Limbs} {i : Nat} (h : i < limbs.length) (x : UInt32) (j : Nat) :
    (limbs.set i x).getD j 0 = if i = j then x else limbs.getD j 0 := by
  rw [List.getD_eq_getElem?_getD, List.getD_eq_getElem?_getD, List.getElem?_set]
  split
  next => exact Option.getD_some
  next => rfl

theorem ext_getD {xs ys : Limbs} (hlength : xs.length = ys.length)
    (h : ∀ i < ys.length, xs.getD i 0 = ys.getD i 0) : xs = ys := by
  apply List.ext_getElem hlength
  intro i hx hy
  have hi := h i hy
  rwa [List.getD_eq_getElem _ _ hx, List.getD_eq_getElem _ _ hy] at hi

section Overwrite

variable {takeIn : UInt32 → UInt32 → Guarded UInt32} {taken : UInt32 → UInt32 → UInt32}
  {neighbour : Nat → Nat} {limbs : Limbs} {indices : List Nat}

theorem Sweeps.of_cons {i length : Nat} (h : Sweeps neighbour (i :: indices) length) :
    Sweeps neighbour indices length :=
  ⟨fun j hj => h.within j (List.mem_cons_of_mem i hj), (List.pairwise_cons.mp h.untouched).2⟩

theorem overwrite_holds (htake : ∀ x y, (takeIn x y).Holds (· = taken x y)) {i : Nat}
    (hi : i < limbs.length) (hneighbour : neighbour i < limbs.length) :
    (overwrite takeIn neighbour limbs i).Holds
      (· = limbs.set i (taken (limbs.getD i 0) (limbs.getD (neighbour i) 0))) := by
  refine Holds.bind (Guarded.holds_require ⟨hi, hneighbour⟩) fun _ _ => ?_
  exact Holds.bind (htake _ _) fun limb hlimb => Holds.pure (by rw [hlimb])

/-- However late its turn comes, each limb comes of the two limbs that were there at the start. -/
theorem foldlM_overwrite_holds (htake : ∀ x y, (takeIn x y).Holds (· = taken x y))
    (h : Sweeps neighbour indices limbs.length) :
    (indices.foldlM (overwrite takeIn neighbour) limbs).Holds fun result =>
      result.length = limbs.length ∧ ∀ j, result.getD j 0 =
        if j ∈ indices then taken (limbs.getD j 0) (limbs.getD (neighbour j) 0)
        else limbs.getD j 0 := by
  induction indices generalizing limbs with
  | nil => exact Holds.pure ⟨rfl, fun j => (if_neg List.not_mem_nil).symm⟩
  | cons i indices ih =>
    obtain ⟨hi, hneighbour⟩ := h.within i List.mem_cons_self
    obtain ⟨hfirst, -⟩ := List.pairwise_cons.mp h.untouched
    rw [List.foldlM_cons]
    refine Holds.bind (overwrite_holds htake hi hneighbour) fun moved hmoved => ?_
    have hlength : moved.length = limbs.length := by rw [hmoved, List.length_set]
    have hlimb (j : Nat) := hmoved ▸ getD_set hi _ j
    refine (ih (hlength ▸ h.of_cons)).imp fun result hresult => ?_
    refine ⟨hresult.1.trans hlength, fun j => ?_⟩
    rw [hresult.2 j]
    by_cases hj : j ∈ indices
    · -- The step at `i` has overwritten neither this limb nor its neighbour.
      obtain ⟨hne, hne'⟩ := hfirst j hj
      rw [if_pos hj, if_pos (List.mem_cons_of_mem i hj), hlimb, hlimb, if_neg hne, if_neg hne']
    · rw [if_neg hj, hlimb]
      by_cases hij : i = j
      · subst hij
        rw [if_pos rfl, if_pos List.mem_cons_self]
      · rw [if_neg hij, if_neg (List.not_mem_cons_of_ne_of_not_mem (Ne.symm hij) hj)]

theorem overwriteAll_holds {move : UInt32 → Guarded UInt32} {moved : UInt32 → UInt32} {edge : Nat}
    (htake : ∀ x y, (takeIn x y).Holds (· = taken x y)) (hmove : ∀ x, (move x).Holds (· = moved x))
    (h : Sweeps neighbour indices limbs.length) (hedge : edge < limbs.length)
    (hlast : edge ∉ indices) :
    (overwriteAll takeIn neighbour indices move edge limbs).Holds fun result =>
      result.length = limbs.length ∧ result.getD edge 0 = moved (limbs.getD edge 0) ∧
      ∀ j ∈ indices, result.getD j 0 = taken (limbs.getD j 0) (limbs.getD (neighbour j) 0) := by
  refine Holds.bind (foldlM_overwrite_holds htake h) fun others hothers => ?_
  obtain ⟨hlength, hlimb⟩ := hothers
  rw [← hlength] at hedge
  refine Holds.bind (Guarded.holds_require hedge) fun _ _ => ?_
  refine Holds.bind (hmove _) fun limb hmoved => Holds.pure ⟨?_, ?_, ?_⟩
  · rw [List.length_set, hlength]
  · rw [getD_set hedge, if_pos rfl, hmoved, hlimb, if_neg hlast]
  · intro j hj
    have hne : edge ≠ j := fun heq => hlast (heq ▸ hj)
    rw [getD_set hedge, if_neg hne, hlimb, if_pos hj]

end Overwrite

theorem mem_reverse_range'_iff {i length : Nat} :
    i ∈ (List.range' 1 (length - 1)).reverse ↔ 1 ≤ i ∧ i < length := by
  rw [List.mem_reverse, List.mem_range'_1]
  omega

theorem sweeps_range (length : Nat) : Sweeps (· + 1) (List.range (length - 1)) length where
  within i hi := by
    have := List.mem_range.mp hi
    omega
  untouched := List.pairwise_lt_range.imp fun hlt => by omega

theorem sweeps_reverse (length : Nat) :
    Sweeps (· - 1) (List.range' 1 (length - 1)).reverse length where
  within i hi := by
    have := mem_reverse_range'_iff.mp hi
    omega
  untouched := List.pairwise_reverse.mpr ((List.pairwise_lt_range' 1).imp fun hlt => by omega)

theorem getD_pushLeft (bits : Nat) {limbs : Limbs} {i : Nat} (h : i < limbs.length) :
    (pushLeft bits limbs).getD i 0 =
      limbs.getD i 0 <<< UInt32.ofNat bits |||
        limbs.getD (i + 1) 0 >>> UInt32.ofNat (32 - bits) := by
  induction limbs generalizing i with
  | nil => cases h
  | cons x limbs ih =>
    cases i with
    | zero => cases limbs <;> rfl
    | succ i => exact ih (Nat.lt_of_succ_lt_succ h)

theorem getD_pushRight (bits : Nat) (before : UInt32) {limbs : Limbs} {i : Nat}
    (h : i < limbs.length) :
    (pushRight bits before limbs).getD i 0 =
      limbs.getD i 0 >>> UInt32.ofNat bits |||
        (before :: limbs).getD i 0 <<< UInt32.ofNat (32 - bits) := by
  induction limbs generalizing before i with
  | nil => cases h
  | cons x limbs ih =>
    cases i with
    | zero => rfl
    | succ i => exact ih x (Nat.lt_of_succ_lt_succ h)

section InPlace

variable {bits : Nat}

theorem moveLeft_holds (h : bits < 32) (x : UInt32) :
    (moveLeft bits x).Holds (· = x <<< UInt32.ofNat bits) := ⟨h, rfl⟩

theorem moveRight_holds (h : bits < 32) (x : UInt32) :
    (moveRight bits x).Holds (· = x >>> UInt32.ofNat bits) := ⟨h, rfl⟩

theorem takeInLeft_holds (hpos : 0 < bits) (h : bits < 32) (x y : UInt32) :
    (takeInLeft bits x y).Holds
      (· = x <<< UInt32.ofNat bits ||| y >>> UInt32.ofNat (32 - bits)) := by
  refine Holds.bind (moveLeft_holds h x) fun _ hx => ?_
  exact Holds.bind (moveRight_holds (by omega) y) fun _ hy => Holds.pure (by rw [hx, hy])

theorem takeInRight_holds (hpos : 0 < bits) (h : bits < 32) (x y : UInt32) :
    (takeInRight bits x y).Holds
      (· = x >>> UInt32.ofNat bits ||| y <<< UInt32.ofNat (32 - bits)) := by
  refine Holds.bind (moveRight_holds h x) fun _ hx => ?_
  exact Holds.bind (moveLeft_holds (by omega) y) fun _ hy => Holds.pure (by rw [hx, hy])

/-- Nothing is to be overwritten where there are no limbs or the count is zero. -/
theorem shift_eq_self {limbs : Limbs} (h : limbs = [] ∨ bits = 0) :
    limbs.shiftLeft bits = limbs ∧ limbs.shiftRight bits = limbs := by
  rcases h with rfl | hzero
  · exact ⟨ite_self [], ite_self []⟩
  · exact ⟨if_pos hzero, if_pos hzero⟩

theorem shiftLeftInPlace_holds (h : bits < 32) (limbs : Limbs) :
    (shiftLeftInPlace limbs bits).Holds (· = limbs.shiftLeft bits) := by
  unfold shiftLeftInPlace
  split
  next hnone => exact Holds.pure (shift_eq_self hnone).1.symm
  next hsome =>
    obtain ⟨hne, hbits⟩ := not_or.mp hsome
    have hlength : 0 < limbs.length := List.length_pos_iff.mpr hne
    have htake := takeInLeft_holds (Nat.pos_of_ne_zero hbits) h
    refine (overwriteAll_holds htake (moveLeft_holds h) (sweeps_range limbs.length) (by omega)
      (by simp)).imp fun result hresult => ?_
    obtain ⟨hresultLength, hlast, hothers⟩ := hresult
    rw [shiftLeft, if_neg hbits]
    apply ext_getD (by rw [hresultLength, length_pushLeft])
    intro i hi
    rw [length_pushLeft] at hi
    rw [getD_pushLeft bits hi]
    rcases Nat.lt_or_eq_of_le (Nat.le_sub_one_of_lt hi) with hbefore | rfl
    · exact hothers i (List.mem_range.mpr hbefore)
    · have hbehind : limbs.getD (limbs.length - 1 + 1) 0 = 0 := List.getD_eq_default _ _ (by omega)
      rw [hlast, hbehind, UInt32.zero_shiftRight, UInt32.or_zero]

example : (shiftLeftInPlace [0, 0x80000001, 0xF0000000] 4).value = [0x8, 0x1F, 0] := by decide

theorem shiftRightInPlace_holds (h : bits < 32) (limbs : Limbs) :
    (shiftRightInPlace limbs bits).Holds (· = limbs.shiftRight bits) := by
  unfold shiftRightInPlace
  split
  next hnone => exact Holds.pure (shift_eq_self hnone).2.symm
  next hsome =>
    obtain ⟨hne, hbits⟩ := not_or.mp hsome
    have hlength : 0 < limbs.length := List.length_pos_iff.mpr hne
    have htake := takeInRight_holds (Nat.pos_of_ne_zero hbits) h
    refine (overwriteAll_holds htake (moveRight_holds h) (sweeps_reverse limbs.length) hlength
      (by simp)).imp fun result hresult => ?_
    obtain ⟨hresultLength, hfirst, hothers⟩ := hresult
    rw [shiftRight, if_neg hbits]
    apply ext_getD (by rw [hresultLength, length_pushRight])
    intro i hi
    rw [length_pushRight] at hi
    rw [getD_pushRight bits 0 hi]
    cases i with
    | zero => rw [hfirst, List.getD_cons_zero, UInt32.zero_shiftLeft, UInt32.or_zero]
    | succ i => exact hothers (i + 1) (mem_reverse_range'_iff.mpr ⟨Nat.le_add_left 1 i, hi⟩)

end InPlace

end Limbs

end WideDecimal
