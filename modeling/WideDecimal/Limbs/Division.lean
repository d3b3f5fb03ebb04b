import WideDecimal.Guarded
import WideDecimal.Limbs.Basic

namespace WideDecimal.Limbs

/-- Quotient limbs and remainder of `remainder` followed by limbs, by a single limb. -/
def divideByLimb (divisor : UInt64) (remainder : UInt64) : Limbs → Guarded (Limbs × UInt64)
  | [] => return ([], remainder)
  | x :: limbs => do
    let total := (← .raise remainder) ||| x.toUInt64
    let q ← .narrow (← .div total divisor)
    let (quotient, rest) ← divideByLimb divisor (← .mod total divisor) limbs
    return (q :: quotient, rest)

/-- The first guess at a quotient limb from the two leading limbs, and what it leaves of
them. The guess is the largest limb where the leading limbs are equal. -/
def estimate (u0 u1 v0 : UInt32) : Guarded (UInt64 × UInt64) := do
  let leading := join u0 u1
  let guess ← if u0 = v0 then pure 0xFFFFFFFF else .div leading v0.toUInt64
  return (guess, ← .sub leading (← .mul guess v0.toUInt64))

/-- Whether a guess leaves too little for its multiple of the divisor's second limb. -/
def overshoots (u2 v1 : UInt32) (guess left : UInt64) : Guarded Bool := do
  if left ≤ 0xFFFFFFFF then
    return (← .add (← .raise left) u2.toUInt64) < (← .mul v1.toUInt64 guess)
  else
    return false

theorem guess_pos_of_overshoots {u2 v1 : UInt32} {guess left : UInt64}
    (h : (overshoots u2 v1 guess left).value = true) : guess ≠ 0 := by
  rintro rfl
  simp only [overshoots] at h
  split at h
  · simp [Guarded.mul] at h
  · simp at h

theorem toNat_sub_one_lt {guess : UInt64} (h : guess ≠ 0) : (guess - 1).toNat < guess.toNat := by
  have hpos : 1 ≤ guess.toNat := by
    have : guess.toNat ≠ 0 := fun e => h (UInt64.toNat_inj.mp (by simpa using e))
    omega
  rw [UInt64.toNat_sub_of_le _ _ (UInt64.le_iff_toNat_le.mpr (by simpa using hpos))]
  simp
  omega

/-- Lowers a guess while it overshoots; each time the divisor's first limb is left over. -/
def refine (u2 v0 v1 : UInt32) (guess left : UInt64) : Guarded UInt64 :=
  let test := overshoots u2 v1 guess left
  let lower := Guarded.sub guess 1
  let more := Guarded.add left v0.toUInt64
  if test.value then
    let result := refine u2 v0 v1 (guess - 1) (left + v0.toUInt64)
    ⟨result.value, test.intact ∧ lower.intact ∧ more.intact ∧ result.intact⟩
  else ⟨guess, test.intact⟩
termination_by guess.toNat
decreasing_by exact toNat_sub_one_lt (guess_pos_of_overshoots ‹_›)

/-- Takes a multiple of the divisor from as many limbs, and what they lack of it as well. -/
def subtractMultiple (guess : UInt64) : Limbs → Limbs → Guarded (Limbs × UInt64)
  | v :: divisor, u :: window => do
    let (limbs, borrow) ← subtractMultiple guess divisor window
    let total ← .add borrow (← .mul guess v.toUInt64)
    let limb := u - total.toUInt32
    let borrow ← .add (total >>> 32) (if u < limb then 1 else 0)
    return (limb :: limbs, borrow)
  | [], [] => return ([], 0)
  | _, _ => .fault ([], 0)

/-- Adds the divisor to as many limbs, and the carry out of them as well. -/
def addBack : Limbs → Limbs → Guarded (Limbs × UInt64)
  | v :: divisor, u :: window => do
    let (limbs, carry) ← addBack divisor window
    let total ← .add (← .add v.toUInt64 u.toUInt64) carry
    return (total.toUInt32 :: limbs, total >>> 32)
  | [], [] => return ([], 0)
  | _, _ => .fault ([], 0)

/-- One quotient limb: the window, one limb longer than the divisor, divided by it, and what
is left of the window. -/
def round (divisor window : Limbs) : Guarded (UInt32 × Limbs) :=
  match divisor, window with
  | v0 :: v1 :: _, u0 :: u1 :: u2 :: _ => do
    let (guess, left) ← estimate u0 u1 v0
    let guess ← refine u2 v0 v1 guess left
    let (limbs, borrow) ← subtractMultiple guess divisor window.tail
    let top := (u0.toUInt64 - borrow).toUInt32
    if u0.toUInt64 < borrow then
      let (limbs, carry) ← addBack divisor limbs
      return (← .narrow (← .sub guess 1), (top + carry.toUInt32) :: limbs)
    else
      return (← .narrow guess, top :: limbs)
  | _, _ => .fault (0, window)

/-- Quotient limbs and remainder of a window followed by limbs, by a divisor with its top
bit set. Each round drops the emptied first limb and takes in the next one. -/
def rounds (divisor : Limbs) : Limbs → Limbs → Guarded (Limbs × Limbs)
  | window, [] => do
    let (q, remainder) ← round divisor window
    return ([q], remainder)
  | window, x :: limbs => do
    match ← round divisor window with
    | (q, top :: window) =>
      let (quotient, remainder) ← rounds divisor (window ++ [x]) limbs
      return (q :: quotient, top :: remainder)
    | (_, []) => .fault ([], [])

/-- Quotient and remainder limbs for a divisor of at least two limbs that does not start
with a zero, and a dividend that is longer and does. -/
def divideLong (dividend divisor : Limbs) : Guarded (Limbs × Limbs) := do
  let bits := leadingZeros (divisor.headD 0)
  let shifted := dividend.shiftLeft bits
  let span := divisor.length + 1
  let (quotient, remainder) ←
    rounds (divisor.shiftLeft bits) (shifted.take span) (shifted.drop span)
  return (quotient, remainder.shiftRight bits)

end WideDecimal.Limbs
