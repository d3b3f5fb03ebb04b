import WideDecimal.Coefficient.Basic
import WideDecimal.Trap

namespace WideDecimal.Sampling

/-- Words to come, after which there are zeros without end, and how many have been used. -/
structure Source where
  words : List UInt64
  used : Nat := 0

def Source.next (s : Source) : UInt64 × Source :=
  (s.words.headD 0, ⟨s.words.tail, s.used + 1⟩)

/-- A coefficient of any two words, the high one first. -/
def standard (s : Source) : Coefficient × Source :=
  let (high, s) := s.next
  let (low, s) := s.next
  (⟨high.toInt64, low⟩, s)

/-- A sampler of signed integers of 128 bits: what it keeps of two bounds, of which the upper one is
to be drawn or not, and what it draws. -/
structure Sampler where
  State : Type
  ofBounds (low high : Int) (inclusive : Bool) : Except Trap State
  draw (state : State) (s : Source) : Int × Source

def modulus : Nat := 2 ^ 128

/-- A range of signed integers of 128 bits by its least value and its size. The size is zero
where the range holds all of them. -/
structure Range where
  low : Int
  size : Nat

namespace Range

/-- The range up to `high`, with it or without it. -/
def between (low high : Int) (inclusive : Bool) : Range :=
  ⟨low, ((high - low + if inclusive then 1 else 0) % modulus).toNat⟩

/-- The range up to `high`, for draws to come; one that holds nothing traps. -/
def distribution (low high : Int) (inclusive : Bool) : Except Trap Range :=
  if inclusive then
    if low ≤ high then .ok (between low high true) else .error .boundsCross
  else
    if low < high then .ok (between low high false) else .error .boundsMeet

/-- The greatest low half of a product that is kept. Up to there as many numbers are kept for each
value of the range. -/
def zone (r : Range) : Nat := modulus - 1 - (modulus - r.size) % r.size

/-- The integer that a number of 128 bits draws from a range, unless the number has to be drawn
again. It is the high half of the product of number and size, added to the least value. -/
def pick (r : Range) (n : Nat) : Option Int :=
  if r.size = 0 then some (Int.bmod n modulus)
  else
    let product := n * r.size
    if product % modulus ≤ r.zone then some (Int.bmod (r.low + (product / modulus : Nat)) modulus)
    else none

/-- Draws from a range with words, the low one of a number first, until a number is kept. Zero
always is, so that a draw ends with the words at the latest. -/
def drawFrom (r : Range) (used : Nat) : List UInt64 → Int × Source
  | low :: high :: words =>
    match r.pick (high.toNat * 2 ^ 64 + low.toNat) with
    | some n => (n, ⟨words, used + 2⟩)
    | none => r.drawFrom (used + 2) words
  | [low] =>
    match r.pick low.toNat with
    | some n => (n, ⟨[], used + 2⟩)
    | none => ((r.pick 0).getD r.low, ⟨[], used + 4⟩)
  | [] => ((r.pick 0).getD r.low, ⟨[], used + 2⟩)

def draw (r : Range) (s : Source) : Int × Source := r.drawFrom s.used s.words

end Range

/-- The sampler that multiplies a number by the size of the range. -/
def Sampler.widening : Sampler := ⟨Range, Range.distribution, Range.draw⟩

/-- How a range is asked for: as a distribution to draw from, or in the draw itself. -/
inductive Request where
  | distribution
  | single

/-- Whether a range of coefficients holds something, by the order of its bounds. -/
def nonempty (low high : Coefficient) (inclusive : Bool) : Bool :=
  if inclusive then low ≤ high else low < high

/-- What a sampler keeps of a range of coefficients. Only a single draw looks at the bounds before
they are taken as integers. -/
def Sampler.ofRange (u : Sampler) (request : Request) (low high : Coefficient) (inclusive : Bool) :
    Except Trap u.State :=
  match request with
  | .distribution => u.ofBounds low.toInt high.toInt inclusive
  | .single =>
    if nonempty low high inclusive then u.ofBounds low.toInt high.toInt inclusive
    else .error .emptyRange

/-- The coefficient of a drawn integer. -/
def Sampler.drawCoefficient (u : Sampler) (state : u.State) (s : Source) : Coefficient × Source :=
  let (n, s) := u.draw state s
  (.ofInt n, s)

def repeatDraw (draw : Source → Coefficient × Source) : Nat → Source → List Coefficient × Source
  | 0, s => ([], s)
  | count + 1, s =>
    let (v, s) := draw s
    let (vs, s) := repeatDraw draw count s
    (v :: vs, s)

/-- A number of draws from the range up to `high`. A single draw asks for the range each
time, a distribution once at the start. -/
def sample (request : Request) (low high : Coefficient) (inclusive : Bool) (count : Nat)
    (s : Source) (u : Sampler := .widening) : Except Trap (List Coefficient × Source) :=
  match request, count with
  | .single, 0 => .ok ([], s)
  | _, _ =>
    (u.ofRange request low high inclusive).map fun state =>
      repeatDraw (u.drawCoefficient state) count s

end WideDecimal.Sampling
