import StepScript.Decimal

/-! The shortest decimal text of a double. The reals that round to a double form an interval around
it. For each number of digits, from the fewest, the two neighbours of the double with so many
digits are tried; the first that lie in the interval give the text, the nearer of two and the upper
one on a tie. -/
namespace StepScript.Double

/-- The reals that round to a magnitude, in decimal places that hold it exactly: its own
coefficient, how far they reach on both sides in quarters of a unit of the last place, and whether
the ends belong to them. -/
structure Interval where
  coefficient : Nat
  exponent : Int
  down : Nat
  up : Nat
  closed : Bool

/-- The interval reaches half a step of the mantissa to both sides, or a quarter downward where the
step below is half as large. Its ends belong to an even mantissa. -/
def interval (code : Nat) : Interval :=
  let shift := shiftOfCode code
  let mantissa := mantissaOfCode code
  let step := Nat.pow 2 (shift - 1074) * Nat.pow 5 (1074 - shift)
  let narrow := mantissa = fractionCount ∧ 0 < shift
  ⟨mantissa * step, -(1074 - shift : Nat), if narrow then step else 2 * step, 2 * step,
    mantissa % 2 == 0⟩

def Interval.exact (i : Interval) : Decimal :=
  ⟨i.coefficient, i.exponent⟩

/-- Whether a distance in quarters of the last place stays within the reach. -/
def Interval.within (i : Interval) (distance reach : Nat) : Bool :=
  distance < reach || (i.closed && distance == reach)

/-- The neighbour of the exact value, without its last `dropped` digits, that lies within. -/
def Interval.neighbour? (i : Interval) (dropped : Nat) : Option Decimal :=
  let grid := Nat.pow 10 dropped
  let low := i.coefficient / grid
  let rest := i.coefficient % grid
  let lowFits := i.within (4 * rest) i.down
  let highFits := i.within (4 * (grid - rest)) i.up
  if lowFits && (!highFits || 2 * rest < grid) then some ⟨low, i.exponent + dropped⟩
  else if highFits then some ⟨low + 1, i.exponent + dropped⟩
  else none

/-- How many decimal digits a number has; the logarithm of two is taken a little too small. -/
def digitCount (n : Nat) : Nat :=
  let low := n.log2 * 30102 / 100000 + 1
  if n < Nat.pow 10 low then low
  else if n < Nat.pow 10 (low + 1) then low + 1
  else low + 2

/-- The decimal with the fewest digits within the interval. -/
def Interval.shortest (i : Interval) : Decimal :=
  let size := digitCount i.coefficient
  let found? := (List.range 17).findSome? fun n => i.neighbour? (size - (n + 1))
  found?.getD i.exact

def readsBack (code : Nat) (t : Text) : Bool :=
  (Decimal.read? t).map Decimal.code == some code

/-- Text of a finite magnitude. -/
def renderMagnitude (code : Nat) : Text :=
  let i := interval code
  let text := i.shortest.render
  if readsBack code text then text else i.exact.render

/-- Positional text with the fewest digits that read back; `inf`, `-inf` and `NaN` otherwise. -/
def render (x : Float) : Text :=
  if isNaN x then "NaN".toList
  else
    let body := if isInfinite x then "inf".toList else renderMagnitude (code x)
    if isNegative x then '-' :: body else body

end StepScript.Double
