import StepScript.Text

/-! Binary64 numbers measured in units of 2^-1074, the least positive double. Every finite
magnitude is a natural number of units, so rounding, widening and truncation are exact arithmetic
on naturals. The code of a magnitude is its bit pattern without the sign bit. -/
namespace StepScript.Double

/-- Units in the number one. -/
def unitsPerOne : Nat := Nat.pow 2 1074

/-- Codes of normal magnitudes with one exponent. -/
def fractionCount : Nat := Nat.pow 2 52

/-- The value of the sign bit, and one more than the greatest Int. -/
def signPlace : Nat := Nat.pow 2 63

/-- The code of infinity, above the code of every finite magnitude. -/
def infinityCode : Nat := 2047 * fractionCount

/-- `num / den` rounded to the nearest natural number, a half to the even neighbour. -/
def roundEven (num den : Nat) : Nat :=
  let low := num / den
  let rest := 2 * (num % den)
  if rest < den then low
  else if den < rest then low + 1
  else low + low % 2

/-- Code of the magnitude nearest to `num / den`. The mantissa counts steps of `2 ^ shift` units
and `shift` is the least one that leaves at most 53 bits; a mantissa that rounds up to 54 bits
carries into the next exponent. -/
def nearestCode (num den : Nat) : Nat :=
  let scaled := num * unitsPerOne
  let shift := (scaled / den).log2 - 52
  min (shift * fractionCount + roundEven scaled (den * Nat.pow 2 shift)) infinityCode

/-- The exponent of a code, as the power of two by which its mantissa counts units. -/
def shiftOfCode (code : Nat) : Nat :=
  code / fractionCount - 1

def mantissaOfCode (code : Nat) : Nat :=
  if code < fractionCount then code else fractionCount + code % fractionCount

/-- Units of the magnitude with this code. -/
def unitsOfCode (code : Nat) : Nat :=
  mantissaOfCode code * Nat.pow 2 (shiftOfCode code)

def ofCode (negative : Bool) (code : Nat) : Float :=
  Float.ofBits (UInt64.ofNat (if negative then signPlace + code else code))

def code (x : Float) : Nat :=
  x.toBits.toNat % signPlace

def isNegative (x : Float) : Bool :=
  signPlace ≤ x.toBits.toNat

/-- The codes above infinity are not numbers. -/
def isNaN (x : Float) : Bool :=
  infinityCode < code x

def isInfinite (x : Float) : Bool :=
  code x == infinityCode

def isFinite (x : Float) : Bool :=
  code x < infinityCode

def nan : Float :=
  ofCode false (infinityCode + fractionCount / 2)

/-- The double nearest to an integer, a half to the even neighbour. -/
def ofInt (n : Int) : Float :=
  ofCode (n < 0) (nearestCode n.natAbs 1)

/-- The integer part, held within the bounds of `Int64`; NaN gives zero. -/
def truncate (x : Float) : Int64 :=
  if isNaN x then 0
  else
    let whole : Int := (unitsOfCode (code x) / unitsPerOne : Nat)
    let signed := if isNegative x then -whole else whole
    Int64.ofInt (max (-signPlace) (min (signPlace - 1) signed))

end StepScript.Double
