import StepScript.Double

/-! Decimal text of integers and doubles. An integer is read with an optional sign and refused out
of range; a double is read with an optional point and exponent and rounded to the nearest. -/
namespace StepScript

/-- The number `coefficient * 10 ^ exponent`. -/
structure Decimal where
  coefficient : Nat
  exponent : Int

namespace Decimal

/-- An optional sign and what follows it. -/
def splitSign : Text → Bool × Text
  | '-' :: t => (true, t)
  | '+' :: t => (false, t)
  | t => (false, t)

def isNumeral (t : Text) : Bool :=
  !t.isEmpty && t.all Char.isDigit

/-- One sign at most, then digits. -/
def readInteger? (t : Text) : Option Int :=
  let (negative, digits) := splitSign t
  if isNumeral digits then
    let n : Int := (Nat.ofDigitChars 10 digits 0 : Nat)
    some (if negative then -n else n)
  else none

/-- An integer between -2^63 and 2^63 - 1. -/
def readInt? (t : Text) : Option Int64 :=
  (readInteger? t).bind fun n =>
    if -Double.signPlace ≤ n ∧ n < Double.signPlace then some (Int64.ofInt n) else none

def renderInteger (n : Int) : Text :=
  if n < 0 then '-' :: Nat.toDigits 10 n.natAbs else Nat.toDigits 10 n.natAbs

def renderInt (n : Int64) : Text :=
  renderInteger n.toInt

def readExponent? : Text → Option Int
  | [] => some 0
  | c :: t => if c == 'e' || c == 'E' then readInteger? t else none

/-- Digits with at most one point among them and at least one digit, then an optional exponent. -/
def read? (t : Text) : Option Decimal :=
  let whole := t.takeWhile Char.isDigit
  let rest := t.dropWhile Char.isDigit
  let (fraction, rest) := match rest with
    | '.' :: u => (u.takeWhile Char.isDigit, u.dropWhile Char.isDigit)
    | u => ([], u)
  if whole.isEmpty && fraction.isEmpty then none
  else (readExponent? rest).map fun e =>
    ⟨Nat.ofDigitChars 10 (whole ++ fraction) 0, e - fraction.length⟩

/-- Positional text: no exponent, no zero at the end of the fraction, no point without one. -/
def render (d : Decimal) : Text :=
  let digits := Nat.toDigits 10 d.coefficient
  match d.exponent with
  | .ofNat zeros => digits ++ List.replicate zeros '0'
  | .negSucc k =>
    let padded := List.replicate (k + 2 - digits.length) '0' ++ digits
    let whole := padded.take (padded.length - (k + 1))
    let fraction := dropZeros (padded.drop (padded.length - (k + 1)))
    if fraction.isEmpty then whole else whole ++ '.' :: fraction
where
  dropZeros : Text → Text
    | [] => []
    | c :: t =>
      match dropZeros t with
      | [] => if c == '0' then [] else [c]
      | d :: u => c :: d :: u

/-- Code of the nearest double. The first two cases only keep the powers of ten small: a positive
number of that size is past the greatest double, or below half of the least. -/
def code (d : Decimal) : Nat :=
  if d.coefficient = 0 then 0
  else if 400 < d.exponent then Double.infinityCode
  else if (d.coefficient.log2 : Int) + 3 * d.exponent < -1100 then 0
  else match d.exponent with
    | .ofNat k => Double.nearestCode (d.coefficient * Nat.pow 10 k) 1
    | .negSucc k => Double.nearestCode d.coefficient (Nat.pow 10 (k + 1))

end Decimal

/-- A double: an optional sign, then `inf`, `infinity` or `nan` in any case, or a decimal. -/
def Double.read? (t : Text) : Option Float :=
  let (negative, body) := Decimal.splitSign t
  if body.sameWord "inf".toList || body.sameWord "infinity".toList then
    some (ofCode negative infinityCode)
  else if body.sameWord "nan".toList then some nan
  else (Decimal.read? body).map fun d => ofCode negative d.code

end StepScript
