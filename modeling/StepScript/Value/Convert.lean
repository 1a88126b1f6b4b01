import StepScript.Value

/-! Conversions between kinds. They never fail: text that cannot be read counts as zero. -/
namespace StepScript

/-- A number is true from one upward. -/
def isTruthy (x : Float) : Bool :=
  Double.ofInt 1 ≤ x

/-- An Int from text, or the integer part of a double from it, or zero. -/
def readIntOrZero (t : Text) : Int64 :=
  let text := t.trim
  ((Decimal.readInt? text).or ((Double.read? text).map Double.truncate)).getD 0

/-- A double from text, or zero. -/
def readDoubleOrZero (t : Text) : Float :=
  (Double.read? t.trim).getD (Double.ofInt 0)

/-- A Bool from its word or from the truth of a number, or false. -/
def readBoolOrFalse (t : Text) : Bool :=
  let text := t.trim
  ((readBool? text).or ((Double.read? text).map isTruthy)).getD false

def Value.convert : Value → Kind → Value
  | v, .string => .string v.display
  | .bool b, .int => .int (if b then 1 else 0)
  | .bool b, .double => .double (Double.ofInt (if b then 1 else 0))
  | .int n, .bool => .bool (isTruthy (Double.ofInt n.toInt))
  | .int n, .double => .double (Double.ofInt n.toInt)
  | .double x, .bool => .bool (isTruthy x)
  | .double x, .int => .int (Double.truncate x)
  | .string s, .bool => .bool (readBoolOrFalse s)
  | .string s, .int => .int (readIntOrZero s)
  | .string s, .double => .double (readDoubleOrZero s)
  | v, _ => v

end StepScript
