import StepScript.Decimal.Shortest
import StepScript.Error

/-! Values of the four kinds, their display, and the literals that stand for them in expressions.
Equality of values is exact; `Value.same` is the looser one that scripts see, for which NaN differs
from itself and the two zeros are one. -/
namespace StepScript

inductive Value where
  | bool (b : Bool)
  | int (n : Int64)
  | double (x : Float)
  | string (s : Text)
deriving DecidableEq

/-- `true` or `false` in any letter case. -/
def readBool? (t : Text) : Option Bool :=
  if t.sameWord "true".toList then some true
  else if t.sameWord "false".toList then some false
  else none

namespace Value

def kind : Value → Kind
  | .bool _ => .bool
  | .int _ => .int
  | .double _ => .double
  | .string _ => .string

/-- The zero of a kind. -/
def zero : Kind → Value
  | .bool => .bool false
  | .int => .int 0
  | .double => .double (Double.ofInt 0)
  | .string => .string []

def display : Value → Text
  | .bool b => if b then "true".toList else "false".toList
  | .int n => Decimal.renderInt n
  | .double x => Double.render x
  | .string s => s

/-- Text that stands for the value in an expression: strings are quoted, and a finite double
carries a point so that it is not read as an Int. -/
def literal : Value → Text
  | .string s => '"' :: s ++ ['"']
  | .double x =>
    let text := Double.render x
    if Double.isFinite x && !text.contains '.' then text ++ ['.', '0'] else text
  | v => v.display

def asBool? : Value → Option Bool
  | .bool b => some b
  | _ => none

def asInt? : Value → Option Int64
  | .int n => some n
  | _ => none

def asDouble? : Value → Option Float
  | .double x => some x
  | _ => none

def asString? : Value → Option Text
  | .string s => some s
  | _ => none

/-- Numbers as doubles. -/
def asNumber? : Value → Option Float
  | .int n => some (Double.ofInt n.toInt)
  | .double x => some x
  | _ => none

/-- Equality by the comparison of doubles. -/
def same : Value → Value → Bool
  | .bool a, .bool b => a == b
  | .int a, .int b => a == b
  | .double a, .double b => a == b
  | .string a, .string b => a == b
  | _, _ => false

/-- A value of the kind from the text a host gives. A string may stand in quotes or not. -/
def create (kind : Kind) (raw : Text) : Except Error Value :=
  let text := raw.trim
  let read? := match kind with
    | .bool => (readBool? text).map .bool
    | .int => (Decimal.readInt? text).map .int
    | .double => (Double.read? text).map .double
    | .string => some (.string (unquote text))
  match read? with
  | some v => .ok v
  | none => .error (.invalidLiteral kind text)
where
  unquote (text : Text) : Text :=
    match text with
    | '"' :: inner => (Text.dropSuffix? '"' inner).getD text
    | _ => text

end Value
end StepScript
