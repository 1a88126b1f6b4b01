import StepScript.Text

/-! The four kinds of values and the names scripts write for them. -/
namespace StepScript

inductive Kind where
  | bool
  | int
  | double
  | string
deriving DecidableEq

namespace Kind

/-- In the order in which a manifest lists them. -/
def all : List Kind :=
  [.bool, .int, .double, .string]

def rank : Kind → Nat
  | .bool => 0
  | .int => 1
  | .double => 2
  | .string => 3

def name : Kind → String
  | .bool => "Bool"
  | .int => "Int"
  | .double => "Double"
  | .string => "String"

/-- The kind of this name, in any letter case and with blanks around it. -/
def ofName? (t : Text) : Option Kind :=
  all.find? fun kind => Text.sameWord kind.name.toList t.trim

def isNumeric : Kind → Bool
  | .int | .double => true
  | .bool | .string => false

def description : Kind → String
  | .bool => "A boolean represents a true or false piece of information."
  | .int =>
    "An int represents an integer between -9223372036854775808 and 9223372036854775807."
  | .double =>
    "A double represents a number between -1.7976931348623157e308 and 1.7976931348623157e308."
  | .string =>
    "A string is used to represent letters, numbers, and so on. " ++
      "Begin with a \" and end it with a \"."

theorem rank_injective {a b : Kind} (h : a.rank = b.rank) : a = b := by
  cases a <;> cases b <;> simp_all [rank]

end Kind
end StepScript
