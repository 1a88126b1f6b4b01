import StepScript.Expr
import StepScript.Scope

/-! Evaluation in a scope. Every occurrence of a variable's name outside string literals is
replaced by the literal of its value, in any letter case and also within longer words. -/
namespace StepScript.Expr

/-- Replaces the name by the literal of the value, from left to right; `skip` characters of an
occurrence are still to be passed over. -/
def replace (name : Text) (value : Value) (inside : Bool) : Nat → Text → Text
  | _, [] => []
  | skip + 1, _ :: t => replace name value inside skip t
  | 0, c :: t =>
    if !inside && Text.beginsWith (c :: t) name then
      value.literal ++ replace name value inside (name.length - 1) t
    else c :: replace name value (Quoted.step inside c) 0 t

/-- Replaces the variables of the table one after another. -/
def substitute : Table → Text → Except Error Text
  | [], text => .ok text
  | (name, value) :: more, text => do
    Quoted.check text
    substitute more (replace name value false 0 text)

def evaluate (kind : Kind) (raw : Text) (scope : Scope) : Except Error Value := do
  let text := raw.trim
  Quoted.check text
  let replaced ← substitute scope.substitutionOrder text
  evaluateText kind replaced

end StepScript.Expr
