import StepScript.Expr.Condition
import StepScript.Text.Group

/-! Expressions without variables, evaluated for a kind. Groups are resolved one by one, the last
opened first, each replaced by the literal of its value; the flat text that remains is folded as
the kind asks. -/
namespace StepScript.Expr

/-- Evaluates text without groups. -/
def evaluateFlat (kind : Kind) (text : Text) : Except Error Value :=
  match kind with
  | .int => .int <$> Arithmetic.evaluate Arithmetic.ints text
  | .double => .double <$> Arithmetic.evaluate Arithmetic.doubles text
  | .string => .string <$> Concatenation.evaluate text
  | .bool => .bool <$> Condition.evaluate text

/-- An operator of a condition stands outside the literals. -/
def hasCondition (inside : Bool) : Text → Bool
  | [] => false
  | c :: t =>
    (!inside && startsOperator c t.head?) || hasCondition (Quoted.step inside c) t
where
  startsOperator (c : Char) (next? : Option Char) : Bool :=
    if c == '<' || c == '>' then true
    else if c == '=' || c == '!' then next? == some '='
    else if c == '&' || c == '|' then next? == some c
    else false

/-- Numeric targets evaluate groups as themselves; for the others a group shows its own kind. -/
def groupKind (target : Kind) (inner : Text) : Kind :=
  if target.isNumeric then target
  else if hasCondition false inner || (readBool? inner.trim).isSome then .bool
  else if inner.contains '"' then .string
  else Condition.arithmeticKind inner

/-- Replaces the last group by its value, `count` times or until there is none. -/
def resolve (target : Kind) : Nat → Text → Except Error Text
  | 0, text => .ok text
  | count + 1, text =>
    match Group.last? text with
    | none => .ok text
    | some cut => do
      let value ← evaluateFlat (groupKind target cut.inner) cut.inner.trim
      resolve target count (cut.before ++ value.literal ++ cut.after)

/-- Evaluates text in which no variable is left. -/
def evaluateText (kind : Kind) (raw : Text) : Except Error Value := do
  let text := raw.trim
  Quoted.check text
  Group.check text
  let flat ← resolve kind (text.count '(') text
  evaluateFlat kind flat

end StepScript.Expr
