import StepScript.Text.Quoted

/-! String expressions without groups: literals with one `+` between neighbours. -/
namespace StepScript.Concatenation

/-- Joins literals, each given with the text that follows it. -/
def join : List (Text × Text) → Except Error Text
  | [] => .ok []
  | [(contents, _)] => .ok contents
  | (contents, gap) :: more =>
    if gap.trim == ['+'] then (contents ++ ·) <$> join more
    else .error (.unsupportedStringOperator gap.trim)

def evaluate (text : Text) : Except Error Text :=
  let (lead, literals) := Quoted.pieces text
  match literals.getLast? with
  | none => .error (.expectedString text)
  | some (_, trail) =>
    if lead.trim.isEmpty && trail.trim.isEmpty then join literals
    else .error (.expectedString text)

end StepScript.Concatenation
