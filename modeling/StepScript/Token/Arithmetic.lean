import StepScript.Token

/-! Tokens of an arithmetic expression: four operators, and operands made of everything else. What
an operand is worth is decided later, so scanning never fails. -/
namespace StepScript.Arithmetic

inductive Operator where
  | add
  | sub
  | mul
  | div
deriving DecidableEq

def Operator.ofChar? (c : Char) : Option Operator :=
  if c == '+' then some .add
  else if c == '-' then some .sub
  else if c == '*' then some .mul
  else if c == '/' then some .div
  else none

inductive Token where
  | operator (op : Operator)
  | operand
  | gap
deriving DecidableEq

/-- Operands are maximal; operators and gaps are single characters. -/
def scan : Text → List (Lexeme Token)
  | [] => []
  | c :: t =>
    if isGap c then ⟨.gap, [c]⟩ :: scan t
    else match Operator.ofChar? c with
      | some op => ⟨.operator op, [c]⟩ :: scan t
      | none =>
        match scan t with
        | ⟨.operand, text⟩ :: more => ⟨.operand, c :: text⟩ :: more
        | more => ⟨.operand, [c]⟩ :: more

/-- The tokens of a text. -/
def tokens (t : Text) : List (Lexeme Token) :=
  (scan t).filter fun l => l.kind != .gap

/-- The tokens of a text with their offsets. -/
def placedTokens (t : Text) : List (Nat × Lexeme Token) :=
  (Lexeme.place 0 (scan t)).filter fun (_, l) => l.kind != .gap

end StepScript.Arithmetic
