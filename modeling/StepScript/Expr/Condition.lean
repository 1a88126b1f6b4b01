import StepScript.Expr.Arithmetic
import StepScript.Expr.Concatenation
import StepScript.Token.Condition

/-! Conditions without groups. Comparisons fold from the left, `&&` binds tighter than `||`, and
every operand and comparison is evaluated, whatever the others give. -/
namespace StepScript.Condition

/-- A run of literals and words with the gaps between them, or an operator. -/
inductive Piece where
  | operand (text : Text)
  | operator (op : Operator)

/-- Merges neighbouring operand lexemes and gaps. -/
def merge : List (Lexeme Token) → List Piece
  | [] => []
  | ⟨.operator op, _⟩ :: more => .operator op :: merge more
  | ⟨_, text⟩ :: more =>
    match merge more with
    | .operand rest :: pieces => .operand (text ++ rest) :: pieces
    | pieces => .operand text :: pieces

/-- Gaps alone are no operand. -/
def Piece.isGap : Piece → Bool
  | .operand text => text.all StepScript.isGap
  | .operator _ => false

def pieces (text : Text) : Except Error (List Piece) :=
  (fun lexemes => (merge lexemes).filter fun p => !p.isGap) <$> scan text

/-- The kind of unquoted arithmetic: a point makes it Double. -/
def arithmeticKind (text : Text) : Kind :=
  if text.contains '.' then .double else .int

def evaluateArithmetic (kind : Kind) (text : Text) : Except Error Value :=
  if kind = .double then .double <$> Arithmetic.evaluate Arithmetic.doubles text
  else .int <$> Arithmetic.evaluate Arithmetic.ints text

/-- The value of an operand: a string expression if it holds a quote, else a Bool, an Int or a
Double, else arithmetic. -/
def operandValue (raw : Text) : Except Error Value :=
  let text := raw.trim
  if text.contains '"' then .string <$> Concatenation.evaluate text
  else
    let read? := (readBool? text).map Value.bool
      |>.or ((Decimal.readInt? text).map .int)
      |>.or ((Double.read? text).map .double)
    match read? with
    | some value => .ok value
    | none =>
      if text.any fun c => (Arithmetic.Operator.ofChar? c).isSome then
        evaluateArithmetic (arithmeticKind text) text
      else .error (.unrecognizedOperand text)

/-- A piece with its operand evaluated. -/
inductive Item where
  | value (v : Value)
  | operator (op : Operator)

def Item.isValue : Item → Bool
  | .value _ => true
  | .operator _ => false

def Piece.evaluate : Piece → Except Error Item
  | .operand text => .value <$> operandValue text
  | .operator op => .ok (.operator op)

/-- Values with the operators between them, or nothing where one of them is missing. -/
def chain? : List Item → Option (Value × List (Operator × Value))
  | [.value v] => some (v, [])
  | .value v :: .operator op :: more =>
    (chain? more).map fun (next, tail) => (v, (op, next) :: tail)
  | _ => none

/-- Int and Int compare exactly, numbers of different kinds as doubles, and other kinds are equal
only to themselves. -/
def equal (left right : Value) : Bool :=
  match left, right with
  | .int a, .int b => a == b
  | _, _ =>
    match left.asNumber?, right.asNumber? with
    | some a, some b => a == b
    | _, _ => left.same right

def order (op : Comparison) (a b : Float) : Bool :=
  match op with
  | .lt => a < b
  | .gt => b < a
  | .le => a ≤ b
  | .ge => b ≤ a
  | .eq => a == b
  | .ne => a != b

def compare (op : Comparison) (left right : Value) : Except Error Bool :=
  match op with
  | .eq => .ok (equal left right)
  | .ne => .ok (!equal left right)
  | _ =>
    match left.asNumber?, right.asNumber? with
    | some a, some b => .ok (order op a b)
    | _, _ => .error (.comparisonType op.symbol left.kind right.kind)

def toBool : Value → Except Error Bool
  | .bool b => .ok b
  | v => .error (.operandType .bool v.kind)

/-- Folds what follows `acc`; `all` holds the terms of the clause so far, `any` the clauses before
it. -/
def fold (any all : Bool) (acc : Value) : List (Operator × Value) → Except Error Bool
  | [] => do
    let term ← toBool acc
    return any || (all && term)
  | (.comparison op, value) :: more => do
    let holds ← compare op acc value
    fold any all (.bool holds) more
  | (.logical .and, value) :: more => do
    let term ← toBool acc
    fold any (all && term) value more
  | (.logical .or, value) :: more => do
    let term ← toBool acc
    fold (any || (all && term)) true value more

def countError (items : List Item) : Error :=
  .operandCount (items.countP fun i => !i.isValue) (items.countP Item.isValue)

def evaluate (text : Text) : Except Error Bool := do
  let items ← (← pieces text).mapM Piece.evaluate
  match chain? items with
  | some (first, more) => fold false true first more
  | none => .error (countError items)

end StepScript.Condition
