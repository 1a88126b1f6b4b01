import StepScript.Text.Quoted
import StepScript.Token.Arithmetic
import StepScript.Value.Convert

/-! Arithmetic without groups. Products and quotients are folded first, then sums and differences,
each from the left. An operand that cannot be read counts as zero, and a quoted operand as the
number its contents read as. -/
namespace StepScript.Arithmetic

/-- Numbers in which an expression can be folded. -/
structure Domain (α : Type) where
  read : Text → α
  display : α → Text
  apply : Operator → α → α → Except Error α

/-- 64-bit integers: sums and products wrap, quotients are truncated. -/
def ints : Domain Int64 where
  read := readIntOrZero
  display := Decimal.renderInt
  apply op a b :=
    match op with
    | .add => .ok (a + b)
    | .sub => .ok (a - b)
    | .mul => .ok (a * b)
    | .div => if b == 0 then .error .divisionByZero else .ok (a / b)

def doubles : Domain Float where
  read := readDoubleOrZero
  display := Double.render
  apply op a b :=
    match op with
    | .add => .ok (a + b)
    | .sub => .ok (a - b)
    | .mul => .ok (a * b)
    | .div => .ok (a / b)

variable {α : Type}

/-- Operands with the operators between them, or nothing where one of them is missing. Minus signs
before an operand belong to it, and an even number of them cancels. -/
def chain? (domain : Domain α) (negative : Bool) :
    List (Lexeme Token) → Option (α × List (Operator × α))
  | [] => none
  | ⟨.gap, _⟩ :: _ => none
  | ⟨.operator op, _⟩ :: more => if op = .sub then chain? domain (!negative) more else none
  | ⟨.operand, text⟩ :: more =>
    let value := domain.read (if negative then '-' :: text else text)
    match more with
    | [] => some (value, [])
    | ⟨.operator op, _⟩ :: rest =>
      (chain? domain false rest).map fun (next, tail) => (value, (op, next) :: tail)
    | _ => none

def Operator.isProduct : Operator → Bool
  | .mul | .div => true
  | .add | .sub => false

/-- Folds products and quotients; the sums and differences between them remain. -/
def products (domain : Domain α) :
    α → List (Operator × α) → Except Error (α × List (Operator × α))
  | acc, [] => .ok (acc, [])
  | acc, (op, value) :: more =>
    if op.isProduct then do
      let acc ← domain.apply op acc value
      products domain acc more
    else do
      let (next, tail) ← products domain value more
      return (acc, (op, next) :: tail)

def sums (domain : Domain α) : α → List (Operator × α) → Except Error α
  | acc, [] => .ok acc
  | acc, (op, value) :: more => do
    let acc ← domain.apply op acc value
    sums domain acc more

def fold (domain : Domain α) (first : α) (more : List (Operator × α)) : Except Error α := do
  let (first, more) ← products domain first more
  sums domain first more

/-- The tokens do not alternate between operands and operators. -/
def countError (tokens : List (Lexeme Token)) : Error :=
  .operandCount (tokens.countP fun l => l.kind != .operand)
    (tokens.countP fun l => l.kind == .operand)

def evaluate (domain : Domain α) (text : Text) : Except Error α :=
  let unquoted := Quoted.mapLiterals (fun contents => domain.display (domain.read contents)) text
  match chain? domain false (tokens unquoted) with
  | some (first, more) => fold domain first more
  | none => .error (countError (tokens unquoted))

end StepScript.Arithmetic
