import StepScript.Token

/-! Tokens of a condition: logical operators, comparisons, string literals and words. A lone `&`,
`|`, `=` or `!` is an unsupported operator, and the first fault in the text decides. -/
namespace StepScript.Condition

inductive Logical where
  | and
  | or
deriving DecidableEq

inductive Comparison where
  | eq
  | ne
  | le
  | ge
  | lt
  | gt
deriving DecidableEq

inductive Operator where
  | logical (op : Logical)
  | comparison (op : Comparison)
deriving DecidableEq

inductive Token where
  | operator (op : Operator)
  | quoted
  | word
  | gap
deriving DecidableEq

def Comparison.symbol : Comparison → Text
  | .eq => ['=', '=']
  | .ne => ['!', '=']
  | .le => ['<', '=']
  | .ge => ['>', '=']
  | .lt => ['<']
  | .gt => ['>']

def Operator.ofPair? (c d : Char) : Option Operator :=
  if c == '&' && d == '&' then some (.logical .and)
  else if c == '|' && d == '|' then some (.logical .or)
  else if d == '=' then
    if c == '=' then some (.comparison .eq)
    else if c == '!' then some (.comparison .ne)
    else if c == '<' then some (.comparison .le)
    else if c == '>' then some (.comparison .ge)
    else none
  else none

def Operator.ofChar? (c : Char) : Option Operator :=
  if c == '<' then some (.comparison .lt)
  else if c == '>' then some (.comparison .gt)
  else none

/-- Characters that can only be part of an operator of two. -/
def isStray (c : Char) : Bool :=
  c == '&' || c == '|' || c == '=' || c == '!'

/-- Puts `c` in front of the word that the lexemes start with, or before them as a new word. -/
def consWord (c : Char) : List (Lexeme Token) → List (Lexeme Token)
  | ⟨.word, text⟩ :: more => ⟨.word, c :: text⟩ :: more
  | more => ⟨.word, [c]⟩ :: more

/-- Puts `c` in front of the first lexeme, the rest of a literal. -/
def consQuoted (c : Char) : List (Lexeme Token) → List (Lexeme Token)
  | l :: more => l.extend c :: more
  | [] => [⟨.quoted, [c]⟩]

/-- The lexemes from a character that is not the first of an operator of two. What follows it is
scanned by `next`, given the offset of a quote that it opens. -/
def scanOne (pos : Nat) (c : Char) (next : Option Nat → Except Error (List (Lexeme Token))) :
    Except Error (List (Lexeme Token)) :=
  if isGap c then (⟨.gap, [c]⟩ :: ·) <$> next none
  else if c == '"' then consQuoted c <$> next (some pos)
  else if isStray c then .error (.unsupportedOperator [c])
  else match Operator.ofChar? c with
    | some op => (⟨.operator op, [c]⟩ :: ·) <$> next none
    | none => consWord c <$> next none

/-- The lexemes of a text that starts at offset `pos`, with the offset of a quote still open. -/
def scanFrom (pos : Nat) : Option Nat → Text → Except Error (List (Lexeme Token))
  | none, [] => .ok []
  | some opening, [] => .error (.unterminatedString (opening + 1))
  | some opening, c :: t =>
    if c == '"' then (⟨.quoted, [c]⟩ :: ·) <$> scanFrom (pos + c.utf8Size) none t
    else consQuoted c <$> scanFrom (pos + c.utf8Size) (some opening) t
  | none, [c] => scanOne pos c fun opening? => scanFrom (pos + c.utf8Size) opening? []
  | none, c :: d :: t =>
    match Operator.ofPair? c d with
    | some op =>
      (⟨.operator op, [c, d]⟩ :: ·) <$> scanFrom (pos + c.utf8Size + d.utf8Size) none t
    | none => scanOne pos c fun opening? => scanFrom (pos + c.utf8Size) opening? (d :: t)

def scan (t : Text) : Except Error (List (Lexeme Token)) :=
  scanFrom 0 none t

/-- The tokens of a text with their offsets. -/
def placedTokens (t : Text) : Except Error (List (Nat × Lexeme Token)) :=
  (fun lexemes => (Lexeme.place 0 lexemes).filter fun (_, l) => l.kind != .gap) <$> scan t

end StepScript.Condition
