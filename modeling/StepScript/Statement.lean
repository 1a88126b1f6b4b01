import StepScript.Text.Group

/-! The parts of a statement: `[Type] name = expression;` and `[[Type] name =] Method(arguments);`.
Signs inside string literals or parentheses do not divide a statement. -/
namespace StepScript

/-- Variable names are made of ASCII letters, digits and `_`. -/
def isNameChar (c : Char) : Bool :=
  c.isAlphanum || c == '_'

def isName (t : Text) : Bool :=
  !t.isEmpty && t.all isNameChar

def checkName (t : Text) : Except Error Unit :=
  if isName t then .ok () else .error (.invalidVariableName t)

namespace Statement

/-- A statement without the semicolon at its end. -/
def body (text : Text) : Except Error Text :=
  match Text.dropSuffix? ';' text.trim with
  | some t => .ok t.trim
  | none => .error .missingTerminator

/-- Makes a comparison with an equals sign after it. -/
def comparesBefore (c : Char) : Bool :=
  c == '=' || c == '!' || c == '<' || c == '>'

/-- The text on both sides of the first `=` that stands alone, outside literals and groups. -/
def splitEquals (inside : Bool) (depth : Nat) (previous? : Option Char) :
    Text → Option (Text × Text)
  | [] => none
  | c :: t =>
    let alone := !previous?.any comparesBefore && t.head? != some '='
    if !inside && c == '=' && depth == 0 && alone then some ([], t)
    else
      (splitEquals (Quoted.step inside c) (Group.depthAfter inside depth c) (some c) t).map
        fun (left, right) => (c :: left, right)

/-- Both sides of a statement's assignment, if it is one. -/
def splitAssignment (body : Text) : Except Error (Option (Text × Text)) := do
  Quoted.check body
  return (splitEquals false 0 none body).map fun (left, right) => (left.trim, right.trim)

/-- The variable a statement writes, with the type written before it. -/
structure Target where
  type? : Option Text
  name : Text
deriving DecidableEq

def Target.ofText (left : Text) : Except Error Target :=
  match left.words with
  | [name] => .ok ⟨none, name⟩
  | [type, name] => .ok ⟨some type, name⟩
  | _ => .error (.malformed .target left)

/-- Both sides of a declaration, with its body. -/
def declaration (text : Text) : Except Error (Text × Text × Text) := do
  let body ← body text
  match ← splitAssignment body with
  | some (left, right) => .ok (body, left, right)
  | none => .error (.malformed .noAssignment body)

def declaredTarget (text : Text) : Except Error Target := do
  let (_, left, _) ← declaration text
  Target.ofText left

def declaredExpr (text : Text) : Except Error Text := do
  let (body, _, right) ← declaration text
  if right.isEmpty then .error (.malformed .noExpression body) else .ok right

/-- The variable that receives what a call returns. -/
def callTarget (text : Text) : Except Error (Option Target) := do
  match ← splitAssignment (← body text) with
  | some (left, _) => some <$> Target.ofText left
  | none => .ok none

/-- The call itself; its first parenthesis closes at its end. -/
def call (text : Text) : Except Error Text := do
  let body ← body text
  let call := match ← splitAssignment body with
    | some (_, right) => right
    | none => body
  Quoted.check call
  match ← Group.spans call with
  | [] => .error (.malformed .noCall call)
  | first :: _ =>
    if first.closing + 1 = call.width then .ok call else .error (.malformed .textAfterCall call)

def methodName (text : Text) : Except Error Text := do
  let call ← call text
  let name := match call.splitFirst '(' with
    | some (before, _) => before.trim
    | none => []
  if name.isEmpty then .error (.malformed .noMethodName call) else .ok name

/-- The text between the first parenthesis of a call and its last character. -/
def argumentText (call : Text) : Text :=
  match call.splitFirst '(' with
  | some (_, after) => after.dropLast
  | none => []

/-- Argument expressions, divided by commas. -/
def methodArgs (text : Text) : Except Error (List Text) := do
  let call ← call text
  let inner := argumentText call
  if inner.trim.isEmpty then .ok []
  else
    Quoted.check inner
    let args := (Group.splitTop ',' false 0 inner).map Text.trim
    if args.any List.isEmpty then .error (.malformed .emptyArgument call) else .ok args

end Statement
end StepScript
