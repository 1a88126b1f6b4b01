import StepScript.Text.Quoted

/-! A line of a script: `keyword: text`, with blanks around it and a comment from `//` to its end.
A line is skipped when nothing but a brace is left of it. -/
namespace StepScript

/-- The keyword before the first colon of a line. -/
inductive Preceder where
  | declare
  | execute
  | while
  | break
deriving DecidableEq

namespace Preceder

def all : List Preceder :=
  [.declare, .execute, .while, .break]

def keyword : Preceder → String
  | .declare => "declare"
  | .execute => "execute"
  | .while => "while"
  | .break => "break"

/-- The preceder of this keyword, in any letter case and with blanks around it. -/
def ofText (t : Text) : Except Error Preceder :=
  match all.find? fun p => Text.sameWord p.keyword.toList t.trim with
  | some p => .ok p
  | none => .error (.unsupportedPreceder t.trim)

end Preceder

namespace Line

/-- The text before the first `//` outside string literals. -/
def beforeComment (inside : Bool) : Text → Text
  | [] => []
  | c :: t =>
    if !inside && c == '/' && t.head? == some '/' then []
    else c :: beforeComment (Quoted.step inside c) t

/-- What a line says: trimmed and without its comment. -/
def clean (raw : Text) : Text :=
  (beforeComment false raw.trim).trim

def openBrace : Text := ['\x7b']

def closeBrace : Text := ['\x7d']

/-- Blank lines, comments and bare braces are never executed. -/
def isSkipped (raw : Text) : Bool :=
  let text := clean raw
  text.isEmpty || text == openBrace || text == closeBrace

/-- A line without a colon is all keyword. -/
def preceder (raw : Text) : Except Error Preceder :=
  let text := clean raw
  match text.splitFirst ':' with
  | some (keyword, _) => Preceder.ofText keyword
  | none => Preceder.ofText text

/-- What stands after the colon, trimmed. -/
def body (raw : Text) : Text :=
  match (clean raw).splitFirst ':' with
  | some (_, after) => after.trim
  | none => []

end Line
end StepScript
