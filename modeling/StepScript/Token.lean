import StepScript.Error

/-! Lexemes. A scan cuts a text into lexemes that concatenate to the text, gaps included; the
tokens are the lexemes that are not gaps, each with its byte offset. -/
namespace StepScript

structure Lexeme (κ : Type) where
  kind : κ
  text : Text

namespace Lexeme

/-- The lexeme with `c` in front of it. -/
def extend {κ : Type} (c : Char) (l : Lexeme κ) : Lexeme κ :=
  { l with text := c :: l.text }

/-- Lexemes with the offsets at which they start. -/
def place {κ : Type} (pos : Nat) : List (Lexeme κ) → List (Nat × Lexeme κ)
  | [] => []
  | l :: ls => (pos, l) :: place (pos + l.text.width) ls

end Lexeme
end StepScript
