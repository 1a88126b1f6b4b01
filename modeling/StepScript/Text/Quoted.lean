import StepScript.Error

/-! String literals in a text. A quote opens a literal and the next one closes it; nothing escapes
a quote. Scans that skip literals carry one flag, whether they stand inside one. -/
namespace StepScript

/-- Byte offsets of an opening and a closing delimiter. -/
structure Span where
  opening : Nat
  closing : Nat
deriving DecidableEq

namespace Quoted

/-- Whether what follows `c` lies inside a literal. -/
def step (inside : Bool) (c : Char) : Bool :=
  inside != (c == '"')

/-- The literals of a text that starts at offset `pos`, with the offset of a quote still open. -/
def spansFrom (pos : Nat) : Option Nat → Text → Except Error (List Span)
  | none, [] => .ok []
  | some opening, [] => .error (.unterminatedString (opening + 1))
  | none, c :: t =>
    spansFrom (pos + c.utf8Size) (if c == '"' then some pos else none) t
  | some opening, c :: t =>
    if c == '"' then (⟨opening, pos⟩ :: ·) <$> spansFrom (pos + c.utf8Size) none t
    else spansFrom (pos + c.utf8Size) (some opening) t

/-- The literals in order; a quote without a partner is an error. -/
def spans (t : Text) : Except Error (List Span) :=
  spansFrom 0 none t

/-- Fails as `spans` does. -/
def check (t : Text) : Except Error Unit :=
  (fun _ => ()) <$> spans t

/-- An offset strictly between the quotes of a literal. -/
def contains (spans : List Span) (pos : Nat) : Bool :=
  spans.any fun s => s.opening < pos && pos < s.closing

/-- Each literal's contents with the text between it and the next. -/
def pairs : List Text → List (Text × Text)
  | contents :: gap :: more => (contents, gap) :: pairs more
  | _ => []

/-- The text before the first literal, then each literal's contents with the text that follows. -/
def pieces (t : Text) : Text × List (Text × Text) :=
  match splitWhere (· == '"') t with
  | [] => ([], [])
  | lead :: more => (lead, pairs more)

/-- The text with each literal replaced by `f` of its contents. -/
def mapLiterals (f : Text → Text) (t : Text) : Text :=
  let (lead, literals) := pieces t
  lead ++ literals.flatMap fun (contents, gap) => f contents ++ gap

end Quoted
end StepScript
