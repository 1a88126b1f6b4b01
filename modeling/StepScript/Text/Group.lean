import StepScript.Text.Quoted

/-! Parentheses outside string literals: their matching, and the group opened last, which holds no
other group. -/
namespace StepScript.Group

/-- The groups of a text that starts at offset `pos`, in the order in which they close; `stack`
holds the offsets of the parentheses still open. -/
def spansFrom (pos : Nat) (inside : Bool) (stack : List Nat) : Text → Option (List Span)
  | [] => if stack.isEmpty then some [] else none
  | c :: t =>
    let next := fun held => spansFrom (pos + c.utf8Size) (Quoted.step inside c) held t
    if inside then next stack
    else if c == '(' then next (pos :: stack)
    else if c == ')' then
      match stack with
      | [] => none
      | opening :: outer => (⟨opening, pos⟩ :: ·) <$> next outer
    else next stack

/-- The groups by opening offset; text that does not pair its parentheses is an error. -/
def spans (t : Text) : Except Error (List Span) :=
  match spansFrom 0 false [] t with
  | some found => .ok (arrange (fun a b => a.opening ≤ b.opening) found)
  | none => .error (.unmatchedParens t)

/-- Fails as `spans` does. -/
def check (t : Text) : Except Error Unit :=
  (fun _ => ()) <$> spans t

/-- The text on both sides of the last opening parenthesis. -/
def splitLastOpen (inside : Bool) : Text → Option (Text × Text)
  | [] => none
  | c :: t =>
    match splitLastOpen (Quoted.step inside c) t with
    | some (before, after) => some (c :: before, after)
    | none => if !inside && c == '(' then some ([], t) else none

/-- The text on both sides of the first closing parenthesis. -/
def splitFirstClose (inside : Bool) : Text → Option (Text × Text)
  | [] => none
  | c :: t =>
    if !inside && c == ')' then some ([], t)
    else (splitFirstClose (Quoted.step inside c) t).map fun (before, after) => (c :: before, after)

/-- A text cut around one group. -/
structure Cut where
  before : Text
  inner : Text
  after : Text

/-- The text around the group opened last. -/
def last? (t : Text) : Option Cut := do
  let (before, rest) ← splitLastOpen false t
  let (inner, after) ← splitFirstClose false rest
  return ⟨before, inner, after⟩

/-- How many groups are open after `c`. A closing parenthesis without a partner is passed over. -/
def depthAfter (inside : Bool) (depth : Nat) (c : Char) : Nat :=
  if inside then depth
  else if c == '(' then depth + 1
  else if c == ')' then depth - 1
  else depth

/-- Pieces between the separators that stand outside literals and outside groups. -/
def splitTop (sep : Char) (inside : Bool) (depth : Nat) : Text → List Text
  | [] => [[]]
  | c :: t =>
    if !inside && c == sep && depth == 0 then [] :: splitTop sep inside depth t
    else
      match splitTop sep (Quoted.step inside c) (depthAfter inside depth c) t with
      | [] => [[c]]
      | piece :: pieces => (c :: piece) :: pieces

end StepScript.Group
