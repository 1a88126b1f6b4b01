import StepScript.Text.Blank

/-! Texts as lists of characters: byte widths, letter case, trimming, splitting. Positions are
offsets in the UTF-8 encoding, so every measure here is `width` and never `length`. -/
namespace StepScript

abbrev Text := List Char

/-- Pieces between the elements that satisfy `p`: one more piece than there are such elements. -/
def splitWhere {α : Type} (p : α → Bool) : List α → List (List α)
  | [] => [[]]
  | a :: as =>
    if p a then [] :: splitWhere p as
    else match splitWhere p as with
      | [] => [[a]]
      | piece :: pieces => (a :: piece) :: pieces

/-- Puts `a` before the first element that it should precede. -/
def insertOrdered {α : Type} (precedes : α → α → Bool) (a : α) : List α → List α
  | [] => [a]
  | b :: rest => if precedes a b then a :: b :: rest else b :: insertOrdered precedes a rest

/-- Each element before those that it should precede; elements that precede each other keep their
order. -/
def arrange {α : Type} (precedes : α → α → Bool) (as : List α) : List α :=
  as.foldr (insertOrdered precedes) []

namespace Text

/-- Size in bytes of the UTF-8 encoding. -/
def width : Text → Nat
  | [] => 0
  | c :: t => c.utf8Size + width t

/-- ASCII letters in lower case; every other character unchanged. -/
def lower (t : Text) : Text :=
  t.map Char.toLower

/-- Equality up to the case of ASCII letters. -/
def sameWord (a b : Text) : Bool :=
  lower a == lower b

/-- The text starts with `word`, which is in lower case, in any letter case. -/
def beginsWith : Text → Text → Bool
  | _, [] => true
  | [], _ :: _ => false
  | c :: t, w :: word => c.toLower == w && beginsWith t word

def trimStart (t : Text) : Text :=
  t.dropWhile isBlank

def trimEnd : Text → Text
  | [] => []
  | c :: t =>
    match trimEnd t with
    | [] => if isBlank c then [] else [c]
    | d :: u => c :: d :: u

def trim (t : Text) : Text :=
  trimEnd (trimStart t)

/-- Maximal runs of characters that are not blank. -/
def words (t : Text) : List Text :=
  (splitWhere isBlank t).filter (fun w => !w.isEmpty)

/-- The text before and after the first occurrence of `sep`. -/
def splitFirst (sep : Char) : Text → Option (Text × Text)
  | [] => none
  | c :: t =>
    if c == sep then some ([], t)
    else (splitFirst sep t).map (fun (before, after) => (c :: before, after))

/-- The text without its last character, when that is `last`. -/
def dropSuffix? (last : Char) (t : Text) : Option Text :=
  if t.getLast? == some last then some t.dropLast else none

/-- Lines end with a line feed, one carriage return before it is dropped, and an empty last line
does not count. -/
def lines (t : Text) : List Text :=
  ends (splitWhere (· == '\n') t)
where
  ends : List Text → List Text
    | [] => []
    | [last] => if last.isEmpty then [] else [last]
    | line :: more => (dropSuffix? '\r' line).getD line :: ends more

end Text

theorem splitWhere_ne_nil {α : Type} (p : α → Bool) (as : List α) : splitWhere p as ≠ [] := by
  cases as with
  | nil => simp [splitWhere]
  | cons a as => unfold splitWhere; split <;> (try split) <;> simp

/-- A separator cuts the pieces on its left from those on its right. -/
theorem splitWhere_append {α : Type} {p : α → Bool} {sep : α} (h : p sep = true)
    (left right : List α) :
    splitWhere p (left ++ sep :: right) = splitWhere p left ++ splitWhere p right := by
  induction left with
  | nil => simp [splitWhere, h]
  | cons a as ih =>
    simp only [List.cons_append, splitWhere, ih]
    split
    · rfl
    · cases hs : splitWhere p as with
      | nil => exact absurd hs (splitWhere_ne_nil p as)
      | cons piece pieces => rfl

end StepScript
