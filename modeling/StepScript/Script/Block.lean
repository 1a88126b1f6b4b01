import StepScript.Line

/-! Where execution goes next in a list of lines: the next line that is not skipped, and the block
that follows a `while` line. Lines are counted from zero. -/
namespace StepScript.Block

/-- Index of the first line from `start` on that is executed, or the number of lines. -/
def nextMeaningful (lines : List Text) (start : Nat) : Nat :=
  min (start + (lines.drop start).findIdx fun l => !Line.isSkipped l) lines.length

/-- Index of the opening brace, which is the first line after `entry` that says anything. -/
def findOpen? (lines : List Text) (entry : Nat) : Option Nat :=
  let rest := lines.drop (entry + 1)
  let offset := rest.findIdx fun l => !(Line.clean l).isEmpty
  if rest[offset]?.map Line.clean = some Line.openBrace then some (entry + 1 + offset) else none

/-- Index of the closing brace of a block in the lines after its opening one; `inner` blocks within
it are still open. -/
def findClose? (inner : Nat) : List Text → Option Nat
  | [] => none
  | l :: rest =>
    let text := Line.clean l
    if text = Line.openBrace then (findClose? (inner + 1) rest).map (· + 1)
    else if text = Line.closeBrace then
      match inner with
      | 0 => some 0
      | inner + 1 => (findClose? inner rest).map (· + 1)
    else (findClose? inner rest).map (· + 1)

/-- Indices of the braces of the block after the line at `entry`. -/
def find (lines : List Text) (entry : Nat) : Except Error (Nat × Nat) :=
  match findOpen? lines entry with
  | none => .error .missingOpenBrace
  | some opening =>
    match findClose? 0 (lines.drop (opening + 1)) with
    | none => .error .unmatchedBraces
    | some offset => .ok (opening, opening + 1 + offset)

end StepScript.Block
