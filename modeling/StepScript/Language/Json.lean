import StepScript.Language

/-! A manifest as JSON, indented by two blanks. -/
namespace StepScript.Json

def hexDigit (n : Nat) : Char :=
  (Nat.toDigits 16 (n % 16)).headD '0'

/-- Quotes, backslashes and control characters are escaped; all else stands as it is. -/
def escape (c : Char) : Text :=
  if c == '"' then ['\\', '"']
  else if c == '\\' then ['\\', '\\']
  else if c == '\n' then ['\\', 'n']
  else if c == '\r' then ['\\', 'r']
  else if c == '\t' then ['\\', 't']
  else if c == '\x08' then ['\\', 'b']
  else if c == '\x0c' then ['\\', 'f']
  else if c.toNat < 32 then ['\\', 'u', '0', '0', hexDigit (c.toNat / 16), hexDigit c.toNat]
  else [c]

def string (t : Text) : Text :=
  '"' :: t.flatMap escape ++ ['"']

def newline (depth : Nat) : Text :=
  '\n' :: List.replicate (2 * depth) ' '

/-- Items on lines of their own between two brackets, which stand at `depth`. -/
def block (opening closing : Char) (depth : Nat) (items : List Text) : Text :=
  if items.isEmpty then [opening, closing]
  else
    let separator := ',' :: newline (depth + 1)
    opening :: newline (depth + 1) ++ separator.intercalate items ++ newline depth ++ [closing]

def array (depth : Nat) (items : List Text) : Text :=
  block '[' ']' depth items

def object (depth : Nat) (fields : List (String × Text)) : Text :=
  block '\x7b' '\x7d' depth
    (fields.map fun (name, value) => string name.toList ++ [':', ' '] ++ value)

def kinds (depth : Nat) (list : List Kind) : Text :=
  array depth (list.map fun kind => string kind.name.toList)

def type (depth : Nat) (entry : Text × Text) : Text :=
  object depth [("name", string entry.1), ("description", string entry.2)]

def signature (depth : Nat) (m : Signature) : Text :=
  object depth
    [("name", string m.name), ("description", string m.description),
      ("required", kinds (depth + 1) m.required), ("optional", kinds (depth + 1) m.optional),
      ("returns", (m.returns?.map fun kind => string kind.name.toList).getD "null".toList)]

def manifest (m : Manifest) : Text :=
  object 0
    [("name", string m.name),
      ("preceders", array 1 (m.preceders.map fun word => string word.toList)),
      ("types", array 1 (m.types.map (type 2))),
      ("methods", array 1 (m.methods.map (signature 2)))]

end StepScript.Json
