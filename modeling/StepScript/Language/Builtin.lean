import StepScript.Language
import StepScript.Value.Convert

/-! The built-in language: the four types, random numbers, message boxes, and a conversion for
every ordered pair of kinds. -/
namespace StepScript.Builtin

/-- A number from zero up to, but not including, the argument. -/
def draw (name : Text) (entropy : Entropy) (args : List Value) : Reply :=
  let nonPositive := Error.invalidArgument name "max must be greater than zero".toList
  match args with
  | .int max :: _ =>
    if 0 < max then
      .give (some (.int (Int64.ofInt (entropy.word.toNat % max.toInt.toNat : Nat))))
    else .fail nonPositive
  | .double max :: _ =>
    if Double.ofInt 0 < max then
      let code := Double.nearestCode (entropy.word.toNat / 2048) (Nat.pow 2 53)
      let value := Double.ofCode false code * max
      .give (some (.double (if value < max then value else Double.ofInt 0)))
    else .fail nonPositive
  | _ => .fail nonPositive

def random (name : Text) (kind : Kind) : Method where
  name := name
  description := "Returns a random number from zero up to, but not including, max.".toList
  required := [kind]
  optional := []
  returns? := some kind
  invoke := draw name

def messageBox : Method where
  name := "Generic.MessageBox".toList
  description := "Shows text to the user, with an optional title.".toList
  required := [.string]
  optional := [.string]
  returns? := none
  invoke _ args :=
    let text := (args.head?.map Value.display).getD []
    ⟨.ok none, [⟨text, args[1]?.map Value.display⟩]⟩

def conversion (source target : Kind) : Method where
  name := ("Convert." ++ source.name ++ "To" ++ target.name).toList
  description := ("Converts a " ++ source.name ++ " into a " ++ target.name ++ ".").toList
  required := [source]
  optional := []
  returns? := some target
  invoke _ args := .give (args.head?.map fun v => v.convert target)

def conversions : List Method :=
  Kind.all.flatMap fun source =>
    (Kind.all.filter (· ≠ source)).map (conversion source)

def methods : List Method :=
  [random "Generic.RandomInt".toList .int, random "Generic.RandomDouble".toList .double,
    messageBox] ++ conversions

end StepScript.Builtin

namespace StepScript

/-- The language every host starts from. -/
def Language.builtin : Except Error Language := do
  let language ← Language.empty "Scripting Language".toList
  let language ← Kind.all.foldlM
    (fun l kind => l.registerType (Value.zero kind) kind.description.toList) language
  Builtin.methods.foldlM registerMethod language

end StepScript
