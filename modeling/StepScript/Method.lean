import StepScript.Value

/-! Methods that scripts call. A method states the kinds of its parameters; a call checks them
before the method runs. What a method does is a function of its arguments and of one draw of
entropy, and the messages it shows come back with its result. -/
namespace StepScript

/-- Text shown to the user, with an optional title. -/
structure Message where
  text : Text
  title? : Option Text
deriving DecidableEq

/-- The state of a stream of random words. -/
abbrev Entropy := UInt64

namespace Entropy

def next (state : Entropy) : Entropy :=
  state + 0x9E3779B97F4A7C15

/-- The word of this state, its bits mixed. -/
def word (state : Entropy) : UInt64 :=
  let a := (state ^^^ (state >>> 30)) * 0xBF58476D1CE4E5B9
  let b := (a ^^^ (a >>> 27)) * 0x94D049BB133111EB
  b ^^^ (b >>> 31)

end Entropy

/-- What a manifest says about a method. -/
structure Signature where
  name : Text
  description : Text
  required : List Kind
  optional : List Kind
  returns? : Option Kind
deriving DecidableEq

/-- What a call gives and shows. -/
structure Reply where
  result : Except Error (Option Value)
  shown : List Message

def Reply.fail (error : Error) : Reply := ⟨.error error, []⟩

def Reply.give (value? : Option Value) : Reply := ⟨.ok value?, []⟩

structure Method extends Signature where
  invoke : Entropy → List Value → Reply

namespace Signature

/-- The kind of each parameter, required ones first. -/
def paramKind? (signature : Signature) (index : Nat) : Option Kind :=
  (signature.required ++ signature.optional)[index]?

/-- The number of arguments lies between the required ones and all of them. -/
def checkArity (signature : Signature) (given : Nat) : Except Error Unit :=
  let allowed := signature.required.length + signature.optional.length
  if given < signature.required.length then
    .error (.tooFewArguments signature.name signature.required.length given)
  else if allowed < given then .error (.tooManyArguments signature.name allowed given)
  else .ok ()

/-- Compares the arguments from `index` on with the kinds of their parameters. -/
def checkKindsFrom (name : Text) (index : Nat) : List Kind → List Value → Except Error Unit
  | kind :: kinds, arg :: args =>
    if arg.kind = kind then checkKindsFrom name (index + 1) kinds args
    else .error (.argumentType name index kind arg.kind)
  | _, _ => .ok ()

def check (signature : Signature) (args : List Value) : Except Error Unit := do
  signature.checkArity args.length
  checkKindsFrom signature.name 0 (signature.required ++ signature.optional) args

end Signature

/-- Runs the method on arguments that pass its checks. -/
def Method.call (method : Method) (entropy : Entropy) (args : List Value) : Reply :=
  match method.check args with
  | .ok _ => method.invoke entropy args
  | .error e => .fail e

end StepScript
