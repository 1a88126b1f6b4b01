import StepScript.CommandLine.Fault
import StepScript.Value

/-! The arguments of the command. They are read in order, and a value is looked at only when the
argument after it has been recognised, or at the end. -/
namespace StepScript.CommandLine

structure Options where
  file? : Option Text
  vars : List (Text × Value)
  maxSteps? : Option Nat
  name? : Option Text
  switches : List Switch

namespace Options

def initial : Options :=
  ⟨none, [], none, none, []⟩

def maxSteps (options : Options) : Nat :=
  options.maxSteps?.getD 100000

def traceLines (options : Options) : Bool :=
  options.switches.contains .traceLines

def describe (options : Options) : Bool :=
  options.switches.contains .describe

end Options

/-- `NAME=TYPE:VALUE`, or what is wrong with it. -/
def readVar (arg : Text) : Except Text (Text × Value) :=
  match arg.splitFirst '=' with
  | none => .error ("expected NAME=TYPE:VALUE, got '".toList ++ arg ++ ['\''])
  | some (name, typed) =>
    match typed.splitFirst ':' with
    | none => .error ("expected TYPE:VALUE after '=', got '".toList ++ typed ++ ['\''])
    | some (type, raw) =>
      match Kind.ofName? type with
      | none => .error ("unknown type '".toList ++ type ++ ['\''])
      | some kind =>
        match Value.create kind raw with
        | .ok value => .ok (name.trim, value)
        | .error e => .error e.message.toList

/-- A number of steps: a plus sign if there is more, then digits, below 2^64. Reading stops at the
first fault, so leading digits that are too much decide before what follows them. -/
def readCount (arg : Text) : Except Text Nat :=
  let digits := match arg with
    | '+' :: c :: t => c :: t
    | t => t
  let count := Nat.ofDigitChars 10 (digits.takeWhile Char.isDigit) 0
  if digits.isEmpty then .error "cannot parse integer from empty string".toList
  else if Nat.pow 2 64 ≤ count then .error "number too large to fit in target type".toList
  else if digits.all Char.isDigit then .ok count
  else .error "invalid digit found in string".toList

/-- Why arguments lead to no run. -/
inductive Stop where
  | help
  | version
  | fault (fault : Fault)

def Stop.invalid (option : Valued) (value : Text) (problem : Text) : Stop :=
  .fault (.invalidValue option value problem)

/-- Takes the value; what may be given once is refused the second time, whatever its value. -/
def Valued.apply (option : Valued) (options : Options) (value : Text) : Except Stop Options :=
  match option with
  | .file =>
    if value.isEmpty then .error (.fault (.missingValue .file))
    else .ok { options with file? := some value }
  | .var =>
    match readVar value with
    | .ok binding => .ok { options with vars := options.vars ++ [binding] }
    | .error problem => .error (.invalid option value problem)
  | .maxSteps =>
    if options.maxSteps?.isSome then .error (.fault (.repeated option.label))
    else match readCount value with
      | .ok count => .ok { options with maxSteps? := some count }
      | .error problem => .error (.invalid option value problem)
  | .name =>
    if options.name?.isSome then .error (.fault (.repeated option.label))
    else .ok { options with name? := some value }

def Switch.apply (switch : Switch) (options : Options) : Except Stop Options :=
  match switch with
  | .help => .error .help
  | .version => .error .version
  | switch =>
    if options.switches.contains switch then .error (.fault (.repeated switch.label))
    else .ok { options with switches := switch :: options.switches }

inductive Flag where
  | valued (option : Valued)
  | switch (switch : Switch)

/-- The flag written `--name`. -/
def Flag.ofName? (name : Text) : Option Flag :=
  [("var", Flag.valued .var), ("max-steps", .valued .maxSteps), ("name", .valued .name),
    ("trace-lines", .switch .traceLines), ("describe", .switch .describe),
    ("verbose", .switch .verbose), ("help", .switch .help),
    ("version", .switch .version)].findSome? fun (known, flag) =>
      if known.toList = name then some flag else none

/-- The switch written `-c`. -/
def Switch.ofLetter? (c : Char) : Option Switch :=
  if c = 'v' then some .verbose
  else if c = 'h' then some .help
  else if c = 'V' then some .version
  else none

/-- What is known after some of the arguments. -/
structure Reader where
  options : Options
  /-- The last that takes a value, with the value once that is there. -/
  pending? : Option (Valued × Option Text)
  /-- `--` has been seen, so that no argument is a flag any more. -/
  literal : Bool

namespace Reader

def initial : Reader :=
  ⟨.initial, none, false⟩

/-- The options with the pending value taken. -/
def settle (reader : Reader) : Except Stop Options :=
  match reader.pending? with
  | none => .ok reader.options
  | some (option, none) => .error (.fault (.missingValue option))
  | some (option, some value) => option.apply reader.options value

def hasFile (reader : Reader) : Bool :=
  reader.options.file?.isSome || reader.pending?.any fun (option, _) => option = .file

/-- An argument that stands for itself is the file. -/
def place (reader : Reader) (arg : Text) : Except Stop Reader :=
  if reader.hasFile then .error (.fault (.unexpected arg false))
  else do
    let options ← reader.settle
    return { reader with options, pending? := some (.file, some arg) }

def switch (reader : Reader) (switch : Switch) : Except Stop Reader := do
  let options ← switch.apply (← reader.settle)
  return { reader with options, pending? := none }

/-- `--name` or `--name=value`. -/
def long (reader : Reader) (name : Text) (value? : Option Text) : Except Stop Reader :=
  match Flag.ofName? name, value? with
  | none, _ => .error (.fault (.unexpected ('-' :: '-' :: name) true))
  | some (.switch switch), none => reader.switch switch
  | some (.switch switch), some value => .error (.fault (.unexpectedValue switch value))
  | some (.valued option), none => do
    let options ← reader.settle
    return { reader with options, pending? := some (option, none) }
  | some (.valued option), some value => do
    let options ← option.apply (← reader.settle) value
    return { reader with options, pending? := none }

/-- The letters after a single dash are switches. -/
def letters (reader : Reader) : Text → Except Stop Reader
  | [] => .ok reader
  | c :: more =>
    match Switch.ofLetter? c with
    | none => .error (.fault (.unexpected ['-', c] true))
    | some switch => do letters (← reader.switch switch) more

/-- An argument that is no flag: the value that is awaited, or else the file. -/
def take (reader : Reader) (arg : Text) : Except Stop Reader :=
  match reader.pending? with
  | some (option, none) => .ok { reader with pending? := some (option, some arg) }
  | _ => reader.place arg

def next (reader : Reader) (arg : Text) : Except Stop Reader :=
  if reader.literal then reader.place arg
  else match arg with
    | ['-', '-'] => .ok { reader with literal := true }
    | '-' :: '-' :: body =>
      match Text.splitFirst '=' body with
      | some (name, value) => reader.long name (some value)
      | none => reader.long body none
    | '-' :: c :: more => reader.letters (c :: more)
    | arg => reader.take arg

def readAll (reader : Reader) : List Text → Except Stop Options
  | [] => reader.settle
  | arg :: more => do readAll (← reader.next arg) more

end Reader

def readArgs (args : List Text) : Except Stop Options :=
  Reader.initial.readAll args

end StepScript.CommandLine
