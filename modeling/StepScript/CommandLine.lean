import StepScript.CommandLine.Arguments
import StepScript.CommandLine.Folder
import StepScript.Language.Builtin
import StepScript.Language.Json
import StepScript.Script

/-! The command that runs a script file. Everything it does is a function of its arguments, of the
file it reads and of one draw of entropy, and ends in the two texts it prints and an exit code. -/
namespace StepScript.CommandLine

/-- What the command leaves behind. -/
structure Outcome where
  exit : UInt32
  stdout : Text
  stderr : Text

/-- A failure with the chain of its causes. -/
structure Report where
  text : Text
  causes : List Text

/-- Lines after the first are indented. -/
def indentLines (indent t : Text) : Text :=
  t.flatMap fun c => if c == '\n' then c :: indent else [c]

/-- Causes from `index` on, each after its number. -/
def numberCauses (index : Nat) : List Text → Text
  | [] => []
  | cause :: more =>
    let number := Nat.toDigits 10 index
    List.replicate (5 - number.length) ' ' ++ number ++ [':', ' '] ++
      indentLines (List.replicate 7 ' ') cause ++ ['\n'] ++ numberCauses (index + 1) more

def Report.render (report : Report) : Text :=
  let head := "Error: ".toList ++ report.text ++ ['\n']
  let indent := List.replicate 4 ' '
  match report.causes with
  | [] => head
  | [cause] => head ++ "\nCaused by:\n".toList ++ indent ++ indentLines indent cause ++ ['\n']
  | causes => head ++ "\nCaused by:\n".toList ++ numberCauses 0 causes

def renderMessage (message : Message) : Text :=
  match message.title? with
  | some title => '[' :: title ++ "] ".toList ++ message.text ++ ['\n']
  | none => message.text ++ ['\n']

def renderLine (line : Nat) : Text :=
  "line ".toList ++ Nat.toDigits 10 line ++ ['\n']

def renderBinding (binding : Text × Value) : Text :=
  binding.1 ++ " = ".toList ++ binding.2.literal ++ ['\n']

/-- Gives the script its seeds, in the order in which they are written. -/
def seed (script : Script) : List (Text × Value) → Except Report Script
  | [] => .ok script
  | (name, value) :: more =>
    let done := script.addInteractive name value
    match done.error? with
    | none => seed done.script more
    | some e => .error ⟨"seeding --var ".toList ++ name, [e.message.toList]⟩

/-- How the loop over the steps of a script comes to its end. -/
inductive Ending where
  | done
  | stopped (steps : Nat)
  | failed (failure : Failure)
deriving DecidableEq

/-- What the loop leaves and shows, the line of each step, and how it ended. -/
structure Drive where
  script : Script
  shown : List Message
  visited : List Nat
  ending : Ending

/-- Steps until the script is done. Before each step, and not after the last one, the steps so far
are compared with the limit. Messages and lines are held with the latest first. -/
def driveFrom (limit : Nat) (shown : List Message) (visited : List Nat) (steps : Nat)
    (script : Script) : Drive :=
  if script.isDone then ⟨script, shown.reverse, visited.reverse, .done⟩
  else if limit ≤ steps then ⟨script, shown.reverse, visited.reverse, .stopped steps⟩
  else
    let done := script.step
    let shown := done.shown.reverseAux shown
    match done.failure? with
    | some failure => ⟨done.script, shown.reverse, visited.reverse, .failed failure⟩
    | none =>
      driveFrom limit shown (done.script.currentLine?.toList ++ visited) (steps + 1) done.script
termination_by limit - steps

def drive (limit : Nat) (script : Script) : Drive :=
  driveFrom limit [] [] 0 script

/-- Where the loop gave up. -/
def stopReport (file : Text) (steps line : Nat) : Report :=
  ⟨file ++ ": stopped after ".toList ++ Nat.toDigits 10 steps ++ " steps (line ".toList ++
    Nat.toDigits 10 line ++ [')'], []⟩

def failureReport (file : Text) (failure : Failure) : Report :=
  ⟨"running ".toList ++ file, [failure.message.toList, failure.error.message.toList]⟩

/-- Why the loop does not count as a success. -/
def problem? (file : Text) (drive : Drive) : Option Report :=
  match drive.ending with
  | .done => none
  | .stopped steps => some (stopReport file steps (drive.script.currentLine?.getD 0))
  | .failed failure => some (failureReport file failure)

/-- Drives the seeded script within the limit and prints its interactive variables. -/
def runScript (options : Options) (file : Text) (script : Script) : Outcome :=
  let drive := drive options.maxSteps script
  let messages := drive.shown.flatMap renderMessage
  let trace := if options.traceLines then drive.visited.flatMap renderLine else []
  match problem? file drive with
  | some report => ⟨1, messages, trace ++ report.render⟩
  | none => ⟨0, messages ++ drive.script.main.scope.interactive.flatMap renderBinding, trace⟩

def failWith (report : Report) : Outcome :=
  ⟨1, [], report.render⟩

/-- What is done once the arguments are read; `read` gives a file or says why it cannot. -/
def respond (read : Text → Except ReadError Text) (entropy : Entropy) (options : Options) :
    Except Error Outcome := do
  let language ← Language.builtin
  let language ← match options.name? with
    | some name => language.rename name
    | none => .ok language
  if options.describe then return ⟨0, Json.manifest language.manifest ++ ['\n'], []⟩
  match options.file? with
  | none =>
    let hint := "gcode - run a script, e.g.: gcode demos/countdown.gcs --var start=Int:3\n"
    return ⟨0, hint.toList, []⟩
  | some file =>
    match read file with
    | .error e => return failWith ⟨"reading ".toList ++ file, [e.message]⟩
    | .ok source =>
      match seed (Script.ofSource language entropy source) options.vars with
      | .error report => return failWith report
      | .ok script => return runScript options file script

/-- What `--help` prints. -/
def helpLines : List String :=
  ["gcode SL - run a line-oriented script one step at a time",
    "",
    "Usage: gcode [OPTIONS] [FILE]",
    "",
    "Arguments:",
    "  [FILE]  Path to a .gcs script to run",
    "",
    "Options:",
    "      --var <NAME=TYPE:VALUE>  Seed an interactive variable, e.g. `--var speed=Int:10`",
    "      --max-steps <MAX_STEPS>  Give up after this many steps [default: 100000]",
    "      --trace-lines            Print each executed line number to stderr",
    "      --describe               Print the language manifest as JSON and exit",
    "      --name <NAME>            Language name reported by --describe",
    "  -v, --verbose                Log at debug level unless GCODE_LOG says otherwise",
    "  -h, --help                   Print help",
    "  -V, --version                Print version"]

def Stop.outcome : Stop → Outcome
  | .help => ⟨0, helpLines.flatMap fun line => line.toList ++ ['\n'], []⟩
  | .version => ⟨0, "gcode 0.1.0\n".toList, []⟩
  | .fault problem => ⟨2, [], problem.message⟩

def run (read : Text → Except ReadError Text) (entropy : Entropy) (args : List Text) : Outcome :=
  match readArgs args with
  | .error stop => stop.outcome
  | .ok options =>
    match respond read entropy options with
    | .ok outcome => outcome
    | .error e => failWith ⟨e.message.toList, []⟩

/-- The file that a run with these arguments reads. -/
def file? (args : List Text) : Option Text :=
  match readArgs args with
  | .ok options => options.file?
  | .error _ => none

end StepScript.CommandLine
