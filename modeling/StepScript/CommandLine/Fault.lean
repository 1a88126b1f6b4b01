import StepScript.Terminal

/-! What can be wrong with the arguments of the command, and how it is said. -/
namespace StepScript.CommandLine

/-- What takes a value: the file to run and the options with one. -/
inductive Valued where
  | file
  | var
  | maxSteps
  | name
deriving DecidableEq

/-- How messages write it. -/
def Valued.label : Valued → String
  | .file => "[FILE]"
  | .var => "--var <NAME=TYPE:VALUE>"
  | .maxSteps => "--max-steps <MAX_STEPS>"
  | .name => "--name <NAME>"

inductive Switch where
  | traceLines
  | describe
  | verbose
  | help
  | version
deriving DecidableEq

def Switch.label : Switch → String
  | .traceLines => "--trace-lines"
  | .describe => "--describe"
  | .verbose => "--verbose"
  | .help => "--help"
  | .version => "--version"

inductive Fault where
  | invalidValue (option : Valued) (value problem : Text)
  | missingValue (option : Valued)
  /-- An argument that may be given once, given again. -/
  | repeated (label : String)
  | unexpectedValue (switch : Switch) (value : Text)
  /-- No argument of this form is known; one that looks like an option could still be a value. -/
  | unexpected (arg : Text) (looksLikeOption : Bool)

namespace Fault

/-- The parts of what is said, cut where the style changes. -/
def parts : Fault → List Text
  | .invalidValue option value problem =>
    [" invalid value '".toList, value, "' for '".toList, option.label.toList,
      "': ".toList ++ problem]
  | .missingValue option =>
    [" a value is required for '".toList, option.label.toList, "' but none was supplied".toList]
  | .repeated label =>
    [" the argument '".toList, label.toList,
      "' cannot be used multiple times\n\nUsage: gcode [OPTIONS] [FILE]".toList]
  | .unexpectedValue switch value =>
    [" unexpected value '".toList, value, "' for '".toList, switch.label.toList,
      "' found; no more were expected\n\nUsage: gcode ".toList ++ switch.label.toList]
  | .unexpected arg false =>
    [" unexpected argument '".toList, arg, "' found\n\nUsage: gcode [OPTIONS] [FILE]".toList]
  | .unexpected arg true =>
    [" unexpected argument '".toList, arg, "' found\n\n  tip: to pass '".toList, arg,
      "' as a value, use '".toList, "-- ".toList ++ arg,
      "'\n\nUsage: gcode [OPTIONS] [FILE]".toList]

/-- The parts with what comes before and after all of them; the hint continues the last part. -/
def styled (fault : Fault) : List Text :=
  "error:".toList :: close fault.parts
where
  close : List Text → List Text
    | [] => []
    | [last] =>
      [last ++ "\n\nFor more information, try '".toList, "--help".toList, "'.\n".toList]
    | part :: more => part :: close more

/-- A change of style ends a control sequence that a part leaves open, so each part is made plain
on its own. -/
def message (fault : Fault) : Text :=
  fault.styled.flatMap Terminal.plain

end Fault
end StepScript.CommandLine
