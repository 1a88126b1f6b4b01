import StepScript.CommandLine

/-! The executable: reads the script file, prints what the command leaves, and exits. -/

/-- The contents of a file, or why it cannot be read. -/
def StepScript.CommandLine.readSource (file : StepScript.Text) :
    IO (Except ReadError StepScript.Text) := do
  try
    return .ok (← IO.FS.readFile (String.ofList file)).toList
  catch
    | .noFileOrDirectory .. => return .error .missing
    | .inappropriateType _ code _ => return .error (if code = 21 then .isFolder else .notFolder)
    | e => return .error (.other (toString e).toList)

open StepScript in
def main (args : List String) : IO UInt32 := do
  let args := args.map String.toList
  let bytes ← IO.getRandomBytes 8
  let entropy := bytes.foldl (fun acc b => acc * 256 + b.toUInt64) (0 : UInt64)
  let source ← match CommandLine.file? args with
    | some file => CommandLine.readSource file
    | none => pure (.error .missing)
  let outcome := CommandLine.run (fun _ => source) entropy args
  (← IO.getStdout).putStr (String.ofList outcome.stdout)
  (← IO.getStderr).putStr (String.ofList outcome.stderr)
  return outcome.exit
