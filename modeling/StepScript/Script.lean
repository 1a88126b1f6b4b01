import StepScript.Script.Action
import StepScript.Script.Block

/-! The step machine. A step executes one line. A `while` line opens a frame whose body is a second
pass over the lines of its block, with a scope of its own; each step then moves the body on, takes
its values back, and at the end of the block decides whether to pass again. -/
namespace StepScript

inductive Halt where
  | broken
  | failed
deriving DecidableEq

/-- A walk over a list of lines. -/
structure Pass where
  lines : List Text
  next : Nat
  current? : Option Nat
  halt? : Option Halt
  scope : Scope

/-- A running block: the index of its `while` line, of its first line and of the first line after
it, and the condition for another pass. -/
structure Frame where
  entry : Nat
  start : Nat
  resume : Nat
  condition : Text
  body : Pass

structure Script where
  language : Language
  entropy : Entropy
  main : Pass
  frame? : Option Frame

/-- An error with the number of its line, counted from one. -/
structure Failure where
  line : Nat
  error : Error
deriving DecidableEq

def Failure.message (failure : Failure) : String :=
  "line " ++ String.ofList (Nat.toDigits 10 failure.line) ++ ": " ++ failure.error.message

/-- What a step leaves, shows and reports. -/
structure Step where
  script : Script
  shown : List Message
  failure? : Option Failure

/-- Coarse progress of a script. -/
inductive Status where
  | ready
  | running
  | completed
  | broken
  | failed
deriving DecidableEq

namespace Pass

def start (lines : List Text) (scope : Scope) : Pass :=
  ⟨lines, Block.nextMeaningful lines 0, none, none, scope⟩

/-- Nothing is left to execute. -/
def isDone (pass : Pass) : Bool :=
  pass.halt?.isSome || pass.lines.length ≤ pass.next

/-- Goes on at `index` or at the first executed line after it. -/
def goTo (pass : Pass) (index : Nat) : Pass :=
  { pass with next := Block.nextMeaningful pass.lines index }

/-- The line to execute with its index, and the pass standing after it. -/
def advance? (pass : Pass) : Option (Nat × Text × Pass) :=
  let index := Block.nextMeaningful pass.lines pass.next
  pass.lines[index]?.map fun raw =>
    (index, raw, { pass with current? := some index, next := index + 1 })

def stop (pass : Pass) (halt : Halt) : Pass :=
  { pass with halt? := some halt }

end Pass

/-- What one line of a block leaves, shows and reports; the index of a failing line counts from the
start of the block. -/
structure BodyStep where
  body : Pass
  shown : List Message
  entropy : Entropy
  failure? : Option (Nat × Error)

/-- Executes the next line of a block. A block has no loop of its own. -/
def Pass.stepBody (language : Language) (entropy : Entropy) (body : Pass) : BodyStep :=
  if body.isDone then ⟨body, [], entropy, none⟩
  else match body.advance? with
    | none => ⟨body.goTo body.next, [], entropy, none⟩
    | some (index, raw, body) =>
      let done := Action.perform language entropy body.scope raw
      match done.result with
      | .ok (.update scope) =>
        ⟨{ body with scope }.goTo body.next, done.shown, done.entropy, none⟩
      | .ok .leave => ⟨(body.goTo body.next).stop .broken, done.shown, done.entropy, none⟩
      | .ok (.loop _) =>
        ⟨body.stop .failed, done.shown, done.entropy, some (index, .nestedLoop)⟩
      | .error e => ⟨body.stop .failed, done.shown, done.entropy, some (index, e)⟩

namespace Script

def new (language : Language) (entropy : Entropy) (lines : List Text) : Script :=
  ⟨language, entropy, .start lines .empty, none⟩

def ofSource (language : Language) (entropy : Entropy) (source : Text) : Script :=
  new language entropy source.lines

def isDone (script : Script) : Bool :=
  script.main.halt?.isSome ||
    (script.frame?.isNone && script.main.lines.length ≤ script.main.next)

def status (script : Script) : Status :=
  match script.main.halt? with
  | some .failed => .failed
  | some .broken => .broken
  | none =>
    if script.isDone then .completed
    else if script.main.current?.isNone then .ready
    else .running

/-- Number, counted from one, of the line the latest step executed. -/
def currentLine? (script : Script) : Option Nat :=
  script.main.current?.map (· + 1)

/-- Back to the first line, without locals; interactive variables keep their values. -/
def restart (script : Script) : Script :=
  { script with main := .start script.main.lines script.main.scope.resetLocals, frame? := none }

def mapMain (script : Script) (f : Pass → Pass) : Script :=
  { script with main := f script.main }

def fail (script : Script) : Script :=
  { script with main := script.main.stop .failed, frame? := none }

/-- A condition is evaluated in the outer scope. -/
def holds (scope : Scope) (condition : Text) : Except Error Bool := do
  Condition.toBool (← Expr.evaluate .bool condition scope)

/-- Opens a frame for the block after the `while` line at `index`, or passes it over. -/
def enterLoop (script : Script) (index : Nat) (condition : Text) : Except Error Script := do
  let (opening, closing) ← Block.find script.main.lines index
  if ← holds script.main.scope condition then
    let lines := (script.main.lines.take closing).drop (opening + 1)
    let body := Pass.start lines script.main.scope
    let frame : Frame := ⟨index, opening + 1, closing + 1, condition, body⟩
    return { script with main := { script.main with next := closing + 1 }, frame? := some frame }
  else return script.mapMain (·.goTo (closing + 1))

/-- Carries out what the line at `index` asks for. -/
def enact (script : Script) (index : Nat) : Action → Except Error Script
  | .update scope => .ok (script.mapMain fun main => { main with scope }.goTo main.next)
  | .leave => .ok (script.mapMain fun main => (main.goTo main.next).stop .broken)
  | .loop condition => script.enterLoop index condition

/-- Executes the next line outside any block. -/
def stepLine (script : Script) : Step :=
  match script.main.advance? with
  | none => ⟨script.mapMain fun main => main.goTo main.next, [], none⟩
  | some (index, raw, main) =>
    let done := Action.perform script.language script.entropy main.scope raw
    let script := { script with main, entropy := done.entropy }
    match done.result.bind (script.enact index) with
    | .ok script => ⟨script, done.shown, none⟩
    | .error e => ⟨script.fail, done.shown, some ⟨index + 1, e⟩⟩

/-- Leaves the block of the frame. -/
def leaveLoop (script : Script) (frame : Frame) : Script :=
  { script with main := script.main.goTo frame.resume, frame? := none }

/-- Another pass over the block if its condition holds, else what follows the block. -/
def repeatLoop (script : Script) (frame : Frame) : Except Error Script := do
  if ← holds script.main.scope frame.condition then
    let body := Pass.start frame.body.lines script.main.scope
    return { script with frame? := some { frame with body } }
  else return script.leaveLoop frame

/-- Takes over the values and the position of a body that has moved on. -/
def follow (script : Script) (frame : Frame) (body : Pass) : Script :=
  let current? := (body.current?.map (frame.start + ·)).or script.main.current?
  { script with
    main := { script.main with scope := script.main.scope.absorb body.scope, current? }
    frame? := some { frame with body } }

/-- Executes the next line of the frame's block. -/
def stepLoop (script : Script) (frame : Frame) : Step :=
  let done := frame.body.stepBody script.language script.entropy
  let script := { script with entropy := done.entropy }.follow frame done.body
  match done.failure? with
  | some (index, e) => ⟨script.fail, done.shown, some ⟨frame.start + index + 1, e⟩⟩
  | none =>
    if !done.body.isDone then ⟨script, done.shown, none⟩
    else if done.body.halt? = some .broken then ⟨script.leaveLoop frame, done.shown, none⟩
    else match script.repeatLoop frame with
      | .ok script => ⟨script, done.shown, none⟩
      | .error e => ⟨script.fail, done.shown, some ⟨frame.entry + 1, e⟩⟩

/-- Executes one line; a script that is done stays as it is. -/
def step (script : Script) : Step :=
  if script.isDone then ⟨script, [], none⟩
  else match script.frame? with
    | some frame => script.stepLoop frame
    | none => script.stepLine

/-- Up to `count` steps; a script that is done or fails stops early. -/
def stepN : Nat → Script → Step
  | 0, script => ⟨script, [], none⟩
  | count + 1, script =>
    if script.isDone then ⟨script, [], none⟩
    else
      let done := script.step
      match done.failure? with
      | some _ => done
      | none =>
        let rest := stepN count done.script
        { rest with shown := done.shown ++ rest.shown }

/-- What a number of steps leaves, shows and reports, with the line each of them executed. A step
that fails is not counted. -/
structure Run where
  script : Script
  shown : List Message
  visited : List Nat
  steps : Nat
  failure? : Option Failure

/-- Steps until the script is done, fails, or has taken `limit` steps; messages and lines so far are
held with the latest first. -/
def runFrom (shown : List Message) (visited : List Nat) (steps : Nat) : Nat → Script → Run
  | 0, script => ⟨script, shown.reverse, visited.reverse, steps, none⟩
  | limit + 1, script =>
    if script.isDone then ⟨script, shown.reverse, visited.reverse, steps, none⟩
    else
      let done := script.step
      let shown := done.shown.reverseAux shown
      match done.failure? with
      | some failure => ⟨done.script, shown.reverse, visited.reverse, steps, some failure⟩
      | none =>
        runFrom shown (done.script.currentLine?.toList ++ visited) (steps + 1) limit done.script

def run (limit : Nat) (script : Script) : Run :=
  runFrom [] [] 0 limit script

/-- What a host write leaves and reports. -/
structure Write where
  script : Script
  error? : Option Error

/-- A host write goes to the outer scope first, then to the scope of a running block. -/
def write (script : Script) (update : Scope → Except Error Scope) : Write :=
  match update script.main.scope with
  | .error e => ⟨script, some e⟩
  | .ok scope =>
    let script := script.mapMain fun main => { main with scope }
    match script.frame? with
    | none => ⟨script, none⟩
    | some frame =>
      match update frame.body.scope with
      | .error e => ⟨script, some e⟩
      | .ok scope =>
        ⟨{ script with frame? := some { frame with body := { frame.body with scope } } }, none⟩

/-- Registers a variable that host and script share. -/
def addInteractive (script : Script) (name : Text) (value : Value) : Write :=
  script.write (·.addInteractive name value)

def setInteractive (script : Script) (name : Text) (value : Value) : Write :=
  script.write (·.setInteractive name value)

def getInteractive (script : Script) (name : Text) : Except Error Value :=
  script.main.scope.getInteractive name

/-- Any variable outside the blocks, interactive ones first. -/
def lookup? (script : Script) (name : Text) : Option Value :=
  script.main.scope.get? name

end Script
end StepScript
