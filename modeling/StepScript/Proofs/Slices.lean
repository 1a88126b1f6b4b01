import StepScript.Proofs.Failing
import StepScript.Proofs.Reports

/-! The drivers of a script. Steps, a number of steps, a run within a limit and the loop of the
command all take the same steps, so a run may be cut into slices anywhere, and a limit that is not
reached does not show. -/
namespace StepScript

namespace Script

variable {script : Script}

/-- Two slices as one run. -/
def Run.append (first second : Run) : Run where
  script := second.script
  shown := first.shown ++ second.shown
  visited := first.visited ++ second.visited
  steps := first.steps + second.steps
  failure? := second.failure?

/-- The run goes on with `next` unless it has failed. -/
def Run.andThen (first : Run) (next : Script → Run) : Run :=
  match first.failure? with
  | some _ => first
  | none => first.append (next first.script)

theorem Run.append_andThen (first second : Run) (next : Script → Run) :
    (first.append second).andThen next = first.append (second.andThen next) := by
  unfold andThen
  cases failed : second.failure? with
  | some failure => simp [append, failed]
  | none => simp [append, failed, Nat.add_assoc]

/-- What is held from before a run comes before what the run shows and visits. -/
theorem runFrom_eq_append (shown : List Message) (visited : List Nat) (steps limit : Nat)
    (script : Script) :
    runFrom shown visited steps limit script =
      Run.append ⟨script, shown.reverse, visited.reverse, steps, none⟩ (script.run limit) := by
  unfold run
  induction limit generalizing shown visited steps script with
  | zero => simp [runFrom, Run.append]
  | succ limit ih =>
    unfold runFrom
    split
    · simp [Run.append]
    · dsimp only
      split
      · simp [Run.append]
      · rw [ih, ih (script.step.shown.reverseAux [])]
        simp [Run.append, List.reverseAux_eq, Nat.add_assoc]

/-- A step as a run of its own. -/
def stepRun (script : Script) : Run :=
  ⟨script.step.script, script.step.shown, script.step.script.currentLine?.toList, 1, none⟩

theorem run_succ_of_failure {failure : Failure} (running : script.isDone = false)
    (reported : script.step.failure? = some failure) (limit : Nat) :
    script.run (limit + 1) = ⟨script.step.script, script.step.shown, [], 0, some failure⟩ := by
  simp [run, runFrom, running, reported, List.reverseAux_eq]

theorem run_succ_of_calm (running : script.isDone = false) (calm : script.step.failure? = none)
    (limit : Nat) :
    script.run (limit + 1) = script.stepRun.append (script.step.script.run limit) := by
  have unfolded : script.run (limit + 1) = runFrom (script.step.shown.reverseAux [])
      (script.step.script.currentLine?.toList ++ []) 1 limit script.step.script := by
    simp [run, runFrom, running, calm]
  rw [unfolded, runFrom_eq_append, stepRun]
  cases script.step.script.currentLine? <;> simp [List.reverseAux_eq]

/-- A run goes on where a slice of it ended. -/
theorem run_add (m n : Nat) (script : Script) :
    script.run (m + n) = (script.run m).andThen (run n) := by
  induction m generalizing script with
  | zero => simp [run, runFrom, Run.andThen, Run.append]
  | succ m ih =>
    rw [Nat.succ_add]
    cases done : script.isDone with
    | true => simp [run_of_isDone done, Run.andThen, Run.append]
    | false =>
      cases reported : script.step.failure? with
      | some failure =>
        rw [run_succ_of_failure done reported, run_succ_of_failure done reported]
        rfl
      | none =>
        rw [run_succ_of_calm done reported, run_succ_of_calm done reported, ih,
          Run.append_andThen]

theorem run_add_of_calm {m : Nat} (calm : (script.run m).failure? = none) (n : Nat) :
    script.run (m + n) = (script.run m).append ((script.run m).script.run n) := by
  rw [run_add, Run.andThen, calm]

theorem stepN_eq_run (count : Nat) (script : Script) :
    script.stepN count =
      ⟨(script.run count).script, (script.run count).shown, (script.run count).failure?⟩ := by
  induction count generalizing script with
  | zero => rfl
  | succ count ih =>
    cases done : script.isDone with
    | true => rw [stepN_of_isDone done, run_of_isDone done]
    | false =>
      cases reported : script.step.failure? with
      | some failure =>
        rw [stepN_succ_of_failure done reported, run_succ_of_failure done reported, ← reported]
      | none =>
        rw [stepN_succ_of_calm done reported, run_succ_of_calm done reported, ih]
        rfl

/-- A run that stops short of the end has used up its limit. -/
theorem steps_of_run {limit : Nat} (calm : (script.run limit).failure? = none)
    (running : (script.run limit).script.isDone = false) : (script.run limit).steps = limit := by
  induction limit generalizing script with
  | zero => rfl
  | succ limit ih =>
    cases done : script.isDone with
    | true => simp [run_of_isDone done, done] at running
    | false =>
      cases reported : script.step.failure? with
      | some failure => simp [run_succ_of_failure done reported] at calm
      | none =>
        rw [run_succ_of_calm done reported] at calm running ⊢
        have rest := ih calm running
        simp only [Run.append, stepRun, rest]
        omega

/-- A run that has come to its end, in success or in failure, does not depend on its limit. -/
theorem run_of_le {limit higher : Nat} (above : limit ≤ higher)
    (ended : (script.run limit).failure? ≠ none ∨ (script.run limit).script.isDone = true) :
    script.run higher = script.run limit := by
  obtain ⟨more, rfl⟩ := Nat.exists_eq_add_of_le above
  rw [run_add, Run.andThen]
  cases failed : (script.run limit).failure? with
  | some failure => rfl
  | none =>
    have done : (script.run limit).script.isDone = true := by simpa [failed] using ended
    simp [run_of_isDone done, Run.append, ← failed]

end Script

namespace CommandLine

variable {script : Script} {limit : Nat}

/-- The end to which a run within a limit brings the loop of the command. -/
def Ending.ofRun (run : Script.Run) : Ending :=
  match run.failure? with
  | some failure => .failed failure
  | none => if run.script.isDone then .done else .stopped run.steps

def Drive.ofRun (run : Script.Run) : Drive :=
  ⟨run.script, run.shown, run.visited, .ofRun run⟩

/-- The loop counts up to its limit where a run counts down to zero, and looks at its limit only
while there is something to execute. -/
theorem driveFrom_eq_runFrom (shown : List Message) (visited : List Nat) (steps remaining : Nat)
    (script : Script) :
    driveFrom (steps + remaining) shown visited steps script =
      .ofRun (Script.runFrom shown visited steps remaining script) := by
  induction remaining generalizing shown visited steps script with
  | zero =>
    unfold driveFrom Script.runFrom
    cases done : script.isDone <;> simp [Drive.ofRun, Ending.ofRun, done]
  | succ remaining ih =>
    unfold driveFrom Script.runFrom
    cases done : script.isDone with
    | true => simp [Drive.ofRun, Ending.ofRun, done]
    | false =>
      have below : ¬ steps + (remaining + 1) ≤ steps := by omega
      simp only [below, if_false, Bool.false_eq_true]
      cases reported : script.step.failure? with
      | some failure => simp [Drive.ofRun, Ending.ofRun]
      | none =>
        have next := ih (script.step.shown.reverseAux shown)
          (script.step.script.currentLine?.toList ++ visited) (steps + 1) script.step.script
        rwa [show steps + 1 + remaining = steps + (remaining + 1) by omega] at next

theorem drive_eq_run (limit : Nat) (script : Script) :
    drive limit script = .ofRun (script.run limit) := by
  have loop := driveFrom_eq_runFrom [] [] 0 limit script
  rwa [Nat.zero_add] at loop

theorem ending_eq_failed_iff {failure : Failure} :
    (drive limit script).ending = .failed failure ↔
      (script.run limit).failure? = some failure := by
  rw [drive_eq_run, Drive.ofRun, Ending.ofRun]
  cases (script.run limit).failure? with
  | some failure => simp
  | none => cases (script.run limit).script.isDone <;> simp

section Printed

variable {options : Options} {file : Text}

/-- The trace of a run, where it is asked for. -/
def traceOf (options : Options) (run : Script.Run) : Text :=
  if options.traceLines then run.visited.flatMap renderLine else []

theorem runScript_of_failed {failure : Failure}
    (failed : (script.run options.maxSteps).failure? = some failure) :
    runScript options file script =
      ⟨1, (script.run options.maxSteps).shown.flatMap renderMessage,
        traceOf options (script.run options.maxSteps) ++ (failureReport file failure).render⟩ := by
  have ending : Ending.ofRun (script.run options.maxSteps) = .failed failure := by
    rw [Ending.ofRun, failed]
  simp only [runScript, drive_eq_run, Drive.ofRun, problem?, ending, traceOf]

theorem runScript_of_done (calm : (script.run options.maxSteps).failure? = none)
    (done : (script.run options.maxSteps).script.isDone = true) :
    runScript options file script =
      ⟨0, (script.run options.maxSteps).shown.flatMap renderMessage ++
          (script.run options.maxSteps).script.main.scope.interactive.flatMap renderBinding,
        traceOf options (script.run options.maxSteps)⟩ := by
  have ending : Ending.ofRun (script.run options.maxSteps) = .done := by
    rw [Ending.ofRun, calm, done]
    rfl
  simp only [runScript, drive_eq_run, Drive.ofRun, problem?, ending, traceOf]

theorem runScript_of_stopped (calm : (script.run options.maxSteps).failure? = none)
    (running : (script.run options.maxSteps).script.isDone = false) :
    runScript options file script =
      ⟨1, (script.run options.maxSteps).shown.flatMap renderMessage,
        traceOf options (script.run options.maxSteps) ++
          (stopReport file options.maxSteps
            ((script.run options.maxSteps).script.currentLine?.getD 0)).render⟩ := by
  have ending : Ending.ofRun (script.run options.maxSteps) = .stopped options.maxSteps := by
    rw [Ending.ofRun, calm, running, Script.steps_of_run calm running]
    rfl
  simp only [runScript, drive_eq_run, Drive.ofRun, problem?, ending, traceOf]

theorem exit_eq_zero_iff (options : Options) (file : Text) (script : Script) :
    (runScript options file script).exit = 0 ↔
      (script.run options.maxSteps).failure? = none ∧
        (script.run options.maxSteps).script.isDone = true := by
  cases calm : (script.run options.maxSteps).failure? with
  | some failure => simp [runScript_of_failed calm]
  | none =>
    cases done : (script.run options.maxSteps).script.isDone with
    | true => simp [runScript_of_done calm done]
    | false => simp [runScript_of_stopped calm done]

/-- The report of a failure is printed exactly behind a run that failed. -/
theorem stderr_eq_failure_iff (options : Options) (file : Text) (script : Script) :
    (∃ failure, (runScript options file script).stderr =
        traceOf options (script.run options.maxSteps) ++ (failureReport file failure).render) ↔
      (script.run options.maxSteps).failure? ≠ none := by
  cases calm : (script.run options.maxSteps).failure? with
  | some failure => exact iff_of_true ⟨failure, by rw [runScript_of_failed calm]⟩ nofun
  | none =>
    refine iff_of_false ?_ (by simp)
    rintro ⟨failure, same⟩
    cases done : (script.run options.maxSteps).script.isDone with
    | true =>
      rw [runScript_of_done calm done] at same
      exact render_ne_nil _ (List.self_eq_append_right.mp same)
    | false =>
      rw [runScript_of_stopped calm done] at same
      exact render_causes_ne file _ _ _ _ (List.append_cancel_left same).symm

/-- The report of a run that was given up is printed exactly behind such a run. -/
theorem stderr_eq_stop_iff (options : Options) (file : Text) (script : Script) (steps line : Nat) :
    (runScript options file script).stderr =
        traceOf options (script.run options.maxSteps) ++ (stopReport file steps line).render ↔
      steps = options.maxSteps ∧
        line = (script.run options.maxSteps).script.currentLine?.getD 0 ∧
        (script.run options.maxSteps).failure? = none ∧
        (script.run options.maxSteps).steps = options.maxSteps ∧
        (script.run options.maxSteps).script.isDone = false := by
  constructor
  · intro same
    cases calm : (script.run options.maxSteps).failure? with
    | some failure =>
      rw [runScript_of_failed calm] at same
      exact absurd (List.append_cancel_left same) (render_causes_ne file _ _ steps line)
    | none =>
      cases done : (script.run options.maxSteps).script.isDone with
      | true =>
        rw [runScript_of_done calm done] at same
        exact absurd (List.self_eq_append_right.mp same) (render_ne_nil _)
      | false =>
        rw [runScript_of_stopped calm done] at same
        obtain ⟨count, place⟩ := render_stopReport_inj (List.append_cancel_left same)
        exact ⟨count.symm, place.symm, rfl, Script.steps_of_run calm done, rfl⟩
  · rintro ⟨rfl, rfl, calm, _, running⟩
    rw [runScript_of_stopped calm running]

end Printed

/-- The limit does not show where the run comes to an end of its own. -/
theorem runScript_of_le {options : Options} (file : Text) {higher : Nat}
    (above : options.maxSteps ≤ higher)
    (ended : (script.run options.maxSteps).failure? ≠ none ∨
      (script.run options.maxSteps).script.isDone = true) :
    runScript { options with maxSteps? := some higher } file script =
      runScript options file script := by
  have driven : drive higher script = drive options.maxSteps script := by
    rw [drive_eq_run, drive_eq_run, Script.run_of_le above ended]
  unfold runScript
  rw [show Options.maxSteps { options with maxSteps? := some higher } = higher from rfl, driven]
  rfl

end CommandLine

/-- A run cut into two slices is the run as a whole, and so many steps are the run within that
limit. The loop of the command leaves and shows what a run within its limit does: it succeeds where
the run comes to the end, it fails where the run fails, and it gives up where the run has taken all
the steps it may and is not done. A higher limit makes a difference only where it gives up. The
messages are printed in every case, and after a success the variables. Behind the trace is printed
what the failure was, or after how many steps the run was given up, and neither of the two is ever
printed where the other one belongs. -/
theorem slices_make_one_run (script : Script) :
    (∀ m n : Nat,
      let first := script.run m
      let second := first.script.run n
      let single := script.run (m + n)
      first.failure? = none →
        single.script = second.script ∧ single.shown = first.shown ++ second.shown ∧
        single.steps = first.steps + second.steps ∧ single.failure? = second.failure?) ∧
    (∀ m : Nat, script.stepN m =
      ⟨(script.run m).script, (script.run m).shown, (script.run m).failure?⟩) ∧
    ∀ (options : CommandLine.Options) (file : Text),
      let limit := options.maxSteps
      let run := script.run limit
      let drive := CommandLine.drive limit script
      let outcome := CommandLine.runScript options file script
      let messages : Text := run.shown.flatMap fun message =>
        (message.title?.elim [] fun title => "[".toList ++ title ++ "] ".toList) ++
          message.text ++ "\n".toList
      let bindings : Text := run.script.main.scope.interactive.flatMap fun binding =>
        binding.1 ++ " = ".toList ++ binding.2.literal ++ "\n".toList
      let trace : Text :=
        if options.traceLines then
          run.visited.flatMap fun line => "line ".toList ++ Nat.toDigits 10 line ++ "\n".toList
        else []
      let cause (t : Text) : Text := "\n       ".toList.intercalate (splitWhere (· == '\n') t)
      let failed (failure : Failure) : Text :=
        "Error: running ".toList ++ file ++ "\n\nCaused by:\n    0: ".toList ++
          cause ("line ".toList ++ Nat.toDigits 10 failure.line ++ ": ".toList ++
            failure.error.message.toList) ++
          "\n    1: ".toList ++ cause failure.error.message.toList ++ "\n".toList
      let stopped (steps line : Nat) : Text :=
        "Error: ".toList ++ file ++ ": stopped after ".toList ++ Nat.toDigits 10 steps ++
          " steps (line ".toList ++ Nat.toDigits 10 line ++ ")\n".toList
      drive.script = run.script ∧ drive.shown = run.shown ∧ drive.visited = run.visited ∧
      (outcome.exit = 0 ↔ run.failure? = none ∧ run.script.isDone = true) ∧
      (run.failure? = none → run.script.isDone = true →
        outcome = ⟨0, messages ++ bindings, trace⟩) ∧
      (∀ failure, drive.ending = .failed failure ↔ run.failure? = some failure) ∧
      ((∃ failure, outcome.stderr = trace ++ failed failure) ↔ run.failure? ≠ none) ∧
      (∀ failure, run.failure? = some failure →
        outcome = ⟨1, messages, trace ++ failed failure⟩) ∧
      (∀ steps line, outcome.stderr = trace ++ stopped steps line ↔
        steps = limit ∧ line = run.script.currentLine?.getD 0 ∧
          run.failure? = none ∧ run.steps = limit ∧ run.script.isDone = false) ∧
      (run.failure? = none → run.script.isDone = false →
        outcome = ⟨1, messages, trace ++ stopped limit (run.script.currentLine?.getD 0)⟩) ∧
      ∀ higher : Nat, limit ≤ higher →
        (run.failure? ≠ none ∨ run.script.isDone = true) →
        CommandLine.runScript { options with maxSteps? := some higher } file script = outcome := by
  refine ⟨?_, fun m => script.stepN_eq_run m, ?_⟩
  · intro m n first second single calm
    have whole : single = first.append second := script.run_add_of_calm calm n
    rw [whole]
    exact ⟨rfl, rfl, rfl, rfl⟩
  · intro options file limit run drive outcome messages bindings trace cause failed stopped
    have same : drive = .ofRun run := CommandLine.drive_eq_run limit script
    have told (failure : Failure) :
        (CommandLine.failureReport file failure).render = failed failure :=
      CommandLine.render_failureReport file failure
    have given (steps line : Nat) :
        (CommandLine.stopReport file steps line).render = stopped steps line :=
      CommandLine.render_stopReport file steps line
    have lines : run.shown.flatMap CommandLine.renderMessage = messages := by
      rw [funext CommandLine.renderMessage_eq]
    refine ⟨by rw [same]; rfl, by rw [same]; rfl, by rw [same]; rfl,
      CommandLine.exit_eq_zero_iff options file script, ?done,
      fun _ => CommandLine.ending_eq_failed_iff, ?told, ?failed, ?given, ?stopped,
      fun _ above ended => CommandLine.runScript_of_le file above ended⟩
    case done =>
      intro calm done
      rw [← lines]
      exact CommandLine.runScript_of_done calm done
    case told =>
      simp only [← told]
      exact CommandLine.stderr_eq_failure_iff options file script
    case failed =>
      intro failure reported
      rw [← lines, ← told]
      exact CommandLine.runScript_of_failed reported
    case given =>
      intro steps line
      rw [← given]
      exact CommandLine.stderr_eq_stop_iff options file script steps line
    case stopped =>
      intro calm running
      rw [← lines, ← given]
      exact CommandLine.runScript_of_stopped calm running

/-- A script paused in the middle of a pass: the second slice shows the second message and ends
where its limit does. The command prints both messages and the variable. With one step less it gives
up, and with more it is no different. A statement without its end is reported with its line. -/
theorem paused_loop_goes_on :
    let lines := ["while: x < 2;", "\x7b", "execute: Show(x);", "declare: x = x + 1;",
      "\x7d"].map String.toList
    let shower : Method := ⟨⟨"Show".toList, [], [.int], [], none⟩, fun _ args =>
      ⟨.ok none, args.map fun value => ⟨value.display, none⟩⟩⟩
    let start := Script.new ⟨[], [], [shower]⟩ 0 lines
    let script := (start.addInteractive ['x'] (.int 0)).script
    let broken := Script.new ⟨[], [], [shower]⟩ 0 ["execute: Show(1)".toList]
    let within (limit : Nat) := { CommandLine.Options.initial with maxSteps? := some limit }
    (script.run 2).script.frame?.isSome = true ∧
    (script.run 2).shown ++ ((script.run 2).script.run 3).shown =
      [⟨['0'], none⟩, ⟨['1'], none⟩] ∧
    ((script.run 2).script.run 3).failure? = none ∧
    (script.run 5).script = ((script.run 2).script.run 3).script ∧
    (script.run 5).steps = (script.run 2).steps + ((script.run 2).script.run 3).steps ∧
    CommandLine.runScript (within 5) ['f'] script = ⟨0, "0\n1\nx = 2\n".toList, []⟩ ∧
    CommandLine.runScript (within 4) ['f'] script =
      ⟨1, "0\n1\n".toList, "Error: f: stopped after 4 steps (line 3)\n".toList⟩ ∧
    CommandLine.runScript (within 9) ['f'] script =
      CommandLine.runScript (within 5) ['f'] script ∧
    CommandLine.runScript (within 9) ['f'] broken =
      ⟨1, [], ("Error: running f\n\nCaused by:\n    0: line 1: statement must end with ';'\n" ++
        "    1: statement must end with ';'\n").toList⟩ := by
  intro lines shower start script broken within
  obtain ⟨slices, _, command⟩ := slices_make_one_run script
  obtain ⟨whole, _, steps, _⟩ := slices 2 3 (by decide +kernel)
  obtain ⟨_, _, _, _, done, _, _, _, _, _, raised⟩ := command (within 5) ['f']
  obtain ⟨_, _, _, _, _, _, _, _, _, stopped, _⟩ := command (within 4) ['f']
  obtain ⟨_, _, reports⟩ := slices_make_one_run broken
  obtain ⟨_, _, _, _, _, _, _, failed, _⟩ := reports (within 9) ['f']
  refine ⟨by decide +kernel, by decide +kernel, by decide +kernel, whole, steps, ?_, ?_, ?_, ?_⟩
  · rw [done (by decide +kernel) (by decide +kernel), CommandLine.Outcome.mk.injEq]
    decide +kernel
  · rw [stopped (by decide +kernel) (by decide +kernel), CommandLine.Outcome.mk.injEq]
    decide +kernel
  · exact raised 9 (by decide) (.inr (by decide +kernel))
  · rw [failed ⟨1, .missingTerminator⟩ (by decide +kernel), CommandLine.Outcome.mk.injEq]
    decide +kernel

end StepScript
