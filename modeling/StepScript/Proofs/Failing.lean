import StepScript.Proofs.Progress

/-! Failures. A step that fails names a line of the script: the one it has executed, which has then
left the variables alone, or the `while` line of a loop whose condition cannot be decided after a
pass. A failed script stays as it is until it is restarted. -/
namespace StepScript

namespace Pass

variable {pass : Pass} {index : Nat}

/-- A line of a block that fails leaves the variables of the block alone. -/
theorem stepBody_failure {language : Language} {entropy : Entropy} {e : Error}
    (failure : (pass.stepBody language entropy).failure? = some (index, e)) :
    pass.isDone = false ∧ (∃ raw after, pass.advance? = some (index, raw, after)) ∧
      (pass.stepBody language entropy).body.scope = pass.scope := by
  have steps := stepBody_steps language entropy pass
  generalize pass.stepBody language entropy = done at steps failure ⊢
  cases steps with
  | ended | idle | updated | broken => cases failure
  | nested running advanced | failed running advanced =>
    cases failure
    rw [advance?_next advanced]
    exact ⟨running, ⟨_, _, advanced⟩, rfl⟩

end Pass

namespace Script

variable {script : Script} {frame : Frame} {failure : Failure}

/-- The line that the step executes fails. It is the current one, and the variables are as before. -/
structure FailsAtLine (script : Script) (failure : Failure) : Prop where
  current : script.step.script.currentLine? = some failure.line
  performs : ∃ raw, script.Performs (failure.line - 1) raw
  scope : script.step.script.main.scope = script.main.scope

/-- The step ends a pass of the active loop, and the condition of the loop fails on the variables that
the last line of the pass has left in the block. -/
structure FailsAtCondition (script : Script) (frame : Frame) (failure : Failure) : Prop where
  active : script.frame? = some frame
  fits : frame.Fits script.main.lines
  line : failure.line = frame.entry + 1
  ended : (frame.body.stepBody script.language script.entropy).body.isDone = true
  undecided : holds script.step.script.main.scope frame.condition = .error failure.error
  performs : script.Rests ∨ ∃ raw, script.Performs (frame.start + frame.body.next) raw
  agrees : script.step.script.main.scope.Agrees
    (frame.body.stepBody script.language script.entropy).body.scope

/-- The failure names a line of the script, and not one that is skipped. -/
def Names (script : Script) (failure : Failure) : Prop :=
  1 ≤ failure.line ∧ failure.line ≤ script.main.lines.length ∧
    ∃ raw, script.main.lines[failure.line - 1]? = some raw ∧ Line.isSkipped raw = false

theorem names_of_line {index : Nat} {raw : Text} (number : failure.line = index + 1)
    (found : script.main.lines[index]? = some raw) (meaningful : Line.isSkipped raw = false) :
    script.Names failure := by
  obtain ⟨within, _⟩ := List.getElem?_eq_some_iff.mp found
  rw [Names, number]
  exact ⟨by omega, within, raw, found, meaningful⟩

theorem FailsAtLine.names (fails : script.FailsAtLine failure) : script.Names failure := by
  obtain ⟨raw, performs⟩ := fails.performs
  have current := fails.current
  rw [currentLine?, performs.current, Option.map_some, Option.some.injEq] at current
  exact names_of_line current.symm performs.line performs.meaningful

theorem FailsAtCondition.names (fails : script.FailsAtCondition frame failure) :
    script.Names failure := by
  obtain ⟨raw, found, loops⟩ := Option.map_eq_some_iff.mp fails.fits.encloses.loops
  exact names_of_line fails.line found (Line.isSkipped_of_preceder loops)

theorem failsAtLine_of_performs {index : Nat} {raw : Text} {e : Error}
    (performs : script.Performs index raw)
    (scope : script.step.script.main.scope = script.main.scope) :
    script.FailsAtLine ⟨index + 1, e⟩ := by
  refine ⟨?_, ⟨raw, performs⟩, scope⟩
  rw [currentLine?, performs.current, Option.map_some]

theorem fails_outside (running : script.isDone = false) (outside : script.frame? = none)
    (reported : script.step.failure? = some failure) : script.FailsAtLine failure := by
  have steps := stepLine_cases script
  rw [← step_outside running outside] at steps
  generalize produced : script.step = step at steps reported
  cases steps with
  | idle | updated | broken | entered | passed => cases reported
  | failed executes =>
    cases reported
    refine failsAtLine_of_performs (performs_outside running outside executes.advanced) ?_
    have stands := congrArg Pass.scope (Pass.advance?_next executes.advanced)
    rw [produced]
    exact stands

theorem fails_inside (reached : Reachable script) (running : script.isDone = false)
    (inside : script.frame? = some frame) (reported : script.step.failure? = some failure) :
    script.FailsAtLine failure ∨ script.FailsAtCondition frame failure := by
  obtain ⟨fits, _⟩ := reached.framed frame inside
  obtain ⟨_, _, scope, _⟩ := stepLoop_follows script frame
  have steps := stepLoop_cases script frame
  rw [← step_inside running inside] at scope steps
  generalize produced : script.step = step at steps reported scope
  cases steps with
  | going | broken | again | finished => cases reported
  | failed failure =>
    cases reported
    obtain ⟨bodyRunning, ⟨raw, _, advanced⟩, kept⟩ := Pass.stepBody_failure failure
    obtain ⟨_, _, bodySettled⟩ := reached.settled.inside frame inside
    cases bodySettled.advance?_index advanced
    refine .inl (failsAtLine_of_performs
      (performs_inside running inside fits bodyRunning advanced) ?_)
    -- The outer scope takes over a block scope that has not changed, hence nothing.
    have coherent := reached.coherent
    rw [produced, scope, kept, (coherent.agrees frame inside).absorb_eq coherent.ordered]
  | undecided _ ended _ holding =>
    cases reported
    refine .inr ⟨inside, fits, rfl, ended, produced ▸ holding, ?_, ?_⟩
    · have oneLine := reached.oneLine running
      by_cases barren : Block.Barren frame.body.lines 0
      · exact .inl (oneLine.barren frame inside barren)
      · obtain ⟨_, ⟨raw, _, performs⟩, _⟩ := oneLine.block frame inside barren
        exact .inr ⟨raw, performs⟩
    · rw [produced, scope]
      exact reached.coherent.absorb_turns inside (stepBody_scope running inside)

/-- A script that is done does not run. -/
theorem run_of_isDone (done : script.isDone = true) (limit : Nat) :
    script.run limit = ⟨script, [], [], 0, none⟩ := by
  cases limit with
  | zero => rfl
  | succ limit => simp [run, runFrom, done]

/-- Without a restart, the host can still change the variables of a halted script, and nothing else. -/
theorem foldl_of_halted {ops : List HostOp} (outside : script.frame? = none)
    (halted : script.main.halt? ≠ none) (forward : HostOp.restart ∉ ops) :
    ∃ scope, ops.foldl (fun script op => op.apply script) script =
      { script with main := { script.main with scope } } := by
  have done : script.isDone = true := by simp [isDone, Option.isSome_iff_ne_none.mpr halted]
  induction ops generalizing script with
  | nil => exact ⟨script.main.scope, rfl⟩
  | cons op more ih =>
    rw [List.mem_cons, not_or] at forward
    have first : script.Rescoped (op.apply script) := by
      cases op with
      | step =>
        rw [HostOp.apply, step_of_isDone done]
        exact .refl script
      | stepN count =>
        rw [HostOp.apply, stepN_of_isDone done]
        exact .refl script
      | run limit =>
        rw [HostOp.apply, run_of_isDone done]
        exact .refl script
      | restart => exact absurd rfl forward.1
      | add name value => exact script.write_rescoped _
      | set name value => exact script.write_rescoped _
    rw [List.foldl_cons]
    generalize op.apply script = next at first
    cases first with
    | outside scope => exact ih outside halted forward.2 done
    | inside scope inner inside => simp [outside] at inside

end Script

/-- A failure names the line that has failed, and no other variables have changed than by that line of
a block after which the condition of the loop has failed. The script is failed then, and until the
host restarts it every further step returns without effect. -/
theorem Reachable.failure_is_exact_and_final {script : Script} {failure : Failure}
    (reached : Reachable script) (reported : script.step.failure? = some failure) :
    script.Names failure ∧
    (script.FailsAtLine failure ∨ ∃ frame, script.FailsAtCondition frame failure) ∧
    ∀ ops : List HostOp, .restart ∉ ops →
      let later := ops.foldl (fun script op => op.apply script) script.step.script
      later.status = .failed ∧ later.frame? = none ∧
      later.currentLine? = script.step.script.currentLine? ∧
      ∀ count, later.step = ⟨later, [], none⟩ ∧ later.stepN count = ⟨later, [], none⟩ ∧
        later.run count = ⟨later, [], [], 0, none⟩ := by
  have running : script.isDone = false := by
    cases done : script.isDone with
    | false => rfl
    | true => simp [Script.step_of_isDone done] at reported
  have fails : script.FailsAtLine failure ∨ ∃ frame, script.FailsAtCondition frame failure := by
    cases active : script.frame? with
    | none => exact .inl (Script.fails_outside running active reported)
    | some frame =>
      exact (Script.fails_inside reached running active reported).imp_right fun fails =>
        ⟨frame, fails⟩
  have names : script.Names failure := by
    rcases fails with fails | ⟨frame, fails⟩
    · exact fails.names
    · exact fails.names
  refine ⟨names, fails, ?_⟩
  intro ops forward later
  have halted := (Script.step_failed_iff running).mpr (by simp [reported])
  have outside : script.step.script.frame? = none := by
    cases active : script.step.script.frame? with
    | none => rfl
    | some frame =>
      have unhalted := ((reached.next .step).settled.inside frame active).1
      exact nomatch halted.symm.trans unhalted
  obtain ⟨scope, same⟩ := Script.foldl_of_halted outside (by simp [halted]) forward
  have done : later.isDone = true := by simp [later, same, Script.isDone, halted]
  refine ⟨by simp [later, same, Script.status, halted], by simp [later, same, outside],
    by simp [later, same, Script.currentLine?], ?_⟩
  intro count
  exact ⟨Script.step_of_isDone done, Script.stepN_of_isDone done count,
    Script.run_of_isDone done count⟩

/-- A condition that divides by what the block has counted down to zero. -/
theorem condition_fails_after_a_pass :
    let lines := ["", "while: 6 / n > 1;", "\x7b", "declare: n = n - 1;", "\x7d"].map String.toList
    let script := [HostOp.add ['n'] (.int 1), .step].foldl (fun script op => op.apply script)
      (.new ⟨[], [], []⟩ 0 lines)
    let later := [HostOp.set ['n'] (.int 3), .run 9].foldl (fun script op => op.apply script)
      script.step.script
    ∃ failure, script.step.failure? = some failure ∧ failure.line = 2 ∧
      script.step.script.currentLine? = some 4 ∧ (∃ frame, script.FailsAtCondition frame failure) ∧
      later.status = .failed ∧ later.run 3 = ⟨later, [], [], 0, none⟩ := by
  intro lines script later
  have reached : Reachable script := .next .step (.next (.add _ _) (.new _ _ _))
  have place : script.step.failure?.map Failure.line = some 2 := by decide +kernel
  have current : script.step.script.currentLine? = some 4 := by decide +kernel
  obtain ⟨failure, reported, line⟩ := Option.map_eq_some_iff.mp place
  obtain ⟨_, fails, final⟩ := reached.failure_is_exact_and_final reported
  obtain ⟨failed, _, _, still⟩ := final [.set ['n'] (.int 3), .run 9] (by simp)
  have atCondition : ∃ frame, script.FailsAtCondition frame failure := by
    rcases fails with atLine | atCondition
    · cases (line ▸ atLine.current).symm.trans current
    · exact atCondition
  exact ⟨failure, reported, line, current, atCondition, failed, (still 3).2.2⟩

end StepScript
