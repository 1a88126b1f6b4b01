import StepScript.Proofs.Machine

/-! A script in the hands of its host. The host steps, runs, restarts, adds and sets in any order;
an invariant of single steps and single writes is an invariant of every state it can bring about. -/
namespace StepScript

/-- What a host can do with a script. -/
inductive HostOp where
  | step
  | stepN (count : Nat)
  | run (limit : Nat)
  | restart
  | add (name : Text) (value : Value)
  | set (name : Text) (value : Value)

def HostOp.apply (op : HostOp) (script : Script) : Script :=
  match op with
  | .step => script.step.script
  | .stepN count => (script.stepN count).script
  | .run limit => (script.run limit).script
  | .restart => script.restart
  | .add name value => (script.addInteractive name value).script
  | .set name value => (script.setInteractive name value).script

/-- The states a host can bring a new script to. -/
inductive Reachable : Script → Prop where
  | new (language : Language) (entropy : Entropy) (lines : List Text) :
      Reachable (.new language entropy lines)
  | next {script : Script} (op : HostOp) (reached : Reachable script) : Reachable (op.apply script)

namespace Script

variable {script : Script}

/-- A script that is done stays as it is however often it is stepped. -/
theorem stepN_of_isDone (done : script.isDone = true) (count : Nat) :
    script.stepN count = ⟨script, [], none⟩ := by
  cases count with
  | zero => rfl
  | succ count => simp [stepN, done]

theorem stepN_invariant {P : Script → Prop} (step : ∀ script, P script → P script.step.script)
    (initial : P script) (count : Nat) : P (script.stepN count).script := by
  induction count generalizing script with
  | zero => exact initial
  | succ count ih =>
    unfold stepN
    split
    · exact initial
    · dsimp only
      split
      · exact step script initial
      · exact ih (step script initial)

theorem stepN_succ_of_failure {failure : Failure} (running : script.isDone = false)
    (reported : script.step.failure? = some failure) (count : Nat) :
    script.stepN (count + 1) = script.step := by
  simp [stepN, running, reported]

theorem stepN_succ_of_calm (running : script.isDone = false) (calm : script.step.failure? = none)
    (count : Nat) :
    script.stepN (count + 1) =
      { script.step.script.stepN count with
        shown := script.step.shown ++ (script.step.script.stepN count).shown } := by
  simp [stepN, running, calm]

theorem stepN_succ_script (script : Script) (count : Nat) :
    (script.stepN (count + 1)).script = (script.step.script.stepN count).script := by
  cases done : script.isDone with
  | true => rw [step_of_isDone done, stepN_of_isDone done, stepN_of_isDone done]
  | false =>
    cases reported : script.step.failure? with
    | none => rw [stepN_succ_of_calm done reported]
    | some failure =>
      have finished := isDone_of_failure (by simp [reported] : script.step.failure? ≠ none)
      rw [stepN_of_isDone finished, stepN_succ_of_failure done reported]

/-- A run within a limit is so many steps. -/
theorem run_script (limit : Nat) (script : Script) :
    (script.run limit).script = (script.stepN limit).script := by
  have loop : ∀ (limit : Nat) (script : Script) (shown : List Message) (visited : List Nat)
      (steps : Nat),
      (runFrom shown visited steps limit script).script = (script.stepN limit).script := by
    intro limit
    induction limit with
    | zero => intros; rfl
    | succ limit ih =>
      intro script shown visited steps
      unfold runFrom stepN
      split
      · rfl
      · dsimp only
        split
        · rfl
        · exact ih _ _ _ _
  exact loop limit script [] [] 0

/-- The scripts that differ from this one in their variables only. -/
inductive Rescoped (script : Script) : Script → Prop where
  | outside (scope : Scope) (outside : script.frame? = none) :
      Rescoped script { script with main := { script.main with scope } }
  | inside {frame : Frame} (scope inner : Scope) (inside : script.frame? = some frame) :
      Rescoped script { script with
        main := { script.main with scope }
        frame? := some { frame with body := { frame.body with scope := inner } } }

theorem Rescoped.refl (script : Script) : Rescoped script script := by
  cases active : script.frame? with
  | none => exact .outside script.main.scope active
  | some frame =>
    have same := Rescoped.inside script.main.scope frame.body.scope active
    rw [← active] at same
    exact same

/-- A host write never moves a script, also where it is refused. -/
theorem write_rescoped (script : Script) (update : Scope → Except Error Scope) :
    Rescoped script (script.write update).script := by
  unfold write
  cases update script.main.scope with
  | error e => exact .refl script
  | ok scope =>
    cases active : script.frame? with
    | none =>
      simp only [mapMain, active]
      have moved := Rescoped.outside scope active
      rw [active] at moved
      exact moved
    | some frame =>
      simp only [mapMain, active]
      cases update frame.body.scope with
      | error e => exact .inside scope frame.body.scope active
      | ok inner => exact .inside scope inner active

end Script

/-- What holds of every new script and is kept by a step, a restart and a write holds of every state
that a host can bring about. -/
theorem Reachable.invariant {P : Script → Prop} {script : Script} (reached : Reachable script)
    (initial : ∀ language entropy lines, P (.new language entropy lines))
    (step : ∀ script, P script → P script.step.script)
    (restart : ∀ script, P script → P script.restart)
    (add : ∀ script name value, P script → P (script.addInteractive name value).script)
    (set : ∀ script name value, P script → P (script.setInteractive name value).script) :
    P script := by
  induction reached with
  | new language entropy lines => exact initial language entropy lines
  | next op _ ih =>
    cases op with
    | step => exact step _ ih
    | stepN count => exact Script.stepN_invariant step ih count
    | run limit =>
      have kept := Script.stepN_invariant step ih limit
      rwa [← Script.run_script] at kept
    | restart => exact restart _ ih
    | add name value => exact add _ name value ih
    | set name value => exact set _ name value ih

theorem Reachable.foldl {script : Script} (reached : Reachable script) (ops : List HostOp) :
    Reachable (ops.foldl (fun script op => op.apply script) script) := by
  induction ops generalizing script with
  | nil => exact reached
  | cons op more ih => exact ih (.next op reached)

/-- An invariant that does not look at variables need not look at host writes. -/
theorem Reachable.control {P : Script → Prop} {script : Script} (reached : Reachable script)
    (initial : ∀ language entropy lines, P (.new language entropy lines))
    (step : ∀ script, P script → P script.step.script)
    (restart : ∀ script, P script → P script.restart)
    (rescoped : ∀ script after, script.Rescoped after → P script → P after) : P script :=
  reached.invariant initial step restart
    (fun script _ _ => rescoped script _ (script.write_rescoped _))
    fun script _ _ => rescoped script _ (script.write_rescoped _)

end StepScript
