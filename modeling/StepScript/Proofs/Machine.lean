import StepScript.Proofs.Effect
import StepScript.Script

/-! What a step can do, said once for each of the three places in which a line is executed: outside
any block, in a block, and by the loop around the block. What holds along a run is derived from
these cases. -/
namespace StepScript

namespace Pass

variable {pass next : Pass} {index : Nat} {raw : Text}

/-- A pass that has taken a line stands after it and is otherwise as it was. -/
theorem advance?_next (advanced : pass.advance? = some (index, raw, next)) :
    next = { pass with current? := some index, next := index + 1 } := by
  simp only [advance?, Option.map_eq_some_iff, Prod.mk.injEq] at advanced
  obtain ⟨_, _, rfl, _, rfl⟩ := advanced
  rfl

/-- The line that the next step of a pass executes. -/
def nextLine? (pass : Pass) : Option Text :=
  pass.advance?.map fun (_, raw, _) => raw

/-- The ways a step in a block can go. -/
inductive Steps (language : Language) (entropy : Entropy) (body : Pass) : BodyStep → Prop where
  | ended (done : body.isDone = true) : Steps language entropy body ⟨body, [], entropy, none⟩
  | idle (running : body.isDone = false) (stuck : body.advance? = none) :
      Steps language entropy body ⟨body.goTo body.next, [], entropy, none⟩
  | updated {index : Nat} {raw : Text} {next : Pass} {shown : List Message} {left : Entropy}
      {scope : Scope} (running : body.isDone = false)
      (advanced : body.advance? = some (index, raw, next))
      (performed : Action.perform language entropy body.scope raw =
        ⟨.ok (.update scope), shown, left⟩) :
      Steps language entropy body ⟨{ next with scope }.goTo next.next, shown, left, none⟩
  | broken {index : Nat} {raw : Text} {next : Pass} {shown : List Message} {left : Entropy}
      (running : body.isDone = false) (advanced : body.advance? = some (index, raw, next))
      (performed : Action.perform language entropy body.scope raw = ⟨.ok .leave, shown, left⟩) :
      Steps language entropy body ⟨(next.goTo next.next).stop .broken, shown, left, none⟩
  | nested {index : Nat} {raw : Text} {next : Pass} {shown : List Message} {left : Entropy}
      {condition : Text} (running : body.isDone = false)
      (advanced : body.advance? = some (index, raw, next))
      (performed : Action.perform language entropy body.scope raw =
        ⟨.ok (.loop condition), shown, left⟩) :
      Steps language entropy body ⟨next.stop .failed, shown, left, some (index, .nestedLoop)⟩
  | failed {index : Nat} {raw : Text} {next : Pass} {shown : List Message} {left : Entropy}
      {e : Error} (running : body.isDone = false)
      (advanced : body.advance? = some (index, raw, next))
      (performed : Action.perform language entropy body.scope raw = ⟨.error e, shown, left⟩) :
      Steps language entropy body ⟨next.stop .failed, shown, left, some (index, e)⟩

theorem stepBody_steps (language : Language) (entropy : Entropy) (body : Pass) :
    Steps language entropy body (body.stepBody language entropy) := by
  unfold stepBody
  cases running : body.isDone with
  | true => exact .ended running
  | false =>
    simp only [Bool.false_eq_true, if_false]
    cases advanced : body.advance? with
    | none => exact .idle running advanced
    | some taken =>
      obtain ⟨index, raw, next⟩ := taken
      have scope : next.scope = body.scope := by rw [advance?_next advanced]
      dsimp only
      rw [scope]
      cases performed : Action.perform language entropy body.scope raw with
      | mk result shown left =>
        cases result with
        | error e => exact .failed running advanced performed
        | ok action =>
          cases action with
          | update after => exact .updated running advanced performed
          | leave => exact .broken running advanced performed
          | loop condition => exact .nested running advanced performed

end Pass

namespace Script

variable {script : Script}

/-- The line that the next step executes, in the block of an active loop or outside. -/
def nextLine? (script : Script) : Option Text :=
  if script.isDone then none
  else match script.frame? with
    | none => script.main.nextLine?
    | some frame => if frame.body.isDone then none else frame.body.nextLine?

/-- The name of the variable that the line of the next step is to write. -/
def target? (script : Script) : Option Text :=
  script.nextLine?.bind Action.target?

/-- The next step executes a line that is to write the variable `name`. -/
def Targets (script : Script) (name : Text) : Prop :=
  script.target?.map Scope.key = some (Scope.key name)

instance (script : Script) (name : Text) : Decidable (script.Targets name) :=
  inferInstanceAs (Decidable (_ = _))

/-- The main pass takes the line at `index`, and this is what the line does. -/
structure Executes (script : Script) (index : Nat) (raw : Text) (main : Pass)
    (done : Performance) : Prop where
  advanced : script.main.advance? = some (index, raw, main)
  performed : Action.perform script.language script.entropy script.main.scope raw = done

theorem Executes.nextLine? {index : Nat} {raw : Text} {main : Pass} {done : Performance}
    (executes : script.Executes index raw main done) (running : script.isDone = false)
    (outside : script.frame? = none) : script.nextLine? = some raw := by
  simp [Script.nextLine?, running, outside, Pass.nextLine?, executes.advanced]

theorem nextLine?_inside {frame : Frame} {index : Nat} {raw : Text} {next : Pass}
    (running : script.isDone = false) (inside : script.frame? = some frame)
    (bodyRunning : frame.body.isDone = false)
    (advanced : frame.body.advance? = some (index, raw, next)) : script.nextLine? = some raw := by
  simp [nextLine?, running, inside, bodyRunning, Pass.nextLine?, advanced]

/-- The ways a step outside any block can go. -/
inductive LineStep (script : Script) : Step → Prop where
  | idle (stuck : script.main.advance? = none) :
      LineStep script ⟨script.mapMain fun main => main.goTo main.next, [], none⟩
  | updated {index : Nat} {raw : Text} {main : Pass} {shown : List Message} {entropy : Entropy}
      {scope : Scope}
      (executes : script.Executes index raw main ⟨.ok (.update scope), shown, entropy⟩) :
      LineStep script
        ⟨{ script with entropy, main := { main with scope }.goTo main.next }, shown, none⟩
  | broken {index : Nat} {raw : Text} {main : Pass} {shown : List Message} {entropy : Entropy}
      (executes : script.Executes index raw main ⟨.ok .leave, shown, entropy⟩) :
      LineStep script
        ⟨{ script with entropy, main := (main.goTo main.next).stop .broken }, shown, none⟩
  | entered {index opening closing : Nat} {raw condition : Text} {main : Pass}
      {shown : List Message} {entropy : Entropy}
      (executes : script.Executes index raw main ⟨.ok (.loop condition), shown, entropy⟩)
      (block : Block.find script.main.lines index = .ok (opening, closing))
      (holding : holds script.main.scope condition = .ok true) :
      LineStep script
        ⟨{ script with
          entropy
          main := { main with next := closing + 1 }
          frame? := some ⟨index, opening + 1, closing + 1, condition,
            .start ((script.main.lines.take closing).drop (opening + 1)) script.main.scope⟩ },
          shown, none⟩
  | passed {index opening closing : Nat} {raw condition : Text} {main : Pass}
      {shown : List Message} {entropy : Entropy}
      (executes : script.Executes index raw main ⟨.ok (.loop condition), shown, entropy⟩)
      (block : Block.find script.main.lines index = .ok (opening, closing))
      (holding : holds script.main.scope condition = .ok false) :
      LineStep script ⟨{ script with entropy, main := main.goTo (closing + 1) }, shown, none⟩
  | failed {index : Nat} {raw : Text} {main : Pass} {done : Performance} {e : Error}
      (executes : script.Executes index raw main done)
      (cause : done.result.bind ({ script with main, entropy := done.entropy }.enact index) =
        .error e) :
      LineStep script
        ⟨{ script with entropy := done.entropy, main := main.stop .failed, frame? := none },
          done.shown, some ⟨index + 1, e⟩⟩

theorem stepLine_cases (script : Script) : LineStep script script.stepLine := by
  unfold stepLine
  cases advanced : script.main.advance? with
  | none => exact .idle advanced
  | some taken =>
    obtain ⟨index, raw, main⟩ := taken
    have stands := Pass.advance?_next advanced
    have scope : main.scope = script.main.scope := by rw [stands]
    have lines : main.lines = script.main.lines := by rw [stands]
    dsimp only
    rw [scope]
    cases performed : Action.perform script.language script.entropy script.main.scope raw with
    | mk result shown entropy =>
      have executes : script.Executes index raw main ⟨result, shown, entropy⟩ :=
        ⟨advanced, performed⟩
      cases result with
      | error e => exact .failed executes rfl
      | ok action =>
        cases action with
        | update after => exact .updated executes
        | leave => exact .broken executes
        | loop condition =>
          simp only [Except.bind]
          cases cause : enact _ index (.loop condition) with
          | error e => exact .failed executes cause
          | ok after =>
            obtain ⟨⟨opening, closing⟩, block, cause⟩ := Error.ok_of_bind cause
            obtain ⟨holding, decided, cause⟩ := Error.ok_of_bind cause
            rw [lines] at block
            rw [scope] at decided
            cases holding with
            | true =>
              cases cause
              rw [scope, lines]
              exact .entered executes block decided
            | false =>
              cases cause
              exact .passed executes block decided

/-- The ways a step in a block can go, by what its line has `done`: the script `after` has taken
over the values of the block. -/
inductive LoopStep (frame : Frame) (done : BodyStep) (after : Script) : Step → Prop where
  | failed {index : Nat} {e : Error} (failure : done.failure? = some (index, e)) :
      LoopStep frame done after ⟨after.fail, done.shown, some ⟨frame.start + index + 1, e⟩⟩
  | going (calm : done.failure? = none) (continuing : done.body.isDone = false) :
      LoopStep frame done after ⟨after, done.shown, none⟩
  | broken (calm : done.failure? = none) (halted : done.body.halt? = some .broken) :
      LoopStep frame done after ⟨after.leaveLoop frame, done.shown, none⟩
  | again (calm : done.failure? = none) (ended : done.body.isDone = true)
      (unbroken : done.body.halt? ≠ some .broken)
      (holding : holds after.main.scope frame.condition = .ok true) :
      LoopStep frame done after
        ⟨{ after with frame? := some { frame with
          body := .start frame.body.lines after.main.scope } }, done.shown, none⟩
  | finished (calm : done.failure? = none) (ended : done.body.isDone = true)
      (unbroken : done.body.halt? ≠ some .broken)
      (holding : holds after.main.scope frame.condition = .ok false) :
      LoopStep frame done after ⟨after.leaveLoop frame, done.shown, none⟩
  | undecided {e : Error} (calm : done.failure? = none) (ended : done.body.isDone = true)
      (unbroken : done.body.halt? ≠ some .broken)
      (holding : holds after.main.scope frame.condition = .error e) :
      LoopStep frame done after ⟨after.fail, done.shown, some ⟨frame.entry + 1, e⟩⟩

theorem stepLoop_cases (script : Script) (frame : Frame) :
    let done := frame.body.stepBody script.language script.entropy
    LoopStep frame done ({ script with entropy := done.entropy }.follow frame done.body)
      (script.stepLoop frame) := by
  unfold stepLoop
  dsimp only
  generalize frame.body.stepBody script.language script.entropy = done
  generalize follow _ frame done.body = after
  cases failure : done.failure? with
  | some place => exact .failed failure
  | none =>
    cases ended : done.body.isDone with
    | false => exact .going failure ended
    | true =>
      simp only [Bool.not_true, Bool.false_eq_true, if_false]
      split
      · rename_i halted
        exact .broken failure halted
      · rename_i unbroken
        cases holding : holds after.main.scope frame.condition with
        | error e =>
          simp only [repeatLoop, holding, bind, Except.bind]
          exact .undecided failure ended unbroken holding
        | ok holds =>
          simp only [repeatLoop, holding, bind, Except.bind]
          cases holds with
          | true => exact .again failure ended unbroken holding
          | false => exact .finished failure ended unbroken holding

theorem step_of_isDone (done : script.isDone = true) : script.step = ⟨script, [], none⟩ := by
  simp [step, done]

/-- What holds of every way a step can go holds of the step. -/
theorem step_rule {P : Step → Prop} (stays : P ⟨script, [], none⟩)
    (inside : ∀ frame, script.frame? = some frame → P (script.stepLoop frame))
    (outside : script.frame? = none → P script.stepLine) : P script.step := by
  unfold step
  split
  · exact stays
  · split
    · rename_i frame active
      exact inside frame active
    · rename_i inactive
      exact outside inactive

/-- A step changes neither the language nor the lines. -/
theorem step_keeps (script : Script) :
    script.step.script.language = script.language ∧
      script.step.script.main.lines = script.main.lines := by
  apply step_rule (P := fun step =>
    step.script.language = script.language ∧ step.script.main.lines = script.main.lines)
  · exact ⟨rfl, rfl⟩
  · intro frame _
    have steps := stepLoop_cases script frame
    generalize script.stepLoop frame = step at steps ⊢
    cases steps <;> exact ⟨rfl, rfl⟩
  · intro _
    have steps := stepLine_cases script
    generalize script.stepLine = step at steps ⊢
    cases steps with
    | idle => exact ⟨rfl, rfl⟩
    | updated executes | broken executes | entered executes | passed executes | failed executes =>
      have stands := congrArg Pass.lines (Pass.advance?_next executes.advanced)
      exact ⟨rfl, stands⟩

theorem unhalted_of_running (running : script.isDone = false) : script.main.halt? = none := by
  simp only [isDone, Bool.or_eq_false_iff] at running
  simpa using running.1

theorem stepLine_failed_iff (unhalted : script.main.halt? = none) :
    script.stepLine.script.main.halt? = some .failed ↔ script.stepLine.failure? ≠ none := by
  have steps := stepLine_cases script
  generalize script.stepLine = step at steps ⊢
  cases steps with
  | idle => simp [mapMain, Pass.goTo, unhalted]
  | broken => simp [Pass.stop]
  | failed => simp [Pass.stop]
  | updated executes | entered executes | passed executes =>
    simp [Pass.advance?_next executes.advanced, Pass.goTo, unhalted]

theorem stepLoop_failed_iff (unhalted : script.main.halt? = none) (frame : Frame) :
    (script.stepLoop frame).script.main.halt? = some .failed ↔
      (script.stepLoop frame).failure? ≠ none := by
  have steps := stepLoop_cases script frame
  generalize script.stepLoop frame = step at steps ⊢
  cases steps with
  | failed | undecided => simp [fail, Pass.stop]
  | going | again => simp [follow, unhalted]
  | broken | finished => simp [follow, leaveLoop, Pass.goTo, unhalted]

/-- A running script is failed by a step exactly if the step reports it. -/
theorem step_failed_iff (running : script.isDone = false) :
    script.step.script.main.halt? = some .failed ↔ script.step.failure? ≠ none := by
  have unhalted := unhalted_of_running running
  simp only [step, running, Bool.false_eq_true, if_false]
  split
  · exact stepLoop_failed_iff unhalted _
  · exact stepLine_failed_iff unhalted

/-- A failing step leaves a script that is done, so that further steps change nothing. -/
theorem isDone_of_failure (failed : script.step.failure? ≠ none) :
    script.step.script.isDone = true := by
  cases running : script.isDone with
  | true => simp [step, running] at failed
  | false => simp [isDone, (step_failed_iff running).mpr failed]

end Script
end StepScript
