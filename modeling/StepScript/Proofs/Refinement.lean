import StepScript.Proofs.Agreement
import StepScript.Proofs.Structured

/-! The step machine against the structured reading. Every suspended state has a future, the outcome
that the structured reading gives to what is left of the script. One step takes one step off the
future; from this alone machine and reading end together and in the same way. -/
namespace StepScript.Structured

variable {language : Language} {lines : List Text} {entropy : Entropy} {scope : Scope}

/-- The loop of a frame. -/
def frameLoop (frame : Frame) : Loop :=
  ⟨frame.entry + 1, frame.condition, frame.start + 1, frame.body.lines⟩

/-- What the block of a frame still has to do in this pass. -/
def restOfPass (language : Language) (entropy : Entropy) (frame : Frame) : Outcome :=
  runBlock language (frame.start + 1 + frame.body.next) (frame.body.lines.drop frame.body.next)
    entropy frame.body.scope

/-- The outcome of what is left of a script that has not failed. -/
noncomputable def future (script : Script) : Option Outcome :=
  match script.main.halt?, script.frame? with
  | some .failed, _ => none
  | some .broken, _ => some ⟨script.main.scope, script.entropy, [], 0, .broken⟩
  | none, none =>
    runFrom script.language script.main.lines script.main.next script.entropy script.main.scope
  | none, some frame =>
    (finishPass (runLoop script.language (frameLoop frame)) script.main.scope
      (restOfPass script.language script.entropy frame)).bind
        (goOn (runFrom script.language script.main.lines) frame.resume)

theorem future_outside {script : Script} (halt : script.main.halt? = none)
    (outside : script.frame? = none) : future script =
      runFrom script.language script.main.lines script.main.next script.entropy
        script.main.scope := by
  simp only [future, halt, outside]

theorem future_inside {script : Script} {frame : Frame} (halt : script.main.halt? = none)
    (inside : script.frame? = some frame) : future script =
      (finishPass (runLoop script.language (frameLoop frame)) script.main.scope
        (restOfPass script.language script.entropy frame)).bind
          (goOn (runFrom script.language script.main.lines) frame.resume) := by
  simp only [future, halt, inside]

/-- The future of a script that has gone to a line outside any block. -/
theorem future_goTo (script : Script) (pass : Pass) (index : Nat) (halt : pass.halt? = none)
    (outside : script.frame? = none) :
    future { script with main := pass.goTo index } =
      runFrom script.language pass.lines index script.entropy pass.scope := by
  rw [future_outside (by exact halt) (by exact outside)]
  exact runFrom_nextMeaningful _ _ _ _ _

/-- The future of a script at the start of a pass. -/
theorem future_start (script : Script) (frame : Frame) (block : List Text)
    (halt : script.main.halt? = none) :
    let started := { frame with body := .start block script.main.scope }
    future { script with frame? := some started } =
      (finishPass (runLoop script.language (frameLoop started)) script.main.scope
        (runBlock script.language (frame.start + 1) block script.entropy script.main.scope)).bind
          (goOn (runFrom script.language script.main.lines) frame.resume) := by
  intro started
  rw [future_inside (by exact halt) (by rfl)]
  simp only [restOfPass, started, Pass.start]
  rw [runBlock_nextMeaningful, Nat.add_zero, List.drop_zero]

theorem future_broken {script : Script} (halt : script.main.halt? = some .broken) :
    future script = some ⟨script.main.scope, script.entropy, [], 0, .broken⟩ := by
  simp only [future, halt]

/-- The step takes itself off the future, or it is a failure that the future consists of. -/
def Advances (script : Script) (step : Step) : Prop :=
  match step.failure? with
  | none => future script = (future step.script).map (·.after step.shown 1)
  | some failure => future script =
      some ⟨step.script.main.scope, step.script.entropy, step.shown, 1, .failed failure⟩

/-- A state of a script that has not failed, as steps leave it. -/
structure Ready (script : Script) : Prop where
  coherent : script.Coherent
  settled : script.Settled
  unfailed : script.main.halt? ≠ some .failed

variable {script : Script} {frame : Frame}

theorem within_of_running (running : script.isDone = false) (outside : script.frame? = none) :
    script.main.next < script.main.lines.length := by
  simp only [Script.isDone, outside, Bool.or_eq_false_iff] at running
  simpa using running.2

/-- What an action leaves has the future that the reading gives to the action. The block of a
`while` line that holds becomes the first pass of its loop. -/
theorem actOn_enact (script : Script) (halt : script.main.halt? = none)
    (outside : script.frame? = none) {index : Nat} (next : script.main.next = index + 1)
    (action : Action) :
    actOn (runLoop script.language) (runFrom script.language script.main.lines) script.main.lines
        index script.entropy script.main.scope action =
      match script.enact index action with
      | .ok after => future after
      | .error e => some ⟨script.main.scope, script.entropy, [], 0, .failed ⟨index + 1, e⟩⟩ := by
  cases action with
  | update scope =>
    simp only [actOn, Script.enact]
    rw [← next]
    exact (future_goTo script { script.main with scope } _ halt outside).symm
  | leave =>
    simp only [actOn, Script.enact]
    rw [future_broken (by rfl)]
    rfl
  | loop condition =>
    simp only [actOn, Script.enact, Script.enterLoop]
    cases Block.find script.main.lines index with
    | error e => rfl
    | ok braces =>
      obtain ⟨opening, closing⟩ := braces
      simp only [bind, Except.bind, runLoop_eq]
      cases Script.holds script.main.scope condition with
      | error e => rfl
      | ok holding =>
        cases holding with
        | false =>
          simp only [Bool.false_eq_true, if_false, Option.bind_some, goOn_of_skipped]
          exact (future_goTo script script.main (closing + 1) halt outside).symm
        | true =>
          simp only [if_true]
          let entered := { script with main := { script.main with next := closing + 1 } }
          let block := (script.main.lines.take closing).drop (opening + 1)
          let frame : Frame :=
            ⟨index, opening + 1, closing + 1, condition, .start block script.main.scope⟩
          exact (future_start entered frame block halt).symm

theorem advances_stepLine (ready : Ready script) (outside : script.frame? = none)
    (running : script.isDone = false) : Advances script script.stepLine := by
  have halt := Script.unhalted_of_running running
  obtain ⟨raw, found, meaningful, advanced⟩ :=
    (ready.settled.outside outside halt).line (within_of_running running outside)
  have unfolded := runFrom_of_line script.language script.entropy script.main.scope found meaningful
  rw [← future_outside halt outside] at unfolded
  simp only [Script.stepLine, advanced]
  generalize Action.perform script.language script.entropy script.main.scope raw = done at unfolded ⊢
  obtain ⟨result, shown, entropy⟩ := done
  cases result with
  | error e => exact unfolded
  | ok action =>
    have enacted := actOn_enact { script with
      entropy
      main := { script.main with current? := some script.main.next, next := script.main.next + 1 } }
      halt outside rfl action
    dsimp only at unfolded enacted
    rw [enacted] at unfolded
    simp only [Except.bind]
    cases after : Script.enact _ script.main.next action with
    | error e =>
      rw [after] at unfolded
      simp only [Option.map_some, Outcome.after, List.append_nil] at unfolded
      exact unfolded
    | ok next =>
      rw [after] at unfolded
      exact unfolded

/-- What follows a pass that ran to its end. -/
theorem runLoop_repeat (script : Script) (halt : script.main.halt? = none) (frame : Frame) :
    (runLoop script.language (frameLoop frame) script.entropy script.main.scope).bind
        (goOn (runFrom script.language script.main.lines) frame.resume) =
      match script.repeatLoop frame with
      | .ok after => future after
      | .error e =>
        some ⟨script.main.scope, script.entropy, [], 0, .failed ⟨frame.entry + 1, e⟩⟩ := by
  rw [runLoop_eq]
  simp only [Script.repeatLoop, frameLoop, bind, Except.bind]
  cases Script.holds script.main.scope frame.condition with
  | error e => rfl
  | ok holding =>
    cases holding with
    | false =>
      simp only [Bool.false_eq_true, if_false, Option.bind_some, goOn_of_skipped]
      exact (future_goTo { script with frame? := none } script.main frame.resume halt rfl).symm
    | true =>
      simp only [if_true]
      exact (future_start script frame frame.body.lines halt).symm

/-- Dropping the names of the block is taking over the values of the outer ones. -/
theorem leaveBlock_eq_absorb {outer inner : Scope} (ordered : outer.Ordered)
    (innerOrdered : inner.Ordered) (agrees : (outer.absorb inner).Agrees inner) :
    leaveBlock outer inner = outer.absorb inner := by
  have locals : (leaveBlock outer inner).locals = (outer.absorb inner).locals := by
    refine (innerOrdered.locals.filter _).ext (ordered.locals.absorb _) ?_
    intro query
    have taken := agrees.locals query
    simp only [Scope.absorb, Table.find?_absorb] at taken
    change _ = (outer.locals.absorb inner.locals).find? query
    rw [Table.find?_filter fun name => decide (outer.locals.Binds name), Table.find?_absorb]
    cases found : outer.locals.find? query with
    | none => simp [Table.Binds, found]
    | some old =>
      have bound : outer.locals.Binds query := by simp [Table.Binds, found]
      rw [if_pos (decide_eq_true bound), Option.map_some]
      exact taken _ (by rw [found]; rfl)
  exact congrArg₂ Scope.mk locals agrees.interactive

/-- Which names are dropped does not change when the outer scope takes values over. -/
theorem leaveBlock_absorb (outer middle inner : Scope) :
    leaveBlock (outer.absorb middle) inner = leaveBlock outer inner := by
  have same : ∀ name, (outer.absorb middle).locals.Binds name ↔ outer.locals.Binds name := by
    intro name
    simp [Table.Binds, Scope.absorb, Table.find?_absorb]
  simp only [leaveBlock, same]

theorem finishPass_absorb (again : Entropy → Scope → Option Outcome) (outer middle : Scope)
    (pass : Outcome) :
    finishPass again (outer.absorb middle) pass = finishPass again outer pass := by
  simp only [finishPass, leaveBlock_absorb]

/-- A line of a pass that goes on takes one step off the loop. -/
theorem finishPass_after {pass : Outcome} (going : 1 ≤ pass.steps)
    (again : Entropy → Scope → Option Outcome) (outer : Scope) (shown : List Message) :
    finishPass again outer (pass.after shown 1) =
      (finishPass again outer pass).map (·.after shown 1) := by
  obtain ⟨scope, entropy, later, taken, ending⟩ := pass
  have count : max 1 (1 + taken) = 1 + max 1 taken := by
    simp only at going
    omega
  cases ending with
  | completed =>
    simp only [finishPass, Outcome.after, count, Option.map_map, Function.comp_def,
      List.append_assoc, Nat.add_assoc]
  | broken => simp only [finishPass, Outcome.after, count, Option.map_some]
  | failed failure => simp only [finishPass, Outcome.after, count, Option.map_some]

theorem restOfPass_of_end (language : Language) (entropy : Entropy)
    (ended : frame.body.lines.length ≤ frame.body.next) :
    restOfPass language entropy frame = ⟨frame.body.scope, entropy, [], 0, .completed⟩ := by
  rw [restOfPass, List.drop_eq_nil_of_le ended, runBlock]

theorem restOfPass_of_line (language : Language) (entropy : Entropy) {raw : Text}
    (found : frame.body.lines[frame.body.next]? = some raw)
    (meaningful : Line.isSkipped raw = false) :
    restOfPass language entropy frame =
      let done := Action.perform language entropy frame.body.scope raw
      let line := frame.start + frame.body.next + 1
      match done.result with
      | .ok (.update scope) =>
        (restOfPass language done.entropy { frame with
          body := { frame.body with scope }.goTo (frame.body.next + 1) }).after done.shown 1
      | .ok .leave => ⟨frame.body.scope, done.entropy, done.shown, 1, .broken⟩
      | .ok (.loop _) =>
        ⟨frame.body.scope, done.entropy, done.shown, 1, .failed ⟨line, .nestedLoop⟩⟩
      | .error e => ⟨frame.body.scope, done.entropy, done.shown, 1, .failed ⟨line, e⟩⟩ := by
  obtain ⟨within, rfl⟩ := List.getElem?_eq_some_iff.mp found
  have number : frame.start + 1 + frame.body.next = frame.start + frame.body.next + 1 := by omega
  have following : frame.start + 1 + (frame.body.next + 1) =
      frame.start + 1 + frame.body.next + 1 := by omega
  rw [restOfPass, List.drop_eq_getElem_cons within, runBlock, if_neg (by simp [meaningful])]
  dsimp only
  generalize Action.perform language entropy frame.body.scope frame.body.lines[frame.body.next] = done
  obtain ⟨result, shown, entropy⟩ := done
  cases result with
  | error e => simp only [number]
  | ok action =>
    cases action with
    | update scope => simp only [restOfPass, Pass.goTo, runBlock_nextMeaningful, following]
    | leave => rfl
    | loop condition => simp only [number]

theorem restOfPass_going (language : Language) (entropy : Entropy) (settled : frame.body.Settled)
    (going : frame.body.next < frame.body.lines.length) :
    1 ≤ (restOfPass language entropy frame).steps := by
  obtain ⟨raw, found, meaningful, _⟩ := settled.line going
  rw [restOfPass_of_line language entropy found meaningful]
  dsimp only
  split
  · simp [Outcome.after]
  · exact le_rfl
  · exact le_rfl
  · exact le_rfl

/-- How a step of the block changes what is left of the pass. -/
inductive BodyAdvance (frame : Frame) (pass : Outcome) (language : Language) (done : BodyStep) :
    Prop where
  | failed {index : Nat} {e : Error} (failure : done.failure? = some (index, e))
      (rest : pass = ⟨done.body.scope, done.entropy, done.shown, 1,
        .failed ⟨frame.start + index + 1, e⟩⟩)
  | broken (calm : done.failure? = none) (halted : done.body.halt? = some .broken)
      (rest : pass = ⟨done.body.scope, done.entropy, done.shown, 1, .broken⟩)
  | completed {steps : Nat} (few : steps ≤ 1) (calm : done.failure? = none)
      (halt : done.body.halt? = none) (ended : done.body.isDone = true)
      (rest : pass = ⟨done.body.scope, done.entropy, done.shown, steps, .completed⟩)
  | going (calm : done.failure? = none) (continuing : done.body.isDone = false)
      (rest : pass =
        (restOfPass language done.entropy { frame with body := done.body }).after done.shown 1)

theorem bodyAdvance (language : Language) (entropy : Entropy) (halt : frame.body.halt? = none)
    (settled : frame.body.Settled) :
    BodyAdvance frame (restOfPass language entropy frame) language
      (frame.body.stepBody language entropy) := by
  by_cases ended : frame.body.lines.length ≤ frame.body.next
  · have done : frame.body.isDone = true := by simp [Pass.isDone, ended]
    simp only [Pass.stepBody, done, if_true]
    exact .completed (Nat.zero_le 1) rfl halt done (restOfPass_of_end language entropy ended)
  · obtain ⟨raw, found, meaningful, advanced⟩ := settled.line (by omega)
    have running : frame.body.isDone = false := by simp [Pass.isDone, halt, ended]
    have rest := restOfPass_of_line language entropy found meaningful
    simp only [Pass.stepBody, running, advanced, Bool.false_eq_true, if_false]
    generalize Action.perform language entropy frame.body.scope raw = done at rest ⊢
    obtain ⟨result, shown, entropy'⟩ := done
    cases result with
    | error e => exact .failed rfl rest
    | ok action =>
      cases action with
      | leave => exact .broken rfl rfl rest
      | loop condition => exact .failed rfl rest
      | update scope =>
        -- The body that has moved on is either through with its lines or goes on.
        let body := { frame.body with scope }.goTo (frame.body.next + 1)
        change BodyAdvance frame _ language
          ⟨{ body with current? := some frame.body.next }, shown, entropy', none⟩
        have unhalted : body.halt? = none := halt
        by_cases through : body.lines.length ≤ body.next
        · have spent : restOfPass language entropy' { frame with body } =
              ⟨scope, entropy', [], 0, .completed⟩ := restOfPass_of_end language entropy' through
          refine .completed le_rfl rfl unhalted (by simp [Pass.isDone, through]) ?_
          rw [rest]
          change (restOfPass language entropy' { frame with body }).after shown 1 = _
          rw [spent]
          simp [Outcome.after, body, Pass.goTo]
        · exact .going rfl (by simp [Pass.isDone, unhalted, through]) rest

/-- A line of a block. After the last one the loop decides about another pass. -/
theorem advances_stepLoop (ready : Ready script) (inside : script.frame? = some frame)
    (running : script.isDone = false) : Advances script (script.stepLoop frame) := by
  have halt := Script.unhalted_of_running running
  obtain ⟨_, bodyHalt, bodySettled⟩ := ready.settled.inside frame inside
  have start := future_inside halt inside
  have turns := Script.stepBody_scope running inside
  have agrees := ready.coherent.absorb_turns inside turns
  have left := leaveBlock_eq_absorb ready.coherent.ordered
    (turns.ordered (ready.coherent.bodyOrdered frame inside)) agrees
  have advance := bodyAdvance script.language script.entropy bodyHalt bodySettled
  have settled := Pass.stepBody_settled script.language script.entropy ⟨bodyHalt, bodySettled⟩
  have lines := Pass.stepBody_lines script.language script.entropy frame.body
  unfold Script.stepLoop
  generalize frame.body.stepBody script.language script.entropy = done
    at turns agrees left advance settled lines ⊢
  cases advance with
  | failed failure rest =>
    rw [rest] at start
    simp only [finishPass, left, goOn, Option.bind_some, Nat.max_self] at start
    simp only [Advances, failure]
    exact start
  | broken calm halted rest =>
    rw [rest] at start
    simp only [finishPass, left, goOn, Option.bind_some, Nat.max_self] at start
    have stopped : done.body.isDone = true := by simp [Pass.isDone, halted]
    simp only [Advances, calm, stopped, halted, Bool.not_true, Bool.false_eq_true, if_false, if_true]
    rw [start, future_outside (by exact halt) (by rfl)]
    simp only [Script.leaveLoop, Script.follow, Pass.goTo]
    rw [runFrom_nextMeaningful]
  | completed few calm unhalted ended rest =>
    have once : max 1 _ = 1 := max_eq_left few
    have repeated := runLoop_repeat ({ script with entropy := done.entropy }.follow frame done.body)
      halt frame
    rw [rest] at start
    simp only [finishPass, left, once, bind_goOn_after] at start
    have unbroken : done.body.halt? ≠ some .broken := by simp [unhalted]
    simp only [Advances, calm, ended, unbroken, Bool.not_true, Bool.false_eq_true, if_false]
    cases after : Script.repeatLoop _ frame with
    | error e =>
      rw [after] at repeated
      refine (start.trans (congrArg _ repeated)).trans ?_
      simp [Outcome.after, Script.fail, Pass.stop]
    | ok next =>
      rw [after] at repeated
      exact start.trans (congrArg _ repeated)
  | going calm continuing rest =>
    have kept : frameLoop { frame with body := done.body } = frameLoop frame := by
      simp only [frameLoop, lines]
    obtain ⟨_, settled⟩ := settled continuing
    have within : done.body.next < done.body.lines.length := by
      simp only [Pass.isDone, Bool.or_eq_false_iff, decide_eq_false_iff_not] at continuing
      omega
    have more : 1 ≤ (restOfPass script.language done.entropy
        { frame with body := done.body }).steps :=
      restOfPass_going script.language done.entropy settled within
    rw [rest, finishPass_after more, bind_goOn_after] at start
    simp only [Advances, calm, continuing, Bool.not_false, if_true]
    rw [start, future_inside (by exact halt) (by rfl)]
    simp only [Script.follow, kept, finishPass_absorb]

theorem advances_step (ready : Ready script) (running : script.isDone = false) :
    Advances script script.step := by
  simp only [Script.step, running, Bool.false_eq_true, if_false]
  split
  · rename_i frame inside
    exact advances_stepLoop ready inside running
  · rename_i outside
    exact advances_stepLine ready outside running

theorem Ready.step (ready : Ready script) (running : script.isDone = false)
    (calm : script.step.failure? = none) : Ready script.step.script := by
  refine ⟨ready.coherent.step, ready.settled.step, ?_⟩
  intro failed
  exact (Script.step_failed_iff running).mp failed calm

/-- The step has brought the script to its end, and as the outcome says. -/
structure Ends (step : Step) (outcome : Outcome) : Prop where
  scope : step.script.main.scope = outcome.scope
  entropy : step.script.entropy = outcome.entropy
  shown : step.shown = outcome.shown
  status : step.script.status = outcome.ending.status
  failure : step.failure? = outcome.ending.failure?

theorem Ends.after {step : Step} {outcome : Outcome} (ends : Ends step outcome)
    (shown : List Message) (steps : Nat) :
    Ends { step with shown := shown ++ step.shown } (outcome.after shown steps) :=
  ⟨ends.scope, ends.entropy, congrArg (shown ++ ·) ends.shown, ends.status, ends.failure⟩

/-- Nothing is left of a script that is done. -/
theorem future_of_done (ready : Ready script) (done : script.isDone = true) :
    ∃ outcome, future script = some outcome ∧ outcome.steps = 0 ∧
      Ends ⟨script, [], none⟩ outcome := by
  cases halt : script.main.halt? with
  | some halt' =>
    cases halt' with
    | failed => exact absurd halt ready.unfailed
    | broken =>
      refine ⟨_, future_broken halt, rfl, rfl, rfl, rfl, ?_, rfl⟩
      simp [Script.status, halt, Ending.status]
  | none =>
    have outside : script.frame? = none ∧ script.main.lines.length ≤ script.main.next := by
      simpa [Script.isDone, halt] using done
    refine ⟨_, (future_outside halt outside.1).trans (runFrom_of_end outside.2), rfl, rfl, rfl, rfl,
      ?_, rfl⟩
    simp [Script.status, halt, done, Ending.status]

theorem steps_pos_of_running {outcome : Outcome} (ready : Ready script)
    (running : script.isDone = false) (ends : future script = some outcome) :
    1 ≤ outcome.steps := by
  have advance := advances_step ready running
  unfold Advances at advance
  split at advance
  · rw [ends] at advance
    obtain ⟨rest, _, rfl⟩ := Option.map_eq_some_iff.mp advance.symm
    exact Nat.le_add_right 1 rest.steps
  · rw [ends] at advance
    cases advance
    exact le_rfl

/-- After `count` steps the script has ended if its outcome takes no more, and then as it says. -/
def Follows (script : Script) (outcome : Outcome) (count : Nat) : Prop :=
  ((script.stepN count).script.isDone = true ↔ outcome.steps ≤ count) ∧
    (outcome.steps ≤ count → Ends (script.stepN count) outcome)

theorem follows_of_done {outcome : Outcome} (ready : Ready script) (done : script.isDone = true)
    (ends : future script = some outcome) (count : Nat) : Follows script outcome count := by
  obtain ⟨_, same, spent, reached⟩ := future_of_done ready done
  cases ends.symm.trans same
  rw [Follows, Script.stepN_of_isDone done, spent]
  exact ⟨iff_of_true done (Nat.zero_le count), fun _ => reached⟩

/-- The machine goes through an outcome step by step. -/
theorem follows_future {outcome : Outcome} (ready : Ready script)
    (ends : future script = some outcome) (count : Nat) : Follows script outcome count := by
  induction count generalizing script outcome with
  | zero =>
    cases done : script.isDone with
    | true => exact follows_of_done ready done ends 0
    | false =>
      have left := steps_pos_of_running ready done ends
      constructor
      · simp only [Script.stepN, done, Bool.false_eq_true, false_iff]
        omega
      · intro spent
        omega
  | succ count ih =>
    cases done : script.isDone with
    | true => exact follows_of_done ready done ends (count + 1)
    | false =>
      have advance := advances_step ready done
      unfold Advances at advance
      rw [ends] at advance
      rw [Follows]
      cases reported : script.step.failure? with
      | some failure =>
        have failed := (Script.step_failed_iff done).mpr (by simp [reported])
        have finished := Script.isDone_of_failure (by simp [reported] : script.step.failure? ≠ none)
        simp only [reported, Option.some.injEq] at advance
        subst outcome
        rw [Script.stepN_succ_of_failure done reported]
        refine ⟨iff_of_true finished (Nat.le_add_left 1 count), fun _ => ?_⟩
        refine ⟨rfl, rfl, rfl, ?_, reported⟩
        simp [Script.status, failed, Ending.status]
      | none =>
        simp only [reported] at advance
        obtain ⟨rest, restEnds, rfl⟩ := Option.map_eq_some_iff.mp advance.symm
        obtain ⟨finished, reaches⟩ := ih (ready.step done reported) restEnds
        have shorter : (rest.after script.step.shown 1).steps ≤ count + 1 ↔ rest.steps ≤ count := by
          simp only [Outcome.after]
          omega
        rw [Script.stepN_succ_of_calm done reported, shorter]
        exact ⟨finished, fun spent => (reaches spent).after script.step.shown 1⟩

/-- A script that the machine brings to its end has an outcome. -/
theorem future_of_stepN {count : Nat} (ready : Ready script)
    (finished : (script.stepN count).script.isDone = true) :
    ∃ outcome, future script = some outcome := by
  induction count generalizing script with
  | zero =>
    obtain ⟨outcome, ends, _⟩ := future_of_done ready finished
    exact ⟨outcome, ends⟩
  | succ count ih =>
    cases done : script.isDone with
    | true =>
      obtain ⟨outcome, ends, _⟩ := future_of_done ready done
      exact ⟨outcome, ends⟩
    | false =>
      have advance := advances_step ready done
      unfold Advances at advance
      cases reported : script.step.failure? with
      | some failure =>
        rw [reported] at advance
        exact ⟨_, advance⟩
      | none =>
        rw [reported] at advance
        rw [Script.stepN_succ_script] at finished
        obtain ⟨rest, ends⟩ := ih (ready.step done reported) finished
        exact ⟨_, advance.trans (by rw [ends]; rfl)⟩

/-- A script that has not been stepped, with the variables of `table` to share. -/
def fresh (language : Language) (entropy : Entropy) (lines : List Text) (table : Table) : Script :=
  ⟨language, entropy, .start lines ⟨[], table⟩, none⟩

/-- A new script to which the host has added the variables of `seeds`. -/
def seeded (language : Language) (entropy : Entropy) (lines : List Text)
    (seeds : List (Text × Value)) : Script :=
  seeds.foldl (fun script (name, value) => (script.addInteractive name value).script)
    (.new language entropy lines)

theorem fresh_ready {table : Table} (ordered : table.Ordered) :
    Ready (fresh language entropy lines table) := by
  refine ⟨.of_outside rfl ⟨.nil, ordered⟩, .of_outside rfl (Pass.start_settled _ _), ?_⟩
  simp [fresh, Pass.start]

theorem future_fresh (language : Language) (entropy : Entropy) (lines : List Text) (table : Table) :
    future (fresh language entropy lines table) =
      runFrom language lines 0 entropy ⟨[], table⟩ := by
  rw [future_outside rfl rfl]
  exact runFrom_nextMeaningful language lines 0 entropy ⟨[], table⟩

theorem fresh_add {table : Table} (ordered : table.Ordered) (name : Text) (value : Value) :
    ∃ after : Table, after.Ordered ∧
      ((fresh language entropy lines table).addInteractive name value).script =
        fresh language entropy lines after := by
  have shared := Script.addInteractive_sharedOnly name value
  have coherent : (fresh language entropy lines table).Coherent := (fresh_ready ordered).coherent
  rw [Script.addInteractive]
  rcases coherent.write_cases shared with ⟨e, refused⟩ | ⟨after, done, written⟩
  · exact ⟨table, ordered, congrArg Script.Write.script refused⟩
  · rcases written with ⟨_, written⟩ | ⟨frame, inside, _⟩
    · exact ⟨after, shared.ordered _ _ done ordered, congrArg Script.Write.script written⟩
    · cases inside

theorem seeded_fresh (language : Language) (entropy : Entropy) (lines : List Text)
    (seeds : List (Text × Value)) :
    ∃ table : Table, table.Ordered ∧
      seeded language entropy lines seeds = fresh language entropy lines table := by
  have adding : ∀ (seeds : List (Text × Value)) (table : Table), table.Ordered →
      ∃ after : Table, after.Ordered ∧
        seeds.foldl (fun script (name, value) => (script.addInteractive name value).script)
          (fresh language entropy lines table) = fresh language entropy lines after := by
    intro seeds
    induction seeds with
    | nil => exact fun table ordered => ⟨table, ordered, rfl⟩
    | cons seed seeds ih =>
      intro table ordered
      obtain ⟨name, value⟩ := seed
      obtain ⟨after, afterOrdered, added⟩ := fresh_add ordered name value
      rw [List.foldl_cons]
      dsimp only
      rw [added]
      exact ih after afterOrdered
  exact adding seeds [] .nil

/-- Stepped with no host in between, a script ends exactly if some fuel is enough for its structured
reading; then it ends by the step that the outcome counts, not before, and leaves, shows and reports
the same. -/
theorem seeded_run_iff_structured (language : Language) (entropy : Entropy) (lines : List Text)
    (seeds : List (Text × Value)) :
    let script := seeded language entropy lines seeds
    let read fuel := runWithin fuel language lines entropy script.main.scope
    ((∃ count, (script.stepN count).script.isDone = true) ↔ ∃ fuel, (read fuel).isSome = true) ∧
      ∀ fuel outcome, read fuel = some outcome → ∀ count, Follows script outcome count := by
  intro script read
  obtain ⟨table, ordered, eq⟩ := seeded_fresh language entropy lines seeds
  have ready : Ready script := by
    simp only [script, eq]
    exact fresh_ready ordered
  have reads : ∀ outcome, future script = some outcome ↔ ∃ fuel, read fuel = some outcome := by
    intro outcome
    simp only [read, script, eq, future_fresh]
    exact (fromWithin_rising language lines 0 entropy ⟨[], table⟩).limit_eq_some
  have follows : ∀ fuel outcome, read fuel = some outcome → ∀ count, Follows script outcome count :=
    fun fuel outcome found => follows_future ready ((reads outcome).mpr ⟨fuel, found⟩)
  refine ⟨⟨?_, ?_⟩, follows⟩
  · rintro ⟨count, finished⟩
    obtain ⟨outcome, ends⟩ := future_of_stepN ready finished
    obtain ⟨fuel, found⟩ := (reads outcome).mp ends
    exact ⟨fuel, by rw [found]; rfl⟩
  · rintro ⟨fuel, enough⟩
    obtain ⟨outcome, found⟩ := Option.isSome_iff_exists.mp enough
    exact ⟨outcome.steps, (follows fuel outcome found outcome.steps).1.mpr le_rfl⟩

/-- Two passes, a name that each of them declares, a `break`, and a line that misses the name. -/
theorem counting_script_outcome :
    let lines := ["declare: Int seen = 0;", "while: n > 0;", "\x7b", "declare: Int twice = n * 2;",
      "declare: seen = seen + twice;", "declare: n = n - 1;", "\x7d", "while: true;", "\x7b",
      "break:", "\x7d", "declare: twice = seen;"].map String.toList
    let language : Language := ⟨[], [⟨.int 0, []⟩], []⟩
    let script := seeded language 0 lines [(['n'], .int 2)]
    ∃ outcome, runWithin 5 language lines 0 script.main.scope = some outcome ∧
      outcome.steps = 11 ∧ outcome.scope.locals = [("seen".toList, .int 6)] ∧
      outcome.scope.interactive = [(['n'], .int 0)] ∧
      outcome.ending.failure? = some ⟨12, .missingType "twice".toList⟩ ∧
      (script.stepN 10).script.isDone = false ∧ Ends (script.stepN 11) outcome := by
  intro lines language script
  obtain ⟨_, follows⟩ := seeded_run_iff_structured language 0 lines [(['n'], .int 2)]
  have read : ∃ outcome ∈ runWithin 5 language lines 0 script.main.scope,
      outcome.steps = 11 ∧ outcome.scope.locals = [("seen".toList, .int 6)] ∧
      outcome.scope.interactive = [(['n'], .int 0)] ∧
      outcome.ending.failure? = some ⟨12, .missingType "twice".toList⟩ := by decide +kernel
  obtain ⟨outcome, found, steps, locals, interactive, failure⟩ := read
  refine ⟨outcome, found, steps, locals, interactive, failure, ?_, ?_⟩
  · rw [← Bool.not_eq_true, (follows 5 outcome found 10).1]
    omega
  · exact (follows 5 outcome found 11).2 (by omega)

end StepScript.Structured
