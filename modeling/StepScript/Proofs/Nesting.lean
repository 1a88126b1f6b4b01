import StepScript.Proofs.Blocks

/-! Blocks that any pass may open. A walker is a pass with the block it has open, and in the block
goes another walker. A mark keeps the walker of a block from opening a block itself, and conditions
are held apart from the blocks, each under the index of its `while` line. Scripts are walkers
without the states that no host can bring about: blocks never nest, and no condition is missed. -/
namespace StepScript

/-- A pass with what it knows of loops: whether it is over a block itself, and the conditions of the
loops that it has entered. -/
structure Ground where
  pass : Pass
  nested : Bool
  conditions : List (Nat × Text)

inductive Walker where
  | outside (ground : Ground)
  | inside (ground : Ground) (entry start resume : Nat) (body : Walker)

/-- What a step of a walker leaves, shows and reports. -/
structure WalkerStep where
  walker : Walker
  shown : List Message
  entropy : Entropy
  failure? : Option Failure

namespace Ground

/-- Outside again, at the first line to execute from `index` on. -/
def leave (ground : Ground) (index : Nat) : Walker :=
  .outside { ground with pass := ground.pass.goTo index }

def fail (ground : Ground) : Walker :=
  .outside { ground with pass := ground.pass.stop .failed }

/-- Opens the block after the `while` line at `index`, or passes it over. -/
def enter (ground : Ground) (index : Nat) (condition : Text) : Except Error Walker :=
  if ground.nested then .error .nestedLoop
  else do
    let (opening, closing) ← Block.find ground.pass.lines index
    if ← Script.holds ground.pass.scope condition then
      let block := (ground.pass.lines.take closing).drop (opening + 1)
      let entered : Ground := { ground with
        pass := { ground.pass with next := closing + 1 }
        conditions := (index, condition) :: ground.conditions }
      return .inside entered index (opening + 1) (closing + 1)
        (.outside ⟨.start block ground.pass.scope, true, []⟩)
    else return ground.leave (closing + 1)

def enact (ground : Ground) (index : Nat) : Action → Except Error Walker
  | .update scope =>
    .ok (.outside { ground with pass := { ground.pass with scope }.goTo ground.pass.next })
  | .leave =>
    .ok (.outside { ground with pass := (ground.pass.goTo ground.pass.next).stop .broken })
  | .loop condition => ground.enter index condition

def stepLine (language : Language) (entropy : Entropy) (ground : Ground) : WalkerStep :=
  match ground.pass.advance? with
  | none => ⟨ground.leave ground.pass.next, [], entropy, none⟩
  | some (index, raw, pass) =>
    let done := Action.perform language entropy pass.scope raw
    match done.result.bind ({ ground with pass }.enact index) with
    | .ok walker => ⟨walker, done.shown, done.entropy, none⟩
    | .error e =>
      ⟨{ ground with pass }.fail, done.shown, done.entropy, some ⟨index + 1, e⟩⟩

/-- Takes over the values and the position of the walker in the block. -/
def follow (ground : Ground) (start : Nat) (body : Pass) : Ground :=
  let current? := (body.current?.map (start + ·)).or ground.pass.current?
  { ground with
    pass := { ground.pass with scope := ground.pass.scope.absorb body.scope, current? } }

end Ground

namespace Walker

def ground : Walker → Ground
  | .outside ground => ground
  | .inside ground _ _ _ _ => ground

def isDone : Walker → Bool
  | .outside ground => ground.pass.isDone
  | .inside ground _ _ _ _ => ground.pass.halt?.isSome

/-- Back to the first line with the variables of `scope`; no condition is kept. -/
def restart (walker : Walker) (scope : Scope) : Walker :=
  .outside ⟨.start walker.ground.pass.lines scope, walker.ground.nested, []⟩

/-- Executes one line, of the innermost open block. A condition that is not found is empty. -/
def step (language : Language) (entropy : Entropy) : Walker → WalkerStep
  | .outside ground =>
    if ground.pass.isDone then ⟨.outside ground, [], entropy, none⟩
    else ground.stepLine language entropy
  | .inside ground entry start resume body =>
    if ground.pass.halt?.isSome then
      ⟨.inside ground entry start resume body, [], entropy, none⟩
    else
      let done := body.step language entropy
      let ground := ground.follow start done.walker.ground.pass
      match done.failure? with
      | some failure =>
        ⟨ground.fail, done.shown, done.entropy, some ⟨start + failure.line, failure.error⟩⟩
      | none =>
        if !done.walker.isDone then
          ⟨.inside ground entry start resume done.walker, done.shown, done.entropy, none⟩
        else if done.walker.ground.pass.halt? = some .broken then
          ⟨ground.leave resume, done.shown, done.entropy, none⟩
        else
          let condition := (ground.conditions.lookup entry).getD []
          match Script.holds ground.pass.scope condition with
          | .error e => ⟨ground.fail, done.shown, done.entropy, some ⟨entry + 1, e⟩⟩
          | .ok true =>
            ⟨.inside ground entry start resume (done.walker.restart ground.pass.scope), done.shown,
              done.entropy, none⟩
          | .ok false => ⟨ground.leave resume, done.shown, done.entropy, none⟩

/-- A host write goes to the outer scope first, then to the scope of an open block. -/
def write (update : Scope → Except Error Scope) : Walker → Walker
  | .outside ground =>
    match update ground.pass.scope with
    | .error _ => .outside ground
    | .ok scope => .outside { ground with pass := { ground.pass with scope } }
  | .inside ground entry start resume body =>
    match update ground.pass.scope with
    | .error _ => .inside ground entry start resume body
    | .ok scope => .inside { ground with pass := { ground.pass with scope } } entry start resume
        (body.write update)

end Walker

/-- A walker in the hands of a host. -/
structure Walk where
  language : Language
  entropy : Entropy
  walker : Walker

namespace Walk

def new (language : Language) (entropy : Entropy) (lines : List Text) : Walk :=
  ⟨language, entropy, .outside ⟨.start lines .empty, false, []⟩⟩

def step (walk : Walk) : WalkerStep :=
  walk.walker.step walk.language walk.entropy

def next (walk : Walk) : Walk :=
  { walk with entropy := walk.step.entropy, walker := walk.step.walker }

def write (walk : Walk) (update : Scope → Except Error Scope) : Walk :=
  { walk with walker := walk.walker.write update }

end Walk

/-- The walk after an operation of its host. A walk that is done stays as it is, so that up to `count`
steps are `count` steps. -/
def HostOp.move (op : HostOp) (walk : Walk) : Walk :=
  match op with
  | .step => walk.next
  | .stepN count | .run count => Walk.next^[count] walk
  | .restart =>
    { walk with walker := walk.walker.restart walk.walker.ground.pass.scope.resetLocals }
  | .add name value => walk.write (·.addInteractive name value)
  | .set name value => walk.write (·.setInteractive name value)

namespace Script

variable {script : Script} {frame : Frame} {walk : Walk} {conditions : List (Nat × Text)}

/-- The script as a walker that knows `conditions`. -/
def walker (script : Script) (conditions : List (Nat × Text)) : Walker :=
  match script.frame? with
  | none => .outside ⟨script.main, false, conditions⟩
  | some frame => .inside ⟨script.main, false, conditions⟩ frame.entry frame.start frame.resume
      (.outside ⟨frame.body, true, []⟩)

/-- The condition of an active loop is among those known. -/
def Knows (script : Script) (conditions : List (Nat × Text)) : Prop :=
  ∀ frame, script.frame? = some frame → conditions.lookup frame.entry = some frame.condition

/-- The walk is in the state of the script. -/
structure Represents (script : Script) (walk : Walk) : Prop where
  language : walk.language = script.language
  entropy : walk.entropy = script.entropy
  walker : ∃ conditions, walk.walker = script.walker conditions ∧ script.Knows conditions

theorem walker_outside (outside : script.frame? = none) (conditions : List (Nat × Text)) :
    script.walker conditions = .outside ⟨script.main, false, conditions⟩ := by
  simp only [walker, outside]

theorem walker_inside (inside : script.frame? = some frame) (conditions : List (Nat × Text)) :
    script.walker conditions = .inside ⟨script.main, false, conditions⟩ frame.entry frame.start
      frame.resume (.outside ⟨frame.body, true, []⟩) := by
  simp only [walker, inside]

/-- The walker has done what the script has done. -/
structure Mirrors (step : Step) (done : WalkerStep) : Prop where
  shown : done.shown = step.shown
  entropy : done.entropy = step.script.entropy
  failure : done.failure? = step.failure?
  walker : ∃ conditions, done.walker = step.script.walker conditions ∧ step.script.Knows conditions

/-- A step that ends outside any block has no condition to know. -/
theorem Mirrors.of_outside {step : Step} (outside : step.script.frame? = none)
    (conditions : List (Nat × Text)) :
    Mirrors step ⟨.outside ⟨step.script.main, false, conditions⟩, step.shown, step.script.entropy,
      step.failure?⟩ :=
  ⟨rfl, rfl, rfl, conditions, (walker_outside outside conditions).symm, by simp [Knows, outside]⟩

theorem mirrors_stepLine (outside : script.frame? = none) (conditions : List (Nat × Text)) :
    Mirrors script.stepLine
      (Ground.stepLine script.language script.entropy ⟨script.main, false, conditions⟩) := by
  unfold stepLine Ground.stepLine
  cases script.main.advance? with
  | none => exact .of_outside outside conditions
  | some taken =>
    obtain ⟨index, raw, main⟩ := taken
    dsimp only
    cases Action.perform script.language script.entropy main.scope raw with
    | mk result shown entropy =>
      cases result with
      | error e => exact .of_outside rfl conditions
      | ok action =>
        simp only [Except.bind]
        cases action with
        | update scope => exact .of_outside outside conditions
        | leave => exact .of_outside outside conditions
        | loop condition =>
          simp only [enact, Ground.enact, enterLoop, Ground.enter, Bool.false_eq_true, if_false]
          cases Block.find main.lines index with
          | error e => exact .of_outside rfl conditions
          | ok braces =>
            simp only [bind, Except.bind]
            cases holds main.scope condition with
            | error e => exact .of_outside rfl conditions
            | ok holding =>
              cases holding with
              | false => exact .of_outside outside conditions
              | true =>
                -- The loop entered here hides an earlier entry of the same line.
                refine ⟨rfl, rfl, rfl, (index, condition) :: conditions, rfl, ?_⟩
                rintro _ ⟨⟩
                simp [List.lookup]

/-- The walker of a block goes as a step in the block goes: where it would open a block, its mark
makes it fail. -/
theorem step_marked (language : Language) (entropy : Entropy) (body : Pass) :
    (Walker.outside ⟨body, true, []⟩).step language entropy =
      let done := body.stepBody language entropy
      ⟨.outside ⟨done.body, true, []⟩, done.shown, done.entropy,
        done.failure?.map fun (index, e) => ⟨index + 1, e⟩⟩ := by
  unfold Walker.step Pass.stepBody
  cases body.isDone with
  | true => rfl
  | false =>
    simp only [Bool.false_eq_true, if_false, Ground.stepLine]
    cases body.advance? with
    | none => rfl
    | some taken =>
      obtain ⟨index, raw, next⟩ := taken
      dsimp only
      cases Action.perform language entropy next.scope raw with
      | mk result shown left =>
        cases result with
        | error e => rfl
        | ok action => cases action <;> rfl

theorem mirrors_stepLoop (running : script.main.halt? = none) (inside : script.frame? = some frame)
    (known : script.Knows conditions) :
    Mirrors (script.stepLoop frame)
      ((script.walker conditions).step script.language script.entropy) := by
  have steps := stepLoop_cases script frame
  have lines := Pass.stepBody_lines script.language script.entropy frame.body
  -- The script has the condition in its frame, the walker in its list.
  have listed := known frame inside
  rw [walker_inside inside, Walker.step, step_marked]
  simp only [running, Option.isSome_none, Bool.false_eq_true, if_false, Walker.isDone,
    Walker.ground]
  generalize frame.body.stepBody script.language script.entropy = done at steps lines ⊢
  generalize script.stepLoop frame = step at steps ⊢
  cases steps with
  | failed failure =>
    simp only [failure, Option.map_some]
    exact .of_outside rfl conditions
  | going calm continuing =>
    simp only [calm, continuing, Option.map_none, Bool.not_false, if_true]
    refine ⟨rfl, rfl, rfl, conditions, rfl, ?_⟩
    rintro _ ⟨⟩
    exact listed
  | broken calm halted =>
    have ended : done.body.isDone = true := by simp [Pass.isDone, halted]
    simp only [calm, ended, halted, Option.map_none, Bool.not_true, Bool.false_eq_true, if_false,
      if_true]
    exact .of_outside rfl conditions
  | again calm ended unbroken holding =>
    simp only [follow] at holding
    simp only [calm, ended, unbroken, Ground.follow, listed, holding, Walker.restart, Walker.ground,
      lines, Option.map_none, Option.getD_some, Bool.not_true, Bool.false_eq_true, if_false]
    refine ⟨rfl, rfl, rfl, conditions, rfl, ?_⟩
    rintro _ ⟨⟩
    exact listed
  | finished calm ended unbroken holding | undecided calm ended unbroken holding =>
    simp only [follow] at holding
    simp only [calm, ended, unbroken, Ground.follow, listed, holding, Option.map_none,
      Option.getD_some, Bool.not_true, Bool.false_eq_true, if_false]
    exact .of_outside rfl conditions

namespace Represents

theorem mirrors (represents : script.Represents walk) : Mirrors script.step walk.step := by
  obtain ⟨language, entropy, conditions, walker, known⟩ := represents
  rw [Walk.step, language, entropy, walker]
  cases done : script.isDone with
  | true =>
    rw [step_of_isDone done]
    cases active : script.frame? with
    | none =>
      have ended : script.main.isDone = true := by
        simpa [isDone, Pass.isDone, active] using done
      simp only [walker_outside active, Walker.step, ended, if_true]
      exact .of_outside active conditions
    | some frame =>
      have halted : script.main.halt?.isSome = true := by simpa [isDone, active] using done
      have same := walker_inside active conditions
      rw [same]
      simp only [Walker.step, halted, if_true]
      exact ⟨rfl, rfl, rfl, conditions, same.symm, known⟩
  | false =>
    simp only [step, done, Bool.false_eq_true, if_false]
    cases active : script.frame? with
    | none =>
      have running : script.main.isDone = false := by
        simpa [isDone, Pass.isDone, active] using done
      simp only [walker_outside active, Walker.step, running, Bool.false_eq_true, if_false]
      exact mirrors_stepLine active conditions
    | some frame => exact mirrors_stepLoop (unhalted_of_running done) active known

theorem next (represents : script.Represents walk) : script.step.script.Represents walk.next := by
  have mirrors := represents.mirrors
  exact ⟨represents.language.trans script.step_keeps.1.symm, mirrors.entropy, mirrors.walker⟩

theorem iterate (represents : script.Represents walk) (count : Nat) :
    (script.stepN count).script.Represents (Walk.next^[count] walk) := by
  induction count generalizing script walk with
  | zero => exact represents
  | succ count ih =>
    rw [stepN_succ_script]
    exact ih represents.next

theorem restart (represents : script.Represents walk) :
    script.restart.Represents (HostOp.restart.move walk) := by
  obtain ⟨language, entropy, conditions, walker, _⟩ := represents
  refine ⟨language, entropy, [], ?_, by simp [Knows, Script.restart]⟩
  have ground : walk.walker.ground = ⟨script.main, false, conditions⟩ := by
    rw [walker]
    unfold Script.walker
    split <;> rfl
  simp only [HostOp.move, Walker.restart, ground]
  rfl

theorem write (represents : script.Represents walk) (update : Scope → Except Error Scope) :
    (script.write update).script.Represents (walk.write update) := by
  obtain ⟨language, entropy, conditions, walker, known⟩ := represents
  unfold Walk.write Script.write
  rw [walker]
  cases active : script.frame? with
  | none =>
    rw [walker_outside active]
    simp only [Walker.write]
    cases update script.main.scope with
    | error e => exact ⟨language, entropy, conditions, (walker_outside active _).symm, known⟩
    | ok scope =>
      simp only [mapMain, active]
      exact ⟨language, entropy, conditions, rfl, by simp [Knows]⟩
  | some frame =>
    have listed := known frame active
    rw [walker_inside active]
    simp only [Walker.write]
    cases update script.main.scope with
    | error e => exact ⟨language, entropy, conditions, (walker_inside active _).symm, known⟩
    | ok scope =>
      simp only [mapMain, active]
      cases update frame.body.scope with
      | error e | ok inner =>
        refine ⟨language, entropy, conditions, rfl, ?_⟩
        rintro _ ⟨⟩
        exact listed

theorem move (represents : script.Represents walk) (op : HostOp) :
    (op.apply script).Represents (op.move walk) := by
  cases op with
  | step => exact represents.next
  | stepN count => exact represents.iterate count
  | run limit =>
    have iterated := represents.iterate limit
    rwa [← run_script] at iterated
  | restart => exact represents.restart
  | add name value => exact represents.write _
  | set name value => exact represents.write _

end Represents

/-- A `while` line in a block fails the script. -/
theorem step_second_level (settled : script.Settled) (inside : script.frame? = some frame)
    {index : Nat} {raw : Text} {next : Pass}
    (advanced : frame.body.advance? = some (index, raw, next))
    (loops : Line.preceder raw = .ok .while) :
    script.step.failure? = some ⟨frame.start + index + 1, .nestedLoop⟩ := by
  obtain ⟨halt, bodyHalt, _⟩ := settled.inside frame inside
  have running : script.isDone = false := by simp [isDone, halt, inside]
  have bodyRunning := Pass.running_of_advance? bodyHalt advanced
  simp [step, running, inside, stepLoop, Pass.stepBody, bodyRunning, advanced, Action.perform, loops]

end Script

theorem represents_foldl {script : Script} {walk : Walk} (represents : script.Represents walk)
    (ops : List HostOp) :
    (ops.foldl (fun script op => op.apply script) script).Represents
      (ops.foldl (fun walk op => op.move walk) walk) := by
  induction ops generalizing script walk with
  | nil => exact represents
  | cons op more ih => exact ih (represents.move op)

/-- Whatever the host does, script and walk are in one state and take the same step. The block that
the walk then has open is that of a `while` line, whose condition it finds; the walker in the block
is marked and has no block open, so that a second level fails. -/
theorem open_block_is_that_of_its_while_line (language : Language) (entropy : Entropy)
    (lines : List Text) (ops : List HostOp) :
    let script := ops.foldl (fun script op => op.apply script) (.new language entropy lines)
    let walk := ops.foldl (fun walk op => op.move walk) (.new language entropy lines)
    script.Framed ∧ script.Represents walk ∧ Script.Mirrors script.step walk.step ∧
    ∀ ground entry start resume body, walk.walker = .inside ground entry start resume body →
      Block.Encloses ground.pass.lines entry start resume ∧ ground.pass.next = resume ∧
      (∃ raw, ground.pass.lines[entry]? = some raw ∧
        ground.conditions.lookup entry = some (Action.loopCondition (Line.body raw))) ∧
      ∃ pass, body = .outside ⟨pass, true, []⟩ ∧
        pass.lines = (ground.pass.lines.take (resume - 1)).drop start ∧
        ∀ index raw after, pass.advance? = some (index, raw, after) →
          Line.preceder raw = .ok .while →
          walk.step.failure? = some ⟨start + index + 1, .nestedLoop⟩ := by
  intro script walk
  have represents : script.Represents walk :=
    represents_foldl ⟨rfl, rfl, [], rfl, by simp [Script.Knows, Script.new]⟩ ops
  have reached : Reachable script := Reachable.foldl (.new language entropy lines) ops
  have mirrors := represents.mirrors
  refine ⟨reached.framed, represents, mirrors, ?_⟩
  intro ground entry start resume body opened
  obtain ⟨_, _, conditions, walker, known⟩ := represents
  cases active : script.frame? with
  | none => simp [Script.walker_outside active, opened] at walker
  | some frame =>
    -- What is open is the frame of the script, so that all facts are facts of the frame.
    rw [Script.walker_inside active, opened] at walker
    cases walker
    obtain ⟨fits, stands⟩ := reached.framed frame active
    obtain ⟨raw, line, condition⟩ := Option.map_eq_some_iff.mp fits.condition
    refine ⟨fits.encloses, stands, ⟨raw, line, ?_⟩, frame.body, rfl, fits.block, ?_⟩
    · rw [condition]
      exact known frame active
    · intro index raw after advanced loops
      rw [mirrors.failure]
      exact Script.step_second_level reached.settled active advanced loops

/-- A loop within a loop: the inner `while` line is the third line of the script. -/
theorem inner_loop_fails :
    let lines := ["while: go;", "\x7b", "while: go;", "\x7b", "\x7d", "\x7d"].map String.toList
    let ops := [HostOp.add ['g', 'o'] (.bool true), .step]
    let walk := ops.foldl (fun walk op => op.move walk) (.new ⟨[], [], []⟩ 0 lines)
    ∃ ground body, walk.walker = .inside ground 0 2 6 body ∧
      Block.Encloses ground.pass.lines 0 2 6 ∧ walk.step.failure? = some ⟨3, .nestedLoop⟩ := by
  intro lines ops walk
  let script := ops.foldl (fun script op => op.apply script) (.new ⟨[], [], []⟩ 0 lines)
  obtain ⟨_, ⟨_, _, conditions, walker, _⟩, _, opened⟩ :=
    open_block_is_that_of_its_while_line ⟨[], [], []⟩ 0 lines ops
  have place : script.frame?.map (fun frame => (frame.entry, frame.start, frame.resume)) =
      some (0, 2, 6) := by decide +kernel
  have line : (script.frame?.bind fun frame => frame.body.advance?.map fun taken =>
      (taken.1, taken.2.1)) = some (0, "while: go;".toList) := by decide +kernel
  obtain ⟨frame, active, place⟩ := Option.map_eq_some_iff.mp place
  simp only [Prod.mk.injEq] at place
  obtain ⟨entry, start, resume⟩ := place
  rw [active, Option.bind_some] at line
  obtain ⟨⟨index, raw, after⟩, advanced, taken⟩ := Option.map_eq_some_iff.mp line
  cases taken
  rw [Script.walker_inside active, entry, start, resume] at walker
  obtain ⟨encloses, _, _, pass, marked, _, second⟩ := opened _ _ _ _ _ walker
  cases marked
  exact ⟨_, _, walker, encloses, second _ _ _ advanced (by decide +kernel)⟩

end StepScript
