import StepScript.Proofs.Agreement
import StepScript.Proofs.Blocks

/-! Which line a step executes. Outside any block it is the line at which the main pass stands, in a
block the line at which the pass over the block stands. Only a pass over a block in which every line
is skipped executes none. -/
namespace StepScript

/-- What a line leaves of the scope in which it is executed. -/
def Performance.scopeAfter (done : Performance) (scope : Scope) : Scope :=
  match done.result with
  | .ok (.update after) => after
  | _ => scope

/-- Taking over values that are there already changes nothing. -/
theorem Scope.Agrees.absorb_eq {outer inner : Scope} (agrees : outer.Agrees inner)
    (ordered : outer.Ordered) : outer.absorb inner = outer := by
  have locals : outer.locals.absorb inner.locals = outer.locals := by
    refine (ordered.locals.absorb _).ext ordered.locals ?_
    intro query
    rw [Table.find?_absorb]
    cases found : outer.locals.find? query with
    | none => rfl
    | some value => simp [agrees.locals query value found]
  have interactive : outer.interactive.absorb inner.interactive = outer.interactive := by
    refine (ordered.interactive.absorb _).ext ordered.interactive ?_
    intro query
    rw [Table.find?_absorb, agrees.interactive]
    cases outer.interactive.find? query with
    | none => rfl
    | some value => rfl
  exact congrArg₂ Scope.mk locals interactive

namespace Block

variable {lines : List Text} {index : Nat}

/-- No line is executed from `index` on. -/
def Barren (lines : List Text) (index : Nat) : Prop :=
  ∀ raw ∈ lines.drop index, Line.isSkipped raw = true

instance (lines : List Text) (index : Nat) : Decidable (Barren lines index) :=
  inferInstanceAs (Decidable (∀ raw ∈ lines.drop index, _))

theorem Barren.skipped {place : Nat} {raw : Text} (barren : Barren lines index)
    (above : index ≤ place) (found : lines[place]? = some raw) : Line.isSkipped raw = true := by
  obtain ⟨offset, rfl⟩ := Nat.exists_eq_add_of_le above
  rw [← List.getElem?_drop] at found
  exact barren raw (List.mem_of_getElem? found)

theorem nextMeaningful_eq_length_iff :
    nextMeaningful lines index = lines.length ↔ Barren lines index := by
  induction index using skip_induction lines with
  | atEnd index beyond =>
    refine iff_of_true (nextMeaningful_of_end beyond) ?_
    rw [Barren, List.drop_eq_nil_of_le beyond]
    intro raw member
    cases member
  | atLine index raw found meaningful =>
    obtain ⟨within, _⟩ := List.getElem?_eq_some_iff.mp found
    rw [nextMeaningful_of_meaningful found meaningful]
    refine iff_of_false (by omega) ?_
    intro barren
    simp [barren.skipped le_rfl found] at meaningful
  | skip index raw found skipped ih =>
    obtain ⟨within, rfl⟩ := List.getElem?_eq_some_iff.mp found
    rw [nextMeaningful_of_skipped found skipped, ih, Barren, Barren,
      List.drop_eq_getElem_cons within, List.forall_mem_cons]
    simp [skipped]

end Block

namespace Pass

variable {pass : Pass}

/-- The pass has a line to execute next, or it is over lines that are all skipped and has executed
none. -/
def Lively (pass : Pass) : Prop :=
  pass.next < pass.lines.length ∨ Block.Barren pass.lines 0 ∧ pass.current? = none

theorem start_lively (lines : List Text) (scope : Scope) : (start lines scope).Lively := by
  rcases Nat.lt_or_eq_of_le (Block.nextMeaningful_le_length lines 0) with within | atEnd
  · exact .inl within
  · exact .inr ⟨Block.nextMeaningful_eq_length_iff.mp atEnd, rfl⟩

theorem next_lt_of_running (running : pass.isDone = false) : pass.next < pass.lines.length := by
  simp only [isDone, Bool.or_eq_false_iff, decide_eq_false_iff_not] at running
  omega

/-- A step of a pass that stands at a line is that line. -/
theorem stepBody_line (language : Language) (entropy : Entropy) {raw : Text} {after : Pass}
    (running : pass.isDone = false)
    (advanced : pass.advance? = some (pass.next, raw, after)) :
    let done := pass.stepBody language entropy
    let performed := Action.perform language entropy pass.scope raw
    done.shown = performed.shown ∧ done.entropy = performed.entropy ∧
      done.body.scope = performed.scopeAfter pass.scope ∧
      done.body.current? = some pass.next ∧ pass.next < done.body.next := by
  obtain ⟨line, _⟩ := advance?_line advanced
  obtain ⟨within, _⟩ := List.getElem?_eq_some_iff.mp line
  have steps := stepBody_steps language entropy pass
  dsimp only
  generalize pass.stepBody language entropy = done at steps ⊢
  cases steps with
  | ended done => simp [done] at running
  | idle _ stuck => simp [stuck] at advanced
  | updated _ advanced' performed | broken _ advanced' performed =>
    cases advanced.symm.trans advanced'
    rw [performed, advance?_next advanced]
    exact ⟨rfl, rfl, rfl, rfl, Block.le_nextMeaningful (Nat.succ_le_of_lt within)⟩
  | nested _ advanced' performed | failed _ advanced' performed =>
    cases advanced.symm.trans advanced'
    rw [performed, advance?_next advanced]
    exact ⟨rfl, rfl, rfl, rfl, Nat.lt_succ_self _⟩

end Pass

namespace Script

variable {script : Script} {frame : Frame} {index : Nat} {raw : Text}

/-- The scope in which the next line is executed. -/
def liveScope (script : Script) : Scope :=
  match script.frame? with
  | none => script.main.scope
  | some frame => frame.body.scope

/-- What becomes of the outer scope when the next line leaves `scope`. -/
def received (script : Script) (scope : Scope) : Scope :=
  match script.frame? with
  | none => scope
  | some _ => script.main.scope.absorb scope

/-- The step executes the line `raw` at `index` and no other: it shows what this line shows, draws
what it draws, leaves what it leaves, and reports it as the current one. -/
structure Performs (script : Script) (index : Nat) (raw : Text) : Prop where
  line : script.main.lines[index]? = some raw
  meaningful : Line.isSkipped raw = false
  current : script.step.script.main.current? = some index
  shown : script.step.shown =
    (Action.perform script.language script.entropy script.liveScope raw).shown
  entropy : script.step.script.entropy =
    (Action.perform script.language script.entropy script.liveScope raw).entropy
  scope : script.step.script.main.scope = script.received
    ((Action.perform script.language script.entropy script.liveScope raw).scopeAfter
      script.liveScope)

/-- The step executes no line. -/
structure Rests (script : Script) : Prop where
  current : script.step.script.main.current? = script.main.current?
  shown : script.step.shown = []
  entropy : script.step.script.entropy = script.entropy
  scope : script.step.script.main.scope = script.main.scope

theorem step_outside (running : script.isDone = false) (outside : script.frame? = none) :
    script.step = script.stepLine := by
  simp [step, running, outside]

theorem step_inside (running : script.isDone = false) (inside : script.frame? = some frame) :
    script.step = script.stepLoop frame := by
  simp [step, running, inside]

/-- A line that fails leaves no scope. -/
theorem scopeAfter_of_failed {done : Performance} {main : Pass} {scope : Scope} {e : Error}
    (cause : done.result.bind ({ script with main, entropy := done.entropy }.enact index) =
      .error e) : done.scopeAfter scope = scope := by
  unfold Performance.scopeAfter
  split
  · rename_i after updated
    simp [updated, Except.bind, enact] at cause
  · rfl

theorem performs_outside (running : script.isDone = false) (outside : script.frame? = none)
    {main : Pass} (advanced : script.main.advance? = some (index, raw, main)) :
    script.Performs index raw := by
  obtain ⟨line, meaningful⟩ := Pass.advance?_line advanced
  have live : script.liveScope = script.main.scope := by simp only [liveScope, outside]
  have received : ∀ scope, script.received scope = scope := by simp [Script.received, outside]
  suffices facts : script.stepLine.script.main.current? = some index ∧
      script.stepLine.shown =
        (Action.perform script.language script.entropy script.main.scope raw).shown ∧
      script.stepLine.script.entropy =
        (Action.perform script.language script.entropy script.main.scope raw).entropy ∧
      script.stepLine.script.main.scope =
        (Action.perform script.language script.entropy script.main.scope raw).scopeAfter
          script.main.scope by
    rw [← step_outside running outside] at facts
    obtain ⟨current, shown, entropy, scope⟩ := facts
    exact ⟨line, meaningful, current, live ▸ shown, live ▸ entropy, by rw [received, live, scope]⟩
  have steps := stepLine_cases script
  generalize script.stepLine = step at steps ⊢
  cases steps with
  | idle stuck => simp [stuck] at advanced
  | updated executes | broken executes | entered executes | passed executes =>
    cases advanced.symm.trans executes.advanced
    rw [executes.performed, Pass.advance?_next advanced]
    exact ⟨rfl, rfl, rfl, rfl⟩
  | failed executes cause =>
    cases advanced.symm.trans executes.advanced
    rw [executes.performed, scopeAfter_of_failed cause, Pass.advance?_next advanced]
    exact ⟨rfl, rfl, rfl, rfl⟩

/-- However a step in a block goes, the outer pass takes over from the block. -/
theorem stepLoop_follows (script : Script) (frame : Frame) :
    let done := frame.body.stepBody script.language script.entropy
    let step := script.stepLoop frame
    step.shown = done.shown ∧ step.script.entropy = done.entropy ∧
      step.script.main.scope = script.main.scope.absorb done.body.scope ∧
      step.script.main.current? =
        (done.body.current?.map (frame.start + ·)).or script.main.current? := by
  have steps := stepLoop_cases script frame
  dsimp only
  generalize script.stepLoop frame = step at steps ⊢
  cases steps <;> exact ⟨rfl, rfl, rfl, rfl⟩

theorem performs_inside (running : script.isDone = false) (inside : script.frame? = some frame)
    (fits : frame.Fits script.main.lines) (bodyRunning : frame.body.isDone = false) {after : Pass}
    (advanced : frame.body.advance? = some (frame.body.next, raw, after)) :
    script.Performs (frame.start + frame.body.next) raw := by
  obtain ⟨line, meaningful⟩ := Pass.advance?_line advanced
  obtain ⟨shown, entropy, scope, current, _⟩ :=
    Pass.stepBody_line script.language script.entropy bodyRunning advanced
  obtain ⟨shown', entropy', scope', current'⟩ := stepLoop_follows script frame
  rw [← step_inside running inside] at shown' entropy' scope' current'
  have live : script.liveScope = frame.body.scope := by simp only [liveScope, inside]
  rw [fits.block] at line
  refine ⟨Block.getElem?_of_block line, meaningful, ?_, ?_, ?_, ?_⟩
  · rw [current', current]
    rfl
  · rw [shown', shown, live]
  · rw [entropy', entropy, live]
  · rw [scope', scope, live]
    simp only [received, inside]

theorem rests_inside (coherent : script.Coherent) (running : script.isDone = false)
    (inside : script.frame? = some frame) (bodyDone : frame.body.isDone = true)
    (unmoved : frame.body.current? = none) : script.Rests := by
  obtain ⟨shown, entropy, scope, current⟩ := stepLoop_follows script frame
  rw [← step_inside running inside] at shown entropy scope current
  have stays : frame.body.stepBody script.language script.entropy =
      ⟨frame.body, [], script.entropy, none⟩ := by simp [Pass.stepBody, bodyDone]
  rw [stays] at shown entropy scope current
  refine ⟨?_, shown, entropy, ?_⟩
  · rw [current, unmoved]
    rfl
  · rw [scope]
    exact (coherent.agrees frame inside).absorb_eq coherent.ordered

/-- The pass over the block of an active loop stands at a line, or has none to execute. -/
def Lively (script : Script) : Prop :=
  ∀ frame, script.frame? = some frame → frame.body.Lively

theorem Lively.of_outside (outside : script.frame? = none) : script.Lively := by
  simp [Lively, outside]

theorem Lively.step (lively : script.Lively) : script.step.script.Lively := by
  apply step_rule (P := fun step => step.script.Lively)
  · exact lively
  · intro frame _
    have steps := stepLoop_cases script frame
    generalize script.stepLoop frame = step at steps ⊢
    cases steps with
    | failed | undecided | broken | finished => exact .of_outside rfl
    | going _ continuing =>
      rintro _ ⟨⟩
      exact .inl (Pass.next_lt_of_running continuing)
    | again =>
      rintro _ ⟨⟩
      exact Pass.start_lively _ _
  · intro outside
    have steps := stepLine_cases script
    generalize script.stepLine = step at steps ⊢
    cases steps with
    | idle | updated | broken | passed => exact .of_outside outside
    | failed => exact .of_outside rfl
    | entered =>
      rintro _ ⟨⟩
      exact Pass.start_lively _ _

theorem Lively.rescoped {after : Script} (lively : script.Lively)
    (rescoped : script.Rescoped after) : after.Lively := by
  cases rescoped with
  | outside scope outside => exact .of_outside outside
  | inside scope inner inside =>
    have kept := lively _ inside
    rintro _ ⟨⟩
    exact kept

end Script

theorem Reachable.lively {script : Script} (reached : Reachable script) : script.Lively := by
  refine reached.control ?_ (fun _ => .step) ?_ fun _ _ rescoped lively => lively.rescoped rescoped
  · intro language entropy lines
    exact .of_outside rfl
  · intro script _
    exact .of_outside rfl

end StepScript
