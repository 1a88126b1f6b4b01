import StepScript.Proofs.Execution

/-! Progress. Each step of a script that is not done executes one line and moves a cursor past it, but
for passes over blocks in which every line is skipped. A script without loops is done as soon as it
has executed each of its lines once. -/
namespace StepScript

namespace Block

variable {lines : List Text} {number index : Nat} {raw : Text}

/-- Numbers of the lines that are executed; the first of the lines has `number`. -/
def numbers (number : Nat) : List Text → List Nat
  | [] => []
  | raw :: rest =>
    if Line.isSkipped raw then numbers (number + 1) rest else number :: numbers (number + 1) rest

theorem length_numbers (number : Nat) (lines : List Text) :
    (numbers number lines).length = lines.countP fun raw => !Line.isSkipped raw := by
  induction lines generalizing number with
  | nil => rfl
  | cons raw rest ih =>
    unfold numbers
    split
    · rename_i skipped
      rw [ih, List.countP_cons_of_neg (by simp [skipped])]
    · rename_i meaningful
      rw [List.length_cons, ih, List.countP_cons_of_pos (by simpa using meaningful)]

theorem le_of_mem_numbers {other : Nat} (member : other ∈ numbers number lines) :
    number ≤ other := by
  induction lines generalizing number with
  | nil => cases member
  | cons raw rest ih =>
    unfold numbers at member
    split at member
    · exact Nat.le_of_succ_le (ih member)
    · rcases List.mem_cons.mp member with rfl | later
      · exact le_rfl
      · exact Nat.le_of_succ_le (ih later)

theorem numbers_ascend (number : Nat) (lines : List Text) :
    (numbers number lines).Pairwise (· < ·) := by
  induction lines generalizing number with
  | nil => exact .nil
  | cons raw rest ih =>
    unfold numbers
    split
    · exact ih (number + 1)
    · exact .cons (fun other member => le_of_mem_numbers member) (ih (number + 1))

/-- Numbers of the lines that are executed from `index` on. -/
def numbersFrom (lines : List Text) (index : Nat) : List Nat :=
  numbers (index + 1) (lines.drop index)

theorem numbersFrom_of_end (beyond : lines.length ≤ index) : numbersFrom lines index = [] := by
  rw [numbersFrom, List.drop_eq_nil_of_le beyond, numbers]

theorem numbersFrom_of_line (found : lines[index]? = some raw)
    (meaningful : Line.isSkipped raw = false) :
    numbersFrom lines index = (index + 1) :: numbersFrom lines (index + 1) := by
  obtain ⟨within, rfl⟩ := List.getElem?_eq_some_iff.mp found
  rw [numbersFrom, List.drop_eq_getElem_cons within, numbers, if_neg (by simp [meaningful])]
  rfl

theorem numbersFrom_nextMeaningful (lines : List Text) (index : Nat) :
    numbersFrom lines (nextMeaningful lines index) = numbersFrom lines index := by
  induction index using skip_induction lines with
  | atEnd index beyond =>
    rw [nextMeaningful_of_end beyond, numbersFrom_of_end le_rfl, numbersFrom_of_end beyond]
  | atLine index raw found meaningful => rw [nextMeaningful_of_meaningful found meaningful]
  | skip index raw found skipped ih =>
    obtain ⟨within, rfl⟩ := List.getElem?_eq_some_iff.mp found
    have passed : numbersFrom lines index = numbersFrom lines (index + 1) := by
      rw [numbersFrom, List.drop_eq_getElem_cons within, numbers, if_pos skipped]
      rfl
    rw [nextMeaningful_of_skipped found skipped, ih, passed]

theorem length_numbersFrom_le (lines : List Text) (index : Nat) :
    (numbersFrom lines index).length ≤ lines.countP fun raw => !Line.isSkipped raw := by
  rw [numbersFrom, length_numbers]
  exact (List.drop_sublist index lines).countP_le

end Block

namespace Script

variable {script after : Script} {frame : Frame}

/-- Outside any block the cursor of the main pass moves with each line. -/
theorem next_lt_stepLine {raw : Text} {main : Pass}
    (advanced : script.main.advance? = some (script.main.next, raw, main)) :
    script.main.next < script.stepLine.script.main.next := by
  obtain ⟨found, _⟩ := Pass.advance?_line advanced
  obtain ⟨within, _⟩ := List.getElem?_eq_some_iff.mp found
  have steps := stepLine_cases script
  generalize script.stepLine = step at steps ⊢
  cases steps with
  | idle stuck => simp [stuck] at advanced
  | updated executes | broken executes =>
    cases advanced.symm.trans executes.advanced
    rw [Pass.advance?_next advanced]
    exact Block.le_nextMeaningful (Nat.succ_le_of_lt within)
  | failed executes =>
    cases advanced.symm.trans executes.advanced
    rw [Pass.advance?_next advanced]
    exact Nat.lt_succ_self _
  | entered executes block | passed executes block =>
    -- The cursor goes to the line after the block, which lies after the `while` line.
    cases advanced.symm.trans executes.advanced
    rw [Pass.advance?_next advanced]
    obtain ⟨loops, _⟩ := Action.perform_loop (congrArg Performance.result executes.performed)
    have encloses := Block.find_encloses block found loops
    have forward := encloses.entry_lt_start
    have enclosed := encloses.start_le_closing
    have closed := encloses.closing_lt_length
    rw [Nat.add_sub_cancel] at enclosed closed
    have further := Block.le_nextMeaningful (Nat.succ_le_of_lt closed)
    simp only [Nat.succ_eq_add_one] at further
    simp only [Pass.goTo]
    omega

/-- The line to execute next is the only one that the step executes, and the step goes past it. -/
structure OneLine (script : Script) : Prop where
  outside : script.frame? = none → script.main.advance?.isSome = true ∧
    (∃ raw, script.Performs script.main.next raw) ∧
    script.main.next < script.step.script.main.next
  block : ∀ frame, script.frame? = some frame → ¬ Block.Barren frame.body.lines 0 →
    frame.body.advance?.isSome = true ∧
    (∃ raw, frame.body.lines[frame.body.next]? = some raw ∧
      script.Performs (frame.start + frame.body.next) raw) ∧
    ∀ next, script.step.script.frame? = some next → frame.body.next < next.body.next ∨
      next.body = .start frame.body.lines script.step.script.main.scope
  barren : ∀ frame, script.frame? = some frame → Block.Barren frame.body.lines 0 → script.Rests

/-- The frame that is active after a step in a block is in the same pass or at the start of one. -/
theorem stepLoop_frame (script : Script) (frame next : Frame)
    (active : (script.stepLoop frame).script.frame? = some next) :
    next.body = (frame.body.stepBody script.language script.entropy).body ∨
      next.body = .start frame.body.lines (script.stepLoop frame).script.main.scope := by
  have steps := stepLoop_cases script frame
  generalize script.stepLoop frame = step at steps active ⊢
  cases steps with
  | failed | undecided | broken | finished => cases active
  | going =>
    cases active
    exact .inl rfl
  | again =>
    cases active
    exact .inr rfl

end Script

namespace Reachable

variable {script : Script}

/-- Outside any block a script that is not done stands at a line. -/
theorem line_outside (reached : Reachable script) (running : script.isDone = false)
    (outside : script.frame? = none) :
    ∃ raw main, script.main.lines[script.main.next]? = some raw ∧ Line.isSkipped raw = false ∧
      script.main.advance? = some (script.main.next, raw, main) := by
  have halt := Script.unhalted_of_running running
  have within : script.main.next < script.main.lines.length := by
    simpa [Script.isDone, halt, outside] using running
  obtain ⟨raw, found, meaningful, advanced⟩ := (reached.settled.outside outside halt).line within
  exact ⟨raw, _, found, meaningful, advanced⟩

theorem oneLine (reached : Reachable script) (running : script.isDone = false) :
    script.OneLine := by
  have settled := reached.settled
  constructor
  · intro outside
    obtain ⟨raw, _, _, _, advanced⟩ := reached.line_outside running outside
    refine ⟨by simp [advanced], ⟨raw, Script.performs_outside running outside advanced⟩, ?_⟩
    rw [Script.step_outside running outside]
    exact Script.next_lt_stepLine advanced
  · intro frame inside fruitful
    obtain ⟨_, bodyHalt, bodySettled⟩ := settled.inside frame inside
    obtain ⟨fits, _⟩ := reached.framed frame inside
    have within : frame.body.next < frame.body.lines.length := by
      rcases reached.lively frame inside with within | ⟨barren, _⟩
      · exact within
      · exact absurd barren fruitful
    obtain ⟨raw, found, _, advanced⟩ := bodySettled.line within
    have bodyRunning := Pass.running_of_advance? bodyHalt advanced
    refine ⟨by simp [advanced], ⟨raw, found,
      Script.performs_inside running inside fits bodyRunning advanced⟩, ?_⟩
    intro next active
    rw [Script.step_inside running inside] at active ⊢
    rcases script.stepLoop_frame frame next active with same | again
    · obtain ⟨_, _, _, _, moved⟩ :=
        Pass.stepBody_line script.language script.entropy bodyRunning advanced
      exact .inl (same ▸ moved)
    · exact .inr again
  · intro frame inside barren
    obtain ⟨_, bodyHalt, bodySettled⟩ := settled.inside frame inside
    rcases reached.lively frame inside with within | ⟨_, unmoved⟩
    · obtain ⟨raw, found, meaningful, _⟩ := bodySettled.line within
      simp [barren.skipped (Nat.zero_le _) found] at meaningful
    · have atEnd : frame.body.lines.length ≤ frame.body.next := by
        by_contra within
        obtain ⟨raw, found, meaningful, _⟩ := bodySettled.line (by omega)
        simp [barren.skipped (Nat.zero_le _) found] at meaningful
      have bodyDone : frame.body.isDone = true := by simp [Pass.isDone, atEnd]
      exact Script.rests_inside reached.coherent running inside bodyDone unmoved

/-- A script is done as soon as it is halted or no line to execute is left. -/
theorem isDone_iff (reached : Reachable script) :
    script.isDone = true ↔ script.main.halt? ≠ none ∨
      script.frame? = none ∧ Block.Barren script.main.lines script.main.next := by
  cases halt : script.main.halt? with
  | some halt => simp [Script.isDone, halt]
  | none =>
    cases active : script.frame? with
    | some frame => simp [Script.isDone, halt, active]
    | none =>
      have settled : Block.nextMeaningful script.main.lines script.main.next = script.main.next :=
        reached.settled.outside active halt
      have bound := Block.nextMeaningful_le_length script.main.lines script.main.next
      rw [← Block.nextMeaningful_eq_length_iff]
      simp [Script.isDone, halt, active]
      omega

end Reachable

namespace Script

variable {script after : Script}

/-- No line of the script is a `while` line. -/
def LoopFree (script : Script) : Prop :=
  ∀ raw ∈ script.main.lines, Line.preceder raw ≠ .ok .while

instance (script : Script) : Decidable script.LoopFree :=
  inferInstanceAs (Decidable (∀ raw ∈ script.main.lines, _))

/-- Numbers of the lines that a script without loops has still to execute. -/
def left (script : Script) : List Nat :=
  if script.main.halt?.isSome then [] else Block.numbersFrom script.main.lines script.main.next

/-- Number of the line that is current after the next step, if the step is taken. -/
def visit (script : Script) : List Nat :=
  if script.isDone then [] else script.step.script.currentLine?.toList

/-- Numbers of the lines that are current after each of `count` steps. -/
def visits : Nat → Script → List Nat
  | 0, _ => []
  | count + 1, script => script.visit ++ visits count script.step.script

theorem LoopFree.outside (loopFree : script.LoopFree) (framed : script.Framed) :
    script.frame? = none := by
  cases active : script.frame? with
  | none => rfl
  | some frame =>
    obtain ⟨fits, _⟩ := framed frame active
    obtain ⟨raw, line, loops⟩ := Option.map_eq_some_iff.mp fits.encloses.loops
    exact absurd loops (loopFree raw (List.mem_of_getElem? line))

/-- The lines `visited` in so many steps were the first of those left. -/
structure Consumes (script after : Script) (visited : List Nat) (steps : Nat) : Prop where
  order : visited ++ after.left <+: script.left
  count : after.left.length ≤ script.left.length - steps

theorem Consumes.refl {script : Script} (same : after.left = script.left) :
    Consumes script after [] 0 :=
  ⟨by rw [List.nil_append, same], by rw [same, Nat.sub_zero]⟩

theorem Consumes.trans {middle : Script} {first second : List Nat} {early late : Nat}
    (before : Consumes script middle first early) (later : Consumes middle after second late) :
    Consumes script after (first ++ second) (early + late) := by
  constructor
  · rw [List.append_assoc]
    exact ((List.prefix_append_right_inj first).mpr later.order).trans before.order
  · have fewer := before.count
    have fewest := later.count
    omega

theorem left_of_isDone (outside : script.frame? = none) (done : script.isDone = true) :
    script.left = [] := by
  unfold left
  split
  · rfl
  · rename_i running
    have atEnd : script.main.lines.length ≤ script.main.next := by
      simpa [isDone, outside, running] using done
    exact Block.numbersFrom_of_end atEnd

/-- A line without a loop takes itself off what is left, or ends the script. -/
theorem left_stepLine {raw : Text} {main : Pass} (loopFree : script.LoopFree)
    (advanced : script.main.advance? = some (script.main.next, raw, main)) :
    script.stepLine.script.left <+:
      Block.numbersFrom script.main.lines (script.main.next + 1) := by
  obtain ⟨found, _⟩ := Pass.advance?_line advanced
  have steps := stepLine_cases script
  generalize script.stepLine = step at steps ⊢
  cases steps with
  | idle stuck => simp [stuck] at advanced
  | broken | failed => exact List.nil_prefix
  | updated executes =>
    cases advanced.symm.trans executes.advanced
    rw [Pass.advance?_next advanced]
    unfold left
    split
    · exact List.nil_prefix
    · exact (Block.numbersFrom_nextMeaningful _ _).symm ▸ List.prefix_rfl
  | entered executes | passed executes =>
    cases advanced.symm.trans executes.advanced
    obtain ⟨loops, _⟩ := Action.perform_loop (congrArg Performance.result executes.performed)
    exact absurd loops (loopFree raw (List.mem_of_getElem? found))

/-- What is left begins with the line to execute next. -/
theorem left_of_running (reached : Reachable script) (outside : script.frame? = none)
    (running : script.isDone = false) :
    script.left = (script.main.next + 1) ::
      Block.numbersFrom script.main.lines (script.main.next + 1) := by
  obtain ⟨raw, _, found, meaningful, _⟩ := reached.line_outside running outside
  rw [left, unhalted_of_running running, ← Block.numbersFrom_of_line found meaningful]
  rfl

theorem left_prefix (script : Script) :
    script.left <+: Block.numbersFrom script.main.lines script.main.next := by
  unfold left
  split
  · exact List.nil_prefix
  · exact List.prefix_rfl

theorem consumes_step (reached : Reachable script) (loopFree : script.LoopFree) :
    Consumes script script.step.script script.visit 1 := by
  have outside := loopFree.outside reached.framed
  unfold visit
  cases running : script.isDone with
  | true =>
    rw [step_of_isDone running, if_pos rfl]
    have nothing := left_of_isDone outside running
    exact ⟨by simp [nothing], by simp [nothing]⟩
  | false =>
    obtain ⟨raw, _, _, _, advanced⟩ := reached.line_outside running outside
    have performs := performs_outside running outside advanced
    have current : script.step.script.currentLine? = some (script.main.next + 1) := by
      rw [currentLine?, performs.current, Option.map_some]
    have first := left_of_running reached outside running
    have rest := left_stepLine loopFree advanced
    rw [← step_outside running outside] at rest
    rw [if_neg (by simp), current, Option.toList_some]
    constructor
    · rw [first]
      exact (List.prefix_cons_inj _).mpr rest
    · rw [first]
      exact rest.length_le

theorem consumes_visits (reached : Reachable script) (loopFree : script.LoopFree) (count : Nat) :
    Consumes script (script.stepN count).script (script.visits count) count := by
  induction count generalizing script with
  | zero => exact .refl rfl
  | succ count ih =>
    have freeStill : script.step.script.LoopFree := by
      rw [LoopFree, script.step_keeps.2]
      exact loopFree
    have both := (consumes_step reached loopFree).trans (ih (.next .step reached) freeStill)
    rwa [Nat.add_comm 1 count, ← stepN_succ_script] at both

theorem Rescoped.left_eq (rescoped : script.Rescoped after) : after.left = script.left := by
  cases rescoped <;> rfl

theorem Rescoped.lines_eq (rescoped : script.Rescoped after) :
    after.main.lines = script.main.lines := by
  cases rescoped <;> rfl

end Script

namespace HostOp

/-- The most steps that the operation can take. -/
def steps : HostOp → Nat
  | .step => 1
  | .stepN count | .run count => count
  | .restart | .add _ _ | .set _ _ => 0

/-- Numbers of the lines that are current after each step of the operation. -/
def visits (op : HostOp) (script : Script) : List Nat :=
  script.visits op.steps

/-- Numbers of the lines that are current after each step of the operations. -/
def visitsAll : List HostOp → Script → List Nat
  | [], _ => []
  | op :: more, script => op.visits script ++ visitsAll more (op.apply script)

variable {script : Script}

theorem consumes (reached : Reachable script) (loopFree : script.LoopFree) {op : HostOp}
    (forward : op ≠ .restart) :
    script.Consumes (op.apply script) (op.visits script) op.steps := by
  cases op with
  | step =>
    have once := Script.consumes_visits reached loopFree 1
    rwa [Script.stepN_succ_script] at once
  | stepN count => exact Script.consumes_visits reached loopFree count
  | run limit =>
    have run := Script.consumes_visits reached loopFree limit
    rwa [← Script.run_script] at run
  | restart => exact absurd rfl forward
  | add name value => exact .refl (script.write_rescoped _).left_eq
  | set name value => exact .refl (script.write_rescoped _).left_eq

theorem apply_lines (op : HostOp) (script : Script) :
    (op.apply script).main.lines = script.main.lines := by
  have steps : ∀ count, (script.stepN count).script.main.lines = script.main.lines := by
    intro count
    refine Script.stepN_invariant (P := fun after => after.main.lines = script.main.lines) ?_ rfl count
    intro after same
    rw [after.step_keeps.2, same]
  cases op with
  | step => exact script.step_keeps.2
  | stepN count => exact steps count
  | run limit => exact (congrArg (·.main.lines) (Script.run_script limit script)).trans (steps limit)
  | restart => rfl
  | add name value => exact (script.write_rescoped _).lines_eq
  | set name value => exact (script.write_rescoped _).lines_eq

/-- Operations other than a restart take lines off what is left, in order. -/
theorem consumes_all (reached : Reachable script) (loopFree : script.LoopFree) {ops : List HostOp}
    (forward : HostOp.restart ∉ ops) :
    let after := ops.foldl (fun script op => op.apply script) script
    script.Consumes after (visitsAll ops script) (ops.map steps).sum ∧ after.LoopFree := by
  induction ops generalizing script with
  | nil => exact ⟨.refl rfl, loopFree⟩
  | cons op more ih =>
    -- What the first operation leaves is what the rest of them take from.
    rw [List.mem_cons, not_or] at forward
    have first := consumes reached loopFree (Ne.symm forward.1)
    have freeStill : (op.apply script).LoopFree := by
      rw [Script.LoopFree, apply_lines]
      exact loopFree
    obtain ⟨rest, freeAfter⟩ := ih (.next op reached) freeStill forward.2
    exact ⟨first.trans rest, freeAfter⟩

end HostOp

/-- Every state that a host can bring about is done as soon as nothing is left to execute; until then
a step executes the next line, outside or in the block, and only a pass over a block without such
lines executes none. A script without loops executes its lines once and in order, and as many steps
as it has such lines bring it to its end. -/
theorem Reachable.one_line_for_each_step {script : Script} (reached : Reachable script) :
    (script.isDone = true ↔ script.main.halt? ≠ none ∨
      script.frame? = none ∧ Block.Barren script.main.lines script.main.next) ∧
    (script.isDone = false → script.OneLine) ∧
    (script.LoopFree → ∀ ops : List HostOp, .restart ∉ ops →
      HostOp.visitsAll ops script <+: Block.numbersFrom script.main.lines script.main.next ∧
      (HostOp.visitsAll ops script).Pairwise (· < ·) ∧
      (script.main.lines.countP (fun raw => !Line.isSkipped raw) ≤ (ops.map HostOp.steps).sum →
        (ops.foldl (fun script op => op.apply script) script).isDone = true)) := by
  refine ⟨reached.isDone_iff, reached.oneLine, ?_⟩
  intro loopFree ops forward
  obtain ⟨consumes, freeAfter⟩ := HostOp.consumes_all reached loopFree forward
  have inOrder : HostOp.visitsAll ops script <+:
      Block.numbersFrom script.main.lines script.main.next :=
    ((List.prefix_append _ _).trans consumes.order).trans script.left_prefix
  refine ⟨inOrder, (Block.numbers_ascend _ _).sublist inOrder.sublist, ?_⟩
  intro enough
  have reachedAfter := reached.foldl ops
  have outside := freeAfter.outside reachedAfter.framed
  cases running : (ops.foldl (fun script op => op.apply script) script).isDone with
  | true => rfl
  | false =>
    have more := congrArg List.length (Script.left_of_running reachedAfter outside running)
    have few := consumes.count
    have most := script.left_prefix.length_le
    have all := Block.length_numbersFrom_le script.main.lines script.main.next
    rw [List.length_cons] at more
    omega

/-- Two lines among skipped ones, with a host write between their steps. -/
theorem two_lines_take_two_steps :
    let lines := ["// once", "declare: Int n = 1;", "", "declare: n = n + m;", "\x7d"].map String.toList
    let script := Script.new ⟨[], [⟨.int 0, []⟩], []⟩ 0 lines
    let ops := [HostOp.step, .add ['m'] (.int 7), .run 1]
    Reachable script ∧ script.OneLine ∧ HostOp.visitsAll ops script <+: [2, 4] ∧
      (ops.foldl (fun script op => op.apply script) script).isDone = true := by
  intro lines script ops
  have reached : Reachable script := .new _ _ _
  obtain ⟨_, oneLine, inOrder⟩ := reached.one_line_for_each_step
  have loopFree : script.LoopFree := by decide +kernel
  obtain ⟨order, _, done⟩ := inOrder loopFree ops (by simp [ops])
  have numbers : Block.numbersFrom script.main.lines script.main.next = [2, 4] := by decide +kernel
  exact ⟨reached, oneLine (by decide +kernel), numbers ▸ order, done (by decide +kernel)⟩

end StepScript
