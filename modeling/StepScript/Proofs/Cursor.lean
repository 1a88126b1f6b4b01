import StepScript.Proofs.Machine

/-! Where a pass stands. Between two steps a pass that goes on stands at a line to execute or at the
end, never at a line that is skipped. -/
namespace StepScript

namespace Block

variable {lines : List Text} {index : Nat} {raw : Text}

theorem nextMeaningful_of_end (beyond : lines.length ≤ index) :
    nextMeaningful lines index = lines.length := by
  simp only [nextMeaningful, List.drop_eq_nil_of_le beyond, List.findIdx_nil]
  omega

theorem nextMeaningful_of_skipped (found : lines[index]? = some raw)
    (skipped : Line.isSkipped raw = true) :
    nextMeaningful lines index = nextMeaningful lines (index + 1) := by
  obtain ⟨within, rfl⟩ := List.getElem?_eq_some_iff.mp found
  simp only [nextMeaningful, List.drop_eq_getElem_cons within, List.findIdx_cons, skipped,
    Bool.not_true, cond_false]
  congr 1
  omega

theorem nextMeaningful_of_meaningful (found : lines[index]? = some raw)
    (meaningful : Line.isSkipped raw = false) : nextMeaningful lines index = index := by
  obtain ⟨within, rfl⟩ := List.getElem?_eq_some_iff.mp found
  simp only [nextMeaningful, List.drop_eq_getElem_cons within, List.findIdx_cons, meaningful,
    Bool.not_false, cond_true]
  omega

theorem le_nextMeaningful (within : index ≤ lines.length) : index ≤ nextMeaningful lines index := by
  unfold nextMeaningful
  omega

theorem nextMeaningful_le_length (lines : List Text) (index : Nat) :
    nextMeaningful lines index ≤ lines.length :=
  Nat.min_le_right _ _

/-- Induction along the lines that are skipped from `index` on. -/
theorem skip_induction (lines : List Text) {motive : Nat → Prop}
    (atEnd : ∀ index, lines.length ≤ index → motive index)
    (atLine : ∀ index raw, lines[index]? = some raw → Line.isSkipped raw = false → motive index)
    (skip : ∀ index raw, lines[index]? = some raw → Line.isSkipped raw = true →
      motive (index + 1) → motive index) (index : Nat) : motive index := by
  induction left : lines.length - index generalizing index with
  | zero => exact atEnd index (by omega)
  | succ left ih =>
    have within : index < lines.length := by omega
    cases skipped : Line.isSkipped lines[index] with
    | false => exact atLine index _ (List.getElem?_eq_getElem within) skipped
    | true =>
      exact skip index _ (List.getElem?_eq_getElem within) skipped (ih (index + 1) (by omega))

theorem nextMeaningful_idem (lines : List Text) (index : Nat) :
    nextMeaningful lines (nextMeaningful lines index) = nextMeaningful lines index := by
  induction index using skip_induction lines with
  | atEnd index beyond => simp only [nextMeaningful_of_end beyond, nextMeaningful_of_end le_rfl]
  | atLine index raw found meaningful =>
    simp only [nextMeaningful_of_meaningful found meaningful]
  | skip index raw found skipped ih => rw [nextMeaningful_of_skipped found skipped, ih]

/-- What stands at the next line to execute is not skipped. -/
theorem nextMeaningful_meaningful (found : lines[nextMeaningful lines index]? = some raw) :
    Line.isSkipped raw = false := by
  induction index using skip_induction lines with
  | atEnd index beyond => simp [nextMeaningful_of_end beyond] at found
  | atLine index line here meaningful =>
    rw [nextMeaningful_of_meaningful here meaningful, here] at found
    cases found
    exact meaningful
  | skip index line here skipped ih =>
    rw [nextMeaningful_of_skipped here skipped] at found
    exact ih found

end Block

namespace Pass

variable {pass : Pass}

/-- The line that a pass takes is one of its lines, and not one that is skipped. -/
theorem advance?_line {index : Nat} {raw : Text} {next : Pass}
    (advanced : pass.advance? = some (index, raw, next)) :
    pass.lines[index]? = some raw ∧ Line.isSkipped raw = false := by
  simp only [advance?, Option.map_eq_some_iff, Prod.mk.injEq] at advanced
  obtain ⟨line, found, rfl, rfl, _⟩ := advanced
  exact ⟨found, Block.nextMeaningful_meaningful found⟩

/-- The pass stands at a line to execute or at the end of its lines. -/
def Settled (pass : Pass) : Prop :=
  Block.nextMeaningful pass.lines pass.next = pass.next

theorem start_settled (lines : List Text) (scope : Scope) : (start lines scope).Settled :=
  Block.nextMeaningful_idem lines 0

theorem goTo_settled (pass : Pass) (index : Nat) : (pass.goTo index).Settled :=
  Block.nextMeaningful_idem pass.lines index

/-- The line at which a settled pass stands. -/
theorem Settled.line (settled : pass.Settled) (running : pass.next < pass.lines.length) :
    ∃ raw, pass.lines[pass.next]? = some raw ∧ Line.isSkipped raw = false ∧
      pass.advance? = some (pass.next, raw,
        { pass with current? := some pass.next, next := pass.next + 1 }) := by
  have found := List.getElem?_eq_getElem running
  refine ⟨_, found, ?_, ?_⟩
  · cases skipped : Line.isSkipped pass.lines[pass.next] with
    | false => rfl
    | true =>
      have moved := Block.nextMeaningful_of_skipped found skipped
      have further := Block.le_nextMeaningful (show pass.next + 1 ≤ pass.lines.length from running)
      unfold Settled at settled
      omega
  · simp only [advance?, show Block.nextMeaningful pass.lines pass.next = pass.next from settled,
      found, Option.map_some]

/-- A settled pass takes the line at which it stands. -/
theorem Settled.advance?_index {index : Nat} {raw : Text} {after : Pass}
    (settled : pass.Settled) (advanced : pass.advance? = some (index, raw, after)) :
    index = pass.next := by
  simp only [advance?, Option.map_eq_some_iff, Prod.mk.injEq] at advanced
  obtain ⟨_, _, place, _⟩ := advanced
  exact place.symm.trans settled

theorem running_of_advance? {index : Nat} {raw : Text} {next : Pass} (halt : pass.halt? = none)
    (advanced : pass.advance? = some (index, raw, next)) : pass.isDone = false := by
  cases ended : decide (pass.lines.length ≤ pass.next) with
  | false => simp [isDone, halt, ended]
  | true =>
    have beyond := Block.nextMeaningful_of_end (of_decide_eq_true ended)
    simp [advance?, beyond] at advanced

/-- A body that goes on after a step is settled again. -/
theorem stepBody_settled (language : Language) (entropy : Entropy)
    (body : pass.halt? = none ∧ pass.Settled)
    (continuing : (pass.stepBody language entropy).body.isDone = false) :
    (pass.stepBody language entropy).body.halt? = none ∧
      (pass.stepBody language entropy).body.Settled := by
  have steps := stepBody_steps language entropy pass
  generalize pass.stepBody language entropy = done at steps continuing ⊢
  cases steps with
  | ended => exact body
  | idle => exact ⟨body.1, goTo_settled _ _⟩
  | updated _ advanced =>
    rw [advance?_next advanced]
    exact ⟨body.1, goTo_settled _ _⟩
  | broken | nested | failed => simp [isDone, stop] at continuing

theorem stepBody_lines (language : Language) (entropy : Entropy) (pass : Pass) :
    (pass.stepBody language entropy).body.lines = pass.lines := by
  have steps := stepBody_steps language entropy pass
  generalize pass.stepBody language entropy = done at steps ⊢
  cases steps with
  | ended | idle => rfl
  | updated _ advanced | broken _ advanced | nested _ advanced | failed _ advanced =>
    rw [advance?_next advanced]
    rfl

end Pass

namespace Script

variable {script : Script}

/-- The main pass is settled while no loop is active, and the body of an active loop always; neither
has been halted. -/
structure Settled (script : Script) : Prop where
  outside : script.frame? = none → script.main.halt? = none → script.main.Settled
  inside : ∀ frame, script.frame? = some frame →
    script.main.halt? = none ∧ frame.body.halt? = none ∧ frame.body.Settled

theorem Settled.of_outside (outside : script.frame? = none) (settled : script.main.Settled) :
    script.Settled :=
  ⟨fun _ _ => settled, by simp [outside]⟩

theorem Settled.of_halted (outside : script.frame? = none) (halted : script.main.halt? ≠ none) :
    script.Settled :=
  ⟨fun _ running => absurd running halted, by simp [outside]⟩

theorem Settled.stepLine (outside : script.frame? = none)
    (running : script.main.halt? = none) : script.stepLine.script.Settled := by
  have steps := stepLine_cases script
  generalize script.stepLine = step at steps ⊢
  cases steps with
  | idle => exact .of_outside outside (Pass.goTo_settled _ _)
  | updated | passed => exact .of_outside outside (Pass.goTo_settled _ _)
  | broken => exact .of_halted outside (by simp [Pass.stop])
  | failed => exact .of_halted rfl (by simp [Pass.stop])
  | entered executes =>
    refine ⟨by simp, ?_⟩
    rintro _ ⟨⟩
    refine ⟨?_, rfl, Pass.start_settled _ _⟩
    rw [Pass.advance?_next executes.advanced]
    exact running

theorem Settled.stepLoop {frame : Frame} (running : script.main.halt? = none)
    (body : frame.body.halt? = none ∧ frame.body.Settled) :
    (script.stepLoop frame).script.Settled := by
  have steps := stepLoop_cases script frame
  generalize script.stepLoop frame = step at steps ⊢
  cases steps with
  | failed | undecided => exact .of_halted rfl (by simp [fail, Pass.stop])
  | broken | finished => exact .of_outside rfl (Pass.goTo_settled _ _)
  | going _ continuing =>
    refine ⟨by simp [follow], ?_⟩
    rintro _ ⟨⟩
    exact ⟨running, Pass.stepBody_settled _ _ body continuing⟩
  | again =>
    refine ⟨by simp, ?_⟩
    rintro _ ⟨⟩
    exact ⟨running, rfl, Pass.start_settled _ _⟩

theorem Settled.step (settled : script.Settled) : script.step.script.Settled := by
  unfold Script.step
  split
  · exact settled
  · rename_i unfinished
    have running : script.main.halt? = none := by
      simp only [isDone, Bool.or_eq_true, not_or] at unfinished
      simpa using unfinished.1
    split
    · rename_i frame inside
      exact .stepLoop running (settled.inside frame inside).2
    · rename_i outside
      exact .stepLine outside running

end Script
end StepScript
