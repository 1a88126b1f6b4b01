import StepScript.Proofs.Cursor
import StepScript.Proofs.Host

/-! Where the block of an active loop lies. A frame is opened over the lines between the braces after
a `while` line, and as long as it is active neither the steps in the block nor the host move it. -/
namespace StepScript

/-- A line with a keyword is executed. -/
theorem Line.isSkipped_of_preceder {raw : Text} {preceder : Preceder}
    (keyword : Line.preceder raw = .ok preceder) : Line.isSkipped raw = false := by
  cases skipped : Line.isSkipped raw with
  | false => rfl
  | true =>
    simp only [Line.isSkipped, Bool.or_eq_true, beq_iff_eq, List.isEmpty_iff] at skipped
    have refused : ∀ text ∈ [[], Line.openBrace, Line.closeBrace],
        Text.splitFirst ':' text = none ∧ (Preceder.ofText text).toOption = none := by decide
    have brace : Line.clean raw ∈ [[], Line.openBrace, Line.closeBrace] := by
      simpa [or_assoc] using skipped
    obtain ⟨whole, unknown⟩ := refused _ brace
    simp only [Line.preceder, whole] at keyword
    simp [keyword, Except.toOption] at unknown

namespace Block

variable {lines : List Text} {entry opening closing start resume : Nat}

/-- The `while` line at `entry` has its block from `start` up to the brace before `resume`. -/
structure Encloses (lines : List Text) (entry start resume : Nat) : Prop where
  entry_lt_start : entry < start
  start_le_closing : start ≤ resume - 1
  closing_lt_length : resume - 1 < lines.length
  loops : lines[entry]?.map Line.preceder = some (.ok .while)
  opens : lines[start - 1]?.map Line.clean = some Line.openBrace
  closes : lines[resume - 1]?.map Line.clean = some Line.closeBrace

theorem findOpen?_opens (found : findOpen? lines entry = some opening) :
    entry < opening ∧ lines[opening]?.map Line.clean = some Line.openBrace := by
  unfold findOpen? at found
  dsimp only at found
  split at found
  · rename_i brace
    cases found
    rw [List.getElem?_drop] at brace
    exact ⟨by omega, brace⟩
  · cases found

theorem findClose?_closes {inner offset : Nat} {rest : List Text}
    (found : findClose? inner rest = some offset) :
    rest[offset]?.map Line.clean = some Line.closeBrace := by
  induction rest generalizing inner offset with
  | nil => cases found
  | cons line rest ih =>
    have later : ∀ {inner' : Nat}, (findClose? inner' rest).map (· + 1) = some offset →
        (line :: rest)[offset]?.map Line.clean = some Line.closeBrace := by
      intro inner' moved
      obtain ⟨before, closed, rfl⟩ := Option.map_eq_some_iff.mp moved
      exact ih closed
    unfold findClose? at found
    dsimp only at found
    split at found
    · exact later found
    · split at found
      · rename_i closed
        cases inner with
        | zero =>
          cases found
          simp [closed]
        | succ inner => exact later found
      · exact later found

theorem find_encloses {raw : Text} (found : find lines entry = .ok (opening, closing))
    (line : lines[entry]? = some raw) (loops : Line.preceder raw = .ok .while) :
    Encloses lines entry (opening + 1) (closing + 1) := by
  unfold find at found
  split at found
  · cases found
  · rename_i first opened
    split at found
    · cases found
    · rename_i offset closed
      cases found
      obtain ⟨after, opens⟩ := findOpen?_opens opened
      have closes := findClose?_closes closed
      rw [List.getElem?_drop] at closes
      obtain ⟨last, there, _⟩ := Option.map_eq_some_iff.mp closes
      obtain ⟨within, _⟩ := List.getElem?_eq_some_iff.mp there
      exact ⟨by omega, by omega, within, by rw [line, Option.map_some, loops], opens, closes⟩

/-- Lines of a block are lines of the script. -/
theorem getElem?_of_block {index : Nat} {raw : Text}
    (found : ((lines.take closing).drop start)[index]? = some raw) :
    lines[start + index]? = some raw := by
  rw [List.getElem?_drop, List.getElem?_take] at found
  split at found
  · exact found
  · cases found

end Block

/-- The frame is that of the block after its `while` line, with the condition of that line. -/
structure Frame.Fits (frame : Frame) (lines : List Text) : Prop where
  encloses : Block.Encloses lines frame.entry frame.start frame.resume
  block : frame.body.lines = (lines.take (frame.resume - 1)).drop frame.start
  condition : lines[frame.entry]?.map (fun raw => Action.loopCondition (Line.body raw)) =
    some frame.condition

namespace Script

variable {script : Script}

/-- An active loop is that of its `while` line, and the main pass stands after its block. -/
def Framed (script : Script) : Prop :=
  ∀ frame, script.frame? = some frame →
    frame.Fits script.main.lines ∧ script.main.next = frame.resume

theorem Framed.of_outside (outside : script.frame? = none) : script.Framed := by
  simp [Framed, outside]

theorem Framed.stepLine (outside : script.frame? = none) : script.stepLine.script.Framed := by
  have steps := stepLine_cases script
  generalize script.stepLine = step at steps ⊢
  cases steps with
  | idle | updated | broken | passed => exact .of_outside outside
  | failed => exact .of_outside rfl
  | entered executes block =>
    obtain ⟨line, _⟩ := Pass.advance?_line executes.advanced
    obtain ⟨loops, condition⟩ :=
      Action.perform_loop (congrArg Performance.result executes.performed)
    rw [Pass.advance?_next executes.advanced]
    rintro _ ⟨⟩
    refine ⟨⟨Block.find_encloses block line loops, rfl, ?_⟩, rfl⟩
    rw [condition]
    exact congrArg (Option.map _) line

theorem Framed.stepLoop {frame : Frame} (fits : frame.Fits script.main.lines)
    (stands : script.main.next = frame.resume) : (script.stepLoop frame).script.Framed := by
  have steps := stepLoop_cases script frame
  generalize script.stepLoop frame = step at steps ⊢
  cases steps with
  | failed | undecided | broken | finished => exact .of_outside rfl
  | going =>
    rintro _ ⟨⟩
    have lines := Pass.stepBody_lines script.language script.entropy frame.body
    exact ⟨⟨fits.encloses, lines.trans fits.block, fits.condition⟩, stands⟩
  | again =>
    rintro _ ⟨⟩
    exact ⟨⟨fits.encloses, fits.block, fits.condition⟩, stands⟩

theorem Framed.step (framed : script.Framed) : script.step.script.Framed := by
  apply step_rule (P := fun step => step.script.Framed)
  · exact framed
  · intro frame inside
    obtain ⟨fits, stands⟩ := framed frame inside
    exact .stepLoop fits stands
  · intro outside
    exact .stepLine outside

theorem Framed.rescoped {after : Script} (framed : script.Framed)
    (rescoped : script.Rescoped after) : after.Framed := by
  cases rescoped with
  | outside scope outside => exact .of_outside outside
  | inside scope inner inside =>
    obtain ⟨fits, stands⟩ := framed _ inside
    rintro _ ⟨⟩
    exact ⟨⟨fits.encloses, fits.block, fits.condition⟩, stands⟩

theorem Settled.rescoped {after : Script} (settled : script.Settled)
    (rescoped : script.Rescoped after) : after.Settled := by
  cases rescoped with
  | outside scope outside =>
    exact ⟨settled.outside, fun frame inside => by simp [outside] at inside⟩
  | inside scope inner inside =>
    have kept := settled.inside _ inside
    refine ⟨by simp, ?_⟩
    rintro _ ⟨⟩
    exact kept

end Script

namespace Reachable

variable {script : Script}

theorem framed (reached : Reachable script) : script.Framed := by
  refine reached.control ?_ (fun _ => .step) ?_ fun _ _ rescoped framed => framed.rescoped rescoped
  · intro language entropy lines
    exact .of_outside rfl
  · intro script _
    exact .of_outside rfl

theorem settled (reached : Reachable script) : script.Settled := by
  refine reached.control ?_ (fun _ => .step) ?_ fun _ _ rescoped settled =>
    settled.rescoped rescoped
  · intro language entropy lines
    exact .of_outside rfl (Pass.start_settled _ _)
  · intro script _
    exact .of_outside rfl (Pass.start_settled _ _)

end Reachable
end StepScript
