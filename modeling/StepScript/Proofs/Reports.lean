import StepScript.CommandLine
import StepScript.Proofs.Separators

/-! What the command prints. Messages and variables are in the one text, the trace and the report of
a run that did not come to its end in the other. A report says where a run was given up, and after
how many steps, or else why it failed, and it cannot be taken for the other one. -/
namespace StepScript

theorem Failure.toList_message (failure : Failure) : failure.message.toList =
    "line ".toList ++ Nat.toDigits 10 failure.line ++ ": ".toList ++
      failure.error.message.toList := by
  simp only [message, String.toList_append, String.toList_ofList]

namespace CommandLine

/-- A message is a line, with its title in brackets. -/
theorem renderMessage_eq (message : Message) : renderMessage message =
    (message.title?.elim [] fun title => "[".toList ++ title ++ "] ".toList) ++ message.text ++
      "\n".toList := by
  rw [renderMessage]
  cases message.title? <;> simp

/-- Between two lines the indent is put in. -/
theorem indentLines_eq (indent t : Text) :
    indentLines indent t = List.intercalate ('\n' :: indent) (splitWhere (· == '\n') t) := by
  induction t with
  | nil => rfl
  | cons c t ih =>
    obtain ⟨line, lines, parts⟩ := List.exists_cons_of_ne_nil (splitWhere_ne_nil (· == '\n') t)
    rw [parts] at ih
    rw [indentLines, List.flatMap_cons, ← indentLines, ih, splitWhere, parts]
    by_cases newline : c = '\n'
    · simp [newline]
    · cases lines <;> simp [newline]

theorem render_stopReport (file : Text) (steps line : Nat) :
    (stopReport file steps line).render = "Error: ".toList ++ file ++ ": stopped after ".toList ++
      Nat.toDigits 10 steps ++ " steps (line ".toList ++ Nat.toDigits 10 line ++ ")\n".toList := by
  simp [stopReport, Report.render]

/-- The two causes of a failure are numbered, each with its further lines below its first one. -/
theorem render_causes (file outer inner : Text) :
    Report.render ⟨"running ".toList ++ file, [outer, inner]⟩ = "Error: running ".toList ++ file ++
      "\n\nCaused by:\n    0: ".toList ++
      "\n       ".toList.intercalate (splitWhere (· == '\n') outer) ++ "\n    1: ".toList ++
      "\n       ".toList.intercalate (splitWhere (· == '\n') inner) ++ "\n".toList := by
  have zero : Nat.toDigits 10 0 = ['0'] := rfl
  have one : Nat.toDigits 10 1 = ['1'] := rfl
  simp [Report.render, numberCauses, indentLines_eq, zero, one, List.replicate]

/-- A failure tells its line, and then once more what is wrong. -/
theorem render_failureReport (file : Text) (failure : Failure) :
    (failureReport file failure).render = "Error: running ".toList ++ file ++
      "\n\nCaused by:\n    0: ".toList ++
      "\n       ".toList.intercalate (splitWhere (· == '\n') ("line ".toList ++
        Nat.toDigits 10 failure.line ++ ": ".toList ++ failure.error.message.toList)) ++
      "\n    1: ".toList ++
      "\n       ".toList.intercalate (splitWhere (· == '\n') failure.error.message.toList) ++
      "\n".toList := by
  rw [← failure.toList_message]
  exact render_causes file _ _

theorem render_ne_nil (report : Report) : report.render ≠ [] := by
  unfold Report.render
  dsimp only
  split <;> simp

section Readings

variable {file t u : Text} {m n steps line : Nat} {sep : Char}

theorem not_mem_toDigits (other : sep.isDigit = false) (n : Nat) : sep ∉ Nat.toDigits 10 n := by
  intro member
  have digit := Nat.isDigit_of_mem_toDigits (by decide) (by decide) member
  rw [other] at digit
  cases digit

/-- A number can be read off in front of a sign that is no digit. -/
theorem toDigits_append_inj (other : sep.isDigit = false)
    (same : Nat.toDigits 10 m ++ sep :: t = Nat.toDigits 10 n ++ sep :: u) : m = n ∧ t = u := by
  have parts := congrArg (Text.splitFirst sep) same
  rw [Text.splitFirst_append (not_mem_toDigits other m),
    Text.splitFirst_append (not_mem_toDigits other n)] at parts
  obtain ⟨digits, rest⟩ := Prod.mk.inj (Option.some.inj parts)
  refine ⟨?_, rest⟩
  calc
    m = Nat.ofDigitChars 10 (Nat.toDigits 10 m) 0 := Nat.ofDigitChars_ten_toDigits.symm
    _ = Nat.ofDigitChars 10 (Nat.toDigits 10 n) 0 := by rw [digits]
    _ = n := Nat.ofDigitChars_ten_toDigits

/-- The report tells the number of steps and the line. -/
theorem render_stopReport_inj (same : (stopReport file m steps).render =
    (stopReport file n line).render) : m = n ∧ steps = line := by
  simp only [render_stopReport, List.append_assoc, List.append_cancel_left_eq] at same
  obtain ⟨count, rest⟩ := toDigits_append_inj (by decide : ' '.isDigit = false) same
  obtain ⟨place, _⟩ := toDigits_append_inj (by decide : ')'.isDigit = false)
    (List.append_cancel_left rest)
  exact ⟨count, place⟩

/-- A report with two causes has more lines than the report of a run that was given up, whatever the
name of the file. -/
theorem render_causes_ne (file outer inner : Text) (steps line : Nat) :
    Report.render ⟨"running ".toList ++ file, [outer, inner]⟩ ≠
      (stopReport file steps line).render := by
  have numbers (n : Nat) : List.count '\n' (Nat.toDigits 10 n) = 0 :=
    List.count_eq_zero.mpr (not_mem_toDigits (by decide : '\n'.isDigit = false) n)
  have start : List.count '\n' "Error: ".toList = 0 := by decide
  have stopped : List.count '\n' ": stopped after ".toList = 0 := by decide
  have place : List.count '\n' " steps (line ".toList = 0 := by decide
  have finish : List.count '\n' ")\n".toList = 1 := by decide
  have caused : List.count '\n' "\n\nCaused by:\n    0: ".toList = 3 := by decide
  intro same
  have lines := congrArg (List.count '\n') same
  rw [render_causes, render_stopReport] at lines
  simp only [List.count_append, numbers, start, stopped, place, finish, caused] at lines
  omega

end Readings

end CommandLine

end StepScript
