import StepScript.Proofs.Lockstep
import StepScript.Proofs.Quotes

/-! Layout. Blanks around a line and a comment after it do not change what the line says, and lines
that say the same in another layout make scripts that run in lockstep. -/
namespace StepScript

namespace Line

variable {rest blanks : Text}

/-- A comment is found in the text itself, or in what follows it. -/
theorem beforeComment_append (unslashed : rest.head? ≠ some '/') (inside : Bool) (t : Text) :
    beforeComment inside (t ++ rest) = beforeComment inside t ∨
      beforeComment inside t = t ∧
        beforeComment inside (t ++ rest) = t ++ beforeComment (Quoted.after inside t) rest := by
  induction t generalizing inside with
  | nil => exact .inr ⟨rfl, rfl⟩
  | cons c t ih =>
    have next : ((t ++ rest).head? == some '/') = (t.head? == some '/') := by
      cases t with
      | nil => simpa using unslashed
      | cons d t => rfl
    rw [List.cons_append, beforeComment, beforeComment, next]
    split
    · exact .inl rfl
    · rcases ih (Quoted.step inside c) with found | ⟨whole, beyond⟩
      · exact .inl (by rw [found])
      · exact .inr ⟨by rw [whole], by rw [beyond]; rfl⟩

theorem beforeComment_blanks (blank : ∀ c ∈ blanks, isBlank c = true) (inside : Bool) (t : Text) :
    beforeComment inside (blanks ++ t) = blanks ++ beforeComment inside t := by
  induction blanks with
  | nil => rfl
  | cons c blanks ih =>
    obtain ⟨here, more⟩ := List.forall_mem_cons.mp blank
    have unslashed : c ≠ '/' := by
      rintro rfl
      exact absurd here (by decide)
    have unquoted : c ≠ '"' := by
      rintro rfl
      exact absurd here (by decide)
    simp [beforeComment, unslashed, Quoted.step_of_ne unquoted, ih more]

/-- Blanks around a line make no difference to the search for its comment. -/
theorem clean_eq (raw : Text) : clean raw = (beforeComment false raw).trim := by
  obtain ⟨before, behind, same, left, right⟩ := raw.trim_between
  have unslashed : behind.head? ≠ some '/' := by
    intro slash
    exact absurd (right '/' (List.mem_of_mem_head? slash)) (by decide)
  have found : (beforeComment false raw).trim =
      (beforeComment false (raw.trim ++ behind)).trim := by
    conv => lhs; rw [same, List.append_assoc, beforeComment_blanks left]
    simpa using Text.trim_pad left (List.forall_mem_nil _)
      (beforeComment false (raw.trim ++ behind))
  rw [found, clean]
  rcases beforeComment_append unslashed false raw.trim with same | ⟨whole, beyond⟩
  · rw [same]
  · have blanks : beforeComment (Quoted.after false raw.trim) behind = behind := by
      simpa [beforeComment] using beforeComment_blanks right (Quoted.after false raw.trim) []
    rw [beyond, whole, blanks]
    exact (Text.trim_pad (List.forall_mem_nil _) right raw.trim).symm

/-- Blanks around a line do not change what it says. -/
theorem clean_pad {left right : Text} (before : ∀ c ∈ left, isBlank c = true)
    (behind : ∀ c ∈ right, isBlank c = true) (raw : Text) :
    clean (left ++ raw ++ right) = clean raw := by
  rw [clean, Text.trim_pad before behind, clean]

/-- Nor does a comment after it, if no literal of the line is left open. -/
theorem clean_comment {raw : Text} (even : Even ((clean raw).count '"')) (comment : Text) :
    clean (raw ++ ' ' :: '/' :: '/' :: comment) = clean raw := by
  rw [clean_eq, clean_eq]
  have unslashed : (' ' :: '/' :: '/' :: comment).head? ≠ some '/' := by simp
  rcases beforeComment_append unslashed false raw with same | ⟨whole, beyond⟩
  · rw [same]
  · have closed : Quoted.after false raw = false := by
      rw [clean_eq, whole] at even
      rw [← Quoted.after_trim]
      exact (Quoted.after_eq_iff_even false _).mpr even
    have tail : beforeComment false (' ' :: '/' :: '/' :: comment) = [' '] := by
      simp [beforeComment, Quoted.step]
    rw [beyond, closed, tail, whole]
    exact Text.trim_pad (List.forall_mem_nil _) (List.forall_mem_singleton.mpr (by decide)) raw

end Line

/-- Two scripts whose lines say the same. -/
def Likeness.ofClean : Likeness where
  lines raw raw' := Line.clean raw' = Line.clean raw
  errors := Eq
  entropies := Eq
  bindings _ := True

theorem Likeness.ofClean_lawful (language : Language) : ofClean.Lawful language where
  refl _ := rfl
  shapes raw raw' same text _ := by rw [same]
  perform := by
    rintro entropy _ scope raw raw' rfl _ same
    change Line.clean raw' = Line.clean raw at same
    have performed : Action.perform language entropy scope raw' =
        Action.perform language entropy scope raw := by
      simp only [Action.perform, Line.preceder, Line.body, same]
    rw [performed]
    exact .of_eq (fun _ => rfl) (fun _ => trivial) rfl rfl rfl

/-- The answer with each line number moved to the place of its line. -/
def Answer.relaid (place : Nat → Nat) (answer : Answer) : Answer :=
  { answer with
    visited := answer.visited.map (lineAt place)
    failure? := answer.failure?.map (Failure.relaid place) }

theorem Likeness.Answers.eq_relaid {place : Nat → Nat} {answer answer' : Answer}
    (answers : ofClean.Answers place answer answer') : answer' = answer.relaid place := by
  obtain ⟨shown, visited, steps, failures, refusal⟩ := answers
  have failure := failure_eq_relaid failures fun _ _ same => same.symm
  cases answer'
  simp only at shown visited steps failure refusal
  rw [shown, visited, steps, failure, refusal, Answer.relaid]

/-- Blanks around a line and a comment after it leave what it says. Scripts whose lines say the same,
with lines that say nothing among them, have the same variables and status whatever the host does;
they stand at the same place and answer every operation alike, with line numbers moved along. -/
theorem layout_is_immaterial :
    (∀ raw left right : Text, (∀ c ∈ left, isBlank c = true) → (∀ c ∈ right, isBlank c = true) →
      Line.clean (left ++ raw ++ right) = Line.clean raw) ∧
    (∀ raw comment : Text, Even ((Line.clean raw).count '"') →
      Line.clean (raw ++ " //".toList ++ comment) = Line.clean raw) ∧
    ∀ (place : Nat → Nat) (lines lines' : List Text),
      Relaid (fun raw raw' => Line.clean raw' = Line.clean raw) place lines lines' →
      ∀ (language : Language) (entropy : Entropy) (ops : List HostOp),
        let script := ops.foldl (fun script op => op.apply script) (.new language entropy lines)
        let script' := ops.foldl (fun script op => op.apply script) (.new language entropy lines')
        script'.main.scope = script.main.scope ∧ script'.status = script.status ∧
        script'.currentLine? = script.currentLine?.map (lineAt place) ∧
        ∀ op : HostOp, op.answer script' = (op.answer script).relaid place := by
  refine ⟨fun raw _ _ before behind => Line.clean_pad before behind raw, ?_, ?_⟩
  · intro raw comment even
    rw [List.append_assoc]
    exact Line.clean_comment even comment
  · intro place lines lines' relaid language entropy ops script script'
    have lawful := Likeness.ofClean_lawful language
    have any : ∀ op : HostOp, op.Binds Likeness.ofClean.bindings :=
      HostOp.binds_of_any fun _ => trivial
    have scripts : Likeness.ofClean.Scripts place script script' :=
      (lawful.new relaid rfl).foldl lawful ops fun op _ => any op
    have kept : script.language = language := HostOp.foldl_language ops _
    refine ⟨scripts.main.scope, scripts.status, scripts.currentLine?, ?_⟩
    intro op
    exact (scripts.apply (kept ▸ lawful) op (any op)).2.eq_relaid

/-- A comment after the `while` line, a blank line before its brace and two lines in the block: the
line that fails is the sixth instead of the third. -/
theorem failure_moves_with_its_line :
    let lines := ["while: go;", "\x7b", "execute: f();", "\x7d"].map String.toList
    let lines' := ["while: go; // it's \"", "", " \x7b", "// f", "\t", "  execute: f();", "\x7d"].map
      String.toList
    let ops := [HostOp.add "go".toList (.bool true), .step]
    let script := ops.foldl (fun script op => op.apply script) (.new ⟨[], [], []⟩ 0 lines)
    let script' := ops.foldl (fun script op => op.apply script) (.new ⟨[], [], []⟩ 0 lines')
    Line.clean "  \t".toList = Line.clean [] ∧
    (HostOp.step.answer script).failure? = some ⟨3, .unsupportedMethod ['f']⟩ ∧
      (HostOp.step.answer script').failure? = some ⟨6, .unsupportedMethod ['f']⟩ := by
  intro lines lines' ops script script'
  obtain ⟨padded, commented, lockstep⟩ := layout_is_immaterial
  let alike (raw raw' : Text) : Prop := Line.clean raw' = Line.clean raw
  have loop : alike "while: go;".toList "while: go; // it's \"".toList :=
    commented "while: go;".toList " it's \"".toList (by decide +kernel)
  have call : Relaid alike id (lines.drop 2) (lines'.drop 5) :=
    .line rfl (fun _ => rfl) (by decide +kernel) (.line rfl (fun _ => rfl) rfl (.nil rfl))
  have blank : Relaid alike (· + 1) (lines.drop 2) (lines'.drop 4) :=
    .blank (fun _ => rfl) (by decide +kernel) call
  have body : Relaid alike (· + 2) (lines.drop 2) (lines'.drop 3) :=
    .blank (fun _ => rfl) (by decide +kernel) blank
  have block : Relaid alike (fun index => if index = 0 then 0 else index + 2) (lines.drop 1)
      (lines'.drop 2) := .line rfl (fun _ => rfl) (by decide +kernel) body
  have brace : Relaid alike (fun index => if index = 0 then 1 else index + 3) (lines.drop 1)
      (lines'.drop 1) := .blank (by intro index; split <;> rfl) (by decide +kernel) block
  have relaid : Relaid alike
      (fun index => if index = 0 then 0 else if index = 1 then 2 else index + 3) lines lines' :=
    .line rfl (by intro index; cases index <;> rfl) loop brace
  obtain ⟨_, _, _, answers⟩ := lockstep _ lines lines' relaid ⟨[], [], []⟩ 0 ops
  have failed : (HostOp.step.answer script).failure? = some ⟨3, .unsupportedMethod ['f']⟩ := by
    decide +kernel
  refine ⟨padded [] "  \t".toList [] (List.all_eq_true.mp rfl) (List.forall_mem_nil _), failed, ?_⟩
  rw [answers HostOp.step, Answer.relaid, failed]
  rfl

end StepScript
