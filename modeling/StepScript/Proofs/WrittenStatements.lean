import StepScript.Proofs.Layout
import StepScript.Proofs.Negation
import StepScript.Proofs.Separators
import StepScript.Proofs.Shadowing

/-! Statements as they are written down. A comment, a colon, a semicolon, an equals sign, a
parenthesis and a comma divide a line, each found by a scan of its own. Where a part of the line
keeps the signs that could mislead a scan within its literals and groups, all of them find the
parts that were written. -/
namespace StepScript

theorem Text.bare_singleton {c : Char} (full : isBlank c = false) : Text.Bare [c] :=
  ⟨⟨c, [], rfl, full⟩, ⟨[], c, rfl, full⟩⟩

namespace Line

variable {indent keyword statement : Text} {preceder : Preceder}

/-- The line that holds a statement behind a keyword. -/
def written (indent keyword statement : Text) : Text :=
  indent ++ (keyword ++ [':', ' '] ++ (statement ++ [';']))

theorem ofText_keyword (same : keyword.sameWord preceder.keyword.toList = true) :
    Preceder.ofText keyword = .ok preceder := by
  have letters : preceder.keyword.toList.all isNameChar = true := by cases preceder <;> rfl
  have lower : keyword.lower = Text.lower preceder.keyword.toList := beq_iff_eq.mp same
  rw [Preceder.ofText, trim_of_plain (Condition.plain_of_sameWord letters same)]
  simp only [Text.sameWord, lower]
  cases preceder <;> rfl

/-- A line is worth its keyword and its statement, in whatever case the keyword is written. -/
theorem decode_written (indentation : ∀ c ∈ indent, isBlank c = true)
    (same : keyword.sameWord preceder.keyword.toList = true) (quiet : Quiet statement)
    (bare : statement.Bare) :
    Line.preceder (written indent keyword statement) = .ok preceder ∧
      Line.body (written indent keyword statement) = statement ++ [';'] := by
  have letters : preceder.keyword.toList.all isNameChar = true := by cases preceder <;> rfl
  have plain := Condition.plain_of_sameWord letters same
  have nonempty : keyword ≠ [] := by
    rintro rfl
    cases preceder <;> cases same
  have bareKeyword : keyword.Bare := @Arithmetic.bare_signed false keyword plain nonempty
  have bareStatement : Text.Bare (statement ++ [';']) := by
    simpa using bare.around (Text.bare_singleton rfl) []
  have bareLine := bareKeyword.around bareStatement [':', ' ']
  have quietLine : Quiet (keyword ++ [':', ' '] ++ (statement ++ [';'])) := by
    have quietKeyword : Quiet keyword :=
      quiet_of_free (not_mem_of_plain plain rfl) (not_mem_of_plain plain rfl)
    exact quietKeyword.between (quiet.before (by decide)) (by decide)
  have cleaned : clean (written indent keyword statement) =
      keyword ++ [':', ' '] ++ (statement ++ [';']) := by
    have padded := clean_pad indentation (List.forall_mem_nil _)
      (keyword ++ [':', ' '] ++ (statement ++ [';']))
    rw [List.append_nil] at padded
    rw [written, padded, clean, bareLine.trim,
      beforeComment_of_uncommented quietLine.uncommented, bareLine.trim]
  have cut : Text.splitFirst ':' (keyword ++ [':', ' '] ++ (statement ++ [';'])) =
      some (keyword, ' ' :: (statement ++ [';'])) := by
    have colon : ':' ∉ keyword := not_mem_of_plain plain rfl
    simpa using Text.splitFirst_append colon (' ' :: (statement ++ [';']))
  constructor
  · rw [Line.preceder, cleaned, cut]
    exact ofText_keyword same
  · rw [Line.body, cleaned, cut]
    have blank : ∀ c ∈ [' '], isBlank c = true := List.all_eq_true.mp rfl
    simpa using bareStatement.trim_pad blank (List.forall_mem_nil _)

end Line

namespace Statement

open StepScript.Group

variable {target : Target} {target? : Option Target} {right e method : Text} {args : List Text}

/-- The name of the target and its type are made of name characters. -/
structure Target.Named (target : Target) : Prop where
  name : isName target.name = true
  type : ∀ type ∈ target.type?, isName type = true

/-- The target as it stands before an equals sign. -/
def Target.text (target : Target) : Text :=
  match target.type? with
  | none => target.name
  | some type => type ++ [' '] ++ target.name

/-- What is assigned, with the target before it if there is one. -/
def assigned (target? : Option Target) (right : Text) : Text :=
  match target? with
  | none => right
  | some target => target.text ++ [' ', '=', ' '] ++ right

/-- A call of the method with these arguments. -/
def called (method : Text) (args : List Text) : Text :=
  method ++ '(' :: List.intercalate [',', ' '] args ++ [')']

/-- An expression on the right of an equals sign. -/
structure Expression (e : Text) : Prop where
  nonempty : e ≠ []
  trimmed : e.trim = e
  quotes : Even (e.count '"')
  uncommented : Line.Uncommented false e

/-- An expression between the commas of a call. -/
structure Argument (arg : Text) : Prop where
  nonempty : arg ≠ []
  trimmed : arg.trim = arg
  balanced : Balanced arg
  commas : Shelters ',' false 0 arg
  uncommented : Line.Uncommented false arg

/-- A text that can stand before the parenthesis of a call. -/
structure MethodName (method : Text) : Prop where
  nonempty : method ≠ []
  trimmed : method.trim = method
  opening : '(' ∉ method
  closing : ')' ∉ method
  quotes : '"' ∉ method
  equals : '=' ∉ method
  uncommented : Line.Uncommented false method

section Targets

theorem Target.Named.chars (named : target.Named) :
    ∀ c ∈ target.text, isPlain c = true ∨ c = ' ' := by
  intro c member
  obtain ⟨type?, name⟩ := target
  cases type? with
  | none => exact .inl (plain_of_isName named.name c member)
  | some type =>
    simp only [text, List.mem_append, List.mem_singleton] at member
    rcases member with (inType | blank) | inName
    · exact .inl (plain_of_isName (named.type type rfl) c inType)
    · exact .inr blank
    · exact .inl (plain_of_isName named.name c inName)

theorem Target.Named.not_mem {d : Char} (named : target.Named) (other : isPlain d = false)
    (full : d ≠ ' ') : d ∉ target.text := by
  intro member
  rcases named.chars d member with plain | blank
  · rw [plain] at other
    cases other
  · exact full blank

theorem Target.Named.bare (named : target.Named) : target.text.Bare := by
  obtain ⟨type?, name⟩ := target
  cases type? with
  | none => exact bare_of_isName named.name
  | some type => exact (bare_of_isName (named.type type rfl)).around (bare_of_isName named.name) [' ']

theorem Target.Named.ofText (named : target.Named) : Target.ofText target.text = .ok target := by
  obtain ⟨type?, name⟩ := target
  cases type? with
  | none => simp only [Target.ofText, text, words_of_isName named.name]
  | some type =>
    have words : Text.words (type ++ [' '] ++ name) = [type, name] := by
      rw [List.append_assoc, List.singleton_append, Text.words_append rfl,
        words_of_isName (named.type type rfl), words_of_isName named.name]
      rfl
    simp only [Target.ofText, text, words]

theorem Target.Named.shelters (named : target.Named) : Shelters '=' false 0 target.text :=
  shelters_of_free (named.not_mem rfl (by decide))

theorem Target.Named.flat (named : target.Named) : Flat target.text :=
  ⟨noneOpen_of_free (named.not_mem rfl (by decide)) (named.not_mem rfl (by decide)),
    Quoted.after_of_free (named.not_mem rfl (by decide))⟩

end Targets

section Sides

theorem body_of_bare (bare : right.Bare) : body (right ++ [';']) = .ok right := by
  have whole : Text.Bare (right ++ [';']) := by
    simpa using bare.around (Text.bare_singleton rfl) []
  have last : Text.dropSuffix? ';' (right ++ [';']) = some right := by
    rw [Text.dropSuffix?, List.getLast?_concat, List.dropLast_concat]
    rfl
  rw [body, whole.trim, last]
  exact congrArg Except.ok bare.trim

/-- The first equals sign that is alone stands behind the target, if there is one. -/
theorem splitAssignment_assigned (named : ∀ target ∈ target?, target.Named) (bare : right.Bare)
    (paired : right.Paired) (shelters : target? = none → Shelters '=' false 0 right) :
    splitAssignment (assigned target? right) =
      .ok (target?.map fun target => (target.text, right)) := by
  cases target? with
  | none =>
    rw [assigned, splitAssignment, Quoted.check_ok.mpr paired, splitEquals_sheltered (shelters rfl)]
    rfl
  | some target =>
    have named : target.Named := named target rfl
    have outside : Quoted.after false target.text = false := named.flat.paired
    have checked : Quoted.check (assigned (some target) right) = .ok () := by
      refine Quoted.check_ok.mpr ?_
      rw [assigned, Quoted.after_append, Quoted.after_append, outside]
      exact paired
    have divided : splitEquals false 0 none (assigned (some target) right) =
        some (target.text ++ [' '], ' ' :: right) :=
      splitEquals_append named.shelters outside (depth_of_noneOpen named.flat.none) none right
    have blank : ∀ c ∈ [' '], isBlank c = true := List.all_eq_true.mp rfl
    have leftTrimmed : Text.trim (target.text ++ [' ']) = target.text :=
      named.bare.trim_pad (List.forall_mem_nil _) blank
    have rightTrimmed : Text.trim (' ' :: right) = right := by
      simpa using bare.trim_pad blank (List.forall_mem_nil _)
    rw [splitAssignment, checked, divided]
    change Except.ok (some (Text.trim (target.text ++ [' ']), Text.trim (' ' :: right))) = _
    rw [leftTrimmed, rightTrimmed]
    rfl

theorem bare_assigned (named : ∀ target ∈ target?, target.Named) (bare : right.Bare) :
    (assigned target? right).Bare := by
  cases target? with
  | none => exact bare
  | some target => exact (named target rfl).bare.around bare [' ', '=', ' ']

theorem quiet_assigned (named : ∀ target ∈ target?, target.Named) (quiet : Line.Quiet right) :
    Line.Quiet (assigned target? right) := by
  cases target? with
  | none => exact quiet
  | some target =>
    have free : Line.Quiet target.text := Line.quiet_of_free
      ((named target rfl).not_mem rfl (by decide)) ((named target rfl).not_mem rfl (by decide))
    exact free.between quiet (by decide)

end Sides

section Declarations

theorem Expression.bare (expression : Expression e) : e.Bare :=
  Text.bare_of_trim expression.nonempty expression.trimmed

theorem Expression.paired (expression : Expression e) : e.Paired :=
  (Quoted.after_eq_iff_even false e).mpr expression.quotes

/-- A declaration divides into its target and its expression. -/
theorem declaration_written (named : target.Named) (expression : Expression e) :
    declaration (assigned (some target) e ++ [';']) =
      .ok (assigned (some target) e, target.text, e) := by
  have only : ∀ other ∈ some target, other.Named := by
    rintro other ⟨⟩
    exact named
  have divided := splitAssignment_assigned only expression.bare expression.paired nofun
  rw [declaration, body_of_bare (bare_assigned only expression.bare)]
  simp only [bind, Except.bind, divided, Option.map_some]

theorem declaredTarget_written (named : target.Named) (expression : Expression e) :
    declaredTarget (assigned (some target) e ++ [';']) = .ok target := by
  rw [declaredTarget, declaration_written named expression]
  exact named.ofText

theorem declaredExpr_written (named : target.Named) (expression : Expression e) :
    declaredExpr (assigned (some target) e ++ [';']) = .ok e := by
  rw [declaredExpr, declaration_written named expression]
  simp [bind, Except.bind, expression.nonempty]

end Declarations

section Calls

/-- What holds of the arguments, and of texts with a comma between them, holds of them joined. -/
theorem intercalate_of_forall {P : Text → Prop} (empty : P [])
    (between : ∀ t u, P t → P u → P (t ++ [',', ' '] ++ u)) (all : ∀ arg ∈ args, P arg) :
    P (List.intercalate [',', ' '] args) := by
  induction args with
  | nil => exact empty
  | cons arg args ih =>
    obtain ⟨here, later⟩ := List.forall_mem_cons.mp all
    cases args with
    | nil => simpa using here
    | cons next args => simpa using between _ _ here (ih later)

theorem Argument.bare {arg : Text} (argument : Argument arg) : arg.Bare :=
  Text.bare_of_trim argument.nonempty argument.trimmed

theorem balanced_args (arguments : ∀ arg ∈ args, Argument arg) :
    Balanced (List.intercalate [',', ' '] args) := by
  have comma : Flat [',', ' '] := ⟨noneOpen_of_free (by decide) (by decide), rfl⟩
  refine intercalate_of_forall (.flat ⟨trivial, rfl⟩) ?_ fun arg member =>
    (arguments arg member).balanced
  intro t u left right
  exact (left.append (.flat comma)).append right

theorem quiet_args (arguments : ∀ arg ∈ args, Argument arg) :
    Line.Quiet (List.intercalate [',', ' '] args) := by
  refine intercalate_of_forall (Line.quiet_of_free List.not_mem_nil List.not_mem_nil) ?_
    fun arg member => ⟨(arguments arg member).uncommented, (arguments arg member).balanced.paired⟩
  intro t u left right
  exact left.between right (by decide)

/-- The commas between the arguments are the ones that divide them. -/
theorem splitTop_args (arguments : ∀ arg ∈ args, Argument arg) (nonempty : args ≠ []) :
    (splitTop ',' false 0 (List.intercalate [',', ' '] args)).map Text.trim = args := by
  induction args with
  | nil => exact absurd rfl nonempty
  | cons arg args ih =>
    obtain ⟨here, later⟩ := List.forall_mem_cons.mp arguments
    cases args with
    | nil =>
      have single : List.intercalate [',', ' '] [arg] = arg := by simp
      rw [single, splitTop_sheltered here.commas, List.map_singleton, here.trimmed]
    | cons next args =>
      have rest := ih later (List.cons_ne_nil _ _)
      have whole : List.intercalate [',', ' '] (arg :: next :: args) =
          arg ++ ',' :: ' ' :: List.intercalate [',', ' '] (next :: args) := by simp
      have outside : Quoted.after false arg = false := here.balanced.paired
      rw [whole, splitTop_append here.commas outside (here.balanced.depth 0)]
      cases pieces : splitTop ',' false 0 (List.intercalate [',', ' '] (next :: args)) with
      | nil =>
        rw [pieces] at rest
        cases rest
      | cons piece others =>
        have blank : splitTop ',' false 0 (' ' :: List.intercalate [',', ' '] (next :: args)) =
            (' ' :: piece) :: others :=
          @splitTop_cons_sheltered ',' false 0 [] _ ' ' (shelters_of_free (by decide)) piece others
            pieces
        rw [pieces] at rest
        rw [blank, List.map_cons, List.map_cons, here.trimmed, ← rest]
        rfl

theorem MethodName.bare (name : MethodName method) : method.Bare :=
  Text.bare_of_trim name.nonempty name.trimmed

theorem MethodName.flat (name : MethodName method) : Flat method :=
  ⟨noneOpen_of_free name.opening name.closing, Quoted.after_of_free name.quotes⟩

theorem bare_called (name : MethodName method) (args : List Text) : (called method args).Bare :=
  name.bare.around (Text.bare_singleton rfl) _

theorem quiet_called (name : MethodName method) (arguments : ∀ arg ∈ args, Argument arg) :
    Line.Quiet (called method args) := by
  have quietName : Line.Quiet method := ⟨name.uncommented, name.flat.paired⟩
  have opened : Line.Quiet (method ++ ['('] ++ List.intercalate [',', ' '] args) :=
    quietName.between (quiet_args arguments) (by decide)
  have whole : Line.Quiet (method ++ ['('] ++ List.intercalate [',', ' '] args ++ [')']) :=
    opened.before (by decide)
  simpa [called] using whole

theorem shelters_called (name : MethodName method) (arguments : ∀ arg ∈ args, Argument arg) :
    Shelters '=' false 0 (called method args) := by
  have outside : Quoted.after false method = false := name.flat.paired
  have balanced := balanced_args arguments
  rw [called, List.append_assoc, shelters_append, outside, depth_of_noneOpen name.flat.none]
  exact ⟨shelters_of_free name.equals,
    shelters_group balanced (balanced.shelters '=' Nat.one_pos) (by decide)⟩

theorem call_written (named : ∀ target ∈ target?, target.Named) (name : MethodName method)
    (arguments : ∀ arg ∈ args, Argument arg) :
    call (assigned target? (called method args) ++ [';']) = .ok (called method args) := by
  have bare := bare_called name args
  have quiet := quiet_called name arguments
  have divided := splitAssignment_assigned named bare quiet.paired fun _ =>
    shelters_called name arguments
  obtain ⟨span, more, spanned, closes⟩ : ∃ span more,
      spans (called method args) = .ok (span :: more) ∧
        span.closing + 1 = (called method args).width :=
    spans_call name.flat (balanced_args arguments)
  have checked := Quoted.check_ok.mpr quiet.paired
  rw [call, body_of_bare (bare_assigned named bare)]
  simp only [bind, Except.bind, divided]
  cases target? with
  | none => simp only [Option.map_none, assigned, checked, spanned, closes, if_true]
  | some target => simp only [Option.map_some, checked, spanned, closes, if_true]

theorem callTarget_written (named : ∀ target ∈ target?, target.Named) (name : MethodName method)
    (arguments : ∀ arg ∈ args, Argument arg) :
    callTarget (assigned target? (called method args) ++ [';']) = .ok target? := by
  have bare := bare_called name args
  have divided := splitAssignment_assigned named bare (quiet_called name arguments).paired fun _ =>
    shelters_called name arguments
  rw [callTarget, body_of_bare (bare_assigned named bare)]
  simp only [bind, Except.bind, divided]
  cases target? with
  | none => rfl
  | some target => simp only [Option.map_some, (named target rfl).ofText]; rfl

theorem splitFirst_called (name : MethodName method) (args : List Text) :
    Text.splitFirst '(' (called method args) =
      some (method, List.intercalate [',', ' '] args ++ [')']) := by
  rw [called, List.append_assoc, List.cons_append]
  exact Text.splitFirst_append name.opening _

theorem methodName_written (named : ∀ target ∈ target?, target.Named) (name : MethodName method)
    (arguments : ∀ arg ∈ args, Argument arg) :
    methodName (assigned target? (called method args) ++ [';']) = .ok method := by
  rw [methodName, call_written named name arguments]
  simp [bind, Except.bind, splitFirst_called name args, name.trimmed, name.nonempty]

theorem methodArgs_written (named : ∀ target ∈ target?, target.Named) (name : MethodName method)
    (arguments : ∀ arg ∈ args, Argument arg) :
    methodArgs (assigned target? (called method args) ++ [';']) = .ok args := by
  have inner : argumentText (called method args) = List.intercalate [',', ' '] args := by
    simp [argumentText, splitFirst_called name args]
  rw [methodArgs, call_written named name arguments]
  simp only [bind, Except.bind, inner]
  cases args with
  | nil => rfl
  | cons arg args =>
    have checked := Quoted.check_ok.mpr (balanced_args arguments).paired
    have divided := splitTop_args arguments (List.cons_ne_nil _ _)
    have full : (Text.trim (List.intercalate [',', ' '] (arg :: args))).isEmpty = false := by
      obtain ⟨c, rest, begins, solid⟩ := (arguments arg List.mem_cons_self).bare.first
      have member : c ∈ List.intercalate [',', ' '] (arg :: args) := by
        cases args with
        | nil => simp [begins]
        | cons next args => simp [begins]
      refine List.isEmpty_eq_false_iff.mpr fun empty => ?_
      rw [Text.blank_of_trim empty c member] at solid
      cases solid
    have each : (arg :: args).any List.isEmpty = false := by
      simpa using fun other member => (arguments other member).nonempty
    simp only [full, checked, divided, each, Bool.false_eq_true, if_false]

end Calls
end Statement

open StepScript.Statement in
/-- However the keyword of a line is indented and whatever its letter case, a declaration gives back
the target and the expression that were written, and a call the method, the arguments and the
target, if there is one: the equals signs, commas, parentheses and slashes in literals and groups
divide nothing. -/
theorem statements_decode {indent keyword : Text} (indentation : ∀ c ∈ indent, isBlank c = true) :
    (∀ {target : Target} {e : Text}, keyword.sameWord "declare".toList = true → target.Named →
      Expression e →
        let line := Line.written indent keyword (assigned (some target) e)
        Line.preceder line = .ok .declare ∧ declaredTarget (Line.body line) = .ok target ∧
          declaredExpr (Line.body line) = .ok e) ∧
    ∀ {target? : Option Target} {method : Text} {args : List Text},
      keyword.sameWord "execute".toList = true → (∀ target ∈ target?, target.Named) →
        MethodName method → (∀ arg ∈ args, Argument arg) →
          let line := Line.written indent keyword (assigned target? (called method args))
          Line.preceder line = .ok .execute ∧ methodName (Line.body line) = .ok method ∧
            methodArgs (Line.body line) = .ok args ∧ callTarget (Line.body line) = .ok target? := by
  constructor
  · intro target e same named expression line
    have only : ∀ other ∈ some target, other.Named := by
      rintro other ⟨⟩
      exact named
    have quiet : Line.Quiet e := ⟨expression.uncommented, expression.paired⟩
    obtain ⟨preceder, body⟩ := @Line.decode_written _ _ _ .declare indentation same
      (quiet_assigned only quiet) (bare_assigned only expression.bare)
    rw [show Line.body line = _ from body]
    exact ⟨preceder, declaredTarget_written named expression,
      declaredExpr_written named expression⟩
  · intro target? method args same named name arguments line
    obtain ⟨preceder, body⟩ := @Line.decode_written _ _ _ .execute indentation same
      (quiet_assigned named (quiet_called name arguments))
      (bare_assigned named (bare_called name args))
    rw [show Line.body line = _ from body]
    exact ⟨preceder, methodName_written named name arguments,
      methodArgs_written named name arguments, callTarget_written named name arguments⟩

open StepScript.Statement in
/-- The expression holds slashes, a comparison and an open parenthesis, and the second argument a
comma, an equals sign and a quotient of its own. -/
theorem misleading_signs_decode :
    let declared := "\t DeClare: Int x = y == \"//(;\" / 2;".toList
    let executed := "EXECUTE: x = A: b/c(\"(,\", f(n = 1, 2) / 3);".toList
    Line.preceder declared = .ok .declare ∧
      declaredExpr (Line.body declared) = .ok "y == \"//(;\" / 2".toList ∧
      Line.preceder executed = .ok .execute ∧
      methodName (Line.body executed) = .ok "A: b/c".toList ∧
      methodArgs (Line.body executed) = .ok ["\"(,\"".toList, "f(n = 1, 2) / 3".toList] ∧
      callTarget (Line.body executed) = .ok (some ⟨none, ['x']⟩) := by
  intro declared executed
  have indentation : ∀ c ∈ "\t ".toList, isBlank c = true := List.all_eq_true.mp rfl
  obtain ⟨declarations, _⟩ := @statements_decode "\t ".toList "DeClare".toList indentation
  obtain ⟨_, calls⟩ := @statements_decode [] "EXECUTE".toList (List.forall_mem_nil _)
  have expression : Expression "y == \"//(;\" / 2".toList :=
    ⟨by decide, by decide, by decide, by decide⟩
  have arguments : ∀ arg ∈ ["\"(,\"".toList, "f(n = 1, 2) / 3".toList], Argument arg := by
    have argument : ∀ arg : Text, arg ≠ [] → arg.trim = arg → Group.check arg = .ok () →
        arg.Paired → Group.Shelters ',' false 0 arg → Line.Uncommented false arg → Argument arg :=
      fun _ nonempty trimmed matched paired commas uncommented =>
        ⟨nonempty, trimmed, Group.balanced_of_check matched paired, commas, uncommented⟩
    intro arg member
    simp only [List.mem_cons, List.not_mem_nil, or_false] at member
    rcases member with rfl | rfl
    · exact argument _ (by decide) (by decide) (by decide) (by decide) (by decide) (by decide)
    · exact argument _ (by decide) (by decide) (by decide) (by decide) (by decide) (by decide)
  have name : MethodName "A: b/c".toList :=
    ⟨by decide, by decide, by decide, by decide, by decide, by decide, by decide⟩
  have typed : Target.Named ⟨some "Int".toList, ['x']⟩ :=
    ⟨by decide, by rintro _ ⟨⟩; decide⟩
  have untyped : ∀ target ∈ some (⟨none, ['x']⟩ : Target), target.Named := by
    rintro _ ⟨⟩
    exact ⟨by decide, nofun⟩
  obtain ⟨declares, _, right⟩ := declarations (by decide) typed expression
  obtain ⟨executes, calledMethod, given, target⟩ := calls (by decide) untyped name arguments
  exact ⟨declares, right, executes, calledMethod, given, target⟩

end StepScript
