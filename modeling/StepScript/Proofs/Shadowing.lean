import StepScript.Proofs.Host
import StepScript.Proofs.Separators
import StepScript.Proofs.Substitution

/-! A name that is both a local and an interactive variable. Lookup and assignment go to the
interactive one, while an expression puts in the local one: what it replaces first. -/
namespace StepScript

section Assignment

variable {name expr : Text}

/-- The statement `name = expr;`. -/
def assignment (name expr : Text) : Text :=
  name ++ [' ', '=', ' '] ++ expr ++ [';']

/-- An expression as it can stand in a statement: no blanks at its ends, no quotes, no slashes. -/
structure Inline (expr : Text) : Prop where
  nonempty : expr ≠ []
  first : ∀ c ∈ expr.head?, isBlank c = false
  last : ∀ c ∈ expr.getLast?, isBlank c = false
  quotes : '"' ∉ expr
  slashes : '/' ∉ expr

theorem Line.beforeComment_of_free {t : Text} (free : '/' ∉ t) (inside : Bool) :
    beforeComment inside t = t := by
  induction t generalizing inside with
  | nil => rfl
  | cons c t ih =>
    rw [List.mem_cons, not_or] at free
    rw [beforeComment, ih free.2]
    simp [Ne.symm free.1]

theorem trim_assignment (valid : isName name = true) :
    (assignment name expr).trim = assignment name expr := by
  obtain ⟨c, rest, rfl⟩ := List.exists_cons_of_ne_nil (ne_nil_of_isName valid)
  have full := isBlank_of_isPlain (plain_of_isName valid c List.mem_cons_self)
  exact trim_enclosed full (by decide)

theorem splitEquals_plain {rest : Text} (plain : ∀ c ∈ name, isPlain c = true)
    (previous? : Option Char) :
    Statement.splitEquals false 0 previous? (name ++ [' ', '=', ' '] ++ rest) =
      some (name ++ [' '], ' ' :: rest) :=
  Statement.splitEquals_append (Group.shelters_of_free (not_mem_of_plain plain rfl))
    (Quoted.after_of_free (not_mem_of_plain plain rfl))
    (Group.depth_of_noneOpen (Group.noneOpen_of_free (not_mem_of_plain plain rfl)
      (not_mem_of_plain plain rfl))) previous? rest

theorem trim_left (valid : isName name = true) : Text.trim (name ++ [' ']) = name := by
  obtain ⟨c, rest, rfl⟩ := List.exists_cons_of_ne_nil (ne_nil_of_isName valid)
  have plain := plain_of_isName valid
  have start : Text.trimStart (c :: rest ++ [' ']) = c :: rest ++ [' '] := by
    refine Text.trimStart_of_first ?_
    rintro d ⟨⟩
    exact isBlank_of_isPlain (plain c List.mem_cons_self)
  rw [Text.trim, start, Text.trimEnd_concat (by decide)]
  refine Text.trimEnd_of_last ?_
  intro d last
  exact isBlank_of_isPlain (plain d (List.mem_of_mem_getLast? last))

theorem trim_right (inline : Inline expr) : Text.trim (' ' :: expr) = expr := by
  have start : Text.trimStart (' ' :: expr) = Text.trimStart expr := rfl
  rw [Text.trim, start, Text.trimStart_of_first inline.first, Text.trimEnd_of_last inline.last]

/-- The parts of an assignment. -/
theorem declaration_assignment (valid : isName name = true) (inline : Inline expr) :
    Statement.declaration (assignment name expr) =
      .ok (name ++ [' ', '=', ' '] ++ expr, name, expr) := by
  have plain := plain_of_isName valid
  have whole : Text.trim (name ++ [' ', '=', ' '] ++ expr) = name ++ [' ', '=', ' '] ++ expr := by
    refine Text.trim_of_ends ?_ ?_
    · obtain ⟨c, rest, rfl⟩ := List.exists_cons_of_ne_nil (ne_nil_of_isName valid)
      rintro d ⟨⟩
      exact isBlank_of_isPlain (plain c List.mem_cons_self)
    · rw [List.getLast?_append_of_ne_nil _ inline.nonempty]
      exact inline.last
  have body : Statement.body (assignment name expr) = .ok (name ++ [' ', '=', ' '] ++ expr) := by
    have last : Text.dropSuffix? ';' (assignment name expr) =
        some (name ++ [' ', '=', ' '] ++ expr) := by
      rw [Text.dropSuffix?, assignment, List.getLast?_concat, List.dropLast_concat]
      rfl
    rw [Statement.body, trim_assignment valid, last]
    dsimp only
    rw [whole]
  have free : '"' ∉ name ++ [' ', '=', ' '] ++ expr := by
    simp [quoteFree_of_isName valid, inline.quotes]
  have checked := Quoted.check_ok.mpr (Quoted.after_of_free free)
  have split : Statement.splitAssignment (name ++ [' ', '=', ' '] ++ expr) =
      .ok (some (name, expr)) := by
    rw [Statement.splitAssignment, checked, splitEquals_plain plain]
    change Except.ok (some (Text.trim (name ++ [' ']), Text.trim (' ' :: expr))) = _
    rw [trim_left valid, trim_right inline]
  rw [Statement.declaration, body]
  simp only [bind, Except.bind]
  rw [split]

theorem words_of_isName (valid : isName name = true) : Text.words name = [name] := by
  have cut : splitWhere isBlank name = [name] := by
    have plain := plain_of_isName valid
    clear valid
    induction name with
    | nil => rfl
    | cons c name ih =>
      rw [splitWhere, isBlank_of_isPlain (plain c List.mem_cons_self),
        ih fun d member => plain d (List.mem_cons_of_mem _ member)]
      rfl
  have nonempty := ne_nil_of_isName valid
  simp [Text.words, cut, nonempty]

/-- A `declare` line with an assignment. -/
def declareLine (name expr : Text) : Text :=
  ['d', 'e', 'c', 'l', 'a', 'r', 'e', ':', ' '] ++ assignment name expr

theorem perform_declareLine (language : Language) (entropy : Entropy) (scope : Scope)
    (valid : isName name = true) (inline : Inline expr) :
    Action.perform language entropy scope (declareLine name expr) =
      ⟨.update <$> Action.declare language scope (assignment name expr), [], entropy⟩ := by
  have cleaned : Line.clean (declareLine name expr) = declareLine name expr := by
    have trimmed : (declareLine name expr).trim = declareLine name expr := by
      have enclosed : declareLine name expr =
          'd' :: (['e', 'c', 'l', 'a', 'r', 'e', ':', ' '] ++ (name ++ [' ', '=', ' '] ++ expr)) ++
            [';'] := rfl
      rw [enclosed]
      exact trim_enclosed (by decide) (by decide)
    have slashes : '/' ∉ declareLine name expr := by
      have nameFree : '/' ∉ name := not_mem_of_plain (plain_of_isName valid) rfl
      simp [declareLine, assignment, nameFree, inline.slashes]
    rw [Line.clean, trimmed, Line.beforeComment_of_free slashes, trimmed]
  have cut : Text.splitFirst ':' (declareLine name expr) =
      some (['d', 'e', 'c', 'l', 'a', 'r', 'e'], ' ' :: assignment name expr) := rfl
  have preceder : Line.preceder (declareLine name expr) = .ok .declare := by
    rw [Line.preceder, cleaned, cut]
    rfl
  have body : Line.body (declareLine name expr) = assignment name expr := by
    rw [Line.body, cleaned, cut]
    exact trim_assignment valid
  rw [Action.perform, preceder, body]

/-- An assignment to a variable that is there evaluates for its kind and overwrites it. -/
theorem declare_assignment {scope : Scope} {old : Value} (language : Language)
    (valid : isName name = true) (inline : Inline expr) (present : scope.get? name = some old) :
    Action.declare language scope (assignment name expr) =
      (Expr.evaluate old.kind expr scope).bind (scope.assign name) := by
  have target : Statement.declaredTarget (assignment name expr) = .ok ⟨none, name⟩ := by
    rw [Statement.declaredTarget, declaration_assignment valid inline]
    simp only [bind, Except.bind, Statement.Target.ofText, words_of_isName valid]
  have right : Statement.declaredExpr (assignment name expr) = .ok expr := by
    rw [Statement.declaredExpr, declaration_assignment valid inline]
    simp [bind, Except.bind, inline.nonempty]
  simp only [Action.declare, target, right, Action.writtenKind, present, Action.checkWritten, bind,
    Except.bind]

end Assignment

namespace Arithmetic

open Decimal

/-- One more than a number. -/
theorem evaluate_add_one {α : Type} {body : Text} (domain : Domain α) (negative : Bool)
    (plain : ∀ c ∈ body, isPlain c = true) (nonempty : body ≠ []) :
    evaluate domain (signed negative body ++ [' ', '+', ' ', '1']) =
      domain.apply .add (domain.read (signed negative body)) (domain.read ['1']) := by
  have free : '"' ∉ signed negative body ++ [' ', '+', ' ', '1'] := by
    simp [not_mem_signed plain (show isPlain '"' = false from rfl)]
  have separates : Separates [' ', '+', ' ', '1'] := by
    rintro c ⟨⟩
    exact .inl rfl
  have scanned := scan_operand plain nonempty separates
  have rest : scan [' ', '+', ' ', '1'] =
      [⟨.gap, [' ']⟩, ⟨.operator .add, ['+']⟩, ⟨.gap, [' ']⟩, ⟨.operand, ['1']⟩] := rfl
  rw [evaluate, Quoted.mapLiterals_of_free free]
  cases negative with
  | false =>
    simp only [signed, Bool.false_eq_true, if_false, tokens, scanned, rest]
    exact fold_single domain .add _ _
  | true =>
    have sign : scan ('-' :: body ++ [' ', '+', ' ', '1']) =
        ⟨.operator .sub, ['-']⟩ :: scan (body ++ [' ', '+', ' ', '1']) := rfl
    simp only [signed, if_true, tokens, sign, scanned, rest]
    exact fold_single domain .add _ _

end Arithmetic

theorem Expr.evaluateText_add_one (n : Int64) :
    evaluateText .int (Decimal.renderInt n ++ [' ', '+', ' ', '1']) = .ok (.int (n + 1)) := by
  have plain := plain_toDigits n.toInt.natAbs
  have nonempty : Nat.toDigits 10 n.toInt.natAbs ≠ [] := Nat.toDigits_ne_nil
  have written := renderInteger_eq n.toInt
  have back := readIntOrZero_renderInt n
  rw [Decimal.renderInt, written] at back ⊢
  generalize decide (n.toInt < 0) = negative at back ⊢
  generalize Nat.toDigits 10 n.toInt.natAbs = body at plain nonempty back ⊢
  have trimmed : Text.trim (Decimal.signed negative body ++ [' ', '+', ' ', '1']) =
      Decimal.signed negative body ++ [' ', '+', ' ', '1'] := by
    refine Text.trim_of_ends ?_ ?_
    · rw [List.head?_append_of_ne_nil _ (signed_ne_nil nonempty)]
      exact signed_first plain
    · rw [List.getLast?_append_of_ne_nil _ (List.cons_ne_nil _ _)]
      rintro c ⟨⟩
      rfl
  have free : ∀ d, isPlain d = false → d ≠ '-' → d ∉ [' ', '+', ' ', '1'] →
      d ∉ Decimal.signed negative body ++ [' ', '+', ' ', '1'] := by
    intro d other unsigned missing member
    rcases List.mem_append.mp member with found | found
    · exact not_mem_signed plain other unsigned found
    · exact missing found
  rw [evaluateText_flat trimmed (Quoted.after_of_free (free _ rfl (by decide) (by decide)))
    (Group.noneOpen_of_free (free _ rfl (by decide) (by decide))
      (free _ rfl (by decide) (by decide)))]
  change Value.int <$> Arithmetic.evaluate Arithmetic.ints _ = _
  rw [Arithmetic.evaluate_add_one _ _ plain nonempty]
  change Except.ok (Value.int (readIntOrZero (Decimal.signed negative body) + 1)) = _
  rw [back]

/-- A step outside any block whose line gives a new scope. -/
theorem Script.step_update {script : Script} {raw : Text} {after : Scope}
    (running : script.isDone = false) (outside : script.frame? = none)
    (line : script.nextLine? = some raw)
    (done : (Action.perform script.language script.entropy script.main.scope raw).result =
      .ok (.update after)) : script.step.script.main.scope = after := by
  simp only [nextLine?, running, outside, Bool.false_eq_true, if_false, Pass.nextLine?,
    Option.map_eq_some_iff] at line
  obtain ⟨⟨index, raw, main⟩, advanced, rfl⟩ := line
  have scope : main.scope = script.main.scope := by rw [Pass.advance?_next advanced]
  simp only [step, running, outside, Bool.false_eq_true, if_false, stepLine, advanced, scope, done]
  rfl

section Clash

variable {name : Text} {a b : Value}

/-- The scope whose only name is a local with the value `a` and interactive with the value `b`. -/
def clash (name : Text) (a b : Value) : Scope :=
  ⟨[(Scope.key name, a)], [(Scope.key name, b)]⟩

theorem clash_of_tables {scope : Scope} (locals : scope.locals = [(Scope.key name, a)])
    (interactive : scope.interactive = [(Scope.key name, b)]) : scope = clash name a b := by
  cases scope
  cases locals
  cases interactive
  rfl

theorem clash_get? (name : Text) (a b : Value) : (clash name a b).get? name = some b := by
  simp [clash, Scope.get?, Table.find?]

theorem clash_assign (name : Text) {a b c : Value} (sameKind : c.kind = b.kind) :
    (clash name a b).assign name c = .ok (clash name a c) := by
  have found : ∀ v, Table.find? [(Scope.key name, v)] (Scope.key name) = some v := by
    intro v
    simp [Table.find?]
  simp [clash, Scope.assign, Scope.setInteractive, Scope.checkKind, found, sameKind, Table.insert,
    bind, Except.bind, pure, Except.pure]

theorem clash_tame (valid : isName name.trim = true) (aFree : a.QuoteFree) (bFree : b.QuoteFree) :
    (clash name a b).substitutionOrder.Tame := by
  have keyValid := isName_key valid
  intro entry member
  rcases List.mem_cons.mp member with rfl | member
  · exact ⟨keyValid, aFree⟩
  · obtain rfl := List.mem_singleton.mp member
    exact ⟨keyValid, bFree⟩

/-- The local comes in first, and the interactive variable only where its name stands in what the
local has made of the text. -/
theorem evaluate_clash_append {rest : Text} (valid : isName name = true) (aFree : a.QuoteFree)
    (bFree : b.QuoteFree) (trimmed : Text.trim (name ++ rest) = name ++ rest)
    (paired : Text.Paired (name ++ rest)) (kind : Kind) :
    Expr.evaluate kind (name ++ rest) (clash name a b) =
      Expr.evaluateText kind (Expr.replace (Scope.key name) b false 0
        (a.literal ++ Expr.replace (Scope.key name) a false 0 rest)) := by
  have nameTrimmed := trim_of_plain (plain_of_isName valid)
  have same : name.lower = Scope.key name := by rw [Scope.key, nameTrimmed]
  have tame := clash_tame (by rwa [nameTrimmed]) aFree bFree
  rw [Expr.evaluate_eq tame paired, trimmed]
  change Expr.evaluateText kind (Expr.replace (Scope.key name) b false 0
    (Expr.replace (Scope.key name) a false 0 (name ++ rest))) = _
  rw [Expr.replace_here a same (ne_nil_of_isName valid)]

theorem key_trim (valid : isName name.trim = true) : Scope.key name.trim = Scope.key name := by
  rw [Scope.key, Scope.key, trim_of_plain (plain_of_isName valid)]

theorem clash_trim (valid : isName name.trim = true) (a b : Value) :
    clash name.trim a b = clash name a b := by
  rw [clash, clash, key_trim valid]

theorem evaluate_clash (valid : isName name.trim = true) (aFree : a.QuoteFree) (bFree : b.QuoteFree)
    (kind : Kind) :
    Expr.evaluate kind name (clash name a b) =
      Expr.evaluateText kind (Expr.replace (Scope.key name) b false 0 a.literal) := by
  have trimmed := trim_of_plain (plain_of_isName valid)
  have paired : Text.Paired name.trim := Quoted.after_of_free (quoteFree_of_isName valid)
  have whole : Expr.evaluate kind name (clash name a b) =
      Expr.evaluate kind name.trim (clash name.trim a b) := by
    rw [clash_trim valid, Expr.evaluate, Expr.evaluate, trimmed]
  have nothing := List.append_nil name.trim
  have inserted := evaluate_clash_append valid aFree bFree (by rw [nothing, trimmed])
    (by rwa [nothing]) kind
  rw [whole, ← key_trim valid]
  simpa [Expr.replace] using inserted

/-- A name that is not part of the literal of the local reads as the local. -/
theorem evaluate_clash_local (valid : isName name.trim = true) (aReadable : a.Readable)
    (bFree : b.QuoteFree) (apart : Expr.occurs (Scope.key name) false a.literal = false) :
    Expr.evaluate a.kind name (clash name a b) = .ok a := by
  rw [evaluate_clash valid aReadable.quoteFree bFree, Expr.replace_of_not_occurs apart,
    Expr.evaluateText_literal aReadable]

/-- The line `declare: name = name + 1;`. -/
def incrementLine (name : Text) : Text :=
  declareLine name (name ++ [' ', '+', ' ', '1'])

theorem inline_increment (valid : isName name = true) : Inline (name ++ [' ', '+', ' ', '1']) := by
  have plain := plain_of_isName valid
  refine ⟨by simp, ?_, ?_, ?_, ?_⟩
  · rw [List.head?_append_of_ne_nil _ (ne_nil_of_isName valid)]
    intro c first
    exact isBlank_of_isPlain (plain c (List.mem_of_mem_head? first))
  · rw [List.getLast?_append_of_ne_nil _ (List.cons_ne_nil _ _)]
    rintro c ⟨⟩
    rfl
  · simp [quoteFree_of_isName valid]
  · simp [not_mem_of_plain plain (show isPlain '/' = false from rfl)]

/-- The increment adds to the local and writes the interactive variable. -/
theorem perform_increment {x : Int64} (language : Language) (entropy : Entropy)
    (valid : isName name.trim = true) (y : Int64)
    (apart : Expr.occurs (Scope.key name) false
      ((Value.int x).literal ++ [' ', '+', ' ', '1']) = false) :
    (Action.perform language entropy (clash name (.int x) (.int y))
        (incrementLine name.trim)).result =
      .ok (.update (clash name (.int x) (.int (x + 1)))) := by
  have inline := inline_increment valid
  have trimmed := Text.trim_of_ends inline.first inline.last
  have free : ∀ n, (Value.int n).QuoteFree := fun _ => trivial
  have absent : Expr.occurs (Scope.key name) false [' ', '+', ' ', '1'] = false := by
    have tail := Expr.occurs_suffix apart
    rwa [Value.after_literal (free x)] at tail
  have sum : Expr.evaluate .int (name.trim ++ [' ', '+', ' ', '1'])
      (clash name.trim (.int x) (.int y)) = .ok (.int (x + 1)) := by
    rw [evaluate_clash_append valid (free x) (free y) trimmed
      (Quoted.after_of_free inline.quotes), key_trim valid, Expr.replace_of_not_occurs absent,
      Expr.replace_of_not_occurs apart]
    exact Expr.evaluateText_add_one x
  have written : (clash name.trim (.int x) (.int y)).assign name.trim (.int (x + 1)) =
      .ok (clash name.trim (.int x) (.int (x + 1))) := clash_assign _ rfl
  rw [incrementLine, perform_declareLine language entropy _ valid inline, ← clash_trim valid,
    ← clash_trim valid, declare_assignment language valid inline (clash_get? _ _ _)]
  change Action.update <$> (Expr.evaluate .int _ _).bind _ = _
  rw [sum]
  change Action.update <$> (clash name.trim (.int x) (.int y)).assign name.trim _ = _
  rw [written]
  rfl

/-- Where a name is both a local with the value `a` and interactive with the value `b`, lookup and
assignment are those of the interactive variable, but an expression reads the local: unless the
name is part of the local's literal it gives the interactive value only if the two are the same, and
an increment makes of the interactive variable one more than the local. -/
theorem expression_reads_the_local (valid : isName name.trim = true) (sameKind : a.kind = b.kind)
    (aReadable : a.Readable) (bReadable : b.Readable) :
    let scope := clash name a b
    scope.get? name = some b ∧
    (∀ c : Value, c.kind = b.kind → scope.assign name c = .ok (clash name a c)) ∧
    Expr.evaluate b.kind name scope =
      Expr.evaluateText b.kind (Expr.replace (Scope.key name) b false 0 a.literal) ∧
    (Expr.occurs (Scope.key name) false a.literal = false →
      Expr.evaluate b.kind name scope = .ok a ∧
      (Expr.evaluate b.kind name scope = .ok b ↔ a = b)) ∧
    ∀ (script : Script) (x y : Int64), a = .int x → b = .int y → script.isDone = false →
      script.frame? = none → script.main.scope = scope →
      script.nextLine? = some (incrementLine name.trim) →
      Expr.occurs (Scope.key name) false (a.literal ++ [' ', '+', ' ', '1']) = false →
      script.step.script.main.scope = clash name a (.int (x + 1)) ∧
      (script.step.script.lookup? name = some (.int (y + 1)) ↔ x = y) := by
  intro scope
  refine ⟨clash_get? name a b, fun c same => clash_assign name same, ?_, ?_, ?_⟩
  · exact evaluate_clash valid aReadable.quoteFree bReadable.quoteFree b.kind
  · intro apart
    have read : Expr.evaluate b.kind name scope = .ok a := by
      rw [← sameKind]
      exact evaluate_clash_local valid aReadable bReadable.quoteFree apart
    refine ⟨read, ?_⟩
    rw [read, Except.ok.injEq]
  · rintro script x y rfl rfl running outside held line apart
    have done := perform_increment script.language script.entropy valid y apart
    rw [show clash name (.int x) (.int y) = script.main.scope from held.symm] at done
    have after := Script.step_update running outside line done
    refine ⟨after, ?_⟩
    rw [Script.lookup?, after, clash_get?]
    constructor
    · intro same
      simp only [Option.some.injEq, Value.int.injEq] at same
      grind
    · rintro rfl
      rfl

/-- The script declares `n` as 1, the host adds an interactive `n` of 10, and the script makes it
2. -/
theorem host_value_is_not_incremented :
    let lines := ["declare: Int n = 1;", "declare: n = n + 1;"].map String.toList
    let script := [HostOp.step, .add ['n'] (.int 10)].foldl (fun script op => op.apply script)
      (.new ⟨[], [⟨.int 0, []⟩], []⟩ 0 lines)
    Reachable script ∧ script.lookup? ['n'] = some (.int 10) ∧
      Expr.evaluate .int ['n'] script.main.scope = .ok (.int 1) ∧
      script.step.script.lookup? ['n'] = some (.int 2) := by
  intro lines script
  have held : script.main.scope = clash ['n'] (.int 1) (.int 10) :=
    clash_of_tables (by decide +kernel) (by decide +kernel)
  obtain ⟨shown, _, _, reads, increments⟩ :=
    expression_reads_the_local (show isName (Text.trim ['n']) = true by decide)
      (show (Value.int 1).kind = (Value.int 10).kind from rfl) trivial trivial
  obtain ⟨after, _⟩ := increments script 1 10 rfl rfl (by decide +kernel) (by decide +kernel) held
    (by decide +kernel) (by decide +kernel)
  have reached : Reachable script := .next (.add _ _) (.next .step (.new _ _ _))
  refine ⟨reached, ?_, ?_, ?_⟩
  · rw [Script.lookup?, held, shown]
  · rw [held]
    exact (reads (by decide +kernel)).1
  · rw [Script.lookup?, after]
    exact clash_get? _ _ _

/-- Expressions do not see the variable that lookup shows. -/
theorem expression_misses_the_interactive :
    ¬ ∀ (name : Text) (a b : Value), isName name.trim = true → a.kind = b.kind → a.Readable →
      b.Readable → ∀ shown, (clash name a b).get? name = some shown →
        Expr.evaluate b.kind name (clash name a b) = .ok shown := by
  intro agree
  have wrong := agree ['n'] (.int 1) (.int 2) (by decide) rfl trivial trivial _ (clash_get? _ _ _)
  have read : Expr.evaluate (Value.int 2).kind ['n'] (clash ['n'] (.int 1) (.int 2)) = .ok (.int 1) :=
    evaluate_clash_local (by decide) trivial trivial (by decide +kernel)
  rw [read] at wrong
  cases wrong

end Clash

end StepScript
