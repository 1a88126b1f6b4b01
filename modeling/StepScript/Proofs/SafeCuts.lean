import StepScript.Proofs.FoldingPasses
import StepScript.Proofs.OperandCuts

/-! Evaluation over encoded texts. Variables are replaced, groups are resolved and what is left is
folded, all by cutting texts at byte offsets and by looking up operands by index. None of it is ever
without a result, so that no offset is beyond a text or within a character, and no index is out of
range. What is computed is what the evaluator computes over characters. -/
namespace StepScript

namespace Encoded

open StepScript.Text StepScript.Group

variable {t raw : Text} {kind target : Kind} {answer : Kind → Text → Cutting Value}

section Flat

/-- A condition without groups, whose operands are worth what `answer` says. -/
def condition (answer : Kind → Text → Cutting Value) (t : Text) : Cutting Bool := do
  let found ← items answer t
  match Condition.chain? found with
  | some (first, more) => Condition.fold false true first more
  | none => throw (Condition.countError found)

def evaluateFlat (answer : Kind → Text → Cutting Value) (kind : Kind) (t : Text) :
    Cutting Value :=
  match kind with
  | .int => .int <$> arithmetic Arithmetic.ints t
  | .double => .double <$> arithmetic Arithmetic.doubles t
  | .string => .string <$> concatenate t
  | .bool => .bool <$> condition answer t

theorem condition_run {result : Kind → Text → Except Error Value}
    (answers : ∀ kind inner, Condition.Calls t kind inner →
      (answer kind inner).run = some (result kind inner)) :
    (condition answer t).run = some (Condition.evaluateWith result t) := by
  refine (Cutting.run_bind (g := fun found => match Condition.chain? found with
    | some (first, more) => Condition.fold false true first more
    | none => .error (Condition.countError found)) (items_run answers) fun found _ => ?_).trans ?_
  · cases Condition.chain? found <;> rfl
  · exact congrArg some (bind_assoc _ _ _)

theorem evaluateFlat_run (flat : Flat t) (answers : kind = .bool →
      ∀ kind inner, Condition.Calls t kind inner →
        (answer kind inner).run = some (Expr.evaluateText kind inner)) :
    (evaluateFlat answer kind t).run = some (Expr.evaluateFlat kind t) := by
  have quotes := Quoted.check_ok.mpr flat.paired
  have numbers {α : Type} (domain : Arithmetic.Domain α) :
      (arithmetic domain t).run = some (Arithmetic.evaluate domain t) := by
    rw [arithmetic_run, quotes]
    rfl
  cases kind with
  | int => exact Cutting.run_map (numbers _) _
  | double => exact Cutting.run_map (numbers _) _
  | string =>
    refine Cutting.run_map ?_ _
    rw [concatenate_run, quotes]
    rfl
  | bool =>
    refine Cutting.run_map ?_ _
    rw [condition_run (answers rfl), ← Condition.evaluateWith_evaluateFlat]
    refine congrArg some (Condition.evaluateWith_congr fun kind inner calls => ?_)
    rw [Expr.evaluateText_flatten_eq (calls.flat flat), calls.trimmed]

end Flat

section Groups

/-- Replaces the latest group by the literal of what it is worth, until there is none. There is no
result where a group is left after this number of rounds. -/
def resolve (answer : Kind → Text → Cutting Value) (target : Kind) : Nat → Text → Cutting Text
  | 0, _ => ExceptT.mk none
  | rounds + 1, t => do
    let cut? ← latest? t
    match cut? with
    | none => return t
    | some cut => do
      let kind ← groupKind target cut.inner
      let value ← answer kind cut.inner
      resolve answer target rounds (cut.fill value.literal)

theorem resolve_flat (flat : Flat t) (answer : Kind → Text → Cutting Value) (target : Kind)
    (rounds : Nat) :
    (resolve answer target (rounds + 1) t).run = some (Expr.resolved target t) := by
  have none : (latest? t).run = some (.ok none) := by
    rw [latest?_run, Quoted.check_ok.mpr flat.paired, Group.check, spans_flat flat,
      last?_noneOpen flat.none]
    rfl
  rw [resolve, Cutting.run_bind_ok none, Expr.resolved_flat flat]
  rfl

theorem resolve_last {cut : Cut} (balanced : Balanced t) (last : cut.Last t)
    (answers : ∀ kind, (answer kind cut.inner).run = some (Expr.evaluateText kind cut.inner))
    {rounds : Nat} (rest : ∀ u, Flat u →
      (resolve answer target rounds (cut.fill u)).run = some (Expr.resolved target (cut.fill u))) :
    (resolve answer target (rounds + 1) t).run = some (Expr.resolved target t) := by
  have found : (latest? t).run = some (.ok (some cut)) := by
    rw [latest?_run, Quoted.check_ok.mpr balanced.paired, balanced.check, last.last?]
    rfl
  have asked := Expr.askedKind_flat last.inner target
  rw [resolve, Cutting.run_bind_ok found, (Expr.takes_last balanced last).resolved_eq asked,
    bind_map_left]
  dsimp only
  rw [groupKind_eq, asked]
  refine Cutting.run_bind (answers _) fun value worth => ?_
  exact rest value.literal (value.flat_literal (Expr.evaluateText_quoteFree worth))

theorem resolve_balanced (balanced : Balanced t) (answers : ∀ kind inner, Flat inner →
      (answer kind inner).run = some (Expr.evaluateText kind inner)) {rounds : Nat}
    (enough : opens false t < rounds) :
    (resolve answer target rounds t).run = some (Expr.resolved target t) := by
  induction balanced using Balanced.last_induction generalizing rounds with
  | flat t flat =>
    obtain ⟨rounds, rfl⟩ := Nat.exists_eq_succ_of_ne_zero (Nat.ne_zero_of_lt enough)
    exact resolve_flat flat answer target rounds
  | last t cut balanced last ih =>
    obtain ⟨rounds, rfl⟩ := Nat.exists_eq_succ_of_ne_zero (Nat.ne_zero_of_lt enough)
    refine resolve_last balanced last (fun kind => answers kind _ last.inner) fun u flat => ?_
    have fewer := last.opens_fill flat
    exact ih u flat (by omega)

theorem resolve_run (answers : ∀ kind inner, Flat inner →
      (answer kind inner).run = some (Expr.evaluateText kind inner)) (target : Kind) (t : Text) :
    (resolve answer target (t.count '(' + 1) t).run = some (Expr.resolved target t) := by
  have cut := latest?_run t
  cases quotes : Quoted.check t with
  | error e =>
    rw [quotes] at cut
    rw [resolve, Cutting.run_bind_error cut, Expr.resolved, quotes]
    rfl
  | ok =>
    cases groups : Group.check t with
    | error e =>
      rw [quotes, groups] at cut
      rw [resolve, Cutting.run_bind_error cut, Expr.resolved, quotes, groups]
      rfl
    | ok =>
      have balanced := balanced_of_check groups (Quoted.check_ok.mp quotes)
      exact resolve_balanced balanced answers (Nat.lt_succ_of_le (opens_le_count false t))

end Groups

section Evaluation

/-- Evaluation of a text calls itself for the contents of a group and for an operand of a condition.
There is no result where more calls than `depth` are within each other. -/
def evaluateText : Nat → Kind → Text → Cutting Value
  | 0, _, _ => ExceptT.mk none
  | depth + 1, kind, raw => do
    let text := raw.trim
    let flat ← resolve (evaluateText depth) kind (text.count '(' + 1) text
    evaluateFlat (evaluateText depth) kind flat

/-- A text may have a group, and the group an operand, which has neither groups nor operands. -/
def evaluate (kind : Kind) (raw : Text) (scope : Scope) : Cutting Value := do
  let text := raw.trim
  let _ ← literals text
  let replaced ← substitute scope.substitutionOrder text
  evaluateText 3 kind replaced

theorem evaluateText_flat (flat : Flat raw) (other : kind ≠ .bool) (depth : Nat) :
    (evaluateText (depth + 1) kind raw).run = some (Expr.evaluateText kind raw) := by
  rw [Expr.evaluateText_eq]
  refine Cutting.run_bind (resolve_flat flat.trim _ kind _) fun whole resolved => ?_
  exact evaluateFlat_run (Expr.flat_of_resolved resolved) fun condition => absurd condition other

theorem evaluateText_operands (flat : Flat raw) (kind : Kind) (depth : Nat) :
    (evaluateText (depth + 2) kind raw).run = some (Expr.evaluateText kind raw) := by
  rw [Expr.evaluateText_eq]
  refine Cutting.run_bind (resolve_flat flat.trim _ kind _) fun whole resolved => ?_
  have wholeFlat := Expr.flat_of_resolved resolved
  exact evaluateFlat_run wholeFlat fun _ kind inner calls =>
    evaluateText_flat (calls.flat wholeFlat) calls.kind_ne_bool depth

theorem evaluateText_run (kind : Kind) (raw : Text) (depth : Nat) :
    (evaluateText (depth + 3) kind raw).run = some (Expr.evaluateText kind raw) := by
  rw [Expr.evaluateText_eq]
  have answers : ∀ kind inner, Flat inner → (evaluateText (depth + 2) kind inner).run =
      some (Expr.evaluateText kind inner) := fun kind inner flat =>
    evaluateText_operands flat kind depth
  refine Cutting.run_bind (resolve_run answers kind _) fun whole resolved => ?_
  have wholeFlat := Expr.flat_of_resolved resolved
  exact evaluateFlat_run wholeFlat fun _ kind inner calls =>
    answers kind inner (calls.flat wholeFlat)

theorem evaluate_run {scope : Scope}
    (named : ∀ entry ∈ scope.locals ++ scope.interactive, isName entry.1 = true) (kind : Kind)
    (raw : Text) : (evaluate kind raw scope).run = some (Expr.evaluate kind raw scope) := by
  have valid : ∀ entry ∈ scope.substitutionOrder, isName entry.1 = true := fun entry member =>
    named entry ((Scope.substitutionOrder_perm scope).mem_iff.mp member)
  refine run_literals fun _ _ => ?_
  exact Cutting.run_bind (substitute_run valid _) fun replaced _ => evaluateText_run kind replaced 0

end Evaluation

section Safety

/-- Every cut of a line, or of the statement on it, is made. The arguments of a call reach from its
first parenthesis, which may stand in a literal, to its last byte. -/
structure CutsLine (raw : Text) : Prop where
  clean : Encoded.clean raw = some (Line.clean raw)
  preceder : (Encoded.preceder raw).run = some (Line.preceder raw)
  body : Encoded.body raw = some (Line.body raw)
  assignment : (splitAssignment raw).run = some (Statement.splitAssignment raw)
  methodName : (Encoded.methodName raw).run = some (Statement.methodName raw)
  methodArgs : (Encoded.methodArgs raw).run = some (Statement.methodArgs raw)
  arguments : ∀ call, Statement.call raw = .ok call → ∃ opening last,
    find? '(' call = some opening ∧ call.width = last + 1 ∧ opening + 1 ≤ last ∧
      call.IsBoundary (opening + 1) ∧ call.IsBoundary last ∧
      call.slice? (opening + 1) last = some (Statement.argumentText call)

/-- Every cut of an expression is made, whatever its operands are worth. -/
structure CutsExpression (raw : Text) (scope : Scope) : Prop where
  replace : ∀ entry ∈ scope.locals ++ scope.interactive,
    (Encoded.replace entry.1 entry.2.literal raw).run =
      some ((fun _ => Expr.replace entry.1 entry.2 false 0 raw) <$> Quoted.check raw)
  latest : (latest? raw).run = some (do
    Quoted.check raw
    Group.check raw
    return Group.last? raw)
  unquote : ∀ f, (Encoded.unquote f raw).run =
    some ((fun _ => Quoted.mapLiterals f raw) <$> Quoted.check raw)
  concatenate : (Encoded.concatenate raw).run = some (do
    Quoted.check raw
    Concatenation.evaluate raw)
  arithmetic : ∀ {α : Type} (domain : Arithmetic.Domain α), (Encoded.arithmetic domain raw).run =
    some (do
      Quoted.check raw
      Arithmetic.evaluate domain raw)
  items : ∀ answer result, (∀ kind inner, Condition.Calls raw kind inner →
    (answer kind inner).run = some (result kind inner)) → (Encoded.items answer raw).run =
      some (Condition.pieces raw >>= List.mapM (Condition.Piece.evaluateWith result))
  evaluate : ∀ kind, (Encoded.evaluate kind raw scope).run = some (Expr.evaluate kind raw scope)

theorem cutsLine (raw : Text) : CutsLine raw where
  clean := clean_eq raw
  preceder := preceder_run raw
  body := body_eq raw
  assignment := splitAssignment_run raw
  methodName := methodName_run raw
  methodArgs := methodArgs_run raw
  arguments call called := by
    obtain ⟨name, _, found, _, last, width, cut⟩ := find?_of_call called
    obtain ⟨ordered, front, back⟩ := exists_slice?_iff.mp ⟨_, cut⟩
    exact ⟨name.width, last, found, (Nat.ppred_eq_some.mp width).symm, ordered, front, back, cut⟩

theorem cutsExpression {scope : Scope}
    (named : ∀ entry ∈ scope.locals ++ scope.interactive, isName entry.1 = true) (raw : Text) :
    CutsExpression raw scope where
  replace entry member := replace_run (named entry member) entry.2 raw
  latest := latest?_run raw
  unquote f := unquote_run f raw
  concatenate := concatenate_run raw
  arithmetic domain := arithmetic_run domain raw
  items _ _ answers := items_run answers
  evaluate kind := evaluate_run named kind raw

end Safety
end Encoded

open StepScript.Arithmetic in
/-- No cut and no index is out of range. A slice is there exactly between boundaries of the text, in
order, and it consists of the bytes between them. Every slice that is asked for on lines, in
statements and in expressions is there, for all texts, for variables with names of the language, and
for every kind. While the operators of an expression are folded there is one operand more than there
are operators, so that all operands a fold reads are there, and so is the one left at the end. -/
theorem no_cut_out_of_range {scope : Scope}
    (named : ∀ entry ∈ scope.locals ++ scope.interactive, isName entry.1 = true) (raw : Text) :
    (∀ (t : Text) start stop, (∃ u, t.slice? start stop = some u) ↔
      start ≤ stop ∧ stop ≤ t.width ∧ t.IsBoundary start ∧ t.IsBoundary stop) ∧
    (∀ (t u : Text) start stop, t.slice? start stop = some u →
      u.bytes = (t.bytes.drop start).take (stop - start)) ∧
    Encoded.CutsLine raw ∧ Encoded.CutsExpression raw scope ∧
    ∀ {α : Type} (domain : Domain α) tokens, Folding.InRange domain tokens := by
  refine ⟨fun t start stop => ?_, fun t u start stop cut => Text.bytes_slice? cut,
    Encoded.cutsLine raw, Encoded.cutsExpression named raw, Folding.inRange⟩
  rw [Text.exists_slice?_iff]
  constructor
  · rintro ⟨ordered, front, back⟩
    exact ⟨ordered, back.le_width, front, back⟩
  · rintro ⟨ordered, _, front, back⟩
    exact ⟨ordered, front, back⟩

/-- The first parenthesis of the call stands in a literal, behind a wide character, and the name of
the variable stands in one as well. -/
theorem no_cut_out_of_range_in_literals :
    (∃ last, Encoded.find? '(' "\"é(\"(\"x\")".toList = some 3 ∧
      Text.width "\"é(\"(\"x\")".toList = last + 1 ∧
      Text.slice? "\"é(\"(\"x\")".toList 4 last = some "\"(\"x\"".toList) ∧
    (Encoded.evaluate .string "\"éx\" + X".toList ⟨[("x".toList, .string "ü".toList)], []⟩).run =
      some (.ok (.string "éxü".toList)) := by
  have named : ∀ entry ∈ [("x".toList, Value.string "ü".toList)] ++ [], isName entry.1 = true := by
    decide
  obtain ⟨_, _, line, _, _⟩ := @no_cut_out_of_range ⟨[("x".toList, .string "ü".toList)], []⟩ named
    "\"é(\"(\"x\");".toList
  obtain ⟨_, _, _, expression, _⟩ := @no_cut_out_of_range
    ⟨[("x".toList, .string "ü".toList)], []⟩ named "\"éx\" + X".toList
  have called : Statement.call "\"é(\"(\"x\");".toList = .ok "\"é(\"(\"x\")".toList := by rfl
  constructor
  · obtain ⟨opening, last, found, width, _, _, _, cut⟩ := line.arguments _ called
    obtain rfl : 3 = opening := Option.some.inj ((show _ = some 3 by rfl).symm.trans found)
    exact ⟨last, found, width, cut⟩
  · rw [expression.evaluate]
    rfl

end StepScript
