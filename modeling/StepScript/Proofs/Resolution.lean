import StepScript.Proofs.Matching
import StepScript.Proofs.Operands

/-! Resolution of groups as a loop. Evaluation is described by rules, with no bound on the rounds of
the loop and with every call it makes of itself: for the contents of a group, and for the operands
of a condition. A derivation is a run that ends. There is one for every text, and its result is what
the evaluator computes: each round leaves two parentheses less, and no call meets a group. -/
namespace StepScript

namespace Expr

open StepScript.Group

/-- A round of the loop finds the text in order and takes this group, of all the latest. -/
structure Takes (t : Text) (cut : Group.Cut) : Prop where
  paired : Quoted.check t = .ok ()
  latest : ∃ found, Group.spans t = .ok found ∧ cut.Latest t found

/-- The kind for which the contents of a group are evaluated. To find it out of the contents, their
quotes are paired once more. -/
def askedKind (target : Kind) (inner : Text) : Except Error Kind :=
  if target.isNumeric then .ok target
  else do
    Quoted.check inner
    return groupKind target inner

mutual

/-- Evaluation of a text: its groups are resolved, and what is left is folded. All operands of a
condition have answers here, also those behind one that fails. -/
inductive Evaluates : Kind → Text → Except Error Value → Prop where
  | unresolved {kind : Kind} {raw : Text} {e : Error} (failed : Resolves kind raw.trim (.error e)) :
      Evaluates kind raw (.error e)
  | folded {kind : Kind} {raw flat : Text} (resolved : Resolves kind raw.trim (.ok flat))
      (other : kind ≠ .bool) : Evaluates kind raw (evaluateFlat kind flat)
  | condition {raw flat : Text} {answer : Kind → Text → Except Error Value}
      (resolved : Resolves .bool raw.trim (.ok flat))
      (answers : ∀ kind inner, Condition.Calls flat kind inner →
        Evaluates kind inner (answer kind inner)) :
      Evaluates .bool raw (.bool <$> Condition.evaluateWith answer flat)

/-- The loop that replaces the latest group by its value until there is none. -/
inductive Resolves : Kind → Text → Except Error Text → Prop where
  | unpaired {target : Kind} {t : Text} {e : Error} (quotes : Quoted.check t = .error e) :
      Resolves target t (.error e)
  | unmatched {target : Kind} {t : Text} {e : Error} (quotes : Quoted.check t = .ok ())
      (groups : Group.spans t = .error e) : Resolves target t (.error e)
  | done {target : Kind} {t : Text} (quotes : Quoted.check t = .ok ())
      (groups : Group.spans t = .ok []) : Resolves target t (.ok t)
  | kindless {target : Kind} {t : Text} {cut : Group.Cut} {e : Error} (takes : Takes t cut)
      (kind : askedKind target cut.inner = .error e) : Resolves target t (.error e)
  | failed {target kind : Kind} {t : Text} {cut : Group.Cut} {e : Error} (takes : Takes t cut)
      (asked : askedKind target cut.inner = .ok kind)
      (inner : Evaluates kind cut.inner (.error e)) : Resolves target t (.error e)
  | replaced {target kind : Kind} {t : Text} {cut : Group.Cut} {value : Value}
      {result : Except Error Text} (takes : Takes t cut)
      (asked : askedKind target cut.inner = .ok kind)
      (inner : Evaluates kind cut.inner (.ok value))
      (rest : Resolves target (cut.fill value.literal) result) : Resolves target t result

end

section Rounds

variable {target kind : Kind} {t raw : Text} {cut : Group.Cut}

theorem askedKind_flat (flat : Flat t) (target : Kind) :
    askedKind target t = .ok (groupKind target t) := by
  rw [askedKind, Quoted.check_ok.mpr flat.paired]
  split
  · rename_i numeric
    rw [groupKind, if_pos numeric]
  · rfl

theorem balanced_of_spans {found : List Span} (quotes : Quoted.check t = .ok ())
    (done : Group.spans t = .ok found) : Balanced t := by
  refine balanced_of_check ?_ (Quoted.check_ok.mp quotes)
  rw [Group.check, done]
  rfl

theorem Takes.balanced (takes : Takes t cut) : Balanced t := by
  obtain ⟨found, done, _⟩ := takes.latest
  exact balanced_of_spans takes.paired done

theorem Takes.last (takes : Takes t cut) : cut.Last t := by
  obtain ⟨found, done, latest⟩ := takes.latest
  exact latest.last takes.balanced done

theorem takes_last (balanced : Balanced t) (last : cut.Last t) : Takes t cut := by
  have checked := balanced.check
  refine ⟨Quoted.check_ok.mpr balanced.paired, ?_⟩
  rw [Group.check] at checked
  obtain ⟨found, done, _⟩ := Error.ok_of_map checked
  exact ⟨found, done, last.latest done⟩

end Rounds

section Termination

variable {target kind : Kind} {t raw : Text} {cut : Group.Cut}

theorem resolves_flat (flat : Flat t) (target : Kind) : Resolves target t (.ok t) :=
  .done (Quoted.check_ok.mpr flat.paired) (spans_flat flat)

/-- Once the groups are resolved nothing is left to resolve, in the text and in its operands. -/
theorem evaluates_resolved {flat : Text} (resolves : Resolves kind raw.trim (.ok flat))
    (isFlat : Flat flat) : Evaluates kind raw (evaluateFlat kind flat) := by
  by_cases other : kind = .bool
  · subst other
    have condition := Evaluates.condition resolves fun kind inner calls =>
      .folded (resolves_flat (calls.flat isFlat).trim kind) calls.kind_ne_bool
    have answers : ∀ kind inner, Condition.Calls flat kind inner →
        evaluateFlat kind inner.trim = evaluateFlat kind inner := by
      intro kind inner calls
      rw [calls.trimmed]
    rw [Condition.evaluateWith_congr answers, Condition.evaluateWith_evaluateFlat] at condition
    exact condition
  · exact .folded resolves other

theorem evaluates_flat (flat : Flat raw) (kind : Kind) :
    Evaluates kind raw (evaluateFlat kind raw.trim) :=
  evaluates_resolved (resolves_flat flat.trim kind) flat.trim

theorem resolves_balanced (balanced : Balanced t) : Resolves target t (flatten target t) := by
  induction balanced using Balanced.last_induction with
  | flat t flat =>
    rw [flatten_flat flat]
    exact resolves_flat flat target
  | last t cut balanced last ih =>
    have takes := takes_last balanced last
    have asked := askedKind_flat last.inner target
    have inner := evaluates_flat last.inner (groupKind target cut.inner)
    rw [flatten_last last, groupLiteral]
    cases worth : evaluateFlat (groupKind target cut.inner) cut.inner.trim with
    | error e =>
      rw [worth] at inner
      exact .failed takes asked inner
    | ok value =>
      rw [worth] at inner
      exact .replaced takes asked inner
        (ih value.literal (value.flat_literal (evaluateFlat_quoteFree worth)))

/-- What the loop makes of a text. -/
def resolved (target : Kind) (t : Text) : Except Error Text := do
  Quoted.check t
  Group.check t
  flatten target t

theorem resolved_balanced (balanced : Balanced t) : resolved target t = flatten target t := by
  rw [resolved, Quoted.check_ok.mpr balanced.paired, balanced.check]
  rfl

theorem resolved_flat (flat : Flat t) : resolved target t = .ok t := by
  rw [resolved_balanced (.flat flat), flatten_flat flat]

/-- There are never more groups than the evaluator's bound on its rounds. -/
theorem evaluateText_eq (kind : Kind) (raw : Text) :
    evaluateText kind raw = resolved kind raw.trim >>= evaluateFlat kind := by
  rw [evaluateText, resolved]
  generalize raw.trim = t
  cases quotes : Quoted.check t with
  | error e => rfl
  | ok =>
    cases matched : Group.check t with
    | error e => rfl
    | ok =>
      have balanced := balanced_of_check matched (Quoted.check_ok.mp quotes)
      simp only [resolve_eq_flatten balanced (opens_le_count false t), bind, Except.bind]

theorem evaluateText_flatten_eq (flat : Flat raw) :
    evaluateText kind raw = evaluateFlat kind raw.trim := by
  rw [evaluateText_eq, resolved_flat flat.trim]
  rfl

theorem flat_of_flatten {u : Text} (balanced : Balanced t) (done : flatten target t = .ok u) :
    Flat u := by
  induction balanced using Balanced.last_induction with
  | flat t flat =>
    rw [flatten_flat flat] at done
    cases done
    exact flat
  | last t cut balanced last ih =>
    rw [flatten_last last] at done
    obtain ⟨w, worth, rest⟩ := Error.ok_of_bind done
    exact ih w (groupLiteral_flat worth) rest

theorem flat_of_resolved {u : Text} (done : resolved target t = .ok u) : Flat u := by
  obtain ⟨_, quotes, done⟩ := Error.ok_of_bind done
  obtain ⟨_, matched, done⟩ := Error.ok_of_bind done
  exact flat_of_flatten (balanced_of_check matched (Quoted.check_ok.mp quotes)) done

theorem resolves_resolved (target : Kind) (t : Text) : Resolves target t (resolved target t) := by
  rw [resolved]
  cases quotes : Quoted.check t with
  | error e => exact .unpaired quotes
  | ok =>
    cases groups : Group.spans t with
    | error e =>
      rw [Group.check, groups]
      exact .unmatched quotes groups
    | ok found =>
      rw [Group.check, groups]
      exact resolves_balanced (balanced_of_spans quotes groups)

theorem evaluates_evaluateText (kind : Kind) (raw : Text) :
    Evaluates kind raw (evaluateText kind raw) := by
  rw [evaluateText_eq]
  have resolves := resolves_resolved kind raw.trim
  cases done : resolved kind raw.trim with
  | error e =>
    rw [done] at resolves
    exact .unresolved resolves
  | ok flat =>
    rw [done] at resolves
    exact evaluates_resolved resolves (flat_of_resolved done)

end Termination

section Uniqueness

variable {target kind : Kind} {t raw flat : Text} {cut : Group.Cut} {e : Error}

theorem condition_eq {answer : Kind → Text → Except Error Value}
    (resolves : .ok flat = resolved .bool raw.trim)
    (answers : ∀ kind inner, Condition.Calls flat kind inner →
      answer kind inner = evaluateText kind inner) :
    .bool <$> Condition.evaluateWith answer flat = evaluateText .bool raw := by
  have isFlat := flat_of_resolved resolves.symm
  have worth : ∀ kind inner, Condition.Calls flat kind inner →
      answer kind inner = evaluateFlat kind inner := by
    intro kind inner calls
    rw [answers kind inner calls, evaluateText_flatten_eq (calls.flat isFlat), calls.trimmed]
  rw [evaluateText_eq, ← resolves, Condition.evaluateWith_congr worth,
    Condition.evaluateWith_evaluateFlat]
  rfl

theorem Takes.resolved_eq (takes : Takes t cut) (asked : askedKind target cut.inner = .ok kind) :
    resolved target t = Value.literal <$> evaluateText kind cut.inner >>= fun u =>
      resolved target (cut.fill u) := by
  have flat := takes.last.inner
  rw [askedKind_flat flat] at asked
  cases asked
  rw [resolved_balanced takes.balanced, flatten_last takes.last, evaluateText_flatten_eq flat]
  refine groupLiteral_bind fun u flatU => ?_
  rw [resolved_balanced (takes.last.filled u flatU)]

mutual

theorem Evaluates.eq : ∀ {kind : Kind} {raw : Text} {result : Except Error Value},
    Evaluates kind raw result → result = evaluateText kind raw
  | _, _, _, .unresolved failed => by
    rw [evaluateText_eq, ← failed.eq]
    rfl
  | _, _, _, .folded resolves _ => by
    rw [evaluateText_eq, ← resolves.eq]
    rfl
  | _, _, _, .condition resolves answers =>
    condition_eq resolves.eq fun kind inner calls => (answers kind inner calls).eq

theorem Resolves.eq : ∀ {target : Kind} {t : Text} {result : Except Error Text},
    Resolves target t result → result = resolved target t
  | _, _, _, .unpaired quotes => by
    rw [resolved, quotes]
    rfl
  | _, _, _, .unmatched quotes groups => by
    rw [resolved, quotes, Group.check, groups]
    rfl
  | _, _, _, .done quotes groups =>
    (resolved_flat (flat_of_spans_nil (balanced_of_spans quotes groups) groups)).symm
  | _, _, _, .kindless takes kind => by
    rw [askedKind_flat takes.last.inner] at kind
    cases kind
  | _, _, _, .failed takes asked inner => by
    rw [takes.resolved_eq asked, ← inner.eq]
    rfl
  | _, _, _, .replaced takes asked inner rest => by
    rw [takes.resolved_eq asked, ← inner.eq, rest.eq]
    rfl

end

end Uniqueness

/-- A text that is in order and has no group, whatever blanks stand around it. -/
def Groupless (raw : Text) : Prop :=
  Quoted.check raw.trim = .ok () ∧ Group.spans raw.trim = .ok []

theorem Groupless.of_flat {raw : Text} (flat : Flat raw) : Groupless raw :=
  ⟨Quoted.check_ok.mpr flat.trim.paired, spans_flat flat.trim⟩

end Expr

open StepScript.Expr in
/-- The loop ends for every kind and every text, with one result, and so does evaluation, with that
of the evaluator. The group a round takes has no parenthesis outside literals, neither its contents
nor an operand in them has a group, and its value leaves a text in order with two parentheses less.
A text that the loop gives back has its quotes paired and no parenthesis outside literals. -/
theorem groups_resolve (kind : Kind) (t : Text) :
    (∃! result, Resolves kind t result) ∧
    (∀ result, Evaluates kind t result ↔ result = evaluateText kind t) ∧
    (∀ cut, Takes t cut →
      Group.parens false cut.inner = 0 ∧ Groupless cut.inner ∧
      (∀ operandKind operand, Condition.Calls cut.inner.trim operandKind operand →
        operandKind ≠ .bool ∧ Groupless operand) ∧
      ∃ innerKind, askedKind kind cut.inner = .ok innerKind ∧
        ∀ value, Evaluates innerKind cut.inner (.ok value) →
          let next := cut.fill value.literal
          Group.parens false next + 2 = Group.parens false t ∧ next.Paired ∧
            Group.check next = .ok ()) ∧
    ∀ flat, Resolves kind t (.ok flat) → flat.Paired ∧ Group.parens false flat = 0 := by
  refine ⟨⟨resolved kind t, resolves_resolved kind t, fun _ resolves => resolves.eq⟩,
    fun result => ⟨Evaluates.eq, ?_⟩, ?_, ?_⟩
  · rintro rfl
    exact evaluates_evaluateText kind t
  · intro cut takes
    have inner := takes.last.inner
    refine ⟨Group.parens_eq_zero.mpr inner.none, .of_flat inner, ?_,
      groupKind kind cut.inner, askedKind_flat inner kind, ?_⟩
    · intro operandKind operand calls
      exact ⟨calls.kind_ne_bool, .of_flat (calls.flat inner.trim)⟩
    · intro value evaluates
      have flat := value.flat_literal (evaluateText_quoteFree evaluates.eq.symm)
      have balanced := takes.last.filled _ flat
      exact ⟨takes.last.parens_fill flat, balanced.paired, balanced.check⟩
  · intro flat resolves
    have isFlat := flat_of_resolved resolves.eq.symm
    exact ⟨isFlat.paired, Group.parens_eq_zero.mpr isFlat.none⟩

end StepScript
