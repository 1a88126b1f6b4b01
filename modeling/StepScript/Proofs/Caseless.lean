import StepScript.Proofs.Folding
import StepScript.Proofs.Lockstep
import StepScript.Proofs.ReadBack
import StepScript.Proofs.Unrelated

/-! Expressions in two letter cases. Texts that differ in the case of letters outside their literals
evaluate alike: to the same value, or to errors that differ in the case of the text they quote. -/
namespace StepScript

namespace Error

/-- The error with the text that it quotes from a script in lower case. -/
@[simp] def caseless : Error → Error
  | .unmatchedParens text => .unmatchedParens text.lower
  | .unsupportedPreceder word => .unsupportedPreceder word.lower
  | .unsupportedMethod name => .unsupportedMethod name.lower
  | .unsupportedType name => .unsupportedType name.lower
  | .unsupportedStringOperator gap => .unsupportedStringOperator gap.lower
  | .typeRedeclaration name declared requested =>
    .typeRedeclaration name.lower declared requested
  | .returnTypeMismatch name method declared returned =>
    .returnTypeMismatch name.lower method declared returned
  | .unknownVariable name => .unknownVariable name.lower
  | .invalidVariableName name => .invalidVariableName name.lower
  | .missingType name => .missingType name.lower
  | .unrecognizedOperand text => .unrecognizedOperand text.lower
  | .expectedString text => .expectedString text.lower
  | .malformed what text => .malformed what text.lower
  | e => e

/-- One error, but for the letter case of what it quotes. -/
def Akin (e e' : Error) : Prop :=
  e'.caseless = e.caseless

theorem Akin.refl (e : Error) : e.Akin e := rfl

@[simp] theorem akin_iff (e e' : Error) : e.Akin e' ↔ e'.caseless = e.caseless := Iff.rfl

end Error

namespace Text

/-- One text, but for the case of letters outside its literals. -/
def Akin (t t' : Text) : Prop :=
  Quoted.fold false t' = Quoted.fold false t

theorem akin_fold (t : Text) : t.Akin (Quoted.fold false t) :=
  Quoted.fold_fold false t

theorem Akin.euclidean (t u v : Text) (left : t.Akin v) (right : u.Akin v) : t.Akin u :=
  right.symm.trans left

end Text

open Quoted

namespace Likewise

variable {α : Type}

theorem refl (source : Except Error α) : Likewise Error.Akin Eq source source :=
  of_eq Error.Akin.refl source

theorem map_eq {β : Type} {source source' : Except Error α}
    (same : Likewise Error.Akin Eq source source') (f : α → β) :
    Likewise Error.Akin Eq (f <$> source) (f <$> source') :=
  same.map fun _ _ equal => congrArg f equal

theorem eq_or_error {source source' : Except Error α}
    (same : Likewise Error.Akin Eq source source') :
    (∃ a, source = .ok a ∧ source' = .ok a) ∨
      ∃ e e', source = .error e ∧ source' = .error e' ∧ e.Akin e' := by
  cases same with
  | ok equal => exact .inl ⟨_, rfl, by rw [equal]⟩
  | error akin => exact .inr ⟨_, _, rfl, rfl, akin⟩

/-- What does not tell things from their normal form does not tell apart things of one form. -/
theorem of_form {ι : Type} {form : ι → ι} {f : ι → Except Error α} {results : α → α → Prop}
    (forms : ∀ a, Likewise Error.Akin results (f a) (f (form a)))
    (euclidean : ∀ a b c, results a c → results b c → results a b) {a a' : ι}
    (same : form a' = form a) : Likewise Error.Akin results (f a) (f a') := by
  have left := forms a
  have right := forms a'
  rw [same] at right
  generalize f a = first at left ⊢
  generalize f a' = second at right ⊢
  generalize f (form a) = normal at left right
  cases left with
  | ok same =>
    cases right with
    | ok same' => exact .ok (euclidean _ _ _ same same')
  | error same =>
    cases right with
    | error same' => exact .error (same'.symm.trans same)

theorem of_form_eq {ι : Type} {form : ι → ι} {f : ι → Except Error α}
    (forms : ∀ a, Likewise Error.Akin Eq (f a) (f (form a))) {a a' : ι}
    (same : form a' = form a) : Likewise Error.Akin Eq (f a) (f a') :=
  of_form forms (fun _ _ _ left right => left.trans right.symm) same

/-- What holds of a result holds of the equal one. -/
theorem and_ok {results : α → α → Prop} {P : α → Prop} {source source' : Except Error α}
    (likewise : Likewise Error.Akin results source source') (fact : ∀ a, source = .ok a → P a) :
    Likewise Error.Akin (fun a b => results a b ∧ P a) source source' := by
  cases likewise with
  | ok same => exact .ok ⟨same, fact _ rfl⟩
  | error same => exact .error same

theorem mapM {β : Type} {f : α → Except Error β} {g : α → α} {as : List α}
    (each : ∀ a ∈ as, Likewise Error.Akin Eq (f a) (f (g a))) :
    Likewise Error.Akin Eq (as.mapM f) ((as.map g).mapM f) := by
  induction as with
  | nil => exact .ok rfl
  | cons a as ih =>
    obtain ⟨first, rest⟩ := List.forall_mem_cons.mp each
    rw [List.map_cons, List.mapM_cons, List.mapM_cons]
    refine first.bind ?_
    rintro b _ rfl
    refine (ih rest).bind ?_
    rintro bs _ rfl
    exact .ok rfl

end Likewise

namespace Concatenation

theorem join_lower (literals : List (Text × Text)) :
    Likewise Error.Akin Eq (join literals) (join (literals.map (Prod.map id Text.lower))) := by
  induction literals with
  | nil => exact .ok rfl
  | cons literal more ih =>
    obtain ⟨contents, gap⟩ := literal
    cases more with
    | nil => exact .ok rfl
    | cons next more =>
      have plus : (gap.lower.trim == ['+']) = (gap.trim == ['+']) := by
        rw [Bool.eq_iff_iff, beq_iff_eq, beq_iff_eq, Text.trim_lower,
          Text.lower_eq_singleton (by decide)]
      simp only [List.map_cons, Prod.map_apply, id, join, plus] at ih ⊢
      split
      · exact ih.map_eq _
      · exact .error (by simp)

theorem evaluate_fold (text : Text) :
    Likewise Error.Akin Eq (evaluate text) (evaluate (fold false text)) := by
  have unexpected : (Error.expectedString text).Akin (.expectedString (fold false text)) := by
    simp
  simp only [evaluate, pieces_fold, Prod.map, List.getLast?_map]
  cases (pieces text).2.getLast? with
  | none => exact .error unexpected
  | some last =>
    simp only [Option.map_some, Prod.map, Text.trim_lower, Text.isEmpty_lower]
    split
    · exact join_lower _
    · exact .error unexpected

end Concatenation

namespace Arithmetic

variable {α : Type} {domain : Domain α}

/-- Literals are read as they are, and what stands between them in lower case. -/
theorem lower_mapLiterals_fold (f : Text → Text) (text : Text) :
    (mapLiterals f (Quoted.fold false text)).lower = (mapLiterals f text).lower := by
  simp only [mapLiterals, pieces_fold, Prod.map, Text.lower_append, Text.lower_lower]
  congr 1
  induction (pieces text).2 with
  | nil => rfl
  | cons literal more ih => simp [ih]

theorem evaluate_fold (blind : ∀ t, domain.read t.lower = domain.read t) (text : Text) :
    evaluate domain (Quoted.fold false text) = evaluate domain text := by
  simp only [evaluate]
  generalize written : mapLiterals _ (Quoted.fold false text) = folded
  generalize written' : mapLiterals _ text = unquoted
  have same : folded.lower = unquoted.lower := by
    rw [← written, ← written', lower_mapLiterals_fold]
  obtain ⟨chain, count⟩ := tokens_lower_reads blind folded
  obtain ⟨chain', count'⟩ := tokens_lower_reads blind unquoted
  rw [← chain, ← count, same, chain', count']

end Arithmetic

namespace Condition

theorem arithmeticKind_lower (text : Text) : arithmeticKind text.lower = arithmeticKind text := by
  rw [arithmeticKind, Text.contains_lower (by decide), arithmeticKind]

theorem evaluateArithmetic_fold (kind : Kind) (text : Text) :
    evaluateArithmetic kind (Quoted.fold false text) = evaluateArithmetic kind text := by
  rw [evaluateArithmetic, Arithmetic.evaluate_fold readDoubleOrZero_lower,
    Arithmetic.evaluate_fold readIntOrZero_lower, evaluateArithmetic]

theorem operandValue_fold (raw : Text) :
    Likewise Error.Akin Eq (operandValue raw) (operandValue (Quoted.fold false raw)) := by
  simp only [operandValue, trim_fold]
  generalize raw.trim = text
  rw [contains_fold (by decide)]
  split
  · exact (Concatenation.evaluate_fold text).map_eq _
  · rename_i unquoted
    have lowered : Quoted.fold false text = text.lower :=
      fold_of_free (by simpa using unquoted) false
    have operators : text.lower.any (fun c => (Arithmetic.Operator.ofChar? c).isSome) =
        text.any fun c => (Arithmetic.Operator.ofChar? c).isSome := by
      simp [Text.lower, List.any_map, Function.comp_def]
    have sum := evaluateArithmetic_fold (arithmeticKind text) text
    rw [lowered] at sum ⊢
    rw [readBool?_lower, Decimal.readInt?_lower, Double.read?_lower, operators,
      arithmeticKind_lower, sum]
    split
    · exact .ok rfl
    · split
      · exact .refl _
      · exact .error (by simp)

theorem evaluate_fold (text : Text) :
    Likewise Error.Akin Eq (evaluate text) (evaluate (Quoted.fold false text)) := by
  rw [evaluate, evaluate, pieces_fold]
  cases pieces text with
  | error e => exact .error rfl
  | ok pieces =>
    have items : Likewise Error.Akin Eq (pieces.mapM Piece.evaluate)
        ((pieces.map Piece.fold).mapM Piece.evaluate) := by
      refine Likewise.mapM ?_
      intro piece _
      cases piece with
      | operator op => exact .ok rfl
      | operand text => exact (operandValue_fold text).map_eq _
    refine items.bind ?_
    rintro items _ rfl
    exact .refl _

end Condition

namespace Expr

theorem evaluateFlat_fold (kind : Kind) (text : Text) :
    Likewise Error.Akin Eq (evaluateFlat kind text) (evaluateFlat kind (fold false text)) := by
  cases kind with
  | int =>
    rw [evaluateFlat, evaluateFlat, Arithmetic.evaluate_fold readIntOrZero_lower]
    exact .refl _
  | double =>
    rw [evaluateFlat, evaluateFlat, Arithmetic.evaluate_fold readDoubleOrZero_lower]
    exact .refl _
  | string => exact (Concatenation.evaluate_fold text).map_eq _
  | bool => exact (Condition.evaluate_fold text).map_eq _

theorem startsOperator_foldChar (c : Char) (flag : Bool) (next? : Option Char) :
    hasCondition.startsOperator (foldChar false c) (next?.map (foldChar flag)) =
      hasCondition.startsOperator c next? := by
  have next : ∀ {d : Char}, d.isAlpha = false →
      (next?.map (foldChar flag) == some d) = (next? == some d) := by
    intro d other
    cases next? with
    | none => rfl
    | some e => exact foldChar_beq other flag e
  simp (disch := decide) only [hasCondition.startsOperator, foldChar_beq, next]
  split
  · rfl
  split
  · rfl
  split
  · rename_i double
    rw [Bool.or_eq_true, beq_iff_eq, beq_iff_eq] at double
    rcases double with rfl | rfl
    · exact next (by decide)
    · exact next (by decide)
  · rfl

theorem hasCondition_fold (inside : Bool) (t : Text) :
    hasCondition inside (fold inside t) = hasCondition inside t := by
  induction t generalizing inside with
  | nil => rfl
  | cons c t ih =>
    rw [fold_cons, hasCondition, step_foldChar, ih, hasCondition]
    cases inside with
    | true => rfl
    | false =>
      have head : (fold (step false c) t).head? = t.head?.map (foldChar (step false c)) := by
        cases t <;> rfl
      rw [head, startsOperator_foldChar]

theorem groupKind_fold (target : Kind) (inner : Text) :
    groupKind target (fold false inner) = groupKind target inner := by
  have word : readBool? (fold false inner).trim = readBool? inner.trim := by
    rw [trim_fold, ← readBool?_lower, lower_fold, readBool?_lower]
  have kind : Condition.arithmeticKind (fold false inner) = Condition.arithmeticKind inner := by
    rw [← Condition.arithmeticKind_lower, lower_fold, Condition.arithmeticKind_lower]
  rw [groupKind, hasCondition_fold, word, contains_fold (by decide), kind, groupKind]

end Expr

theorem Group.spans_fold (t : Text) : Likewise Error.Akin Eq (spans t) (spans (fold false t)) := by
  rw [spans, spans, spansFrom_fold]
  cases spansFrom 0 false [] t with
  | some found => exact .ok rfl
  | none => exact .error (by simp)

namespace Value

/-- Strings hold an even number of quotes. -/
def Paired : Value → Prop
  | .string s => Even (s.count '"')
  | _ => True

instance (v : Value) : Decidable v.Paired :=
  match v with
  | .string s => inferInstanceAs (Decidable (Even (s.count '"')))
  | .bool _ | .int _ | .double _ => .isTrue trivial

theorem QuoteFree.paired {v : Value} (free : v.QuoteFree) : v.Paired := by
  cases v with
  | bool | int | double => trivial
  | string s =>
    change Even (s.count '"')
    rw [List.count_eq_zero_of_not_mem free]
    exact Even.zero

theorem Paired.after_literal {v : Value} (paired : v.Paired) (inside : Bool) :
    after inside v.literal = inside := by
  rcases v.literal_shape with ⟨s, rfl⟩ | ⟨negative, body, _, plain, written⟩
  · change after inside ('"' :: s ++ ['"']) = inside
    rw [List.cons_append, after_cons, after_append, (after_eq_iff_even _ s).mpr paired]
    cases inside <;> rfl
  · rw [written]
    exact after_of_free (not_mem_signed plain rfl (by decide))

end Value

/-- A valid name with a value of the sort. -/
def Holding (sort : Value → Prop) (entry : Text × Value) : Prop :=
  isName entry.1 = true ∧ sort entry.2

theorem Holding.new {sort : Value → Prop} {name : Text} {value : Value} (sorted : sort value)
    (valid : isName name.trim = true) : Holding sort (Scope.key name, value) :=
  ⟨isName_key valid, sorted⟩

/-- A valid name with a value whose quotes are paired. -/
def Bindable (entry : Text × Value) : Prop :=
  isName entry.1 = true ∧ entry.2.Paired

theorem Bindable.new {name : Text} {value : Value} (paired : value.Paired)
    (valid : isName name.trim = true) : Bindable (Scope.key name, value) :=
  ⟨isName_key valid, paired⟩

namespace Expr

variable {kind : Kind} {t t' : Text}

/-- A value put in place of a group leaves the parts around it folded as they were. -/
theorem akin_insert {value : Value} (paired : value.Paired) {before : Text}
    (outside : after false before = false) (behind : Text) :
    Text.Akin (before ++ value.literal ++ behind)
      (fold false before ++ value.literal ++ fold false behind) := by
  simp only [Text.Akin, fold_append, after_append, after_fold, outside, paired.after_literal,
    fold_fold]

theorem resolve_fold (target : Kind) (count : Nat) (t : Text) :
    Likewise Error.Akin Text.Akin (resolve target count t)
      (resolve target count (fold false t)) := by
  induction count generalizing t with
  | zero => exact .ok t.akin_fold
  | succ count ih =>
    simp only [resolve, Group.last?_fold]
    cases found : Group.last? t with
    | none => exact .ok t.akin_fold
    | some cut =>
      simp only [Option.map_some, groupKind_fold, trim_fold]
      have values := (evaluateFlat_fold (groupKind target cut.inner) cut.inner.trim).and_ok
        fun _ => evaluateFlat_quoteFree
      refine values.bind ?_
      rintro value _ ⟨rfl, free⟩
      -- The literal comes in as it is, also where it has capitals (`NaN`): the second text is no
      -- longer the first one folded, but still akin to it.
      exact .of_form ih Text.Akin.euclidean (akin_insert free.paired (Group.after_last? found) _)

theorem evaluateText_fold (kind : Kind) (raw : Text) :
    Likewise Error.Akin Eq (evaluateText kind raw) (evaluateText kind (fold false raw)) := by
  have groups : (fold false raw.trim).count '(' = raw.trim.count '(' := by
    rw [← Text.count_lower (by decide), lower_fold, Text.count_lower (by decide)]
  simp only [evaluateText, trim_fold, check_fold, groups]
  refine (Likewise.refl _).bind ?_
  rintro _ _ rfl
  refine ((Group.spans_fold raw.trim).map fun _ _ _ => rfl).bind ?_
  rintro _ _ rfl
  refine (resolve_fold kind _ raw.trim).bind ?_
  intro flat flat' akin
  exact .of_form_eq (evaluateFlat_fold kind) akin

theorem beginsWith_fold (inside : Bool) (t name : Text) :
    Text.beginsWith (fold inside t) name = Text.beginsWith t name := by
  induction name generalizing inside t with
  | nil => simp [Text.beginsWith]
  | cons w name ih =>
    cases t with
    | nil => rfl
    | cons c t => simp [Text.beginsWith, ih]

/-- A name is found in any letter case, so it is replaced at the same places of a folded text. -/
theorem Replaces.fold_replace {name u : Text} {value : Value} {inside : Bool}
    (replaces : Replaces name value inside t u) (valid : isName name = true)
    (paired : value.Paired) :
    fold inside (replace name value inside 0 (fold inside t)) = fold inside u := by
  induction replaces with
  | done => rfl
  | @swap word t u same rest ih =>
    have free := quoteFree_of_lower same (quoteFree_of_isName valid)
    have nonempty : fold false word ≠ [] := by
      intro empty
      refine ne_nil_of_isName valid ?_
      rw [← same, ← lower_fold false word, empty]
      rfl
    rw [fold_append, after_of_free free, replace_here value ((lower_fold false word).trans same)
      nonempty, fold_append, fold_append, paired.after_literal, ih]
  | @keep inside c t u none rest ih =>
    have begins := beginsWith_fold inside (c :: t) name
    have kept : (!inside && Text.beginsWith (fold inside (c :: t)) name) = false := by
      rw [begins]
      rcases none with rfl | none
      · rfl
      · rw [none, Bool.and_false]
    rw [fold_cons] at kept ⊢
    rw [replace, kept]
    simp [ih]

theorem akin_replace {name : Text} {value : Value} (valid : isName name = true)
    (paired : value.Paired) (akin : t.Akin t') :
    Text.Akin (replace name value false 0 t) (replace name value false 0 t') := by
  have replaces := replaces_replace (ne_nil_of_isName valid) value false
  rw [Text.Akin, ← (replaces t').fold_replace valid paired, akin,
    (replaces t).fold_replace valid paired]

theorem substitute_akin {table : Table} (bindable : ∀ entry ∈ table, Bindable entry)
    (akin : t.Akin t') :
    Likewise Error.Akin Text.Akin (substitute table t) (substitute table t') := by
  induction table generalizing t t' with
  | nil => exact .ok akin
  | cons entry table ih =>
    obtain ⟨⟨valid, paired⟩, rest⟩ := List.forall_mem_cons.mp bindable
    have quotes : Quoted.check t' = Quoted.check t := by
      rw [← check_fold false t', akin, check_fold]
    rw [substitute, substitute, quotes]
    refine (Likewise.refl _).bind ?_
    rintro _ _ rfl
    exact ih rest (akin_replace valid paired akin)

/-- An expression is worth the same in any letter case, in a scope whose strings are paired. -/
theorem evaluate_fold {scope : Scope} (bindable : scope.All Bindable) (kind : Kind) (raw : Text) :
    Likewise Error.Akin Eq (evaluate kind raw scope) (evaluate kind (fold false raw) scope) := by
  have order : ∀ entry ∈ scope.substitutionOrder, Bindable entry := by
    intro entry member
    rcases List.mem_append.mp member with own | shared
    · exact bindable.locals entry ((arrange_perm _ _).mem_iff.mp own)
    · exact bindable.interactive entry ((arrange_perm _ _).mem_iff.mp shared)
  simp only [evaluate, trim_fold, check_fold]
  refine (Likewise.refl _).bind ?_
  rintro _ _ rfl
  refine (substitute_akin order raw.trim.akin_fold).bind ?_
  intro text text' akin
  exact .of_form_eq (evaluateText_fold kind) akin

theorem evaluate_quoteFree {scope : Scope} {raw : Text} {value : Value}
    (done : evaluate kind raw scope = .ok value) : value.QuoteFree := by
  obtain ⟨_, _, done⟩ := Error.ok_of_bind done
  obtain ⟨_, _, done⟩ := Error.ok_of_bind done
  exact evaluateText_quoteFree done

end Expr

end StepScript
