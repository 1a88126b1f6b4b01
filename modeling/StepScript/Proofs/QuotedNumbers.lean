import StepScript.Proofs.Parentheses

/-! Quoted literals among numbers. An expression of numbers is evaluated with each literal replaced
by the number that its contents read as, written out; so a literal counts as what its contents
convert to, whatever signs, blanks and parentheses stand in them. -/
namespace StepScript
namespace Arithmetic

open Decimal

section Unquoting

variable {α : Type} {t s : Text}

/-- The text with its literals replaced by the numbers that they read as. -/
def unquoted (domain : Domain α) (t : Text) : Text :=
  Quoted.mapLiterals (fun contents => domain.display (domain.read contents)) t

theorem unquoted_of_free (domain : Domain α) (free : '"' ∉ t) : unquoted domain t = t :=
  Quoted.mapLiterals_of_free free _

theorem unquoted_append (domain : Domain α) (paired : t.Paired) (u : Text) :
    unquoted domain (t ++ u) = unquoted domain t ++ unquoted domain u :=
  Quoted.mapLiterals_append paired _ u

theorem unquoted_literal (domain : Domain α) (free : '"' ∉ s) :
    unquoted domain ('"' :: s ++ ['"']) = domain.display (domain.read s) := by
  have replaced := Quoted.mapLiterals_literal free
    (fun contents => domain.display (domain.read contents)) []
  simpa [unquoted, Quoted.mapLiterals_of_free] using replaced

/-- Once the literals are replaced, no quote is left and the text is worth the same. -/
theorem evaluate_unquoted (domain : Domain α) (free : '"' ∉ unquoted domain t) :
    evaluate domain (unquoted domain t) = evaluate domain t := by
  have same : unquoted domain (unquoted domain t) = unquoted domain t := unquoted_of_free domain free
  rw [evaluate, evaluate, ← unquoted, ← unquoted, same]

end Unquoting

section Ints

variable {t before after : Text} {n first : Int64} {more : List (Operator × Int64)}
  {level : Level} {tree : Tree}

/-- A number is written in decimal, or as a literal whose contents convert to it. -/
inductive Counted : Int64 → Text → Prop where
  | numeral (n : Int64) : Counted n (renderInt n)
  | quoted {n : Int64} {s : Text} (free : '"' ∉ s)
      (counts : (Value.string s).convert .int = .int n) : Counted n ('"' :: s ++ ['"'])

theorem Counted.flat (counted : Counted n t) : Group.Flat t := by
  cases counted with
  | numeral => exact Numeral.flat rfl
  | quoted free _ => exact Group.flat_quoted free

theorem Counted.bare (counted : Counted n t) : t.Bare := by
  cases counted with
  | numeral => exact Numeral.bare rfl
  | @quoted s _ _ => exact Value.bare_literal (.string s)

theorem Counted.unquoted (counted : Counted n t) : Arithmetic.unquoted ints t = renderInt n := by
  cases counted with
  | numeral =>
    have spelled : Spelled Numeral (renderInt n) n [] := .number rfl
    exact unquoted_of_free ints (spelled.not_mem rfl)
  | quoted free counts =>
    rw [unquoted_literal ints free]
    exact congrArg renderInt (Value.int.inj counts)

theorem Spelled.flat {writes : Int64 → Text → Prop} (flat : ∀ n t, writes n t → Group.Flat t)
    (spelled : Spelled writes t first more) : Group.Flat t := by
  induction spelled with
  | number written => exact flat _ _ written
  | join op _ gapsBefore gapsAfter _ ihLeft ihRight =>
    exact (ihLeft.append (flat_between op gapsBefore gapsAfter)).append ihRight

theorem unquoted_between (domain : Domain Int64) (op : Operator) (gapsBefore : before.Gaps)
    (gapsAfter : after.Gaps) :
    unquoted domain (before ++ op.symbol :: after) = before ++ op.symbol :: after := by
  refine unquoted_of_free domain fun member => ?_
  rw [List.mem_append, List.mem_cons] at member
  rcases member with gap | same | gap
  · exact absurd (gapsBefore _ gap) (by decide)
  · cases op <;> exact absurd same (by decide)
  · exact absurd (gapsAfter _ gap) (by decide)

/-- Replacing the literals leaves the numbers and the operators as they are. -/
theorem Spelled.unquoted (spelled : Spelled Counted t first more) :
    Spelled Numeral (Arithmetic.unquoted ints t) first more := by
  induction spelled with
  | number counted => exact .number counted.unquoted
  | @join op t before after u _ _ _ _ left gapsBefore gapsAfter right ihLeft ihRight =>
    have flatLeft := left.flat fun _ _ counted => counted.flat
    have flatBoth := flatLeft.append (flat_between op gapsBefore gapsAfter)
    rw [unquoted_append ints flatBoth.paired, unquoted_append ints flatLeft.paired,
      unquoted_between ints op gapsBefore gapsAfter]
    exact .join op ihLeft gapsBefore gapsAfter ihRight

theorem Spelled.evaluate_counted (spelled : Spelled Counted t first more) :
    Arithmetic.evaluate ints t = fold ints first more := by
  rw [← evaluate_unquoted ints (spelled.unquoted.not_mem rfl)]
  exact spelled.unquoted.evaluate

theorem legible_counted : Legible .int Counted :=
  legible_of_evaluate (fun _ _ counted => counted.flat) (fun _ _ counted => counted.bare) .numeral
    (fun spelled => spelled.evaluate_counted) fun _ _ _ => rfl

theorem Written.evaluate_counted (written : Written Counted .sum tree t)
    (blankBefore : ∀ c ∈ before, isBlank c = true) (blankAfter : ∀ c ∈ after, isBlank c = true) :
    Expr.evaluateText .int (before ++ t ++ after) = .int <$> tree.value := by
  have balanced : Group.Balanced t := written.balanced legible_counted.flat
  have bare : t.Bare := written.bare fun _ _ counted => counted.bare
  rw [Expr.evaluateText_padded balanced bare blankBefore blankAfter]
  cases written.flattens legible_counted with
  | spelled flat spelled worth =>
    rw [flat]
    change Value.int <$> Arithmetic.evaluate ints _ = _
    rw [spelled.evaluate_counted, worth.fold]
  | failed flat zero =>
    rw [flat, Tree.value_divisionByZero.mpr zero]
    rfl

end Ints

section Doubles

open Double

variable {s before after : Text}

/-- The display of a double is a number, and NaN a word, that reads as the same double. -/
theorem render_read (x : Float) : ∃ negative body, render x = signed negative body ∧
    (∀ c ∈ body, isPlain c = true) ∧ body ≠ [] ∧ readDoubleOrZero (render x) = x := by
  cases number : isNaN x with
  | true =>
    rw [eq_nan number]
    exact ⟨false, "NaN".toList, rfl, List.all_eq_true.mp rfl, by decide, by decide +kernel⟩
  | false =>
    obtain ⟨body, rendered, kind⟩ := render_eq number
    have shape : Body (code x) body := by
      rcases kind with ⟨_, spells⟩ | ⟨_, rfl, same⟩
      · exact .finite spells
      · exact .infinite same
    exact ⟨isNegative x, body, rendered, shape.plain, shape.nonempty,
      rendered ▸ shape.readDoubleOrZero⟩

theorem evaluate_quoted_double (free : '"' ∉ s) :
    evaluate doubles ('"' :: s ++ ['"']) = .ok (readDoubleOrZero s) := by
  obtain ⟨negative, body, rendered, plain, nonempty, reads⟩ := render_read (readDoubleOrZero s)
  have shown : unquoted doubles ('"' :: s ++ ['"']) = signed negative body :=
    (unquoted_literal doubles free).trans rendered
  rw [← evaluate_unquoted doubles (shown ▸ not_mem_signed plain rfl (by decide)), shown,
    evaluate_signed doubles negative plain nonempty, ← rendered]
  exact congrArg Except.ok reads

end Doubles
end Arithmetic

open Arithmetic in
/-- However a tree of integers is written, with any of its numbers as literals whose contents
convert to them, the text is worth what the tree is worth: the literals can hold whatever they may,
and whatever reads as no number counts as zero. A literal alone is as a Double what it converts
to. -/
theorem quoted_literals_count_as_conversions {before after : Text}
    (blankBefore : ∀ c ∈ before, isBlank c = true) (blankAfter : ∀ c ∈ after, isBlank c = true) :
    (∀ {tree : Tree} {text : Text}, Written Counted .sum tree text →
      let result := Expr.evaluateText .int (before ++ text ++ after)
      result = .int <$> tree.value ∧
        (result = .error .divisionByZero ↔ tree.DividesByZero)) ∧
    ∀ {s : Text}, '"' ∉ s →
      Expr.evaluateText .double (before ++ ('"' :: s ++ ['"']) ++ after) =
        .ok ((Value.string s).convert .double) := by
  constructor
  · intro tree text written result
    have worth : result = .int <$> tree.value := written.evaluate_counted blankBefore blankAfter
    refine ⟨worth, ?_⟩
    rw [worth, ← Tree.value_divisionByZero]
    cases tree.value <;> simp [Functor.map, Except.map]
  · intro s free
    have flat : Group.Flat ('"' :: s ++ ['"']) := Group.flat_quoted free
    rw [Expr.evaluateText_padded (.flat flat) (Value.bare_literal (.string s)) blankBefore
      blankAfter, Expr.flatten_flat flat]
    change Value.double <$> evaluate doubles _ = _
    rw [evaluate_quoted_double free]
    rfl

open Arithmetic in
/-- A literal with a fraction in it is cut off, one with a parenthesis is no number, and none of
them disturbs the group around it. -/
theorem quoted_divisor_counts :
    Expr.evaluateText .int "\"10\" / (\" -2.9 \"-\"(1\")\n".toList = .ok (.int (-5)) ∧
      Expr.evaluateText .int "\"10\" / (\" -2.9 \"+2)".toList = .error .divisionByZero ∧
      Expr.evaluateText .double "\"-2.5e1\"".toList =
        .ok ((Value.string "-2.5e1".toList).convert .double) := by
  have blank : ∀ c ∈ ['\n'], isBlank c = true := List.all_eq_true.mp rfl
  have none : ∀ c ∈ ([] : Text), isBlank c = true := List.forall_mem_nil _
  obtain ⟨trees, _⟩ := quoted_literals_count_as_conversions none blank
  obtain ⟨more, doubles⟩ := quoted_literals_count_as_conversions none none
  have ten : Counted 10 "\"10\"".toList :=
    .quoted (s := "10".toList) (by decide) (by decide +kernel)
  have fraction : Counted (-2) "\" -2.9 \"".toList :=
    .quoted (s := " -2.9 ".toList) (by decide) (by decide +kernel)
  have nothing : Counted 0 "\"(1\"".toList :=
    .quoted (s := "(1".toList) (by decide) (by decide +kernel)
  have difference : Written Counted .sum (.node .sub (.literal (-2)) (.literal 0))
      "\" -2.9 \"-\"(1\"".toList :=
    @Written.node _ .sub _ _ "\" -2.9 \"".toList [] [] _
      (.loosen (.loosen (.literal fraction))) .nil .nil (.loosen (.literal nothing))
  have zero : Written Counted .sum (.node .add (.literal (-2)) (.literal 2))
      "\" -2.9 \"+2".toList :=
    @Written.node _ .add _ _ "\" -2.9 \"".toList [] [] ['2']
      (.loosen (.loosen (.literal fraction))) .nil .nil (.loosen (.literal (.numeral 2)))
  have quotient : ∀ {tree : Tree} {t : Text}, Written Counted .sum tree t →
      Written Counted .sum (.node .div (.literal 10) tree)
        ("\"10\" / (".toList ++ (t ++ [')'])) := by
    intro tree t inner
    have group := @Written.group _ _ _ [] [] inner .nil .nil
    have node : Written Counted .product _ _ :=
      @Written.node _ .div _ _ _ [' '] [' '] _ (.loosen (.literal ten)) (by decide) (by decide) group
    have whole : Written Counted .product (.node .div (.literal 10) tree)
        ("\"10\" / (".toList ++ (t ++ [')'])) := by
      simpa [Operator.symbol] using node
    exact .loosen whole
  exact ⟨(trees (quotient difference)).1, (more (quotient zero)).2.mpr (.here rfl),
    doubles (s := "-2.5e1".toList) (by decide)⟩

end StepScript
