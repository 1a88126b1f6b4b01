import StepScript.Proofs.Calculations
import StepScript.Proofs.Negation

/-! Double variables in conditions. A condition finds out from its text what arithmetic is meant.
With a finite double in it the text has a point, and a calculation is worth what it is worth as a
Double. An infinite one leaves no point: then the same calculation is made with Ints, and does not
give the infinity that it gives as a Double. -/
namespace StepScript

section Equality

open StepScript.Expr Arithmetic

variable {k : Text} {x y r : Float} {op : Operator}

/-- A calculation that is worth `r` as a Double, compared with a double equal to `r`. Of a finite
number it is worth `r` in a condition too; of infinity it is an Int, and no Int is infinite. -/
theorem equal_between_iff (number : Double.isNaN x = false)
    (reads : (Decimal.readInt? k).isSome = true)
    (done : evaluateFlat .double (between op (Value.double x).literal k) = .ok (.double r))
    (same : (r == y) = true) :
    let worth := Condition.operandValue (between op (Value.double x).literal k)
    (∀ v, worth = .ok v → v.Readable) ∧
      ((worth.toOption.map fun v => Value.bool (Condition.equal v (.double y))) =
        some (.bool true) ↔ Double.isFinite x = true) := by
  intro worth
  obtain ⟨ofFinite, ofInfinite⟩ := operandValue_between number reads done
  obtain ⟨numberR, _⟩ := Double.number_of_beq same
  cases finite : Double.isFinite x with
  | true =>
    have value : worth = .ok (.double r) := ofFinite finite
    have equal : Condition.equal (.double r) (.double y) = true := same
    rw [value]
    refine ⟨?_, by simp [Error.toOption_ok, equal]⟩
    rintro v ⟨⟩
    exact numberR
  | false =>
    refine ⟨fun v isValue => ?_, iff_of_false ?_ Bool.false_ne_true⟩
    · obtain ⟨n, rfl⟩ := ofInfinite finite v isValue
      trivial
    · -- As a Double the calculation is infinite, and so is `y`; as an Int it is not.
      intro holds
      obtain ⟨v, isValue, equal⟩ := Option.map_eq_some_iff.mp holds
      obtain ⟨n, rfl⟩ := ofInfinite finite v (Error.toOption_eq_some.mp isValue)
      obtain ⟨_, evaluated, worthR⟩ := Error.ok_of_map done
      cases worthR
      have infinite := Double.isInfinite_of_not_isFinite number finite
      have large := infinite_of_evaluate infinite number reads evaluated numberR
      have small := Double.isInfinite_ofInt n
      have equalInt : (Double.ofInt n.toInt == y) = true := Value.bool.inj equal
      rw [Double.isInfinite_of_beq equalInt, ← Double.isInfinite_of_beq same, large] at small
      cases small

end Equality

section Scopes

open StepScript.Expr Arithmetic Decimal

/-- The scope holds two doubles and nothing else. Neither of their names is met in the other one, in
the numeral, or in the literal of the other double. -/
structure Scope.TwoDoubles (scope : Scope) (a b : Text) (x y : Float) (numeral : Text) : Prop where
  validA : isName a = true
  validB : isName b = true
  holds : (scope.locals ++ scope.interactive).Perm [(key a, .double x), (key b, .double y)]
  apartA : ∀ t ∈ [b, numeral, (Value.double y).literal], ¬ a.lower <:+: t.lower
  apartB : ∀ t ∈ [a, numeral, (Value.double x).literal], ¬ b.lower <:+: t.lower

variable {scope : Scope} {a b k : Text} {x y : Float} {op : Operator}

section Letters

variable {name t : Text}

/-- Characters that numbers are written down with. -/
def isDisplayChar (c : Char) : Bool :=
  c.isDigit || ['+', '-', '.', 'i', 'n', 'f'].contains c

/-- A name with another character than these is no part of a number. -/
theorem not_part_of_number (letter : ∃ c ∈ name.lower, isDisplayChar c = false)
    (chars : ∀ c ∈ t, isDisplayChar c = true) : ¬ name.lower <:+: t.lower := by
  intro part
  obtain ⟨c, member, other⟩ := letter
  obtain ⟨d, inNumber, rfl⟩ := List.mem_map.mp (part.subset member)
  have same : d.toLower = d := by
    have numeral := chars d inNumber
    simp only [isDisplayChar, Bool.or_eq_true, List.contains_eq_mem, decide_eq_true_eq,
      List.mem_cons, List.not_mem_nil, or_false] at numeral
    rcases numeral with digit | rfl | rfl | rfl | rfl | rfl | rfl
    · exact toLower_of_isDigit digit
    all_goals rfl
  rw [same, chars d inNumber] at other
  cases other

theorem displayChars_literal (number : Double.isNaN x = false) :
    ∀ c ∈ (Value.double x).literal, isDisplayChar c = true := by
  obtain ⟨body, written, shape⟩ := Value.literal_double number
  rw [written]
  intro c member
  by_cases minus : c = '-'
  · subst minus
    rfl
  · have inBody := (mem_signed _ minus).mp member
    cases shape with
    | finite spells =>
      rcases spells.char inBody with digit | rfl
      · simp [isDisplayChar, digit]
      · rfl
    | infinite =>
      have letters : "inf".toList.all isDisplayChar = true := rfl
      exact List.all_eq_true.mp letters c inBody

theorem displayChars_of_readInt? (reads : (readInt? k).isSome = true) :
    ∀ c ∈ k, isDisplayChar c = true := by
  obtain ⟨digits, _, digit, signed⟩ := readInteger?_shape (readInteger?_of_readInt? reads)
  intro c member
  rcases signed.mem member with rfl | rfl | inside
  · rfl
  · rfl
  · simp [isDisplayChar, digit c inside]

/-- Names that are no parts of each other and have a character that is not one of numbers, such as
`x` and `y`. The doubles and the numeral may be any. -/
theorem Scope.TwoDoubles.of_letters (validA : isName a = true) (validB : isName b = true)
    (holds : (scope.locals ++ scope.interactive).Perm [(key a, .double x), (key b, .double y)])
    (apartA : ¬ a.lower <:+: b.lower) (apartB : ¬ b.lower <:+: a.lower)
    (letterA : ∃ c ∈ a.lower, isDisplayChar c = false)
    (letterB : ∃ c ∈ b.lower, isDisplayChar c = false) (numberX : Double.isNaN x = false)
    (numberY : Double.isNaN y = false) (reads : (readInt? k).isSome = true) :
    scope.TwoDoubles a b x y k where
  validA := validA
  validB := validB
  holds := holds
  apartA := by
    simp only [List.forall_mem_cons]
    exact ⟨apartA, not_part_of_number letterA (displayChars_of_readInt? reads),
      not_part_of_number letterA (displayChars_literal numberY), List.forall_mem_nil _⟩
  apartB := by
    simp only [List.forall_mem_cons]
    exact ⟨apartB, not_part_of_number letterB (displayChars_of_readInt? reads),
      not_part_of_number letterB (displayChars_literal numberX), List.forall_mem_nil _⟩

end Letters

namespace Scope.TwoDoubles

theorem tame (doubles : scope.TwoDoubles a b x y k) : scope.substitutionOrder.Tame := by
  intro entry member
  have listed := (scope.substitutionOrder_perm.trans doubles.holds).mem_iff.mp member
  simp only [List.mem_cons, List.not_mem_nil, or_false] at listed
  rcases listed with rfl | rfl
  · exact ⟨isName_key_of_isName doubles.validA, trivial⟩
  · exact ⟨isName_key_of_isName doubles.validB, trivial⟩

theorem rewrites (doubles : scope.TwoDoubles a b x y k) :
    rewrite scope.substitutionOrder a = (Value.double x).literal ∧
      rewrite scope.substitutionOrder b = (Value.double y).literal ∧
      rewrite scope.substitutionOrder k = k := by
  have order := scope.substitutionOrder_perm.trans doubles.holds
  have keyA := Scope.key_of_isName doubles.validA
  have keyB := Scope.key_of_isName doubles.validB
  have apartA := doubles.apartA
  have apartB := doubles.apartB
  rw [keyA, keyB] at order
  simp only [List.forall_mem_cons] at apartA apartB
  refine ⟨?_, ?_, ?_⟩
  · refine rewrite_among order doubles.tame rfl (List.forall_mem_singleton.mpr ?_)
    exact ⟨apartB.1, apartB.2.2.1⟩
  · refine rewrite_among (order.trans (.swap _ _ _)) doubles.tame rfl
      (List.forall_mem_singleton.mpr ?_)
    exact ⟨apartA.1, apartA.2.2.1⟩
  · refine rewrite_apart fun entry member => ?_
    have listed := order.mem_iff.mp member
    simp only [List.mem_cons, List.not_mem_nil, or_false] at listed
    rcases listed with rfl | rfl
    · exact apartA.2.1
    · exact apartB.2.1

theorem rewrite_between (doubles : scope.TwoDoubles a b x y k) (op : Operator) :
    rewrite scope.substitutionOrder (between op a k) = between op (Value.double x).literal k := by
  obtain ⟨first, _, numeral⟩ := doubles.rewrites
  have gap : Text.Gaps [' '] := by decide
  have paired : a.Paired := Quoted.after_of_free (quoteFree_of_isName doubles.validA)
  have apart := rewrite_separated doubles.tame (List.cons_ne_nil ' ' [op.symbol, ' '])
    (separators_between op gap gap) paired k
  rwa [first, numeral] at apart

/-- What stands in front of `==` and the second name is rewritten on its own. -/
theorem rewrite_equal (doubles : scope.TwoDoubles a b x y k) {t : Text} (paired : t.Paired) :
    rewrite scope.substitutionOrder (t ++ " == ".toList ++ b) =
      rewrite scope.substitutionOrder t ++ " == ".toList ++ (Value.double y).literal := by
  have separators : ∀ c ∈ [' ', '=', '=', ' '], IsSeparator c := by
    have blank : IsSeparator ' ' := .of_isGap rfl
    have equals : IsSeparator '=' := ⟨rfl, by decide⟩
    simp [blank, equals]
  have apart := rewrite_separated doubles.tame (List.cons_ne_nil ' ' ['=', '=', ' ']) separators
    paired b
  rwa [doubles.rewrites.2.1] at apart

theorem rewrite_group (doubles : scope.TwoDoubles a b x y k) {t : Text} (paired : t.Paired) :
    rewrite scope.substitutionOrder ('(' :: t ++ [')']) =
      '(' :: rewrite scope.substitutionOrder t ++ [')'] := by
  have opening : IsSeparator '(' := ⟨rfl, by decide⟩
  have closing : IsSeparator ')' := ⟨rfl, by decide⟩
  have opened := rewrite_separator (t := []) doubles.tame opening rfl (t ++ [')'])
  have closed := rewrite_separator doubles.tame closing paired []
  rw [rewrite_nil] at opened closed
  exact opened.trans (congrArg ('(' :: ·) closed)

theorem quoteFree_between (doubles : scope.TwoDoubles a b x y k) (op : Operator)
    (reads : (readInt? k).isSome = true) : '"' ∉ between op a k := by
  have quoteA := quoteFree_of_isName doubles.validA
  have quoteK := (bare_of_readInt? reads).2
  have operator : '"' ≠ op.symbol := by cases op <;> decide
  simp [between, quoteA, quoteK, operator]

theorem bare_between (doubles : scope.TwoDoubles a b x y k) (op : Operator)
    (reads : (readInt? k).isSome = true) : Text.Bare (between op a k) :=
  (bare_of_isName doubles.validA).around (bare_of_readInt? reads).1 _

/-- A text in front of `==` and the second name. -/
theorem evaluate_equal (doubles : scope.TwoDoubles a b x y k) {t : Text} (bare : t.Bare)
    (free : '"' ∉ t) :
    Expr.evaluate .bool (t ++ " == ".toList ++ b) scope =
      evaluateText .bool (rewrite scope.substitutionOrder t ++ " == ".toList ++
        (Value.double y).literal) := by
  have quoteB := quoteFree_of_isName doubles.validB
  have whole : Text.Bare (t ++ " == ".toList ++ b) :=
    bare.around (bare_of_isName doubles.validB) _
  have freeWhole : '"' ∉ t ++ " == ".toList ++ b := by simp [free, quoteB]
  rw [Expr.evaluate_bare doubles.tame whole freeWhole, doubles.rewrite_equal (Quoted.after_of_free free)]

end Scope.TwoDoubles

end Scopes

open StepScript.Expr Arithmetic Decimal in
/-- A calculation with a double variable is worth in a condition what it is worth as a Double, with
or without parentheses, if and only if the variable is finite. -/
theorem double_calculation_in_condition_iff {scope : Scope} {a b k : Text} {x y r : Float}
    {op : Operator} (doubles : scope.TwoDoubles a b x y k) (number : Double.isNaN x = false)
    (reads : (readInt? k).isSome = true)
    (done : Expr.evaluate .double (between op a k) scope = .ok (.double r))
    (same : (r == y) = true) :
    let holds := fun t => Expr.evaluate .bool (t ++ " == ".toList ++ b) scope = .ok (.bool true)
    (holds (between op a k) ↔ Double.isFinite x = true) ∧
      (holds ('(' :: between op a k ++ [')']) ↔ Double.isFinite x = true) := by
  intro holds
  have calculation := calculation_between x op reads
  have bare := doubles.bare_between op reads
  have free := doubles.quoteFree_between op reads
  have written := doubles.rewrite_between op
  obtain ⟨numberR, numberY⟩ := Double.number_of_beq same
  rw [evaluate_bare doubles.tame bare free, written, evaluateText_flatten_eq calculation.flat,
    calculation.bare.trim] at done
  obtain ⟨readable, equal⟩ := equal_between_iff number reads done same
  have right := Condition.operand_literal (v := .double y) numberY
  have bareY := (Value.double y).bare_literal
  have flatY := (Value.double y).flat_literal trivial
  constructor
  · change Expr.evaluate _ _ _ = _ ↔ _
    rw [← Error.toOption_eq_some, doubles.evaluate_equal bare free, written, ← equal,
      Condition.evaluateText_equal calculation.operand right calculation.bare bareY calculation.flat
        flatY]
  · change Expr.evaluate _ _ _ = _ ↔ _
    have freeGroup : '"' ∉ '(' :: between op a k ++ [')'] := by simp [free]
    rw [← Error.toOption_eq_some, doubles.evaluate_equal (Text.bare_group _) freeGroup,
      doubles.rewrite_group (Quoted.after_of_free free), written, ← equal,
      Condition.evaluateText_group_equal calculation.groupLiteral readable right calculation.flat
        bareY flatY]

open StepScript.Expr Decimal in
/-- An integral double, divided as a Double. -/
theorem half_of_three_in_condition :
    let scope : Scope :=
      ⟨[(['x'], .double (Double.ofInt 3))], [(['y'], .double (readDoubleOrZero "1.5".toList))]⟩
    evaluate .bool "x / 2 == y".toList scope = .ok (.bool true) ∧
      evaluate .bool "(x / 2) == y".toList scope = .ok (.bool true) := by
  intro scope
  have doubles : scope.TwoDoubles ['x'] ['y'] (Double.ofInt 3) (readDoubleOrZero "1.5".toList)
      ['2'] :=
    .of_letters rfl rfl (.refl _) (by decide) (by decide) ⟨'x', by decide, rfl⟩
      ⟨'y', by decide, rfl⟩ (by decide +kernel) (by decide +kernel) (by decide)
  have half : evaluate .double "x / 2".toList scope =
      .ok (.double (readDoubleOrZero "1.5".toList)) := by decide +kernel
  have iffs := @double_calculation_in_condition_iff scope _ _ _ _ _ _ .div doubles
    (by decide +kernel) (by decide) half (by decide +kernel)
  exact ⟨iffs.1.mpr (by decide +kernel), iffs.2.mpr (by decide +kernel)⟩

open StepScript.Expr in
/-- Half of infinity is infinite as a Double, and half of the greatest Int in a condition. -/
theorem half_of_infinity_in_condition :
    let infinity := Double.ofCode false Double.infinityCode
    let scope : Scope := ⟨[(['x'], .double infinity), (['y'], .double infinity)], []⟩
    (infinity == infinity) = true ∧
      evaluate .double "x / 2".toList scope = .ok (.double infinity) ∧
      evaluate .bool "x / 2 == y".toList scope = .ok (.bool false) ∧
      evaluate .bool "(x / 2) == y".toList scope = .ok (.bool false) := by
  decide +kernel

end StepScript
