import StepScript.Proofs.Conditions
import StepScript.Proofs.DoubleOrder

/-! Comparisons of integers. `==` and `!=` compare the integers themselves, the orderings the
doubles nearest to them. Two integers of more than 53 bits can have one nearest double: then none of
`<`, `==` and `>` holds, although both `<=` and `>=` do. -/
namespace StepScript

namespace Condition

/-- What the comparison says of two numbers. -/
def Comparison.holds (op : Comparison) (m n : Int) : Bool :=
  match op with
  | .eq => m = n
  | .ne => m ≠ n
  | .le => m ≤ n
  | .ge => n ≤ m
  | .lt => m < n
  | .gt => n < m

/-- The comparison orders numbers, rather than telling equal ones from others. -/
def Comparison.isOrder : Comparison → Bool
  | .eq | .ne => false
  | .le | .ge | .lt | .gt => true

/-- The number that the comparison sees in the place of an integer. -/
def Comparison.seen (op : Comparison) (n : Int) : Int :=
  if op.isOrder then Double.roundInteger n else n

/-- Two integers with a comparison between them. -/
def comparisonText (op : Comparison) (a b : Int64) : Text :=
  Decimal.renderInt a ++ ([' '] ++ op.symbol ++ [' ']) ++ Decimal.renderInt b

section Doubles

theorem signedUnits_int (n : Int64) :
    Double.isNaN (Double.ofInt n.toInt) = false ∧ Double.signedUnits (Double.ofInt n.toInt) =
      Double.roundInteger n.toInt * Double.unitsPerOne := by
  have low := n.le_toInt
  have high := n.toInt_lt
  exact Double.signedUnits_ofInt (by omega)

/-- The doubles nearest to two integers are ordered as the rounded integers are. -/
theorem ofInt_lt_iff (a b : Int64) : Double.ofInt a.toInt < Double.ofInt b.toInt ↔
    Double.roundInteger a.toInt < Double.roundInteger b.toInt := by
  obtain ⟨numberA, worthA⟩ := signedUnits_int a
  obtain ⟨numberB, worthB⟩ := signedUnits_int b
  rw [Double.lt_iff numberA numberB, worthA, worthB]
  exact Int.mul_lt_mul_right (Int.ofNat_lt.mpr Double.unitsPerOne_pos)

theorem ofInt_le_iff (a b : Int64) : Double.ofInt a.toInt ≤ Double.ofInt b.toInt ↔
    Double.roundInteger a.toInt ≤ Double.roundInteger b.toInt := by
  obtain ⟨numberA, worthA⟩ := signedUnits_int a
  obtain ⟨numberB, worthB⟩ := signedUnits_int b
  rw [Double.le_iff numberA numberB, worthA, worthB]
  exact Int.mul_le_mul_right (Int.ofNat_lt.mpr Double.unitsPerOne_pos)

/-- Two integers are always comparable, and compared as the numbers that the comparison sees. -/
theorem compare_int (op : Comparison) (a b : Int64) :
    compare op (.int a) (.int b) = .ok (op.holds (op.seen a.toInt) (op.seen b.toInt)) := by
  have same : (a == b) = decide (a.toInt = b.toInt) := by
    rw [Bool.eq_iff_iff]
    simp [Int64.toInt_inj]
  match op with
  | .eq => exact congrArg Except.ok same
  | .ne =>
    refine congrArg Except.ok ?_
    rw [equal, same]
    exact (decide_not).symm
  | .lt => exact congrArg Except.ok (decide_eq_decide.mpr (ofInt_lt_iff a b))
  | .gt => exact congrArg Except.ok (decide_eq_decide.mpr (ofInt_lt_iff b a))
  | .le => exact congrArg Except.ok (decide_eq_decide.mpr (ofInt_le_iff a b))
  | .ge => exact congrArg Except.ok (decide_eq_decide.mpr (ofInt_le_iff b a))

end Doubles

/-- The nearest doubles tell the two integers apart as far as they are apart. -/
def Distinguished (a b : Int64) : Prop :=
  a = b ∨ Double.roundInteger a.toInt ≠ Double.roundInteger b.toInt

section Order

variable {op : Comparison} {a b : Int64}

/-- Up to 53 bits every integer is a double. -/
theorem distinguished_of_le (smallA : a.toInt.natAbs ≤ 2 ^ 53) (smallB : b.toInt.natAbs ≤ 2 ^ 53) :
    Distinguished a b := by
  rw [Distinguished, Double.roundInteger_of_le smallA, Double.roundInteger_of_le smallB, ne_eq,
    Int64.toInt_inj]
  exact em _

/-- Rounding can only make different integers equal; it never turns their order around. -/
theorem Distinguished.holds (apart : Distinguished a b) (op : Comparison) :
    op.holds (op.seen a.toInt) (op.seen b.toInt) = op.holds a.toInt b.toInt := by
  rcases apart with rfl | apart
  · cases op <;> simp [Comparison.holds]
  · have up := @Double.roundInteger_mono a.toInt b.toInt
    have down := @Double.roundInteger_mono b.toInt a.toInt
    cases op <;>
      simp only [Comparison.holds, Comparison.seen, Comparison.isOrder, if_true,
        Bool.false_eq_true, if_false, decide_eq_decide] <;> omega

/-- Of integers that the nearest doubles do not tell apart each is at most the other. -/
theorem holds_of_not_distinguished (blurred : ¬ Distinguished a b) (op : Comparison) :
    op.holds (op.seen a.toInt) (op.seen b.toInt) =
      match op with
      | .ne | .le | .ge => true
      | .eq | .lt | .gt => false := by
  obtain ⟨differ, same⟩ := not_or.mp blurred
  have rounded := not_not.mp same
  rw [← Int64.toInt_inj] at differ
  cases op <;> simp [Comparison.holds, Comparison.seen, Comparison.isOrder, differ, rounded]

/-- Of the three signs exactly one stands between two numbers. -/
theorem existsUnique_holds (m n : Int) :
    ∃! op : Comparison, op ∈ [.lt, .eq, .gt] ∧ op.holds m n = true := by
  refine existsUnique_of_exists_of_unique ?_ ?_
  · rcases Int.lt_trichotomy m n with less | same | greater
    · exact ⟨.lt, by decide, decide_eq_true less⟩
    · exact ⟨.eq, by decide, decide_eq_true same⟩
    · exact ⟨.gt, by decide, decide_eq_true greater⟩
  · rintro op op' ⟨member, holds⟩ ⟨member', holds'⟩
    simp only [List.mem_cons, List.not_mem_nil, or_false] at member member'
    rcases member with rfl | rfl | rfl <;> rcases member' with rfl | rfl | rfl <;>
      simp only [Comparison.holds, decide_eq_true_eq, reduceCtorEq] at * <;> omega

end Order

section Texts

open Formula

variable {formula : Formula} {text : Text} {b : Bool}

/-- A formula that holds or does not is evaluated to that. -/
theorem Formula.Written.evaluateText (written : formula.Written .condition text)
    (holds : formula.holds? = some b) : Expr.evaluateText .bool text = .ok (.bool b) := by
  have whole := Expr.evaluateText_padded written.balanced written.bare (List.forall_mem_nil _)
    (List.forall_mem_nil _) .bool
  rw [List.nil_append, List.append_nil] at whole
  rw [whole]
  cases written.flattens with
  | @strung u _ _ flat strung _ _ worth =>
    have evaluated := strung.evaluate.trans (worth.outcome.trans holds)
    rw [flat]
    change Value.bool <$> Condition.evaluate u = _
    cases done : Condition.evaluate u with
    | error e =>
      rw [done] at evaluated
      cases evaluated
    | ok result =>
      rw [done] at evaluated
      cases evaluated
      rfl
  | failed flat worthless =>
    rw [holds?, worthless] at holds
    cases holds

/-- A comparison of two integers, without its layout. -/
def intFormula (op : Comparison) (a b : Int64) : Formula :=
  .node (.comparison op) (.number (.literal a)) (.number (.literal b))

theorem intFormula_value? (op : Comparison) (a b : Int64) :
    (intFormula op a b).value? =
      some (.bool (op.holds (op.seen a.toInt) (op.seen b.toInt))) := by
  change ((compare op (.int a) (.int b)).toOption.map Value.bool) = _
  rw [compare_int]
  rfl

theorem intFormula_written (op : Comparison) (a b : Int64) :
    (intFormula op a b).Written .chain (comparisonText op a b) := by
  have numeral : ∀ n : Int64, Written .operand (.number (.literal n)) (Decimal.renderInt n) :=
    fun n => .number (.loosen (.loosen (.literal rfl)))
  have gap : Text.Gaps [' '] := by decide
  exact @Written.node (.comparison op) _ _ _ _ _ _ (.loosen (numeral a)) gap gap (numeral b)

theorem evaluateText_comparison (op : Comparison) (a b : Int64) :
    Expr.evaluateText .bool (comparisonText op a b) =
      .ok (.bool (op.holds (op.seen a.toInt) (op.seen b.toInt))) := by
  refine Written.evaluateText (.loosen (.loosen (intFormula_written op a b))) ?_
  rw [holds?, intFormula_value?]
  rfl

/-- Two comparisons of the same integers, of which one has to hold. -/
def eitherText (op op' : Comparison) (a b : Int64) : Text :=
  comparisonText op a b ++ " || ".toList ++ comparisonText op' a b

theorem evaluateText_either (op op' : Comparison) (a b : Int64) :
    Expr.evaluateText .bool (eitherText op op' a b) =
      .ok (.bool (op.holds (op.seen a.toInt) (op.seen b.toInt) ||
        op'.holds (op'.seen a.toInt) (op'.seen b.toInt))) := by
  have gap : Text.Gaps [' '] := by decide
  have written : Written .condition
      (.node (.logical .or) (intFormula op a b) (intFormula op' a b)) (eitherText op op' a b) :=
    @Written.node (.logical .or) _ _ _ _ _ _ (.loosen (.loosen (intFormula_written op a b))) gap gap
      (.loosen (intFormula_written op' a b))
  refine written.evaluateText ?_
  rw [holds?, value?, intFormula_value?, intFormula_value?]
  rfl

end Texts
end Condition

open Condition in
/-- A comparison of two integers is evaluated as that of the numbers it sees. All comparisons are
exact, exactly one of `<`, `==` and `>` holds, and `<=` is `<` or `==`, each if and only if the
doubles nearest to the integers tell them apart. Within 53 bits they do. -/
theorem int_comparisons_exact_iff (a b : Int64) :
    let result := fun op => Expr.evaluateText .bool (comparisonText op a b)
    let either := Expr.evaluateText .bool (eitherText .lt .eq a b)
    (∀ op, result op = .ok (.bool (op.holds (op.seen a.toInt) (op.seen b.toInt)))) ∧
      (Distinguished a b ↔ ∀ op, result op = .ok (.bool (op.holds a.toInt b.toInt))) ∧
      (Distinguished a b ↔ ∃! op, op ∈ [.lt, .eq, .gt] ∧ result op = .ok (.bool true)) ∧
      (Distinguished a b ↔ either = result .le) ∧
      (a.toInt.natAbs ≤ 2 ^ 53 → b.toInt.natAbs ≤ 2 ^ 53 → Distinguished a b) := by
  intro result either
  have value : ∀ op, result op = .ok (.bool (op.holds (op.seen a.toInt) (op.seen b.toInt))) :=
    fun op => evaluateText_comparison op a b
  have both : either = .ok (.bool (Comparison.lt.holds _ _ || Comparison.eq.holds _ _)) :=
    evaluateText_either .lt .eq a b
  refine ⟨value, ⟨fun apart op => ?_, fun exact => ?_⟩, ⟨fun apart => ?_, fun unique => ?_⟩,
    ⟨fun apart => ?_, fun equal => ?_⟩, distinguished_of_le⟩
  · rw [value, apart.holds]
  · by_contra blurred
    have atMost : a.toInt ≤ b.toInt := by
      have shown := (exact .le).symm.trans (value .le)
      rw [holds_of_not_distinguished blurred] at shown
      simpa [Comparison.holds] using shown
    have atLeast : b.toInt ≤ a.toInt := by
      have shown := (exact .ge).symm.trans (value .ge)
      rw [holds_of_not_distinguished blurred] at shown
      simpa [Comparison.holds] using shown
    exact blurred (.inl (Int64.toInt_inj.mp (Int.le_antisymm atMost atLeast)))
  · simpa only [value, apart.holds, Except.ok.injEq, Value.bool.injEq] using
      existsUnique_holds a.toInt b.toInt
  · by_contra blurred
    obtain ⟨op, ⟨member, holds⟩, _⟩ := unique
    rw [value, holds_of_not_distinguished blurred] at holds
    cases op <;> simp at member holds
  · rw [both, value, apart.holds, apart.holds, apart.holds]
    simp [Comparison.holds, Int.le_iff_lt_or_eq]
  · by_contra blurred
    rw [both, value, holds_of_not_distinguished blurred, holds_of_not_distinguished blurred,
      holds_of_not_distinguished blurred] at equal
    cases equal

open Condition in
/-- The first integer above 2^53 is not a double, and 2^53 is not less than it. -/
theorem int_comparison_not_exact :
    ¬ ∀ (op : Comparison) (a b : Int64), Expr.evaluateText .bool (comparisonText op a b) =
      .ok (.bool (op.holds a.toInt b.toInt)) := by
  intro exact
  have shown := exact .lt 9007199254740992 9007199254740993
  rw [evaluateText_comparison] at shown
  revert shown
  decide

end StepScript
