import StepScript.Proofs.Parentheses
import StepScript.Proofs.References
import StepScript.Proofs.StringLiterals

/-! Minus before an operand, and the difference of zero and the operand. The first turns the sign of
the numeral that the operand leaves, the second is taken in 64-bit arithmetic; they agree but for
the least Int, whose magnitude is no Int. -/
namespace StepScript

section Numerals

open Decimal

variable {n : Int}

theorem renderInteger_of_neg (negative : n < 0) :
    renderInteger n = '-' :: renderInteger (-n) := by
  have positive : ¬ -n < 0 := by omega
  rw [renderInteger, if_pos negative, renderInteger, if_neg positive, Int.natAbs_neg]

theorem readIntOrZero_renderInteger (range : -Double.signPlace ≤ n ∧ n < Double.signPlace) :
    readIntOrZero (renderInteger n) = Int64.ofInt n := by
  simp [readIntOrZero, trim_renderInteger, readInt?, readInteger?_renderInteger, range]

end Numerals

namespace Arithmetic

open Decimal

theorem Operator.isSeparator (op : Operator) : Expr.IsSeparator op.symbol := by
  cases op <;> exact ⟨rfl, by decide⟩

theorem separators_between (op : Operator) {before after : Text} (gapsBefore : before.Gaps)
    (gapsAfter : after.Gaps) : ∀ c ∈ before ++ op.symbol :: after, Expr.IsSeparator c := by
  intro c member
  rw [List.mem_append, List.mem_cons] at member
  rcases member with gap | rfl | gap
  · exact .of_isGap (gapsBefore c gap)
  · exact op.isSeparator
  · exact .of_isGap (gapsAfter c gap)

section Minus

variable {α : Type} {domain : Domain α} {t : Text} {a : α}

/-- Of two minus signs nothing is left. -/
theorem evaluate_minus_minus (free : '"' ∉ t) (done : evaluate domain t = .ok a) :
    evaluate domain ('-' :: '-' :: t) = .ok a := by
  have freeSigned : '"' ∉ '-' :: '-' :: t := by simp [free]
  have same : chain? domain false (tokens ('-' :: '-' :: t)) = chain? domain false (tokens t) :=
    (chain?_sign domain false _).trans (chain?_sign domain true _)
  rw [evaluate, Quoted.mapLiterals_of_free free] at done
  rw [evaluate, Quoted.mapLiterals_of_free freeSigned, same]
  cases chain : chain? domain false (tokens t) with
  | some entries =>
    rw [chain] at done
    exact done
  | none =>
    rw [chain] at done
    cases done

theorem evaluate_renderInteger (n : Int) :
    evaluate ints (renderInteger n) = .ok (readIntOrZero (renderInteger n)) := by
  rw [renderInteger_eq]
  exact evaluate_signed ints _ (plain_toDigits _) Nat.toDigits_ne_nil

end Minus

section Turned

variable (n : Int64)

/-- What the numeral of `n` with its sign turned is worth. The magnitude of the least Int is read as
a double, which is held within the bounds of an Int. -/
def turned : Int64 :=
  if n = Int64.minValue then Int64.maxValue else -n

theorem neg_eq_turned_iff : -n = turned n ↔ n ≠ Int64.minValue := by
  by_cases least : n = Int64.minValue
  · subst least
    decide
  · simp [turned, least]

theorem evaluate_negative (least : n ≠ Int64.minValue) :
    evaluate ints (renderInteger (-n.toInt)) = .ok (-n) := by
  have above : Int64.minValue.toInt < n.toInt :=
    lt_of_le_of_ne n.minValue_le_toInt fun same => least (Int64.toInt_inj.mp same.symm)
  have below := n.toInt_lt
  have range : -Double.signPlace ≤ -n.toInt ∧ -n.toInt < Double.signPlace := by
    change -9223372036854775808 ≤ -n.toInt ∧ -n.toInt < 9223372036854775808
    change -9223372036854775808 < n.toInt at above
    omega
  rw [evaluate_renderInteger, readIntOrZero_renderInteger range, Int64.ofInt_neg, Int64.ofInt_toInt]

theorem evaluate_minus : evaluate ints ('-' :: renderInt n) = .ok (turned n) := by
  by_cases least : n = Int64.minValue
  · subst least
    decide +kernel
  · rw [turned, if_neg least, renderInt]
    rcases lt_trichotomy n.toInt 0 with negative | zero | positive
    · have free : '"' ∉ renderInteger (-n.toInt) := by
        rw [renderInteger_eq]
        exact not_mem_signed (plain_toDigits _) rfl (by decide)
      rw [renderInteger_of_neg negative]
      exact evaluate_minus_minus free (evaluate_negative n least)
    · obtain rfl : n = 0 := Int64.toInt_inj.mp zero
      decide +kernel
    · have negative : -n.toInt < 0 := by omega
      have numeral := renderInteger_of_neg negative
      rw [Int.neg_neg] at numeral
      rw [← numeral]
      exact evaluate_negative n least

theorem evaluate_difference : evaluate ints ("0 - ".toList ++ renderInt n) = .ok (-n) := by
  have spelled : Spelled Numeral (['0'] ++ ([' '] ++ Operator.sub.symbol :: [' ']) ++ renderInt n)
      0 ([] ++ [(.sub, n)]) :=
    .join .sub (.number rfl) (by decide) (by decide) (.number rfl)
  calc evaluate ints ("0 - ".toList ++ renderInt n)
      _ = fold ints 0 [(.sub, n)] := spelled.evaluate
      _ = .ok (0 - n) := rfl
      _ = .ok (-n) := by rw [Int64.zero_sub]

end Turned
end Arithmetic

namespace Expr

open Arithmetic Decimal

variable {n : Int64} {t : Text}

/-- Minus before an operand worth `n`, and the difference of zero and the operand. -/
structure Opposites (n : Int64) (minus difference : Except Error Value) : Prop where
  ofMinus : minus = .ok (.int (turned n))
  ofDifference : difference = .ok (.int (-n))
  agree : minus = difference ↔ n ≠ Int64.minValue

/-- Text without groups in front of a text that leaves the numeral of `n`. -/
theorem evaluateText_before (first middle : Text) {value : Int64} (bareFirst : first.Bare)
    (flat : Group.Flat (first ++ middle)) (balanced : Group.Balanced t) (bare : t.Bare)
    (resolved : flatten .int t = .ok (renderInt n))
    (worth : Arithmetic.evaluate ints (first ++ middle ++ renderInt n) = .ok value) :
    evaluateText .int (first ++ middle ++ t) = .ok (.int value) := by
  have whole : Text.Bare (first ++ middle ++ t) := bareFirst.around bare middle
  have numeral : Text.Bare (first ++ middle ++ renderInt n) :=
    bareFirst.around (Numeral.bare rfl) middle
  have balancedWhole : Group.Balanced (first ++ middle ++ t) :=
    (Group.Balanced.flat flat).append balanced
  rw [evaluateText_balanced (whole.trim.symm ▸ balancedWhole), flatten_append (.flat flat) balanced,
    flatten_flat flat, resolved]
  change evaluateFlat .int (Text.trim (first ++ middle ++ renderInt n)) = _
  rw [numeral.trim, evaluateFlat, worth]
  rfl

/-- What leaves the numeral of `n` is worth `n` behind a minus sign and in a difference. -/
theorem opposites_of_flatten (balanced : Group.Balanced t) (bare : t.Bare)
    (resolved : flatten .int t = .ok (renderInt n)) :
    Opposites n (evaluateText .int ('-' :: t)) (evaluateText .int ("0 - ".toList ++ t)) := by
  have minus : evaluateText .int ('-' :: t) = .ok (.int (turned n)) := by
    have bareMinus : Text.Bare ['-'] := ⟨⟨'-', [], rfl, rfl⟩, ⟨[], '-', rfl, rfl⟩⟩
    exact evaluateText_before ['-'] [] bareMinus (Operator.flat_symbol .sub) balanced bare resolved
      (evaluate_minus n)
  have difference : evaluateText .int ("0 - ".toList ++ t) = .ok (.int (-n)) := by
    have zero : Numeral 0 ['0'] := rfl
    have gap : Text.Gaps [' '] := by decide
    exact evaluateText_before ['0'] " - ".toList zero.bare
      (zero.flat.append (flat_between .sub gap gap)) balanced bare resolved (evaluate_difference n)
  refine ⟨minus, difference, ?_⟩
  rw [minus, difference, ← neg_eq_turned_iff, Except.ok.injEq, Value.int.injEq]
  exact eq_comm

end Expr

section Variables

open StepScript.Expr Decimal

variable {scope : Scope} {name : Text} {n : Int64}

theorem bare_of_isName (valid : isName name = true) : name.Bare :=
  @Arithmetic.bare_signed false name (plain_of_isName valid) (ne_nil_of_isName valid)

theorem Expr.evaluate_bare {raw : Text} (tame : scope.substitutionOrder.Tame) (bare : raw.Bare)
    (free : '"' ∉ raw) (kind : Kind) :
    evaluate kind raw scope = evaluateText kind (rewrite scope.substitutionOrder raw) := by
  rw [evaluate_eq tame (Quoted.after_of_free free), bare.trim]

theorem Scope.substitutionOrder_singleton {entry : Text × Value}
    (only : scope.locals ++ scope.interactive = [entry]) : scope.substitutionOrder = [entry] :=
  List.perm_singleton.mp (only ▸ scope.substitutionOrder_perm)

/-- A name that is part of the numeral of zero is that numeral. -/
theorem not_part_of_zero (valid : isName name = true) (other : name ≠ ['0']) :
    ¬ name.lower <:+: Text.lower ['0'] := by
  intro part
  have nonempty : name.length ≠ 0 := fun none =>
    ne_nil_of_isName valid (List.length_eq_zero_iff.mp none)
  have length : name.lower.length = name.length := List.length_map _
  have short : name.lower.length ≤ 1 := part.length_le
  have same : name.lower = ['0'] := part.eq_of_length (by change _ = 1; omega)
  obtain ⟨c, rest, rfl⟩ := List.exists_cons_of_ne_nil (ne_nil_of_isName valid)
  obtain ⟨first, none⟩ := List.cons_eq_cons.mp same
  rw [(toLower_eq_iff rfl).mp first, List.map_eq_nil_iff.mp none] at other
  exact other rfl

/-- The only variable becomes the numeral of its value behind a minus sign and in a difference. -/
theorem rewrite_negated (valid : isName name = true) (other : name ≠ ['0']) :
    let table : Table := [(Scope.key name, .int n)]
    table.Tame ∧ rewrite table ('-' :: name) = '-' :: renderInt n ∧
      rewrite table ("0 - ".toList ++ name) = "0 - ".toList ++ renderInt n := by
  intro table
  have key := Scope.key_of_isName valid
  have tame : table.Tame :=
    List.forall_mem_singleton.mpr ⟨Scope.isName_key_of_isName valid, trivial⟩
  have reference : rewrite table name = renderInt n :=
    rewrite_reference [] [] tame key.symm (List.forall_mem_nil _) (List.forall_mem_nil _)
  have zero : rewrite table ['0'] = ['0'] :=
    rewrite_apart (List.forall_mem_singleton.mpr (key ▸ not_part_of_zero valid other))
  have gap : Text.Gaps [' '] := by decide
  have signed := rewrite_separated (t := []) tame (List.cons_ne_nil '-' [])
    (Arithmetic.separators_between .sub .nil .nil) rfl name
  have subtracted := rewrite_separated (t := ['0']) tame (List.cons_ne_nil ' ' ['-', ' '])
    (Arithmetic.separators_between .sub gap gap) rfl name
  rw [rewrite_nil, reference] at signed
  rw [zero, reference] at subtracted
  exact ⟨tame, signed, subtracted⟩

/-- The least Int apart, a variable behind a minus sign is its difference from zero. -/
theorem Scope.opposites (valid : isName name = true) (other : name ≠ ['0'])
    (only : scope.locals ++ scope.interactive = [(key name, .int n)]) :
    Opposites n (evaluate .int ('-' :: name) scope)
      (evaluate .int ("0 - ".toList ++ name) scope) := by
  obtain ⟨tame, minus, difference⟩ := rewrite_negated (n := n) valid other
  have numeral : Arithmetic.Numeral n (renderInt n) := rfl
  have free : '"' ∉ name := quoteFree_of_isName valid
  have bare : ∀ c middle, isBlank c = false → Text.Bare ([c] ++ middle ++ name) := by
    intro c middle full
    have bareChar : Text.Bare [c] := ⟨⟨c, [], rfl, full⟩, ⟨[], c, rfl, full⟩⟩
    exact bareChar.around (bare_of_isName valid) middle
  rw [← substitutionOrder_singleton only] at tame minus difference
  have signed : evaluate .int ('-' :: name) scope = evaluateText .int ('-' :: renderInt n) :=
    (evaluate_bare tame (bare '-' [] rfl) (by simp [free]) .int).trans (congrArg _ minus)
  have subtracted : evaluate .int ("0 - ".toList ++ name) scope =
      evaluateText .int ("0 - ".toList ++ renderInt n) :=
    (evaluate_bare tame (bare '0' " - ".toList rfl) (by simp [free]) .int).trans
      (congrArg _ difference)
  rw [signed, subtracted]
  exact opposites_of_flatten (.flat numeral.flat) numeral.bare (flatten_flat numeral.flat)

end Variables

open StepScript.Expr in
/-- A minus sign before an Int expression in parentheses, or before an Int variable that is alone in
its scope, is the difference from zero, which is the value negated in 64-bit arithmetic; but not for
the least Int: there the sign gives the greatest one, and the difference the least. -/
theorem minus_is_difference_from_zero_iff (n : Int64) :
    (∀ {text : Text}, evaluateText .int text = .ok (.int n) →
      Opposites n (evaluateText .int ('-' :: ('(' :: text ++ [')'])))
        (evaluateText .int ("0 - ".toList ++ ('(' :: text ++ [')'])))) ∧
    ∀ {scope : Scope} {name : Text}, isName name = true → name ≠ ['0'] →
      scope.locals ++ scope.interactive = [(Scope.key name, .int n)] →
      Opposites n (evaluate .int ('-' :: name) scope)
        (evaluate .int ("0 - ".toList ++ name) scope) := by
  constructor
  · intro text done
    have balanced := balanced_of_trim (balanced_of_evaluateText done)
    exact opposites_of_flatten balanced.group (Text.bare_group text) (flatten_parenthesised done)
  · intro scope name valid other only
    exact Scope.opposites valid other only

open StepScript.Expr in
/-- A sum that is least only after it has wrapped around, and a variable with a value of its own. -/
theorem opposites_at_the_bounds :
    let text := "9223372036854775807 + 1".toList
    let scope : Scope := ⟨[], [(['x'], .int (-5))]⟩
    Opposites Int64.minValue (evaluateText .int ('-' :: ('(' :: text ++ [')'])))
        (evaluateText .int ("0 - ".toList ++ ('(' :: text ++ [')']))) ∧
      Opposites (-5) (evaluate .int ('-' :: ['X']) scope)
        (evaluate .int ("0 - ".toList ++ ['X']) scope) := by
  intro text scope
  obtain ⟨group, _⟩ := minus_is_difference_from_zero_iff Int64.minValue
  obtain ⟨_, lone⟩ := minus_is_difference_from_zero_iff (-5)
  exact ⟨group (by decide +kernel), lone (by decide) (by decide) rfl⟩

open StepScript.Expr in
/-- The least Int in parentheses is not subtracted from zero by a minus sign. -/
theorem minus_least_is_greatest :
    let least := "-9223372036854775808".toList
    evaluateText .int least = .ok (.int Int64.minValue) ∧
      evaluateText .int ('-' :: ('(' :: least ++ [')'])) = .ok (.int Int64.maxValue) ∧
      evaluateText .int ("0 - ".toList ++ ('(' :: least ++ [')'])) = .ok (.int Int64.minValue) := by
  decide +kernel

end StepScript
