import StepScript.Proofs.Infinity
import StepScript.Proofs.Parentheses

/-! Calculations as operands of conditions. A text of numbers with gaps and operators among them is
no number itself, so that a condition evaluates it: as Double arithmetic if there is a point in it,
and as Int arithmetic otherwise, in parentheses too. -/
namespace StepScript

section Reading

open Decimal

variable {t digits : Text} {c : Char}

/-- An optional sign and digits. -/
inductive SignedDigits (digits : Text) : Text → Prop where
  | unsigned : SignedDigits digits digits
  | minus : SignedDigits digits ('-' :: digits)
  | plus : SignedDigits digits ('+' :: digits)

theorem splitSign_mem (member : c ∈ t) : c = '-' ∨ c = '+' ∨ c ∈ (splitSign t).2 := by
  fun_cases splitSign t with
  | case1 rest => exact (List.mem_cons.mp member).imp id .inr
  | case2 rest => exact .inr (List.mem_cons.mp member)
  | case3 => exact .inr (.inr member)

theorem readInteger?_shape (reads : (readInteger? t).isSome = true) :
    ∃ digits, digits ≠ [] ∧ (∀ c ∈ digits, c.isDigit = true) ∧ SignedDigits digits t := by
  have numeral : isNumeral (splitSign t).2 = true := by
    by_contra other
    simp [readInteger?, other] at reads
  simp only [isNumeral, Bool.and_eq_true, Bool.not_eq_true', List.isEmpty_eq_false_iff,
    List.all_eq_true] at numeral
  refine ⟨(splitSign t).2, numeral.1, numeral.2, ?_⟩
  fun_cases splitSign t with
  | case1 digits => exact .minus
  | case2 digits => exact .plus
  | case3 => exact .unsigned

theorem SignedDigits.mem (signed : SignedDigits digits t) (member : c ∈ t) :
    c = '-' ∨ c = '+' ∨ c ∈ digits := by
  cases signed with
  | unsigned => exact .inr (.inr member)
  | minus =>
    rcases List.mem_cons.mp member with rfl | inside
    · exact .inl rfl
    · exact .inr (.inr inside)
  | plus => exact .inr (List.mem_cons.mp member)

/-- Characters that numbers are read from. -/
def isNumberChar (c : Char) : Bool :=
  isPlain c || c == '-' || c == '+'

theorem isNumberChar_of_isPlain (plain : isPlain c = true) : isNumberChar c = true := by
  simp [isNumberChar, plain]

theorem numberChars_of_readInteger? (reads : (readInteger? t).isSome = true) :
    ∀ c ∈ t, isNumberChar c = true := by
  obtain ⟨digits, _, digit, signed⟩ := readInteger?_shape reads
  intro c member
  rcases signed.mem member with rfl | rfl | inside
  · rfl
  · rfl
  · exact isNumberChar_of_isPlain (isPlain_of_isDigit (digit c inside))

theorem readInteger?_of_readInt? (reads : (readInt? t).isSome = true) :
    (readInteger? t).isSome = true := by
  rw [readInt?, Option.isSome_bind] at reads
  exact Option.isSome_of_any reads

theorem numberChars_of_readInt? (reads : (readInt? t).isSome = true) :
    ∀ c ∈ t, isNumberChar c = true :=
  numberChars_of_readInteger? (readInteger?_of_readInt? reads)

theorem numberChars_of_readExponent? (reads : (readExponent? t).isSome = true) :
    ∀ c ∈ t, isNumberChar c = true := by
  cases t with
  | nil => exact List.forall_mem_nil _
  | cons c t =>
    rw [readExponent?] at reads
    split at reads
    · rename_i exponent
      refine List.forall_mem_cons.mpr ⟨?_, numberChars_of_readInteger? reads⟩
      rcases Bool.or_eq_true_iff.mp exponent with letter | letter <;>
      · obtain rfl := beq_iff_eq.mp letter
        rfl
    · cases reads

theorem numberChars_of_dropWhile (behind : ∀ c ∈ t.dropWhile Char.isDigit, isNumberChar c = true) :
    ∀ c ∈ t, isNumberChar c = true := by
  intro c member
  rw [← List.takeWhile_append_dropWhile (p := Char.isDigit) (l := t), List.mem_append] at member
  rcases member with digit | rest
  · exact isNumberChar_of_isPlain (isPlain_of_isDigit (List.mem_takeWhile_imp digit))
  · exact behind c rest

theorem numberChars_of_read? (reads : (Decimal.read? t).isSome = true) :
    ∀ c ∈ t, isNumberChar c = true := by
  have numeric : ∀ {bad : Bool} {exponent : Text} {f : Int → Decimal},
      (if bad = true then none else (readExponent? exponent).map f).isSome = true →
        ∀ c ∈ exponent, isNumberChar c = true := by
    intro bad exponent f reads
    split at reads
    · cases reads
    · rw [Option.isSome_map] at reads
      exact numberChars_of_readExponent? reads
  unfold Decimal.read? at reads
  dsimp only at reads
  refine numberChars_of_dropWhile ?_
  split at reads
  · rename_i u pointed
    rw [pointed]
    exact List.forall_mem_cons.mpr ⟨rfl, numberChars_of_dropWhile (numeric reads)⟩
  · exact numeric reads

/-- Other characters, such as gaps, are in no text that reads as a double. -/
theorem Double.numberChars_of_read? (reads : (Double.read? t).isSome = true) :
    ∀ c ∈ t, isNumberChar c = true := by
  have body : ∀ c ∈ (splitSign t).2, isNumberChar c = true := by
    unfold Double.read? at reads
    dsimp only at reads
    split at reads
    · rename_i infinite
      intro c member
      rcases Bool.or_eq_true_iff.mp infinite with same | same <;>
      · exact isNumberChar_of_isPlain (Condition.plain_of_sameWord rfl same c member)
    · split at reads
      · rename_i none
        intro c member
        exact isNumberChar_of_isPlain (Condition.plain_of_sameWord rfl none c member)
      · rw [Option.isSome_map] at reads
        exact StepScript.numberChars_of_read? reads
  intro c member
  rcases splitSign_mem member with rfl | rfl | inside
  · rfl
  · rfl
  · exact body c inside

theorem Value.numberChars_literal (x : Float) :
    ∀ c ∈ (Value.double x).literal, isNumberChar c = true := by
  rcases (Value.double x).literal_shape with ⟨_, string⟩ | ⟨negative, body, _, plain, written⟩
  · cases string
  · intro c member
    rw [written] at member
    by_cases minus : c = '-'
    · subst minus
      rfl
    · exact isNumberChar_of_isPlain (plain c ((mem_signed _ minus).mp member))

/-- The numeral of an Int is bare and has no quote. -/
theorem bare_of_readInt? (reads : (readInt? t).isSome = true) : t.Bare ∧ '"' ∉ t := by
  have chars := numberChars_of_readInt? reads
  have solid : ∀ c ∈ t, isBlank c = false := by
    intro c member
    have number := chars c member
    simp only [isNumberChar, Bool.or_eq_true, beq_iff_eq] at number
    rcases number with (plain | rfl) | rfl
    · exact isBlank_of_isPlain plain
    · rfl
    · rfl
  have nonempty : t ≠ [] := by
    rintro rfl
    cases reads
  refine ⟨⟨?_, ?_⟩, fun quote => absurd (chars _ quote) (by decide)⟩
  · obtain ⟨c, rest, rfl⟩ := List.exists_cons_of_ne_nil nonempty
    exact ⟨c, rest, rfl, solid c List.mem_cons_self⟩
  · refine ⟨_, _, (List.dropLast_append_getLast nonempty).symm, ?_⟩
    exact solid _ (List.getLast_mem nonempty)

end Reading

namespace Condition

open StepScript.Expr

section Equality

variable {t u : Text} {value : Option Value} {v w : Value}

/-- A literal is an operand that is worth its value. -/
theorem operand_literal (readable : v.Readable) : Operand v.literal (some v) := by
  have worth := Value.operandValue_literal readable
  rcases v.literal_shape with ⟨s, rfl⟩ | ⟨negative, body, _, plain, written⟩
  · exact operand_quoted readable
  · have operand := operand_unquoted v.bare_literal fun c member =>
      .inl (isWordChar_of_mem_signed plain negative c (written ▸ member))
    rwa [worth] at operand

/-- Two operands with `==` between them. -/
theorem evaluateText_equal (left : Operand t value) (right : Operand u (some w))
    (bareLeft : t.Bare) (bareRight : u.Bare) (flatLeft : Group.Flat t) (flatRight : Group.Flat u) :
    (evaluateText .bool (t ++ " == ".toList ++ u)).toOption =
      value.map fun v => .bool (equal v w) := by
  have gap : Text.Gaps [' '] := by decide
  have strung : Strung (t ++ " == ".toList ++ u) value [(.comparison .eq, some w)] := by
    have joined := Strung.join (.comparison .eq) (.operand (left.pad .nil gap))
      (.operand (right.pad gap .nil))
    simpa [Operator.symbol, Comparison.symbol] using joined
  have flat : Group.Flat (t ++ " == ".toList ++ u) :=
    (flatLeft.append (flat_between (.comparison .eq) gap gap)).append flatRight
  have bare : Text.Bare (t ++ " == ".toList ++ u) := bareLeft.around bareRight _
  rw [evaluateText_flatten_eq flat, bare.trim, evaluateFlat, Error.toOption_map, strung.evaluate,
    outcome_comparison, outcome_nil]
  cases value <;> rfl

/-- A group that is worth an operand stands for it. -/
theorem evaluateText_group_equal (left : groupLiteral .bool t = Value.literal <$> operandValue t)
    (readable : ∀ v, operandValue t = .ok v → v.Readable) (right : Operand u (some w))
    (flatLeft : Group.Flat t) (bareRight : u.Bare) (flatRight : Group.Flat u) :
    (evaluateText .bool ('(' :: t ++ [')'] ++ " == ".toList ++ u)).toOption =
      (operandValue t).toOption.map fun v => .bool (equal v w) := by
  have gap : Text.Gaps [' '] := by decide
  have flat : Group.Flat (" == ".toList ++ u) :=
    (flat_between (.comparison .eq) gap gap).append flatRight
  have group : Group.Balanced ('(' :: t ++ [')']) := (Group.Balanced.flat flatLeft).group
  have bare : Text.Bare ('(' :: t ++ [')'] ++ " == ".toList ++ u) :=
    (Text.bare_group t).around bareRight _
  have whole : evaluateText .bool ('(' :: t ++ [')'] ++ " == ".toList ++ u) =
      Value.literal <$> operandValue t >>= fun s =>
        evaluateFlat .bool (Text.trim (s ++ " == ".toList ++ u)) := by
    rw [List.append_assoc] at bare ⊢
    rw [evaluateText_balanced (bare.trim.symm ▸ group.append (.flat flat)),
      flatten_append_flat group flat, flatten_group (.flat flatLeft), flatten_flat flatLeft]
    change ((· ++ _) <$> groupLiteral .bool t >>= _) = _
    rw [left, bind_map_left]
    simp
  rw [whole]
  cases worth : operandValue t with
  | error e => rfl
  | ok v =>
    have good := readable v worth
    have flatLiteral := v.flat_literal good.quoteFree
    have replaced : Group.Flat (v.literal ++ " == ".toList ++ u) := by
      rw [List.append_assoc]
      exact flatLiteral.append flat
    have same := evaluateText_equal (operand_literal good) right v.bare_literal bareRight
      flatLiteral flatRight
    rw [evaluateText_flatten_eq replaced] at same
    exact same

end Equality

section Calculations

variable {t : Text} {d : Char}

/-- Characters of numbers, gaps and operators of arithmetic. -/
def isCalculationChar (c : Char) : Bool :=
  isPlain c || isGap c || (Arithmetic.Operator.ofChar? c).isSome

/-- Arithmetic of two operands at least, with a gap between them and no groups. -/
structure Calculation (t : Text) : Prop where
  chars : ∀ c ∈ t, isCalculationChar c = true
  bare : t.Bare
  divided : ∃ c ∈ t, isGap c = true
  operator : t.any (fun c => (Arithmetic.Operator.ofChar? c).isSome) = true

namespace Calculation

theorem not_mem (calculation : Calculation t) (other : isCalculationChar d = false) : d ∉ t := by
  intro member
  rw [calculation.chars d member] at other
  cases other

theorem flat (calculation : Calculation t) : Group.Flat t :=
  ⟨Group.noneOpen_of_free (calculation.not_mem rfl) (calculation.not_mem rfl),
    Quoted.after_of_free (calculation.not_mem rfl)⟩

/-- Divided by a gap, it is no number and no Bool itself. -/
theorem unread (calculation : Calculation t) :
    readBool? t = none ∧ Decimal.readInt? t = none ∧ Double.read? t = none := by
  obtain ⟨c, member, gap⟩ := calculation.divided
  have other : isNumberChar c = false := by
    simp only [isGap, Bool.or_eq_true, beq_iff_eq] at gap
    rcases gap with ((rfl | rfl) | rfl) | rfl <;> rfl
  have mixed : ¬ ∀ c ∈ t, isNumberChar c = true := by
    intro numeric
    rw [numeric c member] at other
    cases other
  refine ⟨Option.eq_none_iff_forall_ne_some.mpr fun b reads => mixed ?_,
    Option.eq_none_iff_forall_ne_some.mpr fun n reads => mixed ?_,
    Option.eq_none_iff_forall_ne_some.mpr fun x reads => mixed ?_⟩
  · exact fun c member => isNumberChar_of_isPlain ((plain_of_readBool? reads).2 c member)
  · exact numberChars_of_readInt? (Option.isSome_of_eq_some reads)
  · exact Double.numberChars_of_read? (Option.isSome_of_eq_some reads)

/-- As an operand it is evaluated as Double arithmetic if there is a point in it. -/
theorem operandValue (calculation : Calculation t) :
    operandValue t = evaluateFlat (arithmeticKind t) t := by
  obtain ⟨noBool, noInt, noDouble⟩ := calculation.unread
  have unquoted : t.contains '"' = false := by
    simpa using calculation.not_mem (d := '"') rfl
  simp only [Condition.operandValue, calculation.bare.trim, unquoted, noBool, noInt, noDouble,
    calculation.operator, Bool.false_eq_true, if_true, if_false, Option.map_none, Option.or]
  rw [arithmeticKind, evaluateArithmetic]
  split <;> rfl

theorem operand (calculation : Calculation t) : Operand t (Condition.operandValue t).toOption := by
  refine operand_unquoted calculation.bare fun c member => ?_
  have char := calculation.chars c member
  simp only [isCalculationChar, Bool.or_eq_true] at char
  rcases char with (plain | gap) | operator
  · exact .inl (isWordChar_of_isPlain plain)
  · exact .inr gap
  · obtain ⟨op, found⟩ := Option.isSome_iff_exists.mp operator
    obtain rfl := Arithmetic.Operator.eq_symbol_of_ofChar? found
    cases op <;> exact .inl rfl

/-- In parentheses it is evaluated in the same way. -/
theorem groupLiteral (calculation : Calculation t) :
    groupLiteral .bool t = Value.literal <$> Condition.operandValue t := by
  have noCondition : hasCondition false t = false :=
    hasCondition_of_chars calculation.chars rfl
  have unquoted : '"' ∉ t := calculation.not_mem rfl
  have kind : groupKind .bool t = arithmeticKind t := by
    simp only [groupKind, Kind.isNumeric, noCondition, calculation.bare.trim, calculation.unread,
      List.contains_eq_mem, unquoted]
    rfl
  rw [Expr.groupLiteral, kind, calculation.bare.trim, calculation.operandValue]

end Calculation
end Calculations
end Condition

namespace Arithmetic

open Decimal

section Pair

variable {α : Type} {domain : Domain α} {k body before after : Text} {op : Operator}

/-- The numeral of an Int is one operand. With a plus sign in front it is none. -/
theorem tail_of_chain? (reads : (readInt? k).isSome = true) {z : α} {more : List (Operator × α)}
    (chain : chain? domain false (tokens k) = some (z, more)) : more = [] := by
  obtain ⟨digits, nonempty, digit, signed⟩ := readInteger?_shape (readInteger?_of_readInt? reads)
  have solid : ∀ c ∈ digits, isSolid c = true := fun c member =>
    isSolid_of_isPlain (isPlain_of_isDigit (digit c member))
  have ends : Separates [] := by simp [Separates]
  have single := tokens_solid solid nonempty ends
  rw [List.append_nil] at single
  cases signed with
  | unsigned =>
    rw [single] at chain
    cases chain
    rfl
  | minus =>
    rw [chain?_sign, single] at chain
    cases chain
    rfl
  | plus =>
    rw [show tokens ('+' :: digits) = _ from tokens_symbol .add digits] at chain
    cases chain

/-- A number and an Int with an operator between them. -/
theorem apply_of_evaluate {negative : Bool} (plain : ∀ c ∈ body, isPlain c = true)
    (nonempty : body ≠ []) (gapsBefore : before.Gaps) (gapsAfter : after.Gaps)
    (reads : (readInt? k).isSome = true) {r : α}
    (free : '"' ∉ signed negative body ++ (before ++ op.symbol :: after) ++ k)
    (done : evaluate domain (signed negative body ++ (before ++ op.symbol :: after) ++ k) = .ok r) :
    ∃ z, domain.apply op (domain.read (signed negative body)) z = .ok r := by
  have solid : ∀ c ∈ body, isSolid c = true := fun c member => isSolid_of_isPlain (plain c member)
  have read : ∀ minus : Bool,
      chain? domain minus (tokens (body ++ (before ++ op.symbol :: after ++ k))) =
        (chain? domain false (tokens k)).map fun chain =>
          (domain.read (signed minus body), (op, chain.1) :: chain.2) := by
    intro minus
    rw [tokens_solid solid nonempty (separates_between op gapsBefore k),
      tokens_between op gapsBefore gapsAfter]
    rfl
  have chained : chain? domain false
      (tokens (signed negative body ++ (before ++ op.symbol :: after) ++ k)) =
        (chain? domain false (tokens k)).map fun chain =>
          (domain.read (signed negative body), (op, chain.1) :: chain.2) := by
    rw [List.append_assoc]
    cases negative with
    | false => exact read false
    | true => exact (chain?_sign domain false _).trans (read true)
  rw [evaluate, Quoted.mapLiterals_of_free free, chained] at done
  cases chain : chain? domain false (tokens k) with
  | none =>
    rw [chain] at done
    cases done
  | some entries =>
    obtain ⟨z, more⟩ := entries
    obtain rfl := tail_of_chain? reads chain
    rw [chain] at done
    refine ⟨z, ?_⟩
    change fold domain (domain.read (signed negative body)) [(op, z)] = .ok r at done
    rw [fold_single] at done
    exact done

end Pair

section Between

open StepScript.Expr

/-- A double and an Int with an operator between them, as they are written. -/
def between (op : Operator) (t u : Text) : Text :=
  t ++ [' ', op.symbol, ' '] ++ u

variable {k : Text} {x r : Float} {op : Operator}

/-- A double and an Int with an operator between them are a calculation, once the double is written
down. -/
theorem calculation_between (x : Float) (op : Operator) (reads : (readInt? k).isSome = true) :
    Condition.Calculation (between op (Value.double x).literal k) where
  chars := by
    have number : ∀ c, isNumberChar c = true → Condition.isCalculationChar c = true := by
      intro c number
      simp only [isNumberChar, Bool.or_eq_true, beq_iff_eq] at number
      rcases number with (plain | rfl) | rfl
      · simp [Condition.isCalculationChar, plain]
      · rfl
      · rfl
    intro c member
    simp only [between, List.mem_append, List.mem_cons, List.not_mem_nil, or_false] at member
    rcases member with (first | rfl | rfl | rfl) | second
    · exact number c (Value.numberChars_literal x c first)
    · rfl
    · simp [Condition.isCalculationChar, op.ofChar?_symbol]
    · rfl
    · exact number c (numberChars_of_readInt? reads c second)
  bare := (Value.bare_literal _).around (bare_of_readInt? reads).1 _
  divided := ⟨' ', by simp [between], rfl⟩
  operator := by simp [between, op.ofChar?_symbol]

theorem arithmeticKind_between (number : Double.isNaN x = false) (op : Operator)
    (reads : (readInt? k).isSome = true) :
    Condition.arithmeticKind (between op (Value.double x).literal k) =
      if Double.isFinite x then .double else .int := by
  have noPoint : '.' ∉ k := by
    intro point
    rw [readInt?_of_mem point rfl (by decide)] at reads
    cases reads
  have operator : '.' ≠ op.symbol := by cases op <;> decide
  simp [Condition.arithmeticKind, between, noPoint, operator, Value.point_mem_literal_iff number]

/-- An infinite double and an Int give infinity, if they give a number. -/
theorem infinite_of_evaluate {r : Float} (infinite : Double.isInfinite x = true)
    (number : Double.isNaN x = false) (reads : (readInt? k).isSome = true)
    (done : evaluate doubles (between op (Value.double x).literal k) = .ok r)
    (numberR : Double.isNaN r = false) : Double.isInfinite r = true := by
  obtain ⟨body, written, shape⟩ := Value.literal_double number
  have free : '"' ∉ between op (Value.double x).literal k :=
    (calculation_between x op reads).not_mem rfl
  have gap : Text.Gaps [' '] := by decide
  rw [between, written] at done free
  obtain ⟨z, applied⟩ := apply_of_evaluate shape.plain shape.nonempty gap gap reads free done
  rw [show doubles.read _ = x from shape.readDoubleOrZero] at applied
  exact Double.infinite_of_apply infinite applied numberR

/-- What a calculation that is worth `r` as a Double is worth as an operand: a double only if its
first number is finite, and then the same. -/
theorem operandValue_between (number : Double.isNaN x = false)
    (reads : (Decimal.readInt? k).isSome = true)
    (done : evaluateFlat .double (between op (Value.double x).literal k) = .ok (.double r)) :
    let worth := Condition.operandValue (between op (Value.double x).literal k)
    (Double.isFinite x = true → worth = .ok (.double r)) ∧
      (Double.isFinite x = false → ∀ v, worth = .ok v → ∃ n, v = .int n) := by
  intro worth
  have operand : worth = _ := (calculation_between x op reads).operandValue
  rw [arithmeticKind_between number op reads] at operand
  constructor
  · intro finite
    rw [operand, if_pos finite, done]
  · intro infinite v isValue
    rw [operand, if_neg (Bool.eq_false_iff.mp infinite)] at isValue
    obtain ⟨n, _, rfl⟩ := Error.ok_of_map isValue
    exact ⟨n, rfl⟩

end Between
end Arithmetic
end StepScript
