import StepScript.Proofs.ConditionText

/-! Conditions. A formula of operands, comparisons and logical operators is worth what these make of
the values on both sides, and both sides are always evaluated. However it is written, with
parentheses wherever its operators would otherwise be taken together differently and with gaps
between the tokens, the text is worth what the formula is worth, and it is an error if anything in
the formula is one. -/
namespace StepScript

namespace Expr

section Signs

variable {inside : Bool} {t : Text}

/-- Characters that operators of a condition begin with. -/
def isSign (c : Char) : Bool :=
  ['<', '>', '=', '!', '&', '|'].contains c

theorem startsOperator_of_not_sign {c : Char} (plain : isSign c = false) (next? : Option Char) :
    hasCondition.startsOperator c next? = false := by
  simp only [isSign, List.contains_eq_mem, decide_eq_false_iff_not, List.mem_cons,
    List.not_mem_nil, or_false, not_or] at plain
  simp [hasCondition.startsOperator, plain]

/-- Text without signs is passed over. -/
theorem hasCondition_append_of_plain (plain : ∀ c ∈ t, isSign c = false) (u : Text) :
    hasCondition inside (t ++ u) = hasCondition (Quoted.after inside t) u := by
  induction t generalizing inside with
  | nil => rfl
  | cons c t ih =>
    obtain ⟨here, rest⟩ := List.forall_mem_cons.mp plain
    rw [List.cons_append, hasCondition, startsOperator_of_not_sign here, ih rest, Bool.and_false,
      Bool.false_or, Quoted.after_cons]

theorem hasCondition_of_plain (plain : ∀ c ∈ t, isSign c = false) :
    hasCondition inside t = false := by
  have whole : hasCondition inside (t ++ []) = _ := hasCondition_append_of_plain plain []
  rwa [List.append_nil] at whole

theorem hasCondition_of_chars {p : Char → Bool} (chars : ∀ c ∈ t, p c = true)
    (others : ['<', '>', '=', '!', '&', '|'].any p = false) : hasCondition inside t = false := by
  refine hasCondition_of_plain fun c member => Bool.eq_false_iff.mpr fun sign => ?_
  exact List.any_eq_false.mp others c (List.contains_iff_mem.mp sign) (chars c member)

end Signs
end Expr

namespace Condition

/-- A condition, without the layout of its text. -/
inductive Formula where
  | bool (b : Bool)
  | number (tree : Arithmetic.Tree)
  | string (s : Text)
  | node (op : Operator) (left right : Formula)

namespace Operator

/-- What an operator makes of two values. A comparison takes values of any kinds, but orders numbers
only; the logical operators take Bools. -/
def meaning? : Operator → Value → Value → Option Value
  | .comparison op, a, b => (compare op a b).toOption.map .bool
  | .logical .and, .bool a, .bool b => some (.bool (a && b))
  | .logical .or, .bool a, .bool b => some (.bool (a || b))
  | .logical _, _, _ => none

/-- The operator does not take values of these kinds. -/
def IllTyped : Operator → Value → Value → Prop
  | .comparison .eq, _, _ | .comparison .ne, _, _ => False
  | .comparison _, a, b => ¬ (a.kind.isNumeric = true ∧ b.kind.isNumeric = true)
  | .logical _, a, b => ¬ (a.kind = .bool ∧ b.kind = .bool)

theorem meaning?_eq_none {op : Operator} {a b : Value} :
    op.meaning? a b = none ↔ op.IllTyped a b := by
  match op with
  | .comparison .eq | .comparison .ne => simp [meaning?, IllTyped, compare, Except.toOption]
  | .comparison .lt | .comparison .le | .comparison .gt | .comparison .ge =>
    cases a <;> cases b <;>
      simp [meaning?, IllTyped, compare, Except.toOption, Value.asNumber?, Value.kind,
        Kind.isNumeric]
  | .logical .and | .logical .or =>
    cases a <;> cases b <;> simp [meaning?, IllTyped, Value.kind]

theorem meaning?_bool {op : Operator} {a b v : Value} (made : op.meaning? a b = some v) :
    ∃ result, v = .bool result := by
  match op with
  | .comparison op =>
    obtain ⟨result, _, rfl⟩ := Option.map_eq_some_iff.mp made
    exact ⟨result, rfl⟩
  | .logical .and | .logical .or =>
    cases a <;> cases b <;> cases made
    exact ⟨_, rfl⟩

end Operator

namespace Formula

/-- What the formula is worth, if all of its parts are worth something. -/
def value? : Formula → Option Value
  | .bool b => some (.bool b)
  | .number tree => tree.value.toOption.map .int
  | .string s => some (.string s)
  | .node op left right => do
    let a ← left.value?
    let b ← right.value?
    op.meaning? a b

/-- Whether the formula holds. On its own it has to be worth a Bool. -/
def holds? (formula : Formula) : Option Bool :=
  formula.value?.bind Value.asBool?

/-- The formula has an operator at its root. -/
def Compound : Formula → Prop
  | .node _ _ _ => True
  | .bool _ | .number _ | .string _ => False

/-- Somewhere in the formula a number is divided by zero, or an operator is applied to values of
kinds that it does not take. -/
inductive Faulty : Formula → Prop where
  | division {tree : Arithmetic.Tree} (zero : tree.DividesByZero) : Faulty (.number tree)
  | operands {op : Operator} {left right : Formula} {a b : Value} (worthLeft : left.value? = some a)
      (worthRight : right.value? = some b) (ill : op.IllTyped a b) : Faulty (.node op left right)
  | left {op : Operator} {left right : Formula} (inner : Faulty left) : Faulty (.node op left right)
  | right {op : Operator} {left right : Formula} (inner : Faulty right) :
      Faulty (.node op left right)

/-- The formula has a fault, or stands alone without being worth a Bool. -/
def Fails (formula : Formula) : Prop :=
  formula.Faulty ∨ ∃ v, formula.value? = some v ∧ v.kind ≠ .bool

theorem value?_eq_none {formula : Formula} : formula.value? = none ↔ formula.Faulty := by
  induction formula with
  | bool b | string s =>
    constructor
    · rintro ⟨⟩
    · rintro ⟨⟩
  | number tree =>
    rw [value?, Option.map_eq_none_iff]
    constructor
    · intro worthless
      cases value : tree.value with
      | ok n =>
        rw [value] at worthless
        cases worthless
      | error e => exact .division (Arithmetic.Tree.value_error.mp value).1
    · rintro ⟨zero⟩
      rw [Arithmetic.Tree.value_divisionByZero.mpr zero]
      rfl
  | node op left right ihLeft ihRight =>
    rw [value?]
    cases worthLeft : left.value? with
    | none => exact ⟨fun _ => .left (ihLeft.mp worthLeft), fun _ => rfl⟩
    | some a =>
      cases worthRight : right.value? with
      | none => exact ⟨fun _ => .right (ihRight.mp worthRight), fun _ => rfl⟩
      | some b =>
        change op.meaning? a b = none ↔ _
        rw [Operator.meaning?_eq_none]
        constructor
        · exact fun ill => .operands worthLeft worthRight ill
        · intro faulty
          cases faulty with
          | operands left right ill =>
            rw [worthLeft] at left
            rw [worthRight] at right
            cases left
            cases right
            exact ill
          | left inner =>
            rw [ihLeft.mpr inner] at worthLeft
            cases worthLeft
          | right inner =>
            rw [ihRight.mpr inner] at worthRight
            cases worthRight

theorem holds?_eq_none {formula : Formula} : formula.holds? = none ↔ formula.Fails := by
  rw [holds?, Option.bind_eq_none_iff, Fails, ← value?_eq_none]
  cases worth : formula.value? with
  | none => simp
  | some v => cases v <;> simp [Value.asBool?, Value.kind]

end Formula

/-- How tightly a written part holds together: an operand, a chain of comparisons, a clause of terms
with `&&` between them, or a condition of clauses with `||` between them. -/
inductive Level where
  | operand
  | chain
  | clause
  | condition
deriving DecidableEq

/-- The level that holds together more tightly than any operator of this one. -/
def Level.tighter : Level → Level
  | .condition => .clause
  | .clause => .chain
  | .chain | .operand => .operand

def Operator.level : Operator → Level
  | .comparison _ => .chain
  | .logical .and => .clause
  | .logical .or => .condition

/-- The formula can be written as the text. Operators of one level are taken from the left; a
condition with an operator in it becomes an operand in parentheses. -/
inductive Formula.Written : Level → Formula → Text → Prop where
  | bool {b : Bool} {word : Text} (reads : readBool? word = some b) :
      Written .operand (.bool b) word
  | number {tree : Arithmetic.Tree} {t : Text}
      (written : Arithmetic.Written Arithmetic.Numeral .sum tree t) :
      Written .operand (.number tree) t
  | string {s : Text} (free : '"' ∉ s) : Written .operand (.string s) ('"' :: s ++ ['"'])
  | group {op : Operator} {left right : Formula} {t before after : Text}
      (inner : Written .condition (.node op left right) t) (gapsBefore : before.Gaps)
      (gapsAfter : after.Gaps) :
      Written .operand (.node op left right) ('(' :: (before ++ t ++ after) ++ [')'])
  | loosen {level : Level} {formula : Formula} {t : Text}
      (tight : Written level.tighter formula t) : Written level formula t
  | node {op : Operator} {left right : Formula} {t before after u : Text}
      (writtenLeft : Written op.level left t) (gapsBefore : before.Gaps) (gapsAfter : after.Gaps)
      (writtenRight : Written op.level.tighter right u) :
      Written op.level (.node op left right) (t ++ (before ++ op.symbol ++ after) ++ u)

section Layout

variable {level : Level} {formula : Formula} {t before after : Text}

theorem Operator.flat_symbol (op : Operator) : Group.Flat op.symbol := by
  refine ⟨?_, op.after_symbol⟩
  match op with
  | .logical .and | .logical .or => exact Group.noneOpen_of_free (by decide) (by decide)
  | .comparison op => cases op <;> exact Group.noneOpen_of_free (by decide) (by decide)

theorem flat_between (op : Operator) (gapsBefore : before.Gaps) (gapsAfter : after.Gaps) :
    Group.Flat (before ++ op.symbol ++ after) :=
  (gapsBefore.flat.append op.flat_symbol).append gapsAfter.flat

theorem Formula.Written.balanced (written : formula.Written level t) : Group.Balanced t := by
  induction written with
  | bool reads => exact .flat (flat_of_readBool? reads)
  | number written => exact written.balanced fun _ _ numeral => numeral.flat
  | string free => exact .flat (Group.flat_quoted free)
  | group _ gapsBefore gapsAfter ih => exact (ih.pad gapsBefore gapsAfter).group
  | loosen _ ih => exact ih
  | node _ gapsBefore gapsAfter _ ihLeft ihRight =>
    exact (ihLeft.append (.flat (flat_between _ gapsBefore gapsAfter))).append ihRight

theorem Formula.Written.bare (written : formula.Written level t) : t.Bare := by
  induction written with
  | bool reads => exact bare_of_readBool? reads
  | number written => exact written.bare fun _ _ numeral => numeral.bare
  | @string s => exact ⟨⟨'"', s ++ ['"'], rfl, rfl⟩, ⟨'"' :: s, '"', rfl, rfl⟩⟩
  | @group _ _ _ t before after =>
    exact ⟨⟨'(', _, rfl, rfl⟩, ⟨'(' :: (before ++ t ++ after), ')', rfl, rfl⟩⟩
  | loosen _ ih => exact ih
  | node _ _ _ _ ihLeft ihRight => exact ihLeft.around ihRight _

end Layout

section Folding

variable {level : Level} {any all : Bool} {acc first next value left right : Option Value}
  {more rest : List (Operator × Option Value)}

theorem toOption_toBool (v : Value) : (toBool v).toOption = v.asBool? := by
  cases v <;> rfl

theorem outcome_nil : outcome any all acc [] =
    (acc.bind Value.asBool?).bind fun term => some (any || (all && term)) := by
  cases acc with
  | none => rfl
  | some v => cases v <;> rfl

theorem outcome_cons (op : Operator) :
    outcome any all acc ((op, next) :: more) = acc.bind fun a => next.bind fun b =>
      (values? more).bind fun vs => (fold any all a ((op, b) :: vs)).toOption := by
  simp [outcome, values?, Option.bind_assoc]

theorem outcome_comparison (op : Comparison) :
    outcome any all acc ((.comparison op, next) :: more) =
      outcome any all (acc.bind fun a => next.bind fun b => Operator.meaning? (.comparison op) a b)
        more := by
  cases acc with
  | none => rfl
  | some a =>
    cases next with
    | none => rfl
    | some b =>
      rw [outcome_cons]
      simp only [Option.bind_some, fold, Error.toOption_bind, Operator.meaning?, outcome]
      cases (compare op a b).toOption <;> simp

theorem outcome_and :
    outcome any all acc ((.logical .and, next) :: more) =
      (acc.bind Value.asBool?).bind fun term => outcome any (all && term) next more := by
  cases acc with
  | none => rfl
  | some a =>
    rw [outcome_cons]
    simp only [Option.bind_some, fold, Error.toOption_bind, toOption_toBool, outcome]
    cases a.asBool? <;> simp

theorem outcome_or :
    outcome any all acc ((.logical .or, next) :: more) =
      (acc.bind Value.asBool?).bind fun term => outcome (any || (all && term)) true next more := by
  cases acc with
  | none => rfl
  | some a =>
    rw [outcome_cons]
    simp only [Option.bind_some, fold, Error.toOption_bind, toOption_toBool, outcome]
    cases a.asBool? <;> simp

/-- What comes after a clause so far, which ends there or goes on with a logical operator. -/
def ending (any clause : Bool) : List (Operator × Option Value) → Option Bool
  | (.logical .and, next) :: more => outcome any clause next more
  | (.logical .or, next) :: more => outcome (any || clause) true next more
  | _ => some (any || clause)

/-- Where no comparison follows, only the truth of a term counts. -/
theorem outcome_term (apart : ∀ next ∈ rest.head?, next.1.level ≠ .chain) :
    outcome any all acc rest =
      (acc.bind Value.asBool?).bind fun term => ending any (all && term) rest := by
  match rest with
  | [] => exact outcome_nil
  | (.logical .and, next) :: more => exact outcome_and
  | (.logical .or, next) :: more => exact outcome_or
  | (.comparison op, next) :: more => exact absurd rfl (apart _ rfl)

/-- Where only a clause of its own can follow, it does not matter when a clause is counted. -/
theorem ending_or (clauses : ∀ next ∈ rest.head?, next.1.level = .condition) (any p q : Bool) :
    ending (any || p) q rest = ending any (p || q) rest := by
  match rest with
  | [] => simp [ending, Bool.or_assoc]
  | (.logical .or, _) :: _ => simp [ending, Bool.or_assoc]
  | (.logical .and, _) :: _ | (.comparison _, _) :: _ => cases clauses _ rfl

/-- What operands and operators are worth as a part that holds together so tightly: whatever follows
that part goes on from its value. Only operators that hold less tightly can follow it. -/
def Worth : Level → Option Value → List (Operator × Option Value) → Option Value → Prop
  | .operand, first, more, value => more = [] ∧ value = first
  | .chain, first, more, value => ∀ any all rest,
    outcome any all first (more ++ rest) = outcome any all value rest
  | .clause, first, more, value => ∀ any all rest,
    (∀ next ∈ rest.head?, next.1.level ≠ .chain) →
      outcome any all first (more ++ rest) = outcome any all value rest
  | .condition, first, more, value => ∀ any rest,
    (∀ next ∈ rest.head?, next.1.level = .condition) →
      outcome any true first (more ++ rest) = outcome any true value rest

theorem Worth.loosen (worth : Worth level.tighter first more value) :
    Worth level first more value := by
  cases level with
  | operand => exact worth
  | chain =>
    obtain ⟨rfl, rfl⟩ := worth
    exact fun any all rest => rfl
  | clause => exact fun any all rest _ => worth any all rest
  | condition =>
    intro any rest clauses
    refine worth any true rest fun next head => ?_
    rw [clauses next head]
    decide

theorem Worth.comparison (op : Comparison) (worth : Worth .chain first more left) :
    Worth .chain first (more ++ [(.comparison op, next)])
      (left.bind fun a => next.bind fun b => Operator.meaning? (.comparison op) a b) := by
  intro any all rest
  rw [List.append_assoc, worth]
  exact outcome_comparison op

/-- The truth of what a logical operator makes of two values. -/
theorem asBool?_meaning? (op : Logical) :
    (left.bind fun a => right.bind fun b => Operator.meaning? (.logical op) a b).bind
        Value.asBool? =
      (left.bind Value.asBool?).bind fun p => (right.bind Value.asBool?).map fun q =>
        match op with
        | .and => p && q
        | .or => p || q := by
  cases left with
  | none => rfl
  | some a =>
    cases right with
    | none => cases a <;> rfl
    | some b => cases op <;> cases a <;> cases b <;> rfl

theorem Worth.and (worthLeft : Worth .clause first more left)
    (worthRight : Worth .chain next rest right) :
    Worth .clause first (more ++ (.logical .and, next) :: rest)
      (left.bind fun a => right.bind fun b => Operator.meaning? (.logical .and) a b) := by
  have logical : ∀ tail : List (Operator × Option Value),
      ∀ entry ∈ ((.logical .and, next) :: tail).head?, entry.1.level ≠ .chain := by
    rintro tail entry ⟨⟩ ⟨⟩
  have follows : ∀ any all tail, outcome any all next (rest ++ tail) = outcome any all right tail :=
    worthRight
  intro any all tail apart
  rw [List.append_assoc, List.cons_append, worthLeft any all _ (logical _), outcome_and,
    outcome_term apart, asBool?_meaning?]
  simp only [follows, outcome_term apart]
  simp [Option.bind_assoc, Option.bind_map, Bool.and_assoc]

theorem Worth.or (worthLeft : Worth .condition first more left)
    (worthRight : Worth .clause next rest right) :
    Worth .condition first (more ++ (.logical .or, next) :: rest)
      (left.bind fun a => right.bind fun b => Operator.meaning? (.logical .or) a b) := by
  intro any tail clauses
  have apart : ∀ next ∈ tail.head?, next.1.level ≠ .chain := by
    intro next head
    rw [clauses next head]
    decide
  rw [List.append_assoc, List.cons_append, worthLeft any _ (by rintro _ ⟨⟩; rfl), outcome_or,
    outcome_term apart, asBool?_meaning?]
  simp only [worthRight _ _ _ apart, outcome_term apart]
  simp [Option.bind_assoc, Option.bind_map, ending_or clauses]

theorem Worth.node (op : Operator) (worthLeft : Worth op.level first more left)
    (worthRight : Worth op.level.tighter next rest right) :
    Worth op.level first (more ++ (op, next) :: rest)
      (left.bind fun a => right.bind fun b => op.meaning? a b) := by
  match op with
  | .comparison op =>
    obtain ⟨rfl, rfl⟩ := worthRight
    exact worthLeft.comparison op
  | .logical .and => exact worthLeft.and worthRight
  | .logical .or => exact worthLeft.or worthRight

theorem Worth.outcome (worth : Worth .condition first more value) :
    outcome false true first more = value.bind Value.asBool? := by
  have alone := worth false [] (by simp)
  rw [List.append_nil] at alone
  rw [alone, outcome_nil]
  cases value.bind Value.asBool? <;> simp

end Folding

section Resolving

open StepScript.Expr

variable {level : Level} {formula : Formula} {t u before after : Text} {first : Option Value}
  {more : List (Operator × Option Value)} {inside : Bool}

theorem hasCondition_append (found : hasCondition (Quoted.after inside t) u = true) :
    hasCondition inside (t ++ u) = true := by
  induction t generalizing inside with
  | nil => exact found
  | cons c t ih =>
    rw [List.cons_append, hasCondition, ih found, Bool.or_true]

theorem Strung.hasCondition (strung : Strung t first more) (operators : more ≠ []) :
    Expr.hasCondition false t = true := by
  cases strung with
  | operand => exact absurd rfl operators
  | @join op t u _ _ _ _ left _ =>
    have shown : Expr.hasCondition false (op.symbol ++ u) = true := by
      match op with
      | .logical .and | .logical .or => rfl
      | .comparison .eq | .comparison .ne | .comparison .le => rfl
      | .comparison .ge | .comparison .lt | .comparison .gt => rfl
    rw [List.append_assoc]
    refine hasCondition_append ?_
    rwa [show Quoted.after false t = false from left.paired]

/-- Arithmetic in a group of a condition is taken for arithmetic of integers. -/
theorem legible_bool : Arithmetic.Legible .bool Arithmetic.Numeral := by
  refine Arithmetic.legible_numeral ?_
  intro t before after first more spelled gapsBefore gapsAfter
  have chars : ∀ c ∈ before ++ t ++ after, Arithmetic.isArithmetic c = true := by
    intro c member
    simp only [List.mem_append] at member
    rcases member with (gap | inside) | gap
    · simp [Arithmetic.isArithmetic, gapsBefore c gap]
    · exact spelled.chars c inside
    · simp [Arithmetic.isArithmetic, gapsAfter c gap]
  have absent : ∀ d, Arithmetic.isArithmetic d = false → d ∉ before ++ t ++ after := by
    intro d other member
    rw [chars d member] at other
    cases other
  have noCondition : hasCondition false (before ++ t ++ after) = false :=
    hasCondition_of_chars chars rfl
  have noBool : readBool? (Text.trim (before ++ t ++ after)) = none := by
    have bare := spelled.bare fun _ _ numeral => numeral.bare
    rw [bare.trim_pad gapsBefore.blank gapsAfter.blank]
    exact readBool?_spelled spelled
  have noQuote : '"' ∉ before ++ t ++ after := absent '"' rfl
  have noPoint : '.' ∉ before ++ t ++ after := absent '.' rfl
  simp only [groupKind, Kind.isNumeric, noCondition, noBool, arithmeticKind, List.contains_eq_mem,
    noQuote, noPoint]
  rfl

/-- What is left of a written formula without its groups is worth as much as the formula; or
something in a group is worth nothing. A formula with an operator can be told from what is left of
it. -/
inductive Flattens (level : Level) (formula : Formula) (t : Text) : Prop where
  | strung {u : Text} {first : Option Value} {more : List (Operator × Option Value)}
      (flat : flatten .bool t = .ok u) (strung : Strung u first more) (bare : u.Bare)
      (shown : formula.Compound → more ≠ [] ∨ (readBool? u).isSome = true)
      (worth : Worth level first more formula.value?)
  | failed {e : Error} (flat : flatten .bool t = .error e) (worthless : formula.value? = none)

theorem Flattens.operand (flat : Group.Flat t) (operand : Operand t formula.value?) (bare : t.Bare)
    (simple : ¬ formula.Compound) : Flattens .operand formula t :=
  .strung (flatten_flat flat) (.operand operand) bare (fun compound => absurd compound simple)
    ⟨rfl, rfl⟩

theorem Flattens.number {tree : Arithmetic.Tree}
    (written : Arithmetic.Written Arithmetic.Numeral .sum tree t) :
    Flattens .operand (.number tree) t := by
  cases written.flattens legible_bool with
  | spelled flat spelled worth =>
    have operand := operand_spelled spelled
    rw [worth.fold] at operand
    exact .strung flat (.operand operand) (spelled.bare fun _ _ numeral => numeral.bare)
      (fun compound => absurd compound id) ⟨rfl, rfl⟩
  | failed flat zero => exact .failed flat (Formula.value?_eq_none.mpr (.division zero))

theorem readBool?_literal (b : Bool) : readBool? (Value.bool b).literal = some b := by
  cases b <;> rfl

/-- What is left of a formula with an operator is evaluated as a condition. -/
theorem groupLiteral_bool (strung : Strung u first more) (bare : u.Bare)
    (shown : more ≠ [] ∨ (readBool? u).isSome = true) (gapsBefore : before.Gaps)
    (gapsAfter : after.Gaps) :
    groupLiteral .bool (before ++ u ++ after) =
      (fun b => (Value.bool b).literal) <$> Condition.evaluate u := by
  have trimmed : Text.trim (before ++ u ++ after) = u :=
    bare.trim_pad gapsBefore.blank gapsAfter.blank
  have kind : groupKind .bool (before ++ u ++ after) = .bool := by
    have either : (hasCondition false (before ++ u ++ after) || (readBool? u).isSome) = true := by
      rcases shown with operators | word
      · rw [(strung.pad gapsBefore gapsAfter).hasCondition operators, Bool.true_or]
      · rw [word, Bool.or_true]
    rw [groupKind, trimmed, either]
    rfl
  rw [groupLiteral, kind, trimmed, evaluateFlat, Functor.map_map]

theorem Flattens.group {op : Operator} {left right : Formula} (balanced : Group.Balanced t)
    (inner : Flattens .condition (.node op left right) t) (gapsBefore : before.Gaps)
    (gapsAfter : after.Gaps) :
    Flattens .operand (.node op left right) ('(' :: (before ++ t ++ after) ++ [')']) := by
  have whole : flatten .bool ('(' :: (before ++ t ++ after) ++ [')']) = _ :=
    flatten_paddedGroup balanced gapsBefore gapsAfter
  cases inner with
  | failed flat worthless =>
    rw [flat] at whole
    exact .failed whole worthless
  | @strung u first more flat strung bare shown worth =>
    have replaced : flatten .bool ('(' :: (before ++ t ++ after) ++ [')']) =
        (fun b => (Value.bool b).literal) <$> Condition.evaluate u := by
      rw [whole, flat]
      exact groupLiteral_bool strung bare (shown trivial) gapsBefore gapsAfter
    have evaluated := strung.evaluate.trans worth.outcome
    cases done : Condition.evaluate u with
    | ok b =>
      rw [done] at replaced evaluated
      obtain ⟨v, worth, truth⟩ := Option.bind_eq_some_iff.mp evaluated.symm
      have value : (Formula.node op left right).value? = some (.bool b) := by
        rw [worth]
        cases v <;> cases truth
        rfl
      have word := readBool?_literal b
      exact .strung replaced (.operand (operand_bool word)) (bare_of_readBool? word)
        (fun _ => .inr (by simp [word])) ⟨rfl, value⟩
    | error e =>
      rw [done] at replaced evaluated
      refine .failed replaced ?_
      cases worth : (Formula.node op left right).value? with
      | none => rfl
      | some v =>
        obtain ⟨a, _, worthRight⟩ := Option.bind_eq_some_iff.mp worth
        obtain ⟨b, _, made⟩ := Option.bind_eq_some_iff.mp worthRight
        obtain ⟨result, rfl⟩ := Operator.meaning?_bool made
        rw [worth] at evaluated
        cases evaluated

theorem Flattens.node {op : Operator} {left right : Formula} (balanced : Group.Balanced t)
    (gapsBefore : before.Gaps) (gapsAfter : after.Gaps) (balancedRight : Group.Balanced u)
    (inLeft : Flattens op.level left t) (inRight : Flattens op.level.tighter right u) :
    Flattens op.level (.node op left right) (t ++ (before ++ op.symbol ++ after) ++ u) := by
  have whole : flatten .bool (t ++ (before ++ op.symbol ++ after) ++ u) = _ :=
    flatten_between balanced (flat_between op gapsBefore gapsAfter) balancedRight
  cases inRight with
  | failed flat worthless =>
    rw [flat] at whole
    exact .failed whole (Formula.value?_eq_none.mpr (.right (Formula.value?_eq_none.mp worthless)))
  | @strung flatU next rest flatRight strungRight bareRight _ worthRight =>
    cases inLeft with
    | failed flat worthless =>
      rw [flatRight, flat] at whole
      exact .failed whole (Formula.value?_eq_none.mpr (.left (Formula.value?_eq_none.mp worthless)))
    | @strung flatT first more flatLeft strungLeft bareLeft _ worthLeft =>
      rw [flatRight, flatLeft] at whole
      have joined : Strung (flatT ++ (before ++ op.symbol ++ after) ++ flatU) first
          (more ++ (op, next) :: rest) := by
        have padded := Strung.join op (strungLeft.pad .nil gapsBefore)
          (strungRight.pad gapsAfter .nil)
        simpa using padded
      exact .strung whole joined (bareLeft.around bareRight _) (fun _ => .inl (by simp))
        (worthLeft.node op worthRight)

theorem Formula.Written.flattens (written : formula.Written level t) :
    Flattens level formula t := by
  induction written with
  | bool reads =>
    exact .operand (flat_of_readBool? reads) (operand_bool reads) (bare_of_readBool? reads) id
  | number written => exact .number written
  | string free =>
    exact .operand (Group.flat_quoted free) (operand_quoted free) (Written.string free).bare id
  | group inner gapsBefore gapsAfter ih => exact ih.group inner.balanced gapsBefore gapsAfter
  | loosen _ ih =>
    cases ih with
    | strung flat strung bare shown worth => exact .strung flat strung bare shown worth.loosen
    | failed flat worthless => exact .failed flat worthless
  | node writtenLeft gapsBefore gapsAfter writtenRight ihLeft ihRight =>
    exact .node writtenLeft.balanced gapsBefore gapsAfter writtenRight.balanced ihLeft ihRight

end Resolving
end Condition

open Condition in
/-- However a condition is written, with any gaps between its tokens and any blanks around it, the
text holds exactly if the formula does, and it is an error exactly if somewhere in the formula a
number is divided by zero, values of the wrong kinds are ordered, or something other than a Bool
stands for one. -/
theorem conditions_follow_precedence {formula : Formula} {text before after : Text}
    (written : formula.Written .condition text) (blankBefore : ∀ c ∈ before, isBlank c = true)
    (blankAfter : ∀ c ∈ after, isBlank c = true) :
    let result := Expr.evaluateText .bool (before ++ text ++ after)
    result.toOption = formula.holds?.map .bool ∧ ((∃ e, result = .error e) ↔ formula.Fails) := by
  intro result
  have holds : result.toOption = formula.holds?.map .bool := by
    rw [show result = _ from
      Expr.evaluateText_padded written.balanced written.bare blankBefore blankAfter .bool]
    cases written.flattens with
    | strung flat strung _ _ worth =>
      rw [flat]
      change (Value.bool <$> Condition.evaluate _).toOption = _
      rw [Error.toOption_map, strung.evaluate, worth.outcome]
      rfl
    | failed flat worthless =>
      rw [flat, Formula.holds?, worthless]
      rfl
  refine ⟨holds, ?_⟩
  rw [← Formula.holds?_eq_none, ← Option.map_eq_none_iff, ← holds]
  cases result <;> simp [Except.toOption]

open Condition Formula in
/-- A group of arithmetic, strings that look like operators, and a clause that decides; but a clause
that decides does not excuse the next one. -/
theorem mixed_condition_holds :
    (Expr.evaluateText .bool "(1+2==3)&& \"<\"==\"\"||TRUE\n".toList).toOption = some (.bool true) ∧
      ∃ e, Expr.evaluateText .bool "TRUE || 0".toList = .error e := by
  have number : ∀ n, Written .operand (.number (.literal n)) (Decimal.renderInt n) :=
    fun n => .number (.loosen (.loosen (.literal rfl)))
  have sum : Arithmetic.Written Arithmetic.Numeral .sum (.node .add (.literal 1) (.literal 2))
      "1+2".toList :=
    @Arithmetic.Written.node _ .add _ _ ['1'] [] [] ['2'] (.loosen (.loosen (.literal rfl))) .nil
      .nil (.loosen (.literal rfl))
  have equal : Written .chain (.node (.comparison .eq) _ _) "1+2==3".toList :=
    @Written.node (.comparison .eq) _ _ "1+2".toList [] [] ['3'] (.loosen (.number sum)) .nil .nil
      (number 3)
  have strings : Written .chain (.node (.comparison .eq) _ _) "\"<\"==\"\"".toList :=
    @Written.node (.comparison .eq) _ _ "\"<\"".toList [] [] "\"\"".toList
      (.loosen (@Written.string ['<'] (by decide))) .nil .nil (@Written.string [] (by decide))
  have clause : Written .clause (.node (.logical .and) _ _) "(1+2==3)&& \"<\"==\"\"".toList :=
    @Written.node (.logical .and) _ _ "(1+2==3)".toList [] [' '] _
      (.loosen (.loosen (@Written.group _ _ _ _ [] [] (.loosen (.loosen equal)) .nil .nil))) .nil
      (by decide) strings
  have mixed : Written .condition (.node (.logical .or) _ (.bool true))
      "(1+2==3)&& \"<\"==\"\"||TRUE".toList :=
    @Written.node (.logical .or) _ _ "(1+2==3)&& \"<\"==\"\"".toList [] [] "TRUE".toList
      (.loosen clause) .nil .nil (.loosen (.loosen (.bool rfl)))
  have lone : Written .condition (.node (.logical .or) (.bool true) _) "TRUE || 0".toList :=
    @Written.node (.logical .or) _ _ "TRUE".toList [' '] [' '] ['0']
      (.loosen (.loosen (.loosen (.bool rfl)))) (by decide) (by decide)
      (.loosen (.loosen (number 0)))
  constructor
  · exact (@conditions_follow_precedence _ _ [] ['\n'] mixed (by simp) (List.all_eq_true.mp rfl)).1
  · refine (@conditions_follow_precedence _ _ [] [] lone (by simp) (by simp)).2.mpr (.inl ?_)
    exact .operands rfl rfl (by simp [Operator.IllTyped, Value.kind])

end StepScript
