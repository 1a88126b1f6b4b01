import StepScript.Proofs.Grouping

/-! Int expressions. A tree of numbers and operators is worth what exact arithmetic makes of it,
wrapped to 64 bits at every node. It can be written down in many ways, with parentheses wherever the
operators would otherwise be taken together differently, and more of them, and with gaps between the
tokens. Whichever way it is written, the text is worth what the tree is worth. -/
namespace StepScript

theorem Error.bind_error {α β : Type} {x : Except Error α} {f : α → Except Error β} {e : Error} :
    x >>= f = .error e ↔ x = .error e ∨ ∃ a, x = .ok a ∧ f a = .error e := by
  cases x <;> simp [bind, Except.bind]

namespace Arithmetic

open Decimal

/-- An expression of integers, without the layout of its text. -/
inductive Tree where
  | literal (n : Int64)
  | node (op : Operator) (left right : Tree)

namespace Operator

def symbol : Operator → Char
  | .add => '+'
  | .sub => '-'
  | .mul => '*'
  | .div => '/'

/-- The operator on unbounded integers. A quotient is truncated toward zero, and there is none by
zero. -/
def unbounded? : Operator → Int → Int → Option Int
  | .add, a, b => some (a + b)
  | .sub, a, b => some (a - b)
  | .mul, a, b => some (a * b)
  | .div, a, b => if b = 0 then none else some (a.tdiv b)

/-- The exact result modulo 2 ^ 64. -/
def wrapped (op : Operator) (a b : Int64) : Except Error Int64 :=
  match op.unbounded? a.toInt b.toInt with
  | some n => .ok (Int64.ofInt n)
  | none => .error .divisionByZero

theorem ofChar?_symbol (op : Operator) : ofChar? op.symbol = some op := by
  cases op <;> rfl

theorem eq_symbol_of_ofChar? {c : Char} {op : Operator} (found : ofChar? c = some op) :
    c = op.symbol := by
  unfold ofChar? at found
  split_ifs at found with plus minus times slash
  all_goals cases found
  · exact beq_iff_eq.mp plus
  · exact beq_iff_eq.mp minus
  · exact beq_iff_eq.mp times
  · exact beq_iff_eq.mp slash

theorem isGap_symbol (op : Operator) : isGap op.symbol = false := by
  cases op <;> rfl

theorem flat_symbol (op : Operator) : Group.Flat [op.symbol] := by
  refine Group.flat_of_free fun c only => ?_
  obtain rfl := List.mem_singleton.mp only
  cases op <;> decide

/-- The operators of the domain of integers are the exact ones, wrapped. -/
theorem apply_ints (op : Operator) (a b : Int64) : ints.apply op a b = op.wrapped a b := by
  cases op with
  | add => simp [ints, wrapped, unbounded?, Int64.ofInt_add]
  | sub => simp [ints, wrapped, unbounded?, Int64.ofInt_sub]
  | mul => simp [ints, wrapped, unbounded?, Int64.ofInt_mul]
  | div =>
    by_cases zero : b = 0
    · subst zero
      rfl
    · have nonzero : b.toInt ≠ 0 := fun same => zero (Int64.toInt_inj.mp same)
      have quotient : a / b = Int64.ofInt (a.toInt.tdiv b.toInt) := by
        rw [← Int64.toInt_inj, Int64.toInt_div, Int64.toInt_ofInt]
      simp [ints, wrapped, unbounded?, zero, nonzero, quotient]

/-- Only a division by zero has no result. -/
theorem wrapped_error {op : Operator} {a b : Int64} {e : Error} :
    op.wrapped a b = .error e ↔ op = .div ∧ b = 0 ∧ e = .divisionByZero := by
  have zero : b.toInt = 0 ↔ b = 0 := ⟨fun same => Int64.toInt_inj.mp same, by rintro rfl; rfl⟩
  cases op with
  | add | sub | mul => simp [wrapped, unbounded?]
  | div =>
    by_cases same : b.toInt = 0
    · simp [wrapped, unbounded?, zero.mp same, eq_comm]
    · simp [wrapped, unbounded?, same, mt zero.mpr same]

end Operator

namespace Tree

/-- What the tree is worth in 64-bit arithmetic. -/
def value : Tree → Except Error Int64
  | .literal n => .ok n
  | .node op left right => do
    let a ← left.value
    let b ← right.value
    op.wrapped a b

/-- The tree has a division whose divisor is worth zero. -/
inductive DividesByZero : Tree → Prop where
  | here {left right : Tree} (zero : right.value = .ok 0) : DividesByZero (.node .div left right)
  | left {op : Operator} {left right : Tree} (inner : DividesByZero left) :
      DividesByZero (.node op left right)
  | right {op : Operator} {left right : Tree} (inner : DividesByZero right) :
      DividesByZero (.node op left right)

/-- A tree without a value has a division by zero, and no other error. -/
theorem value_error {tree : Tree} {e : Error} :
    tree.value = .error e ↔ tree.DividesByZero ∧ e = .divisionByZero := by
  induction tree generalizing e with
  | literal n =>
    constructor
    · rintro ⟨⟩
    · rintro ⟨⟨⟩, _⟩
  | node op left right ihLeft ihRight =>
    constructor
    · intro failed
      rcases Error.bind_error.mp failed with inLeft | ⟨a, _, failed⟩
      · obtain ⟨inner, rfl⟩ := ihLeft.mp inLeft
        exact ⟨.left inner, rfl⟩
      · rcases Error.bind_error.mp failed with inRight | ⟨b, worth, failed⟩
        · obtain ⟨inner, rfl⟩ := ihRight.mp inRight
          exact ⟨.right inner, rfl⟩
        · obtain ⟨rfl, rfl, rfl⟩ := Operator.wrapped_error.mp failed
          exact ⟨.here worth, rfl⟩
    · rintro ⟨zero, rfl⟩
      -- The left part is evaluated first; its error is the same as one further right.
      cases worth : left.value with
      | error f =>
        obtain ⟨_, rfl⟩ := ihLeft.mp worth
        exact Error.bind_error.mpr (.inl worth)
      | ok a =>
        refine Error.bind_error.mpr (.inr ⟨a, worth, Error.bind_error.mpr ?_⟩)
        cases zero with
        | here zero => exact .inr ⟨0, zero, Operator.wrapped_error.mpr ⟨rfl, rfl, rfl⟩⟩
        | left inner =>
          rw [ihLeft.mpr ⟨inner, rfl⟩] at worth
          cases worth
        | right inner => exact .inl (ihRight.mpr ⟨inner, rfl⟩)

theorem value_divisionByZero {tree : Tree} :
    tree.value = .error .divisionByZero ↔ tree.DividesByZero := by
  simp [value_error]

end Tree

/-- How tightly a written part holds together. -/
inductive Level where
  | operand
  | product
  | sum

/-- The level that holds together more tightly than any operator of this one. -/
def Level.tighter : Level → Level
  | .sum => .product
  | .product | .operand => .operand

def Operator.level : Operator → Level
  | .mul | .div => .product
  | .add | .sub => .sum

/-- The tree can be written as the text, its numbers as `writes` has it. Operators of one level are
taken from the left, so that a right operand holds together more tightly than its operator;
parentheses make anything an operand. -/
inductive Written (writes : Int64 → Text → Prop) : Level → Tree → Text → Prop where
  | literal {n : Int64} {t : Text} (written : writes n t) : Written writes .operand (.literal n) t
  | group {tree : Tree} {t before after : Text} (inner : Written writes .sum tree t)
      (gapsBefore : before.Gaps) (gapsAfter : after.Gaps) :
      Written writes .operand tree ('(' :: (before ++ t ++ after) ++ [')'])
  | loosen {level : Level} {tree : Tree} {t : Text} (tight : Written writes level.tighter tree t) :
      Written writes level tree t
  | node {op : Operator} {left right : Tree} {t before after u : Text}
      (writtenLeft : Written writes op.level left t) (gapsBefore : before.Gaps)
      (gapsAfter : after.Gaps) (writtenRight : Written writes op.level.tighter right u) :
      Written writes op.level (.node op left right) (t ++ (before ++ op.symbol :: after) ++ u)

/-- A number is written in decimal, with a minus sign if it is negative. -/
def Numeral (n : Int64) (t : Text) : Prop :=
  t = renderInt n

section Layout

variable {writes : Int64 → Text → Prop} {level : Level} {tree : Tree} {t before after u : Text}

theorem flat_between (op : Operator) (gapsBefore : before.Gaps) (gapsAfter : after.Gaps) :
    Group.Flat (before ++ op.symbol :: after) := by
  rw [show before ++ op.symbol :: after = before ++ [op.symbol] ++ after by simp]
  exact (gapsBefore.flat.append op.flat_symbol).append gapsAfter.flat

theorem Written.balanced (flat : ∀ n t, writes n t → Group.Flat t)
    (written : Written writes level tree t) : Group.Balanced t := by
  induction written with
  | literal written => exact .flat (flat _ _ written)
  | group _ gapsBefore gapsAfter ih => exact (ih.pad gapsBefore gapsAfter).group
  | loosen _ ih => exact ih
  | node _ gapsBefore gapsAfter _ ihLeft ihRight =>
    exact (ihLeft.append (.flat (flat_between _ gapsBefore gapsAfter))).append ihRight

theorem Written.bare (bare : ∀ n t, writes n t → t.Bare)
    (written : Written writes level tree t) : t.Bare := by
  induction written with
  | literal written => exact bare _ _ written
  | @group _ t before after =>
    exact ⟨⟨'(', _, rfl, rfl⟩, ⟨'(' :: (before ++ t ++ after), ')', rfl, rfl⟩⟩
  | loosen _ ih => exact ih
  | node _ _ _ _ ihLeft ihRight => exact ihLeft.around ihRight _

theorem bare_signed {negative : Bool} {body : Text} (plain : ∀ c ∈ body, isPlain c = true)
    (nonempty : body ≠ []) : Text.Bare (signed negative body) := by
  have some : signed negative body ≠ [] := signed_ne_nil nonempty
  have begins : ∀ c ∈ (signed negative body).head?, isBlank c = false := signed_first plain
  constructor
  · obtain ⟨c, rest, shape⟩ := List.exists_cons_of_ne_nil some
    exact ⟨c, rest, shape, begins c (by simp [shape])⟩
  · refine ⟨_, _, (List.dropLast_append_getLast some).symm, ?_⟩
    exact signed_last plain nonempty _ (List.getLast?_eq_getLast_of_ne_nil some)

end Layout

/-- A text without groups, with the numbers it is made of and the operators between them. -/
inductive Spelled (writes : Int64 → Text → Prop) :
    Text → Int64 → List (Operator × Int64) → Prop where
  | number {n : Int64} {t : Text} (written : writes n t) : Spelled writes t n []
  | join (op : Operator) {t before after u : Text} {first next : Int64}
      {more rest : List (Operator × Int64)} (left : Spelled writes t first more)
      (gapsBefore : before.Gaps) (gapsAfter : after.Gaps) (right : Spelled writes u next rest) :
      Spelled writes (t ++ (before ++ op.symbol :: after) ++ u) first (more ++ (op, next) :: rest)

section Reading

variable {t before after u rest : Text} {first n : Int64} {more : List (Operator × Int64)}

theorem tokens_gaps (gaps : t.Gaps) (rest : Text) : tokens (t ++ rest) = tokens rest := by
  induction t with
  | nil => rfl
  | cons c t ih =>
    have here : isGap c = true := gaps c List.mem_cons_self
    have later := ih fun d member => gaps d (List.mem_cons_of_mem _ member)
    rw [← later]
    simp [tokens, scan, here]

theorem tokens_symbol (op : Operator) (rest : Text) :
    tokens (op.symbol :: rest) = ⟨.operator op, [op.symbol]⟩ :: tokens rest := by
  simp [tokens, scan, op.isGap_symbol, op.ofChar?_symbol]

/-- A minus sign before an operand turns the sign that has been read. -/
theorem chain?_sign {α : Type} (domain : Domain α) (negative : Bool) (rest : Text) :
    Arithmetic.chain? domain negative (tokens ('-' :: rest)) =
      Arithmetic.chain? domain (!negative) (tokens rest) := by
  rw [show tokens ('-' :: rest) = _ from tokens_symbol .sub rest, Arithmetic.chain?, if_pos rfl]

theorem tokens_solid {body : Text} (solid : ∀ c ∈ body, isSolid c = true) (nonempty : body ≠ [])
    (separates : Separates rest) : tokens (body ++ rest) = ⟨.operand, body⟩ :: tokens rest := by
  simp [tokens, scan_solid solid nonempty separates]

theorem tokens_between (op : Operator) (gapsBefore : before.Gaps) (gapsAfter : after.Gaps)
    (rest : Text) :
    tokens (before ++ op.symbol :: after ++ rest) = ⟨.operator op, [op.symbol]⟩ :: tokens rest := by
  rw [List.append_assoc, List.cons_append, tokens_gaps gapsBefore, tokens_symbol,
    tokens_gaps gapsAfter]

theorem separates_between (op : Operator) (gapsBefore : before.Gaps) (rest : Text) :
    Separates (before ++ op.symbol :: after ++ rest) := by
  intro c head
  cases before with
  | nil =>
    cases head
    exact .inr (by simp [op.ofChar?_symbol])
  | cons d before =>
    cases head
    exact .inl (gapsBefore c List.mem_cons_self)

/-- Goes on behind the chain that has been read. -/
def resume (first : Int64) (more : List (Operator × Int64)) :
    List (Lexeme Token) → Option (Int64 × List (Operator × Int64))
  | [] => some (first, more)
  | ⟨.operator op, _⟩ :: rest =>
    (chain? ints false rest).map fun (next, tail) => (first, more ++ (op, next) :: tail)
  | _ => none

theorem chain?_signed {negative : Bool} {body : Text} (plain : ∀ c ∈ body, isPlain c = true)
    (nonempty : body ≠ []) (separates : Separates rest) :
    chain? ints false (tokens (signed negative body ++ rest)) =
      resume (ints.read (signed negative body)) [] (tokens rest) := by
  have solid : ∀ c ∈ body, isSolid c = true := fun c member => isSolid_of_isPlain (plain c member)
  have read : ∀ minus : Bool, chain? ints minus (tokens (body ++ rest)) =
      resume (ints.read (signed minus body)) [] (tokens rest) := by
    intro minus
    rw [tokens_solid solid nonempty separates, chain?.eq_def]
    cases tokens rest with
    | nil => rfl
    | cons token more =>
      obtain ⟨kind, _⟩ := token
      cases kind <;> rfl
  cases negative with
  | false => exact read false
  | true => exact (chain?_sign ints false (body ++ rest)).trans (read true)

theorem Spelled.chain? (spelled : Spelled Numeral t first more) (separates : Separates rest) :
    Arithmetic.chain? ints false (tokens (t ++ rest)) = resume first more (tokens rest) := by
  induction spelled generalizing rest with
  | @number n t written =>
    have read : ints.read (renderInt n) = n := readIntOrZero_renderInt n
    rw [written]
    nth_rewrite 2 [← read]
    rw [renderInt, renderInteger_eq]
    exact chain?_signed (plain_toDigits _) Nat.toDigits_ne_nil separates
  | @join op t before after u first next more tail left gapsBefore gapsAfter right ihLeft ihRight =>
    rw [List.append_assoc, List.append_assoc, ihLeft (separates_between op gapsBefore _),
      tokens_between op gapsBefore gapsAfter, resume, ihRight separates]
    cases tokens rest with
    | nil => rfl
    | cons token rest =>
      obtain ⟨kind, _⟩ := token
      cases kind with
      | operand | gap => rfl
      | operator op => simp [resume, Function.comp_def]

/-- Characters of numerals, operators and gaps. -/
def isArithmetic (c : Char) : Bool :=
  c.isDigit || isGap c || (Operator.ofChar? c).isSome

theorem Spelled.chars (spelled : Spelled Numeral t first more) :
    ∀ c ∈ t, isArithmetic c = true := by
  induction spelled with
  | @number n t written =>
    intro c member
    rw [written, renderInt, renderInteger_eq] at member
    by_cases minus : c = '-'
    · subst minus
      rfl
    · simp [isArithmetic, isDigit_toDigits ((mem_signed _ minus).mp member)]
  | join op left gapsBefore gapsAfter right ihLeft ihRight =>
    intro c member
    simp only [List.mem_append, List.mem_cons] at member
    rcases member with (inLeft | gap | rfl | gap) | inRight
    · exact ihLeft c inLeft
    · simp [isArithmetic, gapsBefore c gap]
    · simp [isArithmetic, op.ofChar?_symbol]
    · simp [isArithmetic, gapsAfter c gap]
    · exact ihRight c inRight

theorem Spelled.not_mem {c : Char} (spelled : Spelled Numeral t first more)
    (other : isArithmetic c = false) : c ∉ t := by
  intro member
  rw [spelled.chars c member] at other
  cases other

theorem Spelled.bare {writes : Int64 → Text → Prop} (bare : ∀ n t, writes n t → t.Bare)
    (spelled : Spelled writes t first more) : t.Bare := by
  induction spelled with
  | number written => exact bare _ _ written
  | join _ _ _ _ _ ihLeft ihRight => exact ihLeft.around ihRight _

/-- The text is the first numeral, or that numeral with a gap or an operator behind it, and then an
operator stands somewhere. -/
theorem Spelled.begins (spelled : Spelled Numeral t first more) :
    (t = renderInt first ∧ more = []) ∨
      ∃ c rest, t = renderInt first ++ c :: rest ∧ isArithmetic c = true ∧ c.isDigit = false ∧
        t.any (fun c => (Operator.ofChar? c).isSome) = true := by
  induction spelled with
  | number written => exact .inl ⟨written, rfl⟩
  | @join op t before after u _ _ _ _ _ gapsBefore _ _ ihLeft _ =>
    have operator : (t ++ (before ++ op.symbol :: after) ++ u).any
        (fun c => (Operator.ofChar? c).isSome) = true := by
      simp [op.ofChar?_symbol]
    refine .inr ?_
    rcases ihLeft with ⟨rfl, _⟩ | ⟨c, rest, rfl, arithmetic, digit, _⟩
    · cases before with
      | nil =>
        refine ⟨op.symbol, after ++ u, by simp, by simp [isArithmetic, op.ofChar?_symbol], ?_,
          operator⟩
        cases op <;> rfl
      | cons d before =>
        have gap : isGap d = true := gapsBefore d List.mem_cons_self
        refine ⟨d, before ++ op.symbol :: after ++ u, by simp, by simp [isArithmetic, gap], ?_,
          operator⟩
        simp only [isGap, Bool.or_eq_true, beq_iff_eq] at gap
        rcases gap with ((rfl | rfl) | rfl) | rfl <;> rfl
    · exact ⟨c, rest ++ (before ++ op.symbol :: after) ++ u, by simp, arithmetic, digit, operator⟩

/-- A text is worth the fold of the chain that it spells. -/
theorem Spelled.evaluate (spelled : Spelled Numeral t first more) :
    Arithmetic.evaluate ints t = fold ints first more := by
  have ends : Separates [] := by simp [Separates]
  have chained := spelled.chain? ends
  rw [List.append_nil] at chained
  simp only [Arithmetic.evaluate, Quoted.mapLiterals_of_free (spelled.not_mem rfl), chained]
  rfl

end Reading

section Folding

variable {level : Level} {first next : Int64} {more rest : List (Operator × Int64)}
  {value left right : Except Error Int64}

/-- What a chain is worth as a part that holds together so tightly: whatever follows that part goes
on from its value. Only sums and differences can follow a sum. -/
def Worth : Level → Int64 → List (Operator × Int64) → Except Error Int64 → Prop
  | .operand, first, more, value => more = [] ∧ value = .ok first
  | .product, first, more, value =>
    ∀ rest, products ints first (more ++ rest) = value >>= (products ints · rest)
  | .sum, first, more, value => ∀ rest, (∀ next ∈ rest.head?, next.1.isProduct = false) →
    fold ints first (more ++ rest) = value >>= (fold ints · rest)

theorem Worth.loosen (worth : Worth level.tighter first more value) :
    Worth level first more value := by
  cases level with
  | operand => exact worth
  | product =>
    obtain ⟨rfl, rfl⟩ := worth
    exact fun rest => rfl
  | sum =>
    intro rest _
    rw [fold, worth rest, bind_assoc]
    rfl

/-- Sums and differences leave what stands before them to be folded later. -/
theorem products_of_head (sums : ∀ next ∈ rest.head?, next.1.isProduct = false) :
    ∃ tail : Except Error (List (Operator × Int64)),
      ∀ first, products ints first rest = (first, ·) <$> tail := by
  cases rest with
  | nil => exact ⟨.ok [], fun _ => rfl⟩
  | cons entry rest =>
    obtain ⟨op, next⟩ := entry
    have sum : op.isProduct = false := sums (op, next) rfl
    refine ⟨(fun folded => (op, folded.1) :: folded.2) <$> products ints next rest, fun first => ?_⟩
    rw [products, sum]
    cases products ints next rest <;> rfl

theorem Worth.product {op : Operator} (isProduct : op.isProduct = true)
    (worth : Worth .product first more left) :
    Worth .product first (more ++ [(op, next)]) (left >>= fun a => op.wrapped a next) := by
  intro rest
  rw [List.append_assoc, worth, bind_assoc]
  simp [products, isProduct, op.apply_ints]

theorem Worth.sum {op : Operator} (isSum : op.isProduct = false)
    (worthLeft : Worth .sum first more left) (worthRight : Worth .product next rest right) :
    Worth .sum first (more ++ (op, next) :: rest) (do
      let a ← left
      let b ← right
      op.wrapped a b) := by
  intro tail sums
  obtain ⟨folded, split⟩ := products_of_head sums
  -- A sum or a difference never fails, so that it can be taken before the rest is folded.
  have done : ∀ a b, ∃ n, op.wrapped a b = .ok n := by
    intro a b
    cases op with
    | add | sub => exact ⟨_, rfl⟩
    | mul | div => cases isSum
  rw [List.append_assoc, List.cons_append, worthLeft _ (by rintro _ ⟨⟩; exact isSum)]
  simp only [bind_assoc]
  congr 1
  funext a
  rw [fold, products]
  simp only [isSum, Bool.false_eq_true, if_false, worthRight tail, bind_assoc, pure_bind]
  congr 1
  funext b
  obtain ⟨n, applied⟩ := done a b
  simp only [fold, split, applied]
  cases folded with
  | error e => rfl
  | ok tails =>
    change Arithmetic.sums ints a ((op, b) :: tails) = Arithmetic.sums ints n tails
    rw [Arithmetic.sums, op.apply_ints, applied]
    rfl

theorem Worth.node (op : Operator) (worthLeft : Worth op.level first more left)
    (worthRight : Worth op.level.tighter next rest right) :
    Worth op.level first (more ++ (op, next) :: rest) (do
      let a ← left
      let b ← right
      op.wrapped a b) := by
  cases op with
  | add | sub => exact worthLeft.sum rfl worthRight
  | mul | div =>
    obtain ⟨rfl, rfl⟩ := worthRight
    exact worthLeft.product rfl

theorem Worth.fold (worth : Worth .sum first more value) :
    Arithmetic.fold ints first more = value := by
  have alone := worth [] (by simp)
  rw [List.append_nil] at alone
  rw [alone]
  exact bind_pure value

end Folding

section Resolving

open StepScript.Expr

variable {target : Kind} {writes : Int64 → Text → Prop} {level : Level} {tree : Tree} {t : Text}

/-- Groups of numbers so written are evaluated as integers, and the numerals that replace them are
written so too. -/
structure Legible (target : Kind) (writes : Int64 → Text → Prop) : Prop where
  flat : ∀ n t, writes n t → Group.Flat t
  numeral : ∀ n, writes n (renderInt n)
  resolves : ∀ {t before after : Text} {first : Int64} {more : List (Operator × Int64)},
    Spelled writes t first more → before.Gaps → after.Gaps →
      groupLiteral target (before ++ t ++ after) = renderInt <$> fold ints first more

/-- What is left of a written tree without its groups is worth as much as the tree; or a division by
zero stands in a group. -/
inductive Flattens (target : Kind) (writes : Int64 → Text → Prop) (level : Level) (tree : Tree)
    (t : Text) : Prop where
  | spelled {u : Text} {first : Int64} {more : List (Operator × Int64)}
      (flat : flatten target t = .ok u) (spelled : Spelled writes u first more)
      (worth : Worth level first more tree.value)
  | failed (flat : flatten target t = .error .divisionByZero) (zero : tree.DividesByZero)

theorem Flattens.group {before after : Text} (legible : Legible target writes)
    (balanced : Group.Balanced t) (inner : Flattens target writes .sum tree t)
    (gapsBefore : before.Gaps) (gapsAfter : after.Gaps) :
    Flattens target writes .operand tree ('(' :: (before ++ t ++ after) ++ [')']) := by
  have whole : flatten target ('(' :: (before ++ t ++ after) ++ [')']) = _ :=
    flatten_paddedGroup balanced gapsBefore gapsAfter
  cases inner with
  | @spelled u first more flat spelled worth =>
    have replaced : flatten target ('(' :: (before ++ t ++ after) ++ [')']) =
        renderInt <$> tree.value := by
      rw [whole, flat]
      exact (legible.resolves spelled gapsBefore gapsAfter).trans (by rw [worth.fold])
    cases value : tree.value with
    | ok n =>
      rw [value] at replaced
      exact .spelled replaced (.number (legible.numeral n)) ⟨rfl, value⟩
    | error e =>
      obtain ⟨zero, rfl⟩ := Tree.value_error.mp value
      rw [value] at replaced
      exact .failed replaced zero
  | failed flat zero =>
    refine .failed ?_ zero
    rw [whole, flat]
    rfl

theorem Flattens.node {op : Operator} {left right : Tree} {before after u : Text}
    (balanced : Group.Balanced t) (gapsBefore : before.Gaps) (gapsAfter : after.Gaps)
    (balancedRight : Group.Balanced u) (inLeft : Flattens target writes op.level left t)
    (inRight : Flattens target writes op.level.tighter right u) :
    Flattens target writes op.level (.node op left right)
      (t ++ (before ++ op.symbol :: after) ++ u) := by
  have whole : flatten target (t ++ (before ++ op.symbol :: after) ++ u) = _ :=
    flatten_between balanced (flat_between op gapsBefore gapsAfter) balancedRight
  cases inRight with
  | failed flat zero =>
    refine .failed ?_ (.right zero)
    rw [whole, flat]
    rfl
  | spelled flatRight spelledRight worthRight =>
    cases inLeft with
    | failed flat zero =>
      refine .failed ?_ (.left zero)
      rw [whole, flatRight, flat]
      rfl
    | spelled flatLeft spelledLeft worthLeft =>
      refine .spelled ?_ (.join op spelledLeft gapsBefore gapsAfter spelledRight)
        (worthLeft.node op worthRight)
      rw [whole, flatRight, flatLeft]
      rfl

theorem Written.flattens (legible : Legible target writes) (written : Written writes level tree t) :
    Flattens target writes level tree t := by
  induction written with
  | literal written =>
    exact .spelled (flatten_flat (legible.flat _ _ written)) (.number written) ⟨rfl, rfl⟩
  | group inner gapsBefore gapsAfter ih =>
    exact ih.group legible (inner.balanced legible.flat) gapsBefore gapsAfter
  | loosen _ ih =>
    cases ih with
    | spelled flat spelled worth => exact .spelled flat spelled worth.loosen
    | failed flat zero => exact .failed flat zero
  | node writtenLeft gapsBefore gapsAfter writtenRight ihLeft ihRight =>
    exact .node (writtenLeft.balanced legible.flat) gapsBefore gapsAfter
      (writtenRight.balanced legible.flat) ihLeft ihRight

theorem Numeral.flat {n : Int64} {t : Text} (numeral : Numeral n t) : Group.Flat t := by
  rw [numeral]
  exact (Value.int n).flat_literal trivial

theorem Numeral.bare {n : Int64} {t : Text} (numeral : Numeral n t) : t.Bare := by
  rw [numeral, renderInt, renderInteger_eq]
  exact bare_signed (plain_toDigits _) Nat.toDigits_ne_nil

/-- Numbers so written can be evaluated where texts of them fold and their groups are taken for
integers. -/
theorem legible_of_evaluate (flat : ∀ n t, writes n t → Group.Flat t)
    (bare : ∀ n t, writes n t → t.Bare) (numeral : ∀ n, writes n (renderInt n))
    (evaluates : ∀ {t : Text} {first : Int64} {more : List (Operator × Int64)},
      Spelled writes t first more → evaluate ints t = fold ints first more)
    (kind : ∀ {t before after : Text} {first : Int64} {more : List (Operator × Int64)},
      Spelled writes t first more → before.Gaps → after.Gaps →
        groupKind target (before ++ t ++ after) = .int) : Legible target writes where
  flat := flat
  numeral := numeral
  resolves := by
    intro t before after first more spelled gapsBefore gapsAfter
    rw [groupLiteral, kind spelled gapsBefore gapsAfter,
      (spelled.bare bare).trim_pad gapsBefore.blank gapsAfter.blank, evaluateFlat,
      evaluates spelled, Functor.map_map]
    rfl

/-- Numerals can be evaluated wherever groups of them are taken for integers. -/
theorem legible_numeral (ints : ∀ {t before after : Text} {first : Int64}
    {more : List (Operator × Int64)}, Spelled Numeral t first more → before.Gaps → after.Gaps →
      groupKind target (before ++ t ++ after) = .int) : Legible target Numeral :=
  legible_of_evaluate (fun _ _ numeral => numeral.flat) (fun _ _ numeral => numeral.bare)
    (fun _ => rfl) (fun spelled => spelled.evaluate) ints

end Resolving
end Arithmetic

open Arithmetic in
/-- However a tree of integers is written, with any gaps between its tokens and any blanks around
it, the text is worth what the tree is worth: the value of ordinary arithmetic wrapped to 64 bits,
or a division by zero if the tree has one, and nothing else. -/
theorem int_expressions_follow_arithmetic {tree : Tree} {text before after : Text}
    (written : Written Numeral .sum tree text) (blankBefore : ∀ c ∈ before, isBlank c = true)
    (blankAfter : ∀ c ∈ after, isBlank c = true) :
    let result := Expr.evaluateText .int (before ++ text ++ after)
    result = .int <$> tree.value ∧
      (result = .error .divisionByZero ↔ tree.DividesByZero) ∧
      (¬ tree.DividesByZero → ∃ n, tree.value = .ok n ∧ result = .ok (.int n)) := by
  intro result
  have legible : Legible .int Numeral := legible_numeral fun _ _ _ => rfl
  have balanced : Group.Balanced text := written.balanced legible.flat
  have bare : text.Bare := written.bare fun _ _ numeral => numeral.bare
  have worth : result = .int <$> tree.value := by
    rw [show result = _ from Expr.evaluateText_padded balanced bare blankBefore blankAfter .int]
    cases written.flattens legible with
    | spelled flat spelled worth =>
      rw [flat]
      change Value.int <$> Arithmetic.evaluate ints _ = _
      rw [spelled.evaluate, worth.fold]
    | failed flat zero =>
      rw [flat, Tree.value_divisionByZero.mpr zero]
      rfl
  refine ⟨worth, ?_, ?_⟩
  · rw [worth, ← Tree.value_divisionByZero]
    cases tree.value <;> simp [Functor.map, Except.map]
  · intro nonzero
    cases value : tree.value with
    | error e => exact absurd (Tree.value_error.mp value).1 nonzero
    | ok n =>
      rw [value] at worth
      exact ⟨n, rfl, worth⟩

open Arithmetic in
/-- The least integer over -1 wraps around to itself; then a product with a negative group is taken
from it. -/
theorem least_quotient_wraps :
    Expr.evaluateText .int " (-9223372036854775808/ -1)-(1+-3)*\t4\n".toList =
      .ok (.int (-9223372036854775800)) := by
  have quotient : Written Numeral .sum (.node .div (.literal Int64.minValue) (.literal (-1)))
      "-9223372036854775808/ -1".toList :=
    .loosen (@Written.node _ .div _ _ "-9223372036854775808".toList [] [' '] "-1".toList
      (.loosen (.literal rfl)) .nil (by decide) (.literal rfl))
  have sum : Written Numeral .sum (.node .add (.literal 1) (.literal (-3))) "1+-3".toList :=
    @Written.node _ .add _ _ ['1'] [] [] "-3".toList
      (.loosen (.loosen (.literal rfl))) .nil .nil (.loosen (.literal rfl))
  have product : Written Numeral .product
      (.node .mul (.node .add (.literal 1) (.literal (-3))) (.literal 4)) "(1+-3)*\t4".toList :=
    @Written.node _ .mul _ _ "(1+-3)".toList [] ['\t'] ['4']
      (.loosen (@Written.group _ _ _ [] [] sum .nil .nil)) .nil (by decide) (.literal rfl)
  have written : Written Numeral .sum _ "(-9223372036854775808/ -1)-(1+-3)*\t4".toList :=
    @Written.node _ .sub _ _ "(-9223372036854775808/ -1)".toList [] [] _
      (.loosen (.loosen (@Written.group _ _ _ [] [] quotient .nil .nil))) .nil .nil product
  exact (@int_expressions_follow_arithmetic _ _ [' '] ['\n'] written (List.all_eq_true.mp rfl)
    (List.all_eq_true.mp rfl)).1

end StepScript
