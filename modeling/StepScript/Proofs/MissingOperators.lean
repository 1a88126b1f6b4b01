import StepScript.Proofs.Parentheses

/-! Operands with an operator missing between them. Operators are counted when groups and quoted
operands have given way to the texts of their values. So a missing operator is noticed only where a
gap is left between two operands, and a minus sign of the second one is taken for it. -/
namespace StepScript

theorem Error.map_error {α β : Type} {x : Except Error α} {f : α → β} {e : Error} :
    f <$> x = .error e ↔ x = .error e := by
  cases x <;> simp [Functor.map, Except.map]

theorem Quoted.spansFrom_error {pos : Nat} {opening? : Option Nat} {t : Text} {e : Error}
    (failed : spansFrom pos opening? t = .error e) : ∃ column, e = .unterminatedString column := by
  fun_induction spansFrom pos opening? t with
  | case1 pos => cases failed
  | case2 pos opening =>
    cases failed
    exact ⟨_, rfl⟩
  | case3 pos c t ih => exact ih failed
  | case4 pos opening c t quote ih => exact ih (Error.map_error.mp failed)
  | case5 pos opening c t unquoted ih => exact ih failed

theorem Group.spans_error {t : Text} {e : Error} (failed : spans t = .error e) :
    ∃ text, e = .unmatchedParens text := by
  rw [spans] at failed
  split at failed
  · cases failed
  · cases failed
    exact ⟨t, rfl⟩

namespace Expr

open StepScript.Group

variable {kind : Kind} {raw : Text} {operators operands : Nat}

/-- Operators are counted only in a text that is in order. -/
theorem balanced_of_operandCount
    (refused : evaluateText kind raw = .error (.operandCount operators operands)) :
    Balanced raw.trim := by
  rcases Error.bind_error.mp refused with unpaired | ⟨_, quotes, refused⟩
  · obtain ⟨column, other⟩ := Quoted.spansFrom_error (Error.map_error.mp unpaired)
    cases other
  · rcases Error.bind_error.mp refused with unmatched | ⟨_, groups, _⟩
    · obtain ⟨text, other⟩ := Group.spans_error (Error.map_error.mp unmatched)
      cases other
    · exact balanced_of_check groups (Quoted.check_ok.mp quotes)

theorem flatten_numericGroup (numeric : kind.isNumeric = true) (balanced : Balanced raw.trim) :
    flatten kind ('(' :: raw ++ [')']) = Value.literal <$> evaluateText kind raw := by
  rw [flatten_group (balanced_of_trim balanced), evaluateText_balanced balanced, map_bind]
  have same : groupLiteral kind = fun flat => Value.literal <$> evaluateFlat kind flat.trim := by
    funext flat
    rw [groupLiteral, groupKind, if_pos numeric]
  rw [same]

end Expr

namespace Arithmetic

open Decimal

/-- What stands between two operands: an operator with minus signs behind it, each with the gaps
that follow, or only gaps where the operator is missing. -/
inductive Link where
  | operator (op : Operator) (before after : Text) (signs : List Text)
  | missing (gap : Text)

/-- Minus signs, each with the gaps that follow. -/
def signsText (signs : List Text) : Text :=
  signs.flatMap ('-' :: ·)

namespace Link

def text : Link → Text
  | .operator op before after signs => before ++ op.symbol :: after ++ signsText signs
  | .missing gap => gap

/-- Nothing but gaps stands around the operator and the signs. -/
def Written : Link → Prop
  | .operator _ before after signs => before.Gaps ∧ after.Gaps ∧ ∀ gap ∈ signs, Text.Gaps gap
  | .missing gap => gap.Gaps

instance (link : Link) : Decidable link.Written :=
  match link with
  | .operator _ before after signs =>
    inferInstanceAs (Decidable (before.Gaps ∧ after.Gaps ∧ ∀ gap ∈ signs, Text.Gaps gap))
  | .missing gap => inferInstanceAs (Decidable gap.Gaps)

end Link

section Counting

variable {α : Type} {domain : Domain α} {body rest : Text} {negative : Bool}

/-- One operand, with at most one minus sign in front of it. -/
def Lone (t : Text) : Prop :=
  ∃ negative body, body ≠ [] ∧ (∀ c ∈ body, isSolid c = true) ∧ t = signed negative body

theorem lone_signed {body : Text} (negative : Bool) (nonempty : body ≠ [])
    (plain : ∀ c ∈ body, isPlain c = true) : Lone (signed negative body) :=
  ⟨negative, body, nonempty, fun c member => isSolid_of_isPlain (plain c member), rfl⟩

/-- Operands behind a first one, each behind its link. -/
def linked (more : List (Link × Text)) : Text :=
  more.flatMap fun entry => entry.1.text ++ entry.2

/-- An operand stands behind a gap where the operator is missing, and has no sign. -/
def Parted (more : List (Link × Text)) : Prop :=
  ∃ gap t, (.missing gap, t) ∈ more ∧ gap ≠ [] ∧ t.head? ≠ some '-'

theorem parted_cons {link : Link} {t : Text} {more : List (Link × Text)} :
    Parted ((link, t) :: more) ↔
      (∃ gap, link = .missing gap ∧ gap ≠ [] ∧ t.head? ≠ some '-') ∨ Parted more := by
  constructor
  · rintro ⟨gap, u, member, full, unsigned⟩
    rcases List.mem_cons.mp member with same | later
    · cases same
      exact .inl ⟨gap, rfl, full, unsigned⟩
    · exact .inr ⟨gap, u, later, full, unsigned⟩
  · rintro (⟨gap, rfl, full, unsigned⟩ | ⟨gap, u, later, full, unsigned⟩)
    · exact ⟨gap, t, List.mem_cons_self, full, unsigned⟩
    · exact ⟨gap, u, List.mem_cons_of_mem _ later, full, unsigned⟩

/-- Whatever follows solid characters, they begin an operand. -/
theorem tokens_begin (solid : ∀ c ∈ body, isSolid c = true) (nonempty : body ≠ []) (rest : Text) :
    ∃ text more, tokens (body ++ rest) = ⟨.operand, text⟩ :: more := by
  obtain ⟨c, body, rfl⟩ := List.exists_cons_of_ne_nil nonempty
  rw [tokens, List.cons_append, scan_cons_solid (solid c List.mem_cons_self)]
  split
  · exact ⟨_, _, rfl⟩
  · exact ⟨_, _, rfl⟩

theorem chain?_signs (domain : Domain α) {signs : List Text}
    (gaps : ∀ gap ∈ signs, Text.Gaps gap) (negative : Bool) (rest : Text) :
    ∃ turned, chain? domain negative (tokens (signsText signs ++ rest)) =
      chain? domain turned (tokens rest) := by
  induction signs generalizing negative with
  | nil => exact ⟨negative, rfl⟩
  | cons gap signs ih =>
    obtain ⟨here, later⟩ := List.forall_mem_cons.mp gaps
    obtain ⟨turned, same⟩ := ih later (!negative)
    refine ⟨turned, ?_⟩
    rw [← same, signsText, List.flatMap_cons, List.append_assoc, List.cons_append, chain?_sign,
      tokens_gaps here]
    rfl

theorem chain?_signedBody (domain : Domain α) (sign negative : Bool) (body rest : Text) :
    ∃ turned, chain? domain negative (tokens (signed sign body ++ rest)) =
      chain? domain turned (tokens (body ++ rest)) := by
  cases sign with
  | false => exact ⟨negative, rfl⟩
  | true => exact ⟨!negative, chain?_sign domain negative _⟩

/-- An operand and an operator behind it. -/
theorem chain?_operator_eq_none {text symbol : Text} {op : Operator} {more : List (Lexeme Token)} :
    chain? domain negative (⟨.operand, text⟩ :: ⟨.operator op, symbol⟩ :: more) = none ↔
      chain? domain false more = none := by
  simp [chain?]

theorem head?_signed (solid : ∀ c ∈ body, isSolid c = true) (nonempty : body ≠ []) :
    (signed negative body).head? ≠ some '-' ↔ negative = false := by
  cases negative with
  | true => simp [signed]
  | false =>
    obtain ⟨c, body, rfl⟩ := List.exists_cons_of_ne_nil nonempty
    have solidHead := solid c List.mem_cons_self
    have other : c ≠ '-' := by
      rintro rfl
      cases solidHead
    simpa [signed] using other

/-- A row of operands is no chain exactly if a gap parts two of them. Without a gap the texts of two
operands run together into one operand, or the second one's sign is an operator. -/
theorem chain?_eq_none_iff (domain : Domain α) (negative : Bool)
    (solid : ∀ c ∈ body, isSolid c = true) (nonempty : body ≠ []) {more : List (Link × Text)}
    (written : ∀ entry ∈ more, entry.1.Written) (lone : ∀ entry ∈ more, Lone entry.2) :
    chain? domain negative (tokens (body ++ linked more)) = none ↔ Parted more := by
  induction more generalizing body negative with
  | nil =>
    have ends : Separates [] := by simp [Separates]
    have alone : linked [] = [] := rfl
    rw [alone, tokens_solid solid nonempty ends]
    simp [tokens, scan, chain?, Parted]
  | cons entry more ih =>
    obtain ⟨link, t⟩ := entry
    obtain ⟨here, later⟩ := List.forall_mem_cons.mp written
    obtain ⟨⟨sign, next, nextNonempty, nextSolid, rfl⟩, laterLone⟩ := List.forall_mem_cons.mp lone
    have split : linked ((link, signed sign next) :: more) =
        link.text ++ (signed sign next ++ linked more) := by simp [linked]
    have behind : ∀ negative, chain? domain negative (tokens (signed sign next ++ linked more)) =
        none ↔ Parted more := by
      intro negative
      obtain ⟨turned, same⟩ := chain?_signedBody domain sign negative next (linked more)
      rw [same]
      exact ih turned nextSolid nextNonempty later laterLone
    rw [split, parted_cons]
    cases link with
    | operator op before after signs =>
      obtain ⟨gapsBefore, gapsAfter, gaps⟩ := here
      obtain ⟨turned, same⟩ := chain?_signs domain gaps false
        (signed sign next ++ linked more)
      rw [Link.text, List.append_assoc,
        tokens_solid solid nonempty (separates_between op gapsBefore _),
        tokens_between op gapsBefore gapsAfter, chain?_operator_eq_none, same, behind]
      simp
    | missing gap =>
      have gaps : gap.Gaps := here
      have unsigned : (∃ gap', Link.missing gap = .missing gap' ∧ gap' ≠ [] ∧
          (signed sign next).head? ≠ some '-') ↔ gap ≠ [] ∧ sign = false := by
        rw [head?_signed nextSolid nextNonempty]
        simp
      rw [unsigned, Link.text]
      cases sign with
      | true =>
        -- The sign is read as the operator that is missing.
        have minus : gap ++ (signed true next ++ linked more) =
            gap ++ Operator.sub.symbol :: [] ++ (next ++ linked more) := by
          simp [signed, Operator.symbol]
        rw [minus, tokens_solid solid nonempty (separates_between .sub gaps _),
          tokens_between .sub gaps .nil, chain?_operator_eq_none,
          ih false nextSolid nextNonempty later laterLone]
        simp
      | false =>
        cases gap with
        | nil =>
          -- The two operands are one, which the rest of the row follows.
          have together : ∀ c ∈ body ++ next, isSolid c = true :=
            List.forall_mem_append.mpr ⟨solid, nextSolid⟩
          have joined := ih negative together (by simp [nonempty]) later laterLone
          rw [List.append_assoc] at joined
          simpa [signed] using joined
        | cons g gap =>
          have separates : Separates (g :: gap ++ (signed false next ++ linked more)) := by
            rintro c ⟨⟩
            exact .inl (gaps _ List.mem_cons_self)
          obtain ⟨text, rest, begins⟩ := tokens_begin nextSolid nextNonempty (linked more)
          rw [tokens_solid solid nonempty separates, tokens_gaps gaps,
            show signed false next = next from rfl, begins]
          simp [chain?]

end Counting

section Failing

variable {α : Type} {domain : Domain α} {text : Text}

/-- Operations that fail at most on a division by zero. -/
def Domain.DividesAtMost (domain : Domain α) : Prop :=
  ∀ op a b e, domain.apply op a b = .error e → e = .divisionByZero

theorem ints_dividesAtMost : ints.DividesAtMost := by
  intro op a b e failed
  rw [op.apply_ints] at failed
  exact (Operator.wrapped_error.mp failed).2.2

theorem doubles_dividesAtMost : doubles.DividesAtMost := by
  intro op a b e failed
  cases op <;> cases failed

theorem products_error (divides : domain.DividesAtMost) {acc : α} {more : List (Operator × α)}
    {e : Error} (failed : products domain acc more = .error e) : e = .divisionByZero := by
  induction more generalizing acc with
  | nil => cases failed
  | cons entry more ih =>
    obtain ⟨op, value⟩ := entry
    rw [products] at failed
    split at failed
    · rcases Error.bind_error.mp failed with applied | ⟨_, _, later⟩
      · exact divides _ _ _ _ applied
      · exact ih later
    · rcases Error.bind_error.mp failed with later | ⟨_, _, returned⟩
      · exact ih later
      · cases returned

theorem sums_error (divides : domain.DividesAtMost) {acc : α} {more : List (Operator × α)}
    {e : Error} (failed : sums domain acc more = .error e) : e = .divisionByZero := by
  induction more generalizing acc with
  | nil => cases failed
  | cons entry more ih =>
    obtain ⟨op, value⟩ := entry
    rcases Error.bind_error.mp failed with applied | ⟨_, _, later⟩
    · exact divides _ _ _ _ applied
    · exact ih later

/-- The text is refused for its count of operators. -/
def Miscounted {β : Type} (result : Except Error β) : Prop :=
  ∃ operators operands, result = .error (.operandCount operators operands)

theorem miscounted_map {β γ : Type} {f : β → γ} {result : Except Error β} :
    Miscounted (f <$> result) ↔ Miscounted result := by
  cases result <;> simp [Miscounted, Functor.map, Except.map]

/-- Only what is no chain is refused for its count of operators. -/
theorem miscounted_evaluate (divides : domain.DividesAtMost) :
    Miscounted (evaluate domain text) ↔ chain? domain false (tokens (Quoted.mapLiterals
      (fun contents => domain.display (domain.read contents)) text)) = none := by
  rw [evaluate]
  cases chain : chain? domain false (tokens
      (Quoted.mapLiterals (fun contents => domain.display (domain.read contents)) text)) with
  | none => simp [Miscounted, countError]
  | some entries =>
    obtain ⟨first, more⟩ := entries
    refine iff_of_false ?_ (by simp)
    rintro ⟨operators, operands, failed⟩
    rcases Error.bind_error.mp failed with inProducts | ⟨_, _, inSums⟩
    · cases products_error divides inProducts
    · cases sums_error divides inSums

end Failing

section Operands

open StepScript.Expr

variable {kind : Kind} {t u w w' : Text} {refused refused' : Prop}

/-- What an arithmetic expression is made of besides operators: words, quoted literals and
groups. -/
inductive Operand where
  | word (w : Text)
  | quoted (contents : Text)
  | group (contents : Text)

namespace Operand

def text : Operand → Text
  | .word w => w
  | .quoted s => '"' :: s ++ ['"']
  | .group t => '(' :: t ++ [')']

/-- What stands in the place of the operand when operators are counted. -/
def shown (kind : Kind) : Operand → Text
  | .word w => w
  | .quoted s => ((Value.string s).convert kind).display
  | .group t =>
    match evaluateText kind t with
    | .ok v => v.literal
    | .error _ => '(' :: t ++ [')']

/-- A word has none of the characters that separate operands, and a literal is closed by its first
quote. -/
def Written : Operand → Prop
  | .word w => w ≠ [] ∧ ∀ c ∈ w, isSolid c = true ∧ isBlank c = false ∧ c ≠ '(' ∧ c ≠ ')' ∧ c ≠ '"'
  | .quoted s => '"' ∉ s
  | .group _ => True

instance (operand : Operand) : Decidable operand.Written :=
  match operand with
  | .word w => inferInstanceAs (Decidable (w ≠ [] ∧
      ∀ c ∈ w, isSolid c = true ∧ isBlank c = false ∧ c ≠ '(' ∧ c ≠ ')' ∧ c ≠ '"'))
  | .quoted s => inferInstanceAs (Decidable ('"' ∉ s))
  | .group _ => .isTrue trivial

/-- Names and numerals are words. -/
theorem written_word {w : Text} (nonempty : w ≠ []) (plain : ∀ c ∈ w, isPlain c = true) :
    Operand.Written (.word w) := by
  refine ⟨nonempty, fun c member => ?_⟩
  have here := plain c member
  exact ⟨isSolid_of_isPlain here, isBlank_of_isPlain here, ne_of_isPlain here rfl,
    ne_of_isPlain here rfl, ne_of_isPlain here rfl⟩

/-- The operand is a group that is refused for its own count of operators. -/
def Refused (kind : Kind) : Operand → Prop
  | .group t => Miscounted (evaluateText kind t)
  | .word _ | .quoted _ => False

/-- A group has a value, or it is refused for its own count of operators. -/
def Settled (kind : Kind) : Operand → Prop
  | .group t => (∃ v, evaluateText kind t = .ok v) ∨ Miscounted (evaluateText kind t)
  | .word _ | .quoted _ => True

end Operand

/-- The text is refused for the operators in one of its groups, or it leaves `w` when its groups and
then its literals have given way to the texts of their values. -/
structure Shows (kind : Kind) (refused : Prop) (t w : Text) : Prop where
  balanced : Group.Balanced t
  refuses : refused → Miscounted (flatten kind t)
  shows : ¬ refused → ∃ u, flatten kind t = .ok u ∧ u.Paired ∧
    Quoted.mapLiterals (fun contents => ((Value.string contents).convert kind).display) u = w

theorem Shows.append (left : Shows kind refused t w) (right : Shows kind refused' u w') :
    Shows kind (refused ∨ refused') (t ++ u) (w ++ w') where
  balanced := left.balanced.append right.balanced
  refuses := by
    intro either
    rw [flatten_append left.balanced right.balanced]
    by_cases inRight : refused'
    · obtain ⟨operators, operands, failed⟩ := right.refuses inRight
      exact ⟨operators, operands, by rw [failed]; rfl⟩
    · obtain ⟨v, done, _, _⟩ := right.shows inRight
      obtain ⟨operators, operands, failed⟩ := left.refuses (either.resolve_right inRight)
      exact ⟨operators, operands, by rw [done, failed]; rfl⟩
  shows := by
    intro neither
    rw [not_or] at neither
    obtain ⟨leftText, leftDone, leftPaired, rfl⟩ := left.shows neither.1
    obtain ⟨rightText, rightDone, rightPaired, rfl⟩ := right.shows neither.2
    refine ⟨leftText ++ rightText, ?_, ?_, Quoted.mapLiterals_append leftPaired _ _⟩
    · rw [flatten_append left.balanced right.balanced, leftDone, rightDone]
      rfl
    · have outside : Quoted.after false leftText = false := leftPaired
      rw [Text.Paired, Quoted.after_append, outside]
      exact rightPaired

theorem Shows.of_flat (flat : Group.Flat t) (free : '"' ∉ t) : Shows kind False t t where
  balanced := .flat flat
  refuses := False.elim
  shows _ := ⟨t, flatten_flat flat, flat.paired, Quoted.mapLiterals_of_free free _⟩

/-- The display of a number, and its literal, are one operand. -/
theorem lone_number {v : Value} (numeric : v.kind.isNumeric = true) :
    Lone v.display ∧ Lone v.literal := by
  have literal : Lone v.literal := by
    rcases v.literal_shape with ⟨s, rfl⟩ | ⟨negative, body, nonempty, plain, written⟩
    · cases numeric
    · rw [written]
      exact lone_signed negative nonempty plain
  refine ⟨?_, literal⟩
  cases v with
  | bool | string => cases numeric
  | int n => exact literal
  | double x =>
    cases number : Double.isNaN x with
    | true =>
      have written : (Value.double x).display = signed false "NaN".toList := by
        simp [Value.display, Double.render, number, signed]
      rw [written]
      exact lone_signed false (by decide) (List.all_eq_true.mp rfl)
    | false =>
      obtain ⟨text, rendered, cases⟩ := Double.render_eq number
      have body : Double.Body (Double.code x) text := by
        rcases cases with ⟨_, spells⟩ | ⟨_, rfl, infinite⟩
        · exact .finite spells
        · exact .infinite infinite
      have written : (Value.double x).display = signed (Double.isNegative x) text := rendered
      rw [written]
      exact lone_signed _ body.nonempty body.plain

theorem Operand.lone {operand : Operand} (numeric : kind.isNumeric = true)
    (written : operand.Written) (settled : operand.Settled kind) (fine : ¬ operand.Refused kind) :
    Lone (operand.shown kind) := by
  cases operand with
  | word w => exact ⟨false, w, written.1, fun c member => (written.2 c member).1, rfl⟩
  | quoted s =>
    have same : ((Value.string s).convert kind).kind = kind := by
      cases kind <;> rfl
    exact (lone_number (same.symm ▸ numeric)).1
  | group t =>
    obtain ⟨v, done⟩ := settled.resolve_right fine
    have same := kind_of_evaluateText done
    simp only [shown, done]
    exact (lone_number (same.symm ▸ numeric)).2

theorem Operand.shows {operand : Operand} (numeric : kind.isNumeric = true)
    (written : operand.Written) (settled : operand.Settled kind) :
    Shows kind (operand.Refused kind) operand.text (operand.shown kind) := by
  cases operand with
  | word w =>
    refine .of_flat (Group.flat_of_free fun c member => ?_) fun member => ?_
    · exact (written.2 c member).2.2
    · exact (written.2 _ member).2.2.2.2 rfl
  | quoted s =>
    have flat := Group.flat_quoted written
    refine ⟨.flat flat, False.elim, fun _ => ⟨_, flatten_flat flat, flat.paired, ?_⟩⟩
    have whole := Quoted.mapLiterals_literal written
      (fun contents => ((Value.string contents).convert kind).display) []
    rw [List.append_nil, Quoted.mapLiterals_of_free List.not_mem_nil, List.append_nil] at whole
    exact whole
  | group t =>
    have balanced : Group.Balanced t.trim := by
      rcases settled with ⟨v, done⟩ | ⟨operators, operands, failed⟩
      · exact balanced_of_evaluateText done
      · exact balanced_of_operandCount failed
    have group : flatten kind ('(' :: t ++ [')']) = Value.literal <$> evaluateText kind t :=
      flatten_numericGroup numeric balanced
    refine ⟨(balanced_of_trim balanced).group, fun refused => ?_, fun fine => ?_⟩
    · change Miscounted (flatten kind ('(' :: t ++ [')']))
      rw [group, miscounted_map]
      exact refused
    · obtain ⟨v, done⟩ := settled.resolve_right fine
      have same := kind_of_evaluateText done
      have free := evaluateText_quoteFree done
      have quoteFree : '"' ∉ v.literal := by
        rcases v.literal_shape with ⟨s, rfl⟩ | ⟨negative, body, _, plain, literal⟩
        · rw [← same] at numeric
          cases numeric
        · rw [literal]
          exact not_mem_signed plain rfl (by decide)
      refine ⟨v.literal, flatten_parenthesised done, (v.flat_literal free).paired, ?_⟩
      simp only [Operand.shown, done]
      exact Quoted.mapLiterals_of_free quoteFree _

/-- Operators and gaps stay as they are. -/
theorem Shows.of_layout (layout : ∀ c ∈ t, isSolid c = false) : Shows kind False t t := by
  have other : ∀ c ∈ t, ∀ d, isSolid d = true → c ≠ d := by
    rintro c member d solid rfl
    rw [layout c member] at solid
    cases solid
  refine .of_flat (Group.flat_of_free fun c member => ?_) fun member => other _ member '"' rfl rfl
  exact ⟨other c member '(' rfl, other c member ')' rfl, other c member '"' rfl⟩

theorem layout_of_gaps (gaps : t.Gaps) : ∀ c ∈ t, isSolid c = false := fun c member => by
  simp [isSolid, gaps c member]

theorem layout_symbol (op : Operator) : isSolid op.symbol = false := by
  cases op <;> rfl

theorem layout_signs {signs : List Text} (gaps : ∀ gap ∈ signs, Text.Gaps gap) :
    ∀ c ∈ signsText signs, isSolid c = false := by
  intro c member
  obtain ⟨gap, inSigns, here⟩ := List.mem_flatMap.mp member
  rcases List.mem_cons.mp here with rfl | inGap
  · rfl
  · exact layout_of_gaps (gaps gap inSigns) c inGap

theorem Link.layout {link : Link} (written : link.Written) :
    ∀ c ∈ link.text, isSolid c = false := by
  cases link with
  | missing gap => exact layout_of_gaps written
  | operator op before after signs =>
    obtain ⟨gapsBefore, gapsAfter, gaps⟩ := written
    intro c member
    simp only [Link.text, List.mem_append, List.mem_cons] at member
    rcases member with (inBefore | rfl | inAfter) | inSigns
    · exact layout_of_gaps gapsBefore c inBefore
    · exact layout_symbol op
    · exact layout_of_gaps gapsAfter c inAfter
    · exact layout_signs gaps c inSigns

end Operands

section Rows

open StepScript.Expr

/-- An expression of operands, some of its operators missing. -/
structure Row where
  signs : List Text
  first : Operand
  more : List (Link × Operand)

namespace Row

/-- The operands of the row behind the first one, each as `f` gives it. -/
def behind (row : Row) (f : Operand → Text) : List (Link × Text) :=
  row.more.map fun entry => (entry.1, f entry.2)

/-- The row with its operands as `f` gives them. -/
def render (row : Row) (f : Operand → Text) : Text :=
  signsText row.signs ++ (f row.first ++ linked (row.behind f))

def text (row : Row) : Text :=
  row.render Operand.text

def operands (row : Row) : List Operand :=
  row.first :: row.more.map Prod.snd

structure Written (row : Row) : Prop where
  signs : ∀ gap ∈ row.signs, Text.Gaps gap
  links : ∀ entry ∈ row.more, entry.1.Written
  operands : ∀ operand ∈ row.operands, operand.Written

end Row

variable {kind : Kind} {row : Row}

theorem Shows.congr {t w : Text} {refused refused' : Prop} (same : refused ↔ refused')
    (shows : Shows kind refused t w) : Shows kind refused' t w := by
  rwa [← same]

theorem shows_linked (numeric : kind.isNumeric = true) {more : List (Link × Operand)}
    (links : ∀ entry ∈ more, entry.1.Written) (written : ∀ entry ∈ more, entry.2.Written)
    (settled : ∀ entry ∈ more, entry.2.Settled kind) :
    Shows kind (∃ entry ∈ more, entry.2.Refused kind)
      (linked (more.map fun entry => (entry.1, entry.2.text)))
      (linked (more.map fun entry => (entry.1, entry.2.shown kind))) := by
  induction more with
  | nil => exact Shows.congr (by simp) (.of_layout (List.forall_mem_nil _))
  | cons entry more ih =>
    obtain ⟨link, operand⟩ := entry
    obtain ⟨linkHere, linksLater⟩ := List.forall_mem_cons.mp links
    obtain ⟨writtenHere, writtenLater⟩ := List.forall_mem_cons.mp written
    obtain ⟨settledHere, settledLater⟩ := List.forall_mem_cons.mp settled
    have here := (@Shows.of_layout kind _ (Link.layout linkHere)).append
      (operand.shows numeric writtenHere settledHere)
    have whole := here.append (ih linksLater writtenLater settledLater)
    exact Shows.congr (by simp) whole

theorem Row.parted_behind {f : Operand → Text} :
    Parted (row.behind f) ↔ ∃ gap operand, (.missing gap, operand) ∈ row.more ∧ gap ≠ [] ∧
      (f operand).head? ≠ some '-' := by
  constructor
  · rintro ⟨gap, t, member, parted⟩
    obtain ⟨⟨link, operand⟩, inRow, same⟩ := List.mem_map.mp member
    cases same
    exact ⟨gap, operand, inRow, parted⟩
  · rintro ⟨gap, operand, inRow, parted⟩
    exact ⟨gap, f operand, List.mem_map_of_mem (f := fun e => (e.1, f e.2)) inRow, parted⟩

theorem Row.exists_operand {P : Operand → Prop} :
    (∃ operand ∈ row.operands, P operand) ↔ P row.first ∨ ∃ entry ∈ row.more, P entry.2 := by
  rw [operands, List.exists_mem_cons_iff]
  simp only [List.mem_map, exists_exists_and_eq_and]

theorem Row.shows (numeric : kind.isNumeric = true) (written : row.Written)
    (settled : ∀ operand ∈ row.operands, operand.Settled kind) :
    Shows kind (∃ operand ∈ row.operands, operand.Refused kind) row.text
      (row.render (Operand.shown kind)) := by
  obtain ⟨firstWritten, behindWritten⟩ := List.forall_mem_cons.mp written.operands
  obtain ⟨firstSettled, behindSettled⟩ := List.forall_mem_cons.mp settled
  rw [List.forall_mem_map] at behindWritten behindSettled
  have signs := @Shows.of_layout kind _ (layout_signs written.signs)
  have first := row.first.shows numeric firstWritten firstSettled
  have more := shows_linked numeric written.links behindWritten behindSettled
  exact Shows.congr (by rw [false_or, exists_operand]) (signs.append (first.append more))

theorem Operand.bare {operand : Operand} (written : operand.Written) : operand.text.Bare := by
  cases operand with
  | group t => exact Text.bare_group t
  | quoted s => exact (Value.string s).bare_literal
  | word w =>
    obtain ⟨nonempty, chars⟩ := written
    constructor
    · obtain ⟨c, rest, rfl⟩ := List.exists_cons_of_ne_nil nonempty
      exact ⟨c, rest, rfl, (chars c List.mem_cons_self).2.1⟩
    · exact ⟨_, _, (List.dropLast_append_getLast nonempty).symm,
        (chars _ (List.getLast_mem nonempty)).2.1⟩

theorem bare_linked {t : Text} (bare : t.Bare) {more : List (Link × Text)}
    (lone : ∀ entry ∈ more, entry.2.Bare) : Text.Bare (t ++ linked more) := by
  induction more generalizing t with
  | nil => simpa [linked] using bare
  | cons entry more ih =>
    obtain ⟨here, later⟩ := List.forall_mem_cons.mp lone
    have longer := ih (bare.around here entry.1.text) later
    simpa [linked] using longer

theorem Row.bare (written : row.Written) : row.text.Bare := by
  obtain ⟨first, behind⟩ := List.forall_mem_cons.mp written.operands
  rw [List.forall_mem_map] at behind
  have operands : Text.Bare (row.first.text ++ linked (row.behind Operand.text)) := by
    refine bare_linked (Operand.bare first) ?_
    exact List.forall_mem_map.mpr fun entry member => Operand.bare (behind entry member)
  rw [text, render]
  cases row.signs with
  | nil => exact operands
  | cons gap signs =>
    have minus : Text.Bare ['-'] := ⟨⟨'-', [], rfl, rfl⟩, ⟨[], '-', rfl, rfl⟩⟩
    simpa [signsText] using minus.around operands (gap ++ signsText signs)

/-- Whether the shown operands make a chain. -/
theorem Row.chain?_eq_none_iff {α : Type} (domain : Domain α) (numeric : kind.isNumeric = true)
    (written : row.Written) (settled : ∀ operand ∈ row.operands, operand.Settled kind)
    (fine : ¬ ∃ operand ∈ row.operands, operand.Refused kind) :
    chain? domain false (tokens (row.render (Operand.shown kind))) = none ↔
      Parted (row.behind (Operand.shown kind)) := by
  have lone : ∀ operand ∈ row.operands, Lone (operand.shown kind) := fun operand member =>
    operand.lone numeric (written.operands operand member) (settled operand member)
      fun refused => fine ⟨operand, member, refused⟩
  obtain ⟨⟨sign, body, nonempty, solid, first⟩, behind⟩ := List.forall_mem_cons.mp lone
  rw [List.forall_mem_map] at behind
  obtain ⟨negative, signs⟩ := chain?_signs domain written.signs false
    (row.first.shown kind ++ linked (row.behind (Operand.shown kind)))
  obtain ⟨turned, signed⟩ := chain?_signedBody domain sign negative body
    (linked (row.behind (Operand.shown kind)))
  rw [render, signs, first, signed]
  refine Arithmetic.chain?_eq_none_iff domain turned solid nonempty ?_ ?_
  · exact List.forall_mem_map.mpr fun entry member => written.links entry member
  · exact List.forall_mem_map.mpr fun entry member => behind entry member

/-- For both kinds of numbers, a text that leaves the row as it is shown. -/
theorem Row.miscounted_evaluateFlat {u : Text} (numeric : kind.isNumeric = true)
    (shown : Quoted.mapLiterals (fun s => ((Value.string s).convert kind).display) u =
      row.render (Operand.shown kind)) (written : row.Written)
    (settled : ∀ operand ∈ row.operands, operand.Settled kind)
    (fine : ¬ ∃ operand ∈ row.operands, operand.Refused kind) :
    Miscounted (evaluateFlat kind u) ↔ Parted (row.behind (Operand.shown kind)) := by
  cases kind with
  | bool | string => cases numeric
  | int =>
    have chained := row.chain?_eq_none_iff ints numeric written settled fine
    rw [← shown] at chained
    rw [evaluateFlat, miscounted_map, miscounted_evaluate ints_dividesAtMost]
    exact chained
  | double =>
    have chained := row.chain?_eq_none_iff doubles numeric written settled fine
    rw [← shown] at chained
    rw [evaluateFlat, miscounted_map, miscounted_evaluate doubles_dividesAtMost]
    exact chained

end Rows
end Arithmetic

open StepScript.Arithmetic StepScript.Expr in
/-- A row of operands is refused for its count of operators exactly if one of its groups is, or if
an operator is missing where a gap stands and the operand behind the gap, its value put in, has no
minus sign in front. So it is evaluated wherever two operands touch, and also where the second is
worth a negative number. -/
theorem missing_operator_refused_iff {kind : Kind} {row : Row} {before after : Text}
    (numeric : kind.isNumeric = true) (written : row.Written)
    (settled : ∀ operand ∈ row.operands, operand.Settled kind)
    (blankBefore : ∀ c ∈ before, isBlank c = true) (blankAfter : ∀ c ∈ after, isBlank c = true) :
    Miscounted (evaluateText kind (before ++ row.text ++ after)) ↔
      (∃ operand ∈ row.operands, operand.Refused kind) ∨
        ∃ gap operand, (.missing gap, operand) ∈ row.more ∧ gap ≠ [] ∧
          (operand.shown kind).head? ≠ some '-' := by
  have shows := row.shows numeric written settled
  rw [evaluateText_padded shows.balanced (row.bare written) blankBefore blankAfter]
  by_cases refused : ∃ operand ∈ row.operands, operand.Refused kind
  · obtain ⟨operators, operands, failed⟩ := shows.refuses refused
    refine iff_of_true ⟨operators, operands, ?_⟩ (.inl refused)
    rw [failed]
    rfl
  · obtain ⟨u, done, _, shown⟩ := shows.shows refused
    rw [done, or_iff_right refused, ← Row.parted_behind]
    exact row.miscounted_evaluateFlat numeric shown written settled refused

open StepScript.Arithmetic StepScript.Expr in
/-- The first missing operator is made up for by the sign of the group behind it, the second one is
noticed. -/
theorem second_missing_operator_refused :
    let row : Row := ⟨[[]], .word ['2'], [(.operator .mul [' '] [' '] [[' ']], .quoted ['3']),
      (.missing ['\t'], .group "4 - 5".toList), (.missing [' '], .group "(6)".toList)]⟩
    row.text = "-2 * - \"3\"\t(4 - 5) ((6))".toList ∧ Miscounted (evaluateText .int row.text) := by
  intro row
  have digit : Operand.Written (.word ['2']) :=
    Operand.written_word (by decide) (List.all_eq_true.mp rfl)
  have written : row.Written :=
    ⟨by decide, by decide, List.forall_mem_cons.mpr ⟨digit, by decide⟩⟩
  have settled : ∀ operand ∈ row.operands, operand.Settled .int := by
    have difference : Operand.Settled .int (.group "4 - 5".toList) :=
      .inl ⟨.int (-1), by decide +kernel⟩
    have nested : Operand.Settled .int (.group "(6)".toList) := .inl ⟨.int 6, by decide +kernel⟩
    have groups := List.forall_mem_cons.mpr ⟨difference, List.forall_mem_singleton.mpr nested⟩
    exact List.forall_mem_cons.mpr ⟨trivial, List.forall_mem_cons.mpr ⟨trivial, groups⟩⟩
  have refused := missing_operator_refused_iff rfl written settled (List.forall_mem_nil _)
    (List.forall_mem_nil _)
  rw [List.append_nil, List.nil_append] at refused
  refine ⟨rfl, refused.mpr (.inr ⟨[' '], .group "(6)".toList, ?_, by decide, by decide +kernel⟩)⟩
  simp [row]

open StepScript.Arithmetic StepScript.Expr in
/-- Operands without an operator between them that are evaluated. -/
theorem missing_operators_pass :
    let touching : Row := ⟨[], .group ['1'], [(.missing [], .group ['2'])]⟩
    let signed : Row := ⟨[], .word ['1'], [(.missing [' '], .group ['-', '2'])]⟩
    (touching.Written ∧ touching.text = "(1)(2)".toList ∧
        evaluateText .int touching.text = .ok (.int 12)) ∧
      signed.Written ∧ signed.text = "1 (-2)".toList ∧
        evaluateText .int signed.text = .ok (.int (-1)) := by
  intro touching signed
  have digit : Operand.Written (.word ['1']) :=
    Operand.written_word (by decide) (List.all_eq_true.mp rfl)
  have touches : touching.Written := ⟨by decide, by decide, by decide⟩
  have signs : signed.Written :=
    ⟨by decide, by decide, List.forall_mem_cons.mpr ⟨digit, by decide⟩⟩
  exact ⟨⟨touches, rfl, by decide +kernel⟩, signs, rfl, by decide +kernel⟩

end StepScript
