import StepScript.Proofs.ByteScans
import StepScript.Proofs.Lexemes
import StepScript.Proofs.Parentheses

/-! The guess that a group is a condition. It looks for an operator among single bytes and their
successors, outside the literals, while the scanner cuts the text into its longest lexemes. Of every
text that the scanner accepts the two say the same, so that a group is evaluated as a Bool exactly
if there is an operator among its tokens. -/
namespace StepScript

namespace Encoded

open StepScript.Text

variable {t inner : Text} {c sign : Char} {b : UInt8} {pos : Nat} {inside : Bool}
  {strings : List Span}

/-- An operator of a condition starts with this byte, in front of the next one. -/
def startsOperator (b : UInt8) (next? : Option UInt8) : Bool :=
  if b == '<'.toUInt8 || b == '>'.toUInt8 then true
  else if b == '='.toUInt8 || b == '!'.toUInt8 then next? == some '='.toUInt8
  else if b == '&'.toUInt8 || b == '|'.toUInt8 then next? == some b
  else false

/-- Whether an operator starts outside the literals, among bytes from offset `pos` on. -/
def hasConditionFrom (strings : List Span) (pos : Nat) : List UInt8 → Bool
  | [] => false
  | b :: bs =>
    (!Quoted.contains strings pos && startsOperator b bs.head?) ||
      hasConditionFrom strings (pos + 1) bs

def hasCondition (strings : List Span) (t : Text) : Bool :=
  hasConditionFrom strings 0 t.bytes

/-- The kind for which the contents of a group are evaluated. -/
def groupKind (target : Kind) (inner : Text) : Except Error Kind :=
  if target.isNumeric then .ok target
  else do
    let strings ← literals inner
    return if hasCondition strings inner || (readBool? inner.trim).isSome then .bool
      else if !strings.isEmpty then .string
      else Condition.arithmeticKind inner

theorem startsOperator_bytes (ascii : IsAscii c) (t : Text) :
    startsOperator c.toUInt8 t.bytes.head? =
      Expr.hasCondition.startsOperator c t.head? := by
  have signs : ∀ sign, IsAscii sign → (c.toUInt8 == sign.toUInt8) = (c == sign) := fun _ =>
    byte_beq ascii
  rw [startsOperator, Expr.hasCondition.startsOperator, signs '<' rfl, signs '>' rfl,
    signs '=' rfl, signs '!' rfl, signs '&' rfl, signs '|' rfl, head?_bytes_beq (rfl : IsAscii '='),
    head?_bytes_beq ascii]

theorem startsOperator_of_wide (wide : 128 ≤ b) (next? : Option UInt8) :
    startsOperator b next? = false := by
  have signs : ∀ sign, IsAscii sign → (b == sign.toUInt8) = false := fun _ => wide_beq wide
  rw [startsOperator, signs '<' rfl, signs '>' rfl, signs '=' rfl, signs '!' rfl, signs '&' rfl,
    signs '|' rfl]
  rfl

theorem startsOperator_of_not_isAscii (other : ¬ IsAscii c) (next? : Option Char) :
    Expr.hasCondition.startsOperator c next? = false := by
  have signs : ∀ sign, IsAscii sign → (c == sign) = false := fun _ => beq_of_wide other
  rw [Expr.hasCondition.startsOperator, signs '<' rfl, signs '>' rfl, signs '=' rfl, signs '!' rfl,
    signs '&' rfl, signs '|' rfl]
  rfl

theorem hasConditionFrom_bytes (masks : Quoted.Masks (Quoted.contains strings) pos inside t) :
    hasConditionFrom strings pos t.bytes = Expr.hasCondition inside t := by
  induction t generalizing pos inside with
  | nil => rfl
  | cons c t ih =>
    have later := ih masks.tail
    rw [Expr.hasCondition, ← later]
    by_cases ascii : IsAscii c
    · have size : c.utf8Size = 1 := ascii
      rw [ascii.bytes_cons, hasConditionFrom, startsOperator_bytes ascii, size]
      by_cases quote : c = '"'
      · subst quote
        simp [Expr.hasCondition.startsOperator]
      · rw [masks.here quote]
    · have pass : ∀ pos b bs, 128 ≤ b →
          hasConditionFrom strings pos (b :: bs) = hasConditionFrom strings (pos + 1) bs := by
        intro pos b bs wide
        rw [hasConditionFrom, startsOperator_of_wide wide, Bool.and_false, Bool.false_or]
      rw [pass_wide (hasConditionFrom strings) pass ascii, startsOperator_of_not_isAscii ascii,
        Bool.and_false, Bool.false_or]

theorem hasCondition_eq (quoted : Quoted.spans t = .ok strings) :
    hasCondition strings t = Expr.hasCondition false t :=
  hasConditionFrom_bytes (Quoted.masks_contains quoted)

/-- There are literals in a text with paired quotes exactly if there is a quote. -/
theorem isEmpty_spansFrom (done : Quoted.spansFrom pos none t = .ok strings) :
    strings.isEmpty = !t.contains '"' := by
  have paired : t.Paired := (Quoted.spansFrom_ok pos none t).mp ⟨_, done⟩
  induction paired using Text.Paired.literal_induction generalizing pos strings with
  | free t free =>
    have none := Quoted.spansFrom_append_of_free free pos none []
    rw [List.append_nil] at none
    cases none.symm.trans done
    simp [free]
  | literal lead s rest paired whole leadFree free ih =>
    rw [Quoted.spansFrom_append_of_free leadFree, Condition.spansFrom_quoted free] at done
    obtain ⟨more, _, rfl⟩ := Error.ok_of_map done
    simp

theorem groupKind_eq (target : Kind) (inner : Text) :
    groupKind target inner = Expr.askedKind target inner := by
  rw [groupKind, Expr.askedKind, literals_eq, Quoted.check]
  cases numeric : target.isNumeric with
  | true => rfl
  | false =>
    cases quoted : Quoted.spans inner with
    | error e => rfl
    | ok strings =>
      have some : inner.contains '"' = !strings.isEmpty := by
        rw [isEmpty_spansFrom quoted, Bool.not_not]
      rw [Expr.groupKind, numeric, ← hasCondition_eq quoted, some]
      rfl

end Encoded

namespace Condition

/-- Gaps are no operators, and offsets make no difference. -/
theorem hasOperator_tokens (pos : Nat) (lexemes : List (Lexeme Token)) :
    HasOperator (((Lexeme.place pos lexemes).filter (isToken .gap)).map Prod.snd) ↔
      HasOperator lexemes := by
  induction lexemes generalizing pos with
  | nil => rfl
  | cons l lexemes ih =>
    obtain ⟨kind, text⟩ := l
    have later := ih (pos + text.width)
    cases kind with
    | gap => exact later.trans (by simp)
    | operator | quoted | word =>
      exact hasOperator_cons.trans ((or_congr_right later).trans hasOperator_cons.symm)

/-- A group for a Bool or a String is a condition if it shows an operator, or if all of it is a Bool
literal. -/
theorem groupKind_eq_bool_iff {target : Kind} {inner : Text}
    (asked : target = .bool ∨ target = .string) (other : readBool? inner.trim = none) :
    Expr.groupKind target inner = .bool ↔ Expr.hasCondition false inner = true := by
  have numeric : target.isNumeric = false := by
    rcases asked with rfl | rfl <;> rfl
  rw [Expr.groupKind, numeric, other, Option.isSome_none, Bool.or_false, if_neg Bool.false_ne_true]
  split
  · simp [*]
  · rename_i none
    unfold arithmeticKind
    split_ifs <;> simp [none]

end Condition

open StepScript.Condition in
/-- Of every text that the scanner accepts, the scan over its bytes finds an operator outside the
literals exactly if one of the tokens is an operator. So a group for a Bool or a String, which is
not a Bool literal alone, is evaluated as a Bool exactly if it has an operator among its tokens. -/
theorem guess_agrees_with_tokens {inner : Text} {tokens : List (Nat × Lexeme Token)}
    (lexed : placedTokens inner = .ok tokens) :
    (∃ strings, Quoted.spans inner = .ok strings ∧
      (Encoded.hasCondition strings inner = true ↔ HasOperator (tokens.map Prod.snd))) ∧
    ∀ target, target = .bool ∨ target = .string → readBool? inner.trim = none →
      (Encoded.groupKind target inner = .ok .bool ↔ HasOperator (tokens.map Prod.snd)) ∧
      (Expr.groupKind target inner = .bool ↔ HasOperator (tokens.map Prod.snd)) ∧
      ∀ value, Expr.evaluateFlat (Expr.groupKind target inner) inner.trim = .ok value →
        (value.kind = .bool ↔ HasOperator (tokens.map Prod.snd)) := by
  have quoted := spans_of_placedTokens lexed
  have condition : Expr.hasCondition false inner = true ↔ HasOperator (tokens.map Prod.snd) := by
    rw [placedTokens] at lexed
    obtain ⟨lexemes, scanned, rfl⟩ := Error.ok_of_map lexed
    exact (hasCondition_iff scanned).trans (hasOperator_tokens 0 lexemes).symm
  refine ⟨⟨_, quoted, by rw [Encoded.hasCondition_eq quoted, condition]⟩, ?_⟩
  intro target asked other
  have kind := (groupKind_eq_bool_iff asked other).trans condition
  refine ⟨?_, kind, fun value done => ?_⟩
  · have numeric : target.isNumeric = false := by
      rcases asked with rfl | rfl <;> rfl
    rw [Encoded.groupKind_eq, Expr.askedKind, numeric, Quoted.check_of_spans quoted, ← kind]
    exact ⟨Except.ok.inj, congrArg Except.ok⟩
  · rw [Expr.kind_of_evaluateFlat done, kind]

/-- Operators next to each other and behind a wide character are found, and those of a literal are
not taken for operators. -/
theorem guess_among_literals :
    (∃ tokens, Condition.placedTokens "é<=\"a==b\"&&x!=1".toList = .ok tokens ∧
      Condition.HasOperator (tokens.map Prod.snd) ∧
      Expr.groupKind .string "é<=\"a==b\"&&x!=1".toList = .bool) ∧
    ∃ tokens, Condition.placedTokens "\"a==b\"+x".toList = .ok tokens ∧
      ¬ Condition.HasOperator (tokens.map Prod.snd) ∧
      Expr.groupKind .string "\"a==b\"+x".toList ≠ .bool := by
  have here : Condition.HasOperator
      ([(0, ⟨.word, "é".toList⟩), (2, ⟨.operator (.comparison .le), "<=".toList⟩),
        (4, ⟨.quoted, "\"a==b\"".toList⟩), (10, ⟨.operator (.logical .and), "&&".toList⟩),
        (12, ⟨.word, "x".toList⟩), (13, ⟨.operator (.comparison .ne), "!=".toList⟩),
        (15, ⟨.word, "1".toList⟩)].map Prod.snd) := by simp
  have absent : ¬ Condition.HasOperator
      ([(0, ⟨.quoted, "\"a==b\"".toList⟩), (6, ⟨.word, "+x".toList⟩)].map Prod.snd) := by simp
  obtain ⟨_, kinds⟩ := @guess_agrees_with_tokens "é<=\"a==b\"&&x!=1".toList _ rfl
  obtain ⟨_, others⟩ := @guess_agrees_with_tokens "\"a==b\"+x".toList _ rfl
  exact ⟨⟨_, rfl, here, (kinds .string (.inr rfl) rfl).2.1.mpr here⟩,
    ⟨_, rfl, absent, fun guess => absent ((others .string (.inr rfl) rfl).2.1.mp guess)⟩⟩

end StepScript
