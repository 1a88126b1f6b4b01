import StepScript.Proofs.Folding
import StepScript.Proofs.Grouping

/-! Operands of a condition. A string expression and arithmetic among them are evaluated as texts
of their own; cut out of a text without groups, they have none either. -/
namespace StepScript

namespace Group

variable {t : Text}

theorem Flat.trim (flat : Flat t) : Flat t.trim := by
  obtain ⟨before, after, same, left, _⟩ := t.trim_between
  have outside : Quoted.after false before = false :=
    Quoted.after_of_free fun member => absurd (left _ member) (by decide)
  have none := flat.none
  rw [same, List.append_assoc, noneOpen_append, outside, noneOpen_append] at none
  exact ⟨none.2.1, (Quoted.after_trim false t).trans flat.paired⟩

end Group

namespace Condition

open StepScript.Group

section Pieces

variable {t : Text} {ps : List Piece}

theorem consWord_flatMap (c : Char) (lexemes : List (Lexeme Token)) :
    (consWord c lexemes).flatMap Lexeme.text = c :: lexemes.flatMap Lexeme.text := by
  cases lexemes with
  | nil => rfl
  | cons l more =>
    obtain ⟨kind, text⟩ := l
    cases kind <;> rfl

theorem consQuoted_flatMap (c : Char) (lexemes : List (Lexeme Token)) :
    (consQuoted c lexemes).flatMap Lexeme.text = c :: lexemes.flatMap Lexeme.text := by
  cases lexemes <;> rfl

theorem scanOne_flatMap {pos : Nat} {c : Char}
    {next : Option Nat → Except Error (List (Lexeme Token))} {lexemes : List (Lexeme Token)}
    (nexts : ∀ opening? lexemes, next opening? = .ok lexemes → lexemes.flatMap Lexeme.text = t)
    (scanned : scanOne pos c next = .ok lexemes) : lexemes.flatMap Lexeme.text = c :: t := by
  unfold scanOne at scanned
  split at scanned
  · obtain ⟨more, rest, rfl⟩ := Error.ok_of_map scanned
    exact congrArg (c :: ·) (nexts _ _ rest)
  · split at scanned
    · obtain ⟨more, rest, rfl⟩ := Error.ok_of_map scanned
      rw [consQuoted_flatMap, nexts _ _ rest]
    · split at scanned
      · cases scanned
      · split at scanned
        · obtain ⟨more, rest, rfl⟩ := Error.ok_of_map scanned
          exact congrArg (c :: ·) (nexts _ _ rest)
        · obtain ⟨more, rest, rfl⟩ := Error.ok_of_map scanned
          rw [consWord_flatMap, nexts _ _ rest]

/-- The lexemes of a scan concatenate to the text. -/
theorem scanFrom_flatMap {pos : Nat} {opening? : Option Nat} {lexemes : List (Lexeme Token)}
    (scanned : scanFrom pos opening? t = .ok lexemes) : lexemes.flatMap Lexeme.text = t := by
  fun_induction scanFrom pos opening? t generalizing lexemes with
  | case1 pos =>
    cases scanned
    rfl
  | case2 pos opening => cases scanned
  | case3 pos opening c t quote ih =>
    obtain ⟨more, rest, rfl⟩ := Error.ok_of_map scanned
    exact congrArg (c :: ·) (ih rest)
  | case4 pos opening c t unquoted ih =>
    obtain ⟨more, rest, rfl⟩ := Error.ok_of_map scanned
    rw [consQuoted_flatMap, ih rest]
  | case5 pos c ih => exact scanOne_flatMap (fun opening? _ => ih opening?) scanned
  | case6 pos c d t op found ih =>
    obtain ⟨more, rest, rfl⟩ := Error.ok_of_map scanned
    exact congrArg (c :: d :: ·) (ih rest)
  | case7 pos c d t none ih => exact scanOne_flatMap (fun opening? _ => ih opening?) scanned

/-- Parts with paired quotes of a text without groups have no groups. -/
theorem flat_lexemes {lexemes : List (Lexeme Token)}
    (none : NoneOpen false (lexemes.flatMap Lexeme.text))
    (paired : ∀ l ∈ lexemes, Text.Paired l.text) : ∀ l ∈ lexemes, Flat l.text := by
  induction lexemes with
  | nil => exact List.forall_mem_nil _
  | cons l more ih =>
    obtain ⟨first, rest⟩ := List.forall_mem_cons.mp paired
    rw [List.flatMap_cons, noneOpen_append, show Quoted.after false l.text = false from first]
      at none
    exact List.forall_mem_cons.mpr ⟨⟨none.1, first⟩, ih none.2 rest⟩

/-- The operand has no group outside its literals. -/
def Piece.Flat : Piece → Prop
  | .operand text => Group.Flat text
  | .operator _ => True

theorem flat_merge {lexemes : List (Lexeme Token)} (flat : ∀ l ∈ lexemes, Group.Flat l.text) :
    ∀ piece ∈ merge lexemes, piece.Flat := by
  induction lexemes with
  | nil => exact List.forall_mem_nil _
  | cons l more ih =>
    obtain ⟨first, rest⟩ := List.forall_mem_cons.mp flat
    obtain ⟨kind, text⟩ := l
    specialize ih rest
    cases kind with
    | operator op => exact List.forall_mem_cons.mpr ⟨trivial, ih⟩
    | quoted | word | gap =>
      simp only [merge]
      cases merged : merge more with
      | nil => simpa [Piece.Flat] using first
      | cons piece pieces =>
        rw [merged] at ih
        obtain ⟨here, later⟩ := List.forall_mem_cons.mp ih
        cases piece with
        | operator op => exact List.forall_mem_cons.mpr ⟨first, ih⟩
        | operand behind => exact List.forall_mem_cons.mpr ⟨first.append here, later⟩

theorem flat_pieces (flat : Group.Flat t) (cut : pieces t = .ok ps) :
    ∀ piece ∈ ps, piece.Flat := by
  obtain ⟨lexemes, scanned, rfl⟩ := Error.ok_of_map cut
  have whole := scanFrom_flatMap scanned
  have lexemesFlat := flat_lexemes (by rw [whole]; exact flat.none) (scanFrom_closed scanned).paired
  intro piece member
  exact flat_merge lexemesFlat piece (List.mem_filter.mp member).1

end Pieces

section Calls

variable {t : Text}

/-- How an operand is read: at once, or as an expression of its own. -/
inductive Reading where
  | done (result : Except Error Value)
  | call (kind : Kind) (text : Text)

def Reading.ofOperand (raw : Text) : Reading :=
  let text := raw.trim
  if text.contains '"' then .call .string text
  else
    let read? := (readBool? text).map Value.bool
      |>.or ((Decimal.readInt? text).map .int)
      |>.or ((Double.read? text).map .double)
    match read? with
    | some value => .done (.ok value)
    | none =>
      if text.any fun c => (Arithmetic.Operator.ofChar? c).isSome then
        .call (arithmeticKind text) text
      else .done (.error (.unrecognizedOperand text))

/-- What an operand is worth if expressions are worth what `answer` says. -/
def Reading.result (answer : Kind → Text → Except Error Value) : Reading → Except Error Value
  | .done result => result
  | .call kind text => answer kind text

def Piece.evaluateWith (answer : Kind → Text → Except Error Value) : Piece → Except Error Item
  | .operand text => .value <$> (Reading.ofOperand text).result answer
  | .operator op => .ok (.operator op)

/-- A condition whose operands are worth what `answer` says. -/
def evaluateWith (answer : Kind → Text → Except Error Value) (text : Text) :
    Except Error Bool := do
  let items ← (← pieces text).mapM (Piece.evaluateWith answer)
  match chain? items with
  | some (first, more) => fold false true first more
  | none => .error (countError items)

/-- The condition has an operand that is read as an expression of this kind. -/
def Calls (text : Text) (kind : Kind) (inner : Text) : Prop :=
  ∃ ps operand, pieces text = .ok ps ∧ .operand operand ∈ ps ∧
    Reading.ofOperand operand = .call kind inner

theorem Reading.call_eq {raw inner : Text} {kind : Kind} (call : ofOperand raw = .call kind inner) :
    inner = raw.trim ∧ kind ≠ .bool := by
  simp only [ofOperand] at call
  split at call
  · cases call
    exact ⟨rfl, by decide⟩
  · split at call
    · cases call
    · split at call
      · cases call
        refine ⟨rfl, ?_⟩
        rw [arithmeticKind]
        split <;> decide
      · cases call

theorem Calls.kind_ne_bool {kind : Kind} {inner : Text} (calls : Calls t kind inner) :
    kind ≠ .bool := by
  obtain ⟨_, _, _, _, call⟩ := calls
  exact (Reading.call_eq call).2

theorem Calls.flat {kind : Kind} {inner : Text} (calls : Calls t kind inner)
    (flat : Group.Flat t) : Group.Flat inner := by
  obtain ⟨ps, operand, cut, member, call⟩ := calls
  obtain ⟨rfl, _⟩ := Reading.call_eq call
  have operandFlat : Group.Flat operand := flat_pieces flat cut _ member
  exact operandFlat.trim

theorem Calls.trimmed {kind : Kind} {inner : Text} (calls : Calls t kind inner) :
    inner.trim = inner := by
  obtain ⟨_, _, _, _, call⟩ := calls
  obtain ⟨rfl, _⟩ := Reading.call_eq call
  exact Text.trim_trim _

theorem Reading.result_ofOperand (raw : Text) :
    (ofOperand raw).result Expr.evaluateFlat = operandValue raw := by
  simp only [ofOperand, operandValue]
  split
  · rfl
  · generalize (((readBool? raw.trim).map Value.bool).or ((Decimal.readInt? raw.trim).map .int)).or
      ((Double.read? raw.trim).map .double) = read?
    cases read? with
    | some value => rfl
    | none =>
      dsimp only
      split
      · rw [arithmeticKind]
        split
        · rfl
        · rfl
      · rfl

theorem evaluateWith_evaluateFlat (text : Text) :
    evaluateWith Expr.evaluateFlat text = evaluate text := by
  have same : Piece.evaluateWith Expr.evaluateFlat = Piece.evaluate := by
    funext piece
    cases piece with
    | operand text => exact congrArg (Item.value <$> ·) (Reading.result_ofOperand text)
    | operator op => rfl
  rw [evaluateWith, same]
  rfl

theorem mapM_congr {α β : Type} {f g : α → Except Error β} {as : List α}
    (same : ∀ a ∈ as, f a = g a) : as.mapM f = as.mapM g := by
  induction as with
  | nil => rfl
  | cons a as ih =>
    obtain ⟨first, rest⟩ := List.forall_mem_cons.mp same
    rw [List.mapM_cons, List.mapM_cons, first, ih rest]

/-- Only the answers to the calls of a condition count. -/
theorem evaluateWith_congr {answer other : Kind → Text → Except Error Value} {text : Text}
    (same : ∀ kind inner, Calls text kind inner → answer kind inner = other kind inner) :
    evaluateWith answer text = evaluateWith other text := by
  rw [evaluateWith, evaluateWith]
  cases cut : pieces text with
  | error e => rfl
  | ok ps =>
    have items : ps.mapM (Piece.evaluateWith answer) = ps.mapM (Piece.evaluateWith other) := by
      refine mapM_congr fun piece member => ?_
      cases piece with
      | operator op => rfl
      | operand operand =>
        rw [Piece.evaluateWith, Piece.evaluateWith]
        cases call : Reading.ofOperand operand with
        | done result => rfl
        | call kind inner =>
          exact congrArg (Item.value <$> ·) (same kind inner ⟨ps, operand, cut, member, call⟩)
    simp only [bind, Except.bind, items]

end Calls
end Condition
end StepScript
