import StepScript.Proofs.LineCuts
import StepScript.Proofs.Lexemes

/-! Operands of a condition cut at byte offsets. A run of literals and words is one operand, from
the first byte of its first token to the last byte of its last one; gaps around it are no part of
it. What it is worth is the same as with the gaps. -/
namespace StepScript

namespace Condition

variable {last pos : Nat} {t gap : Text} {lexemes : List (Nat × Lexeme Token)} {ps : List Piece}
  {result : Kind → Text → Except Error Value}

/-- The pieces of a text that longest match cuts to its end. -/
theorem reads_of_cuts (cuts : Cuts Rule last [] pos t lexemes) :
    Reads t (merge (lexemes.map Prod.snd)) := by
  induction cuts with
  | done => exact fun _ => rfl
  | @next pos kind word after lexemes longest _ ih =>
    cases longest.rule with
    | gap run =>
      refine lexes_chars (fun c member => .inr ?_) run.1 _ _ ih
      exact mem_blanks_iff.mp (run.2 c member)
    | operator op =>
      intro pos
      rw [scanFrom_operator op (single_stops longest)]
      exact ih.map (fun _ => rfl) _
    | quoted free => exact lexes_quoted free _ _ ih
    | word run =>
      refine lexes_chars (fun c member => .inl ?_) run.1 _ _ ih
      exact isWordChar_iff.mpr (run.2 c member)

/-- The values and operators of pieces, gaps alone left out. -/
def evaluatePieces (result : Kind → Text → Except Error Value) (ps : List Piece) :
    Except Error (List Item) :=
  (ps.filter fun p => !p.isGap).mapM (Piece.evaluateWith result)

theorem ofOperand_pad {before after : Text} (left : before.Gaps) (right : after.Gaps) (t : Text) :
    Reading.ofOperand (before ++ t ++ after) = Reading.ofOperand t := by
  rw [Reading.ofOperand, Reading.ofOperand, Text.trim_pad left.blank right.blank]

theorem isGap_append (gaps : gap.Gaps) (t : Text) :
    Piece.isGap (.operand (gap ++ t)) = Piece.isGap (.operand t) := by
  rw [Piece.isGap, List.all_append, List.all_eq_true.mpr gaps]
  rfl

theorem evaluatePieces_gaps (gaps : gap.Gaps) (ps : List Piece) :
    evaluatePieces result (lead gap ps) = evaluatePieces result ps := by
  have alone : Piece.isGap (.operand gap) = true := List.all_eq_true.mpr gaps
  cases ps with
  | nil => simp [evaluatePieces, lead, alone]
  | cons piece ps =>
    cases piece with
    | operator op => simp [evaluatePieces, lead, alone]
    | operand text =>
      have same : Piece.evaluateWith result (.operand (gap ++ text)) =
          Piece.evaluateWith result (.operand text) := by
        have pad := ofOperand_pad gaps .nil text
        rw [List.append_nil] at pad
        rw [Piece.evaluateWith, pad, Piece.evaluateWith]
      simp only [evaluatePieces, lead, List.filter_cons, isGap_append gaps]
      split
      · rw [List.mapM_cons, List.mapM_cons, same]
      · rfl

theorem evaluatePieces_operand {run : Text} (solid : run.all StepScript.isGap = false)
    (gaps : gap.Gaps) (ps : List Piece) :
    evaluatePieces result (.operand (run ++ gap) :: ps) = do
      let value ← (Reading.ofOperand run).result result
      let items ← evaluatePieces result ps
      return .value value :: items := by
  have kept : Piece.isGap (.operand (run ++ gap)) = false := by
    rw [Piece.isGap, List.all_append, solid, Bool.false_and]
  have pad := ofOperand_pad .nil gaps run
  rw [List.nil_append] at pad
  rw [evaluatePieces, List.filter_cons, kept, Bool.not_false, if_pos rfl, List.mapM_cons,
    Piece.evaluateWith, pad]
  cases (Reading.ofOperand run).result result <;> rfl

theorem evaluatePieces_operator (op : Operator) (ps : List Piece) :
    evaluatePieces result (.operator op :: ps) =
      (.operator op :: ·) <$> evaluatePieces result ps := by
  rw [evaluatePieces, List.filter_cons, Piece.isGap, Bool.not_false, if_pos rfl, List.mapM_cons,
    evaluatePieces]
  cases List.mapM (Piece.evaluateWith result) (ps.filter fun p => !p.isGap) <;> rfl

/-- A token of an operand is more than a gap. -/
theorem not_gap_of_rule {kind : Token} {word : Text} (rule : Rule kind word)
    (operand : kind = .quoted ∨ kind = .word) : word.all StepScript.isGap = false := by
  cases rule with
  | gap | operator => simp at operand
  | quoted free => rfl
  | word run =>
    obtain ⟨c, word, rfl⟩ := List.exists_cons_of_ne_nil run.1
    have solid : StepScript.isGap c = false := Bool.eq_false_iff.mpr fun gap =>
      run.2 c List.mem_cons_self (List.mem_append_left _ (mem_blanks_iff.mpr gap))
    rw [List.all_cons, solid, Bool.false_and]

end Condition

namespace Encoded

open StepScript.Text StepScript.Condition

variable {t whole before run gap rest : Text} {last pos : Nat} {lexemes : List (Nat × Lexeme Token)}
  {ps : List Piece} {answer : Kind → Text → Cutting Value}
  {result : Kind → Text → Except Error Value}

/-- What an operand is worth if expressions are worth what `answer` says. -/
def operandValue (answer : Kind → Text → Cutting Value) (raw : Text) : Cutting Value :=
  match Reading.ofOperand raw with
  | .done read => read
  | .call kind inner => answer kind inner

/-- The operand that reaches from the one offset to the other, if there is one. -/
def takeRun (answer : Kind → Text → Cutting Value) (t : Text) :
    Option (Nat × Nat) → Cutting (List Item)
  | none => return []
  | some (start, stop) => do
    let raw ← t.slice? start stop
    let value ← operandValue answer raw
    return [.value value]

/-- The values and operators of the tokens, where a run of operand tokens has reached from the one
offset to the other. -/
def itemsFrom (answer : Kind → Text → Cutting Value) (t : Text) (run? : Option (Nat × Nat)) :
    List (Nat × Lexeme Token) → Cutting (List Item)
  | [] => takeRun answer t run?
  | (_, ⟨.operator op, _⟩) :: more => do
    let operand ← takeRun answer t run?
    let items ← itemsFrom answer t none more
    return operand ++ .operator op :: items
  | (pos, ⟨_, text⟩) :: more =>
    itemsFrom answer t (some ((run?.map Prod.fst).getD pos, pos + text.width)) more

def items (answer : Kind → Text → Cutting Value) (t : Text) : Cutting (List Item) := do
  let tokens ← placedTokens t
  itemsFrom answer t none tokens

/-- The operands among the pieces are worth what they are over characters. -/
def Answered (answer : Kind → Text → Cutting Value) (result : Kind → Text → Except Error Value)
    (ps : List Piece) : Prop :=
  ∀ operand, .operand operand ∈ ps → Piece.isGap (.operand operand) = false →
    (operandValue answer operand).run = some ((Reading.ofOperand operand).result result)

theorem Answered.tail {piece : Piece} (answered : Answered answer result (piece :: ps)) :
    Answered answer result ps :=
  fun operand member => answered operand (List.mem_cons_of_mem _ member)

theorem operandValue_congr {raw other : Text}
    (same : Reading.ofOperand raw = Reading.ofOperand other) :
    operandValue answer raw = operandValue answer other := by
  rw [operandValue, same, operandValue]

theorem Answered.of_lead (answered : Answered answer result (lead gap ps)) (gaps : gap.Gaps) :
    Answered answer result ps := by
  cases ps with
  | nil => exact fun operand member => absurd member List.not_mem_nil
  | cons piece ps =>
    cases piece with
    | operator op => exact answered.tail
    | operand text =>
      have pad := ofOperand_pad gaps .nil text
      rw [List.append_nil] at pad
      intro operand member solid
      rcases List.mem_cons.mp member with same | later
      · cases same
        have answers := answered (gap ++ text) List.mem_cons_self (by rwa [isGap_append gaps])
        rwa [pad, operandValue_congr pad] at answers
      · exact answered operand (List.mem_cons_of_mem _ later) solid

/-- A run of tokens is cut out and evaluated, the gap behind it left out. -/
theorem takeRun_run (answered : Answered answer result (.operand (run ++ gap) :: ps))
    (gaps : gap.Gaps) (solid : run.all StepScript.isGap = false)
    (split : whole = before ++ run ++ rest) :
    (takeRun answer whole (some (before.width, (before ++ run).width))).run =
      some ((fun value => [.value value]) <$> (Reading.ofOperand run).result result) := by
  have kept : Piece.isGap (.operand (run ++ gap)) = false := by
    rw [Piece.isGap, List.all_append, solid, Bool.false_and]
  have pad := ofOperand_pad .nil gaps run
  rw [List.nil_append] at pad
  have answers := answered _ List.mem_cons_self kept
  rw [pad, operandValue_congr pad] at answers
  have cut : whole.slice? before.width (before ++ run).width = some run := by
    rw [split, width_append]
    exact slice?_middle before run rest
  rw [takeRun, Cutting.run_bind_some cut]
  refine (Cutting.run_bind (g := fun value => .ok [Item.value value]) answers
    fun _ _ => rfl).trans ?_
  cases (Reading.ofOperand run).result result <;> rfl

/-- At an operator the run of tokens before it ends. -/
theorem itemsFrom_operator {run? : Option (Nat × Nat)} {held : Except Error (List Item)}
    (taken : (takeRun answer whole run?).run = some held)
    (later : (itemsFrom answer whole none lexemes).run = some (evaluatePieces result ps))
    (pos : Nat) (op : Operator) (word : Text) :
    (itemsFrom answer whole run? ((pos, ⟨.operator op, word⟩) :: lexemes)).run = some (do
      let operand ← held
      let items ← evaluatePieces result (.operator op :: ps)
      return operand ++ items) := by
  refine (Cutting.run_bind (g := fun operand => (operand ++ .operator op :: ·) <$>
    evaluatePieces result ps) taken fun operand _ => ?_).trans ?_
  · refine (Cutting.run_bind (g := fun items => .ok (operand ++ .operator op :: items)) later
      fun _ _ => rfl).trans ?_
    cases evaluatePieces result ps <;> rfl
  · rw [evaluatePieces_operator]
    cases held <;> cases evaluatePieces result ps <;> rfl

/-- The tokens from offset `pos` on are worth what the pieces of the text there are, whether a run
of operand tokens is open or not. Behind an open run there may be a gap. -/
structure Continues (answer : Kind → Text → Cutting Value)
    (result : Kind → Text → Except Error Value) (whole : Text) (pos : Nat) (t : Text)
    (lexemes : List (Nat × Lexeme Token)) : Prop where
  closed : ∀ before : Text, whole = before ++ t → pos = before.width →
    Answered answer result (merge (lexemes.map Prod.snd)) →
    (itemsFrom answer whole none (lexemes.filter (isToken .gap))).run =
      some (evaluatePieces result (merge (lexemes.map Prod.snd)))
  opened : ∀ before run gap : Text, whole = before ++ run ++ (gap ++ t) →
    pos = (before ++ run ++ gap).width → gap.Gaps → run.all StepScript.isGap = false →
    Answered answer result (lead (run ++ gap) (merge (lexemes.map Prod.snd))) →
    (itemsFrom answer whole (some (before.width, (before ++ run).width))
      (lexemes.filter (isToken .gap))).run =
      some (evaluatePieces result (lead (run ++ gap) (merge (lexemes.map Prod.snd))))

namespace Continues

variable {word after : Text}

theorem done (pos : Nat) : Continues answer result whole pos [] [] where
  closed _ _ _ _ := rfl
  opened before run gap split _ gaps solid answered := by
    refine (takeRun_run answered gaps solid split).trans (congrArg some ?_)
    change _ = evaluatePieces result (.operand (run ++ gap) :: [])
    rw [evaluatePieces_operand solid gaps]
    cases (Reading.ofOperand run).result result <;> rfl

theorem of_gap (gaps : word.Gaps)
    (more : Continues answer result whole (pos + word.width) after lexemes) :
    Continues answer result whole pos (word ++ after) ((pos, ⟨.gap, word⟩) :: lexemes) where
  closed before split here answered := by
    have later := more.closed (before ++ word) (by simp [split]) (by rw [here, width_append])
      (answered.of_lead gaps)
    exact later.trans (congrArg some (evaluatePieces_gaps gaps _).symm)
  opened before run gap split here gapsBefore solid answered := by
    have merged : lead (run ++ gap) (merge (⟨.gap, word⟩ :: lexemes.map Prod.snd)) =
        lead (run ++ (gap ++ word)) (merge (lexemes.map Prod.snd)) := by
      rw [← List.append_assoc]
      exact lead_lead _ _ _
    rw [List.map_cons, merged] at answered ⊢
    exact more.opened before run (gap ++ word) (by simp [split])
      (by rw [here, ← List.append_assoc, width_append _ word])
      (List.forall_mem_append.mpr ⟨gapsBefore, gaps⟩) solid answered

theorem of_operator (op : Operator)
    (more : Continues answer result whole (pos + word.width) after lexemes) :
    Continues answer result whole pos (word ++ after) ((pos, ⟨.operator op, word⟩) :: lexemes) where
  closed before split here answered := by
    have later := more.closed (before ++ word) (by simp [split]) (by rw [here, width_append])
      answered.tail
    have none : (takeRun answer whole none).run = some (.ok []) := rfl
    refine (itemsFrom_operator none later pos op word).trans (congrArg some ?_)
    change _ = evaluatePieces result (.operator op :: merge (lexemes.map Prod.snd))
    cases evaluatePieces result (.operator op :: merge (lexemes.map Prod.snd)) <;> rfl
  opened before run gap split here gaps solid answered := by
    have operand := takeRun_run answered gaps solid split
    have later := more.closed (before ++ run ++ gap ++ word) (by simp [split])
      (by rw [here, width_append _ word]) answered.tail.tail
    refine (itemsFrom_operator operand later pos op word).trans (congrArg some ?_)
    refine Eq.trans ?_ (evaluatePieces_operand solid gaps
      (.operator op :: merge (lexemes.map Prod.snd))).symm
    cases (Reading.ofOperand run).result result <;> rfl

/-- A token of an operand opens a run, or goes on with it, the gap between them included. -/
theorem of_operand {kind : Token} (isOperand : kind = .quoted ∨ kind = .word)
    (solid : word.all StepScript.isGap = false)
    (more : Continues answer result whole (pos + word.width) after lexemes) :
    Continues answer result whole pos (word ++ after) ((pos, ⟨kind, word⟩) :: lexemes) := by
  have shown : merge (⟨kind, word⟩ :: lexemes.map Prod.snd) =
      lead word (merge (lexemes.map Prod.snd)) := by
    rcases isOperand with rfl | rfl <;> rfl
  have taken : ∀ run?, itemsFrom answer whole run? (((pos, ⟨kind, word⟩) :: lexemes).filter
      (isToken .gap)) = itemsFrom answer whole (some ((run?.map Prod.fst).getD pos,
        pos + word.width)) (lexemes.filter (isToken .gap)) := by
    rcases isOperand with rfl | rfl <;> exact fun _ => rfl
  constructor
  case closed =>
    intro before split here answered
    rw [List.map_cons, shown] at answered ⊢
    have later := more.opened before word [] (split.trans (List.append_assoc _ _ _).symm)
      (by rw [here, List.append_nil, width_append]) .nil solid (by rwa [List.append_nil])
    rw [List.append_nil, width_append, ← here] at later
    exact (congrArg ExceptT.run (taken none)).trans later
  case opened =>
    intro before run gap split here gaps solidBefore answered
    have merged : lead (run ++ gap) (lead word (merge (lexemes.map Prod.snd))) =
        lead (run ++ gap ++ word ++ []) (merge (lexemes.map Prod.snd)) := by
      rw [List.append_nil]
      exact lead_lead _ _ _
    have stop : pos + word.width = (before ++ (run ++ gap ++ word)).width := by
      rw [here, ← width_append]
      simp
    rw [List.map_cons, shown, merged] at answered ⊢
    have later := more.opened before (run ++ gap ++ word) [] (by simp [split])
      (by rw [List.append_nil, stop]) .nil (by simp [solidBefore]) answered
    rw [← stop] at later
    exact (congrArg ExceptT.run (taken _)).trans later

/-- Every token of a text leads on to the next, one case for each kind. -/
theorem of_cuts (cuts : Cuts Rule last [] pos t lexemes) :
    Continues answer result whole pos t lexemes := by
  induction cuts with
  | done => exact .done _
  | @next pos kind word after lexemes longest _ ih =>
    have rule := longest.rule
    cases kind with
    | gap =>
      cases rule with
      | gap run => exact .of_gap (fun c member => mem_blanks_iff.mp (run.2 c member)) ih
    | operator op => exact .of_operator op ih
    | quoted => exact .of_operand (.inl rfl) (not_gap_of_rule rule (.inl rfl)) ih
    | word => exact .of_operand (.inr rfl) (not_gap_of_rule rule (.inr rfl)) ih

end Continues

theorem items_run (answers : ∀ kind inner, Calls t kind inner →
    (answer kind inner).run = some (result kind inner)) :
    (items answer t).run =
      some (Condition.pieces t >>= List.mapM (Piece.evaluateWith result)) := by
  cases placed : placedTokens t with
  | error e =>
    have failed : scan t = .error e := by
      rw [placedTokens] at placed
      cases scanned : scan t with
      | ok found =>
        rw [scanned] at placed
        cases placed
      | error reason =>
        rw [scanned] at placed
        cases placed
        rfl
    rw [items, placed, pieces, failed]
    rfl
  | ok tokens =>
    obtain ⟨last, lexemes, cuts, rfl⟩ := cutInto_iff.mpr placed
    have merged : Condition.pieces t =
        .ok ((merge (lexemes.map Prod.snd)).filter fun p => !p.isGap) := by
      obtain ⟨scannedLexemes, scanned, same⟩ := Error.ok_of_map (reads_of_cuts cuts 0)
      rw [pieces, scan, scanned, ← same]
      rfl
    have answered : Answered answer result (merge (lexemes.map Prod.snd)) := by
      intro operand member solid
      rw [operandValue]
      cases read : Reading.ofOperand operand with
      | done read => rfl
      | call kind inner =>
        refine answers kind inner ⟨_, operand, merged, ?_, read⟩
        exact List.mem_filter.mpr ⟨member, by simp [solid]⟩
    rw [items, placed, merged]
    exact (Continues.of_cuts cuts).closed [] rfl rfl answered

end Encoded
end StepScript
