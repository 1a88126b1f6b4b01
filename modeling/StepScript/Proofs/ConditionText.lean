import StepScript.Proofs.IntExpressions

/-! Conditions without groups, as text. Operands are strung together by operators; each operand is
read as one piece, gaps around it included, and what the whole text is worth depends only on what
the operands are worth. An operand or a comparison without a value leaves the text without one,
wherever it stands. -/
namespace StepScript

theorem Error.toOption_ok {α : Type} (a : α) : (Except.ok a : Except Error α).toOption = some a :=
  rfl

theorem Error.toOption_eq_some {α : Type} {x : Except Error α} {a : α} :
    x.toOption = some a ↔ x = .ok a := by
  cases x <;> simp [Except.toOption]

theorem Error.toOption_map {α β : Type} (f : α → β) (x : Except Error α) :
    (f <$> x).toOption = x.toOption.map f := by
  cases x <;> rfl

theorem Error.toOption_bind {α β : Type} (x : Except Error α) (f : α → Except Error β) :
    (x >>= f).toOption = x.toOption.bind fun a => (f a).toOption := by
  cases x <;> rfl

namespace Condition

section Scanning

variable {t u rest : Text} {ps : List Piece}

/-- Puts the text in front of the operand that the pieces start with, or before them as a new
operand. -/
def lead (t : Text) : List Piece → List Piece
  | .operand text :: more => .operand (t ++ text) :: more
  | more => .operand t :: more

/-- No operand stands in front. -/
def Starts (ps : List Piece) : Prop :=
  ∀ piece ∈ ps.head?, ∃ op, piece = .operator op

theorem lead_of_starts (starts : Starts ps) (t : Text) : lead t ps = .operand t :: ps := by
  cases ps with
  | nil => rfl
  | cons piece ps =>
    obtain ⟨op, rfl⟩ := starts piece rfl
    rfl

theorem lead_lead (t u : Text) (ps : List Piece) : lead t (lead u ps) = lead (t ++ u) ps := by
  cases ps with
  | nil => rfl
  | cons piece ps =>
    cases piece with
    | operand text => simp [lead]
    | operator op => rfl

theorem merge_consWord (c : Char) (lexemes : List (Lexeme Token)) :
    merge (consWord c lexemes) = lead [c] (merge lexemes) := by
  cases lexemes with
  | nil => rfl
  | cons lexeme more =>
    obtain ⟨kind, text⟩ := lexeme
    cases kind with
    | operator | quoted | gap => rfl
    | word => exact (lead_lead [c] text (merge more)).symm

/-- The text is read as these pieces, wherever it stands. -/
def Reads (t : Text) (ps : List Piece) : Prop :=
  ∀ pos, merge <$> scanFrom pos none t = .ok ps

/-- The text is read as part of one operand, together with what stands next to it. -/
def Lexes (t : Text) : Prop :=
  ∀ rest ps, Reads rest ps → Reads (t ++ rest) (lead t ps)

theorem Lexes.append (left : Lexes t) (right : Lexes u) : Lexes (t ++ u) := by
  intro rest ps reads
  rw [← lead_lead, List.append_assoc]
  exact left _ _ (right rest ps reads)

/-- Lexemes put in front of those of a text, and the pieces that come of it. -/
theorem Reads.map {f : List (Lexeme Token) → List (Lexeme Token)} {g : List Piece → List Piece}
    (merged : ∀ lexemes, merge (f lexemes) = g (merge lexemes)) (reads : Reads rest ps)
    (pos : Nat) : merge <$> f <$> scanFrom pos none rest = .ok (g ps) := by
  have tail := reads pos
  cases scanned : scanFrom pos none rest with
  | error e =>
    rw [scanned] at tail
    cases tail
  | ok lexemes =>
    rw [scanned] at tail
    cases tail
    exact congrArg Except.ok (merged lexemes)

theorem lexes_word {c : Char} (word : isWordChar c = true) : Lexes [c] := by
  intro rest ps reads pos
  rw [List.singleton_append, scanFrom_alone fun d _ => ofPair?_of_isWordChar word d,
    scanOne_of_isWordChar word]
  exact reads.map (merge_consWord c) _

theorem scanFrom_gap {c : Char} (gap : isGap c = true) (pos : Nat) (t : Text) :
    scanFrom pos none (c :: t) = (⟨.gap, [c]⟩ :: ·) <$> scanFrom (pos + c.utf8Size) none t := by
  have alone : ∀ d, Operator.ofPair? c d = none := by
    simp only [isGap, Bool.or_eq_true, beq_iff_eq] at gap
    rcases gap with ((rfl | rfl) | rfl) | rfl <;> simp [Operator.ofPair?]
  rw [scanFrom_alone fun d _ => alone d, scanOne, if_pos gap]

theorem lexes_gap {c : Char} (gap : isGap c = true) : Lexes [c] := by
  intro rest ps reads pos
  rw [List.singleton_append, scanFrom_gap gap]
  exact reads.map (fun _ => rfl) _

theorem lexes_chars (chars : ∀ c ∈ t, isWordChar c = true ∨ isGap c = true) (nonempty : t ≠ []) :
    Lexes t := by
  induction t with
  | nil => exact absurd rfl nonempty
  | cons c t ih =>
    have here : Lexes [c] := (chars c List.mem_cons_self).elim lexes_word lexes_gap
    cases t with
    | nil => exact here
    | cons d t =>
      exact here.append (ih (fun e member => chars e (List.mem_cons_of_mem _ member)) (by simp))

theorem Lexes.pad {before after : Text} (lexes : Lexes t) (gapsBefore : before.Gaps)
    (gapsAfter : after.Gaps) : Lexes (before ++ t ++ after) := by
  have start : Lexes (before ++ t) := by
    induction before with
    | nil => exact lexes
    | cons c before ih =>
      exact (lexes_gap (gapsBefore c List.mem_cons_self)).append
        (ih fun d member => gapsBefore d (List.mem_cons_of_mem _ member))
  generalize before ++ t = u at start
  induction after generalizing u with
  | nil => rwa [List.append_nil]
  | cons c after ih =>
    have next := start.append (lexes_gap (gapsAfter c List.mem_cons_self))
    rw [show u ++ c :: after = u ++ [c] ++ after by simp]
    exact ih (fun d member => gapsAfter d (List.mem_cons_of_mem _ member)) _ next

theorem lexes_quoted {s : Text} (free : '"' ∉ s) : Lexes ('"' :: s ++ ['"']) := by
  intro rest ps reads pos
  rw [scanFrom_quoted free]
  exact reads.map (fun _ => rfl) _

def Operator.symbol : Operator → Text
  | .logical .and => ['&', '&']
  | .logical .or => ['|', '|']
  | .comparison op => op.symbol

/-- An operator is read for itself. A `<` or `>` needs something other than `=` behind it. -/
theorem scanFrom_operator (op : Operator)
    (head : op.symbol.length = 1 → ∀ c ∈ rest.head?, c ≠ '=') (pos : Nat) :
    scanFrom pos none (op.symbol ++ rest) =
      (⟨.operator op, op.symbol⟩ :: ·) <$> scanFrom (pos + op.symbol.width) none rest := by
  have pair : ∀ c d, Operator.ofPair? c d = some op →
      scanFrom pos none (c :: d :: rest) =
        (⟨.operator op, [c, d]⟩ :: ·) <$> scanFrom (pos + Text.width [c, d]) none rest := by
    intro c d found
    rw [scanFrom, found, Text.width, Text.width, Text.width, Nat.add_zero, Nat.add_assoc]
  have single : ∀ c, (∀ d, d ≠ '=' → Operator.ofPair? c d = none) → isGap c = false → c ≠ '"' →
      isStray c = false → Operator.ofChar? c = some op → (∀ c ∈ rest.head?, c ≠ '=') →
      scanFrom pos none (c :: rest) =
        (⟨.operator op, [c]⟩ :: ·) <$> scanFrom (pos + Text.width [c]) none rest := by
    intro c alone gap quote stray found head
    rw [scanFrom_alone fun d member => alone d (head d member)]
    simp [scanOne, gap, quote, stray, found, Text.width]
  cases op with
  | logical op =>
    cases op with
    | and => exact pair '&' '&' rfl
    | or => exact pair '|' '|' rfl
  | comparison op =>
    cases op with
    | eq => exact pair '=' '=' rfl
    | ne => exact pair '!' '=' rfl
    | le => exact pair '<' '=' rfl
    | ge => exact pair '>' '=' rfl
    | lt => exact single '<' (by simp [Operator.ofPair?]) rfl (by decide) rfl rfl (head rfl)
    | gt => exact single '>' (by simp [Operator.ofPair?]) rfl (by decide) rfl rfl (head rfl)

theorem Reads.operator (op : Operator) (head : ∀ c ∈ rest.head?, c ≠ '=') (reads : Reads rest ps) :
    Reads (op.symbol ++ rest) (.operator op :: ps) := by
  intro pos
  rw [scanFrom_operator op fun _ => head]
  exact reads.map (fun _ => rfl) _

end Scanning
section Stringing

variable {t u before after : Text} {value first next : Option Value}
  {more rest : List (Operator × Option Value)} {ps qs : List Piece}

/-- An operand as it stands in a condition, gaps around it included, and what it is worth. -/
structure Operand (t : Text) (value : Option Value) : Prop where
  lexes : Lexes t
  seen : t.all StepScript.isGap = false
  begins : ∃ c rest, t = c :: rest ∧ c ≠ '='
  paired : t.Paired
  worth : (operandValue t).toOption = value

theorem Operand.pad (operand : Operand t value) (gapsBefore : before.Gaps)
    (gapsAfter : after.Gaps) : Operand (before ++ t ++ after) value where
  lexes := operand.lexes.pad gapsBefore gapsAfter
  seen := by simp [operand.seen]
  begins := by
    obtain ⟨c, rest, rfl, other⟩ := operand.begins
    cases before with
    | nil => exact ⟨c, rest ++ after, rfl, other⟩
    | cons d before =>
      refine ⟨d, before ++ (c :: rest) ++ after, rfl, ?_⟩
      rintro rfl
      cases gapsBefore '=' List.mem_cons_self
  paired := by
    have inside : Quoted.after false t = false := operand.paired
    have left : Quoted.after false before = false := gapsBefore.flat.paired
    have right : Quoted.after false after = false := gapsAfter.flat.paired
    rw [Text.Paired, Quoted.after_append, Quoted.after_append, left, inside, right]
  worth := by
    rw [← operand.worth, operandValue, operandValue, Text.trim_pad gapsBefore.blank gapsAfter.blank]

/-- Operands with operators between them, and what the operands are worth. -/
inductive Strung : Text → Option Value → List (Operator × Option Value) → Prop where
  | operand {t : Text} {value : Option Value} (operand : Operand t value) : Strung t value []
  | join (op : Operator) {t u : Text} {first next : Option Value}
      {more rest : List (Operator × Option Value)} (left : Strung t first more)
      (right : Strung u next rest) : Strung (t ++ op.symbol ++ u) first (more ++ (op, next) :: rest)

theorem Strung.pad (strung : Strung t first more) (gapsBefore : before.Gaps)
    (gapsAfter : after.Gaps) : Strung (before ++ t ++ after) first more := by
  induction strung generalizing before after with
  | operand operand => exact .operand (operand.pad gapsBefore gapsAfter)
  | join op left right ihLeft ihRight =>
    have joined := Strung.join op (ihLeft gapsBefore .nil) (ihRight .nil gapsAfter)
    simpa using joined

theorem Strung.begins (strung : Strung t first more) : ∃ c rest, t = c :: rest ∧ c ≠ '=' := by
  induction strung with
  | operand operand => exact operand.begins
  | @join op _ u _ _ _ _ _ _ ihLeft _ =>
    obtain ⟨c, rest, rfl, other⟩ := ihLeft
    exact ⟨c, rest ++ op.symbol ++ u, by simp, other⟩

theorem Operator.after_symbol (op : Operator) : Quoted.after false op.symbol = false := by
  match op with
  | .logical .and | .logical .or => rfl
  | .comparison .eq | .comparison .ne | .comparison .le => rfl
  | .comparison .ge | .comparison .lt | .comparison .gt => rfl

theorem Strung.paired (strung : Strung t first more) : t.Paired := by
  induction strung with
  | operand operand => exact operand.paired
  | @join op t u _ _ _ _ _ _ ihLeft ihRight =>
    have left : Quoted.after false t = false := ihLeft
    rw [Text.Paired, Quoted.after_append, Quoted.after_append, left, op.after_symbol]
    exact ihRight

/-- Pieces that are operands and operators by turns, and what the operands are worth. -/
inductive Alternates : List Piece → Option Value → List (Operator × Option Value) → Prop where
  | last {t : Text} {value : Option Value} (operand : Operand t value) :
      Alternates [.operand t] value []
  | cons {t : Text} {value next : Option Value} {ps : List Piece}
      {rest : List (Operator × Option Value)} (operand : Operand t value) (op : Operator)
      (more : Alternates ps next rest) :
      Alternates (.operand t :: .operator op :: ps) value ((op, next) :: rest)

theorem Alternates.append (left : Alternates ps first more) (op : Operator)
    (right : Alternates qs next rest) :
    Alternates (ps ++ .operator op :: qs) first (more ++ (op, next) :: rest) := by
  induction left with
  | last operand => exact .cons operand op right
  | cons operand op _ ih => exact .cons operand op ih

/-- A text of operands and operators is read as these, by turns. -/
theorem Strung.reads (strung : Strung t first more) :
    ∃ ps, Alternates ps first more ∧
      ∀ rest qs, Reads rest qs → Starts qs → Reads (t ++ rest) (ps ++ qs) := by
  induction strung with
  | @operand t _ operand =>
    refine ⟨[.operand t], .last operand, ?_⟩
    intro rest qs reads starts
    have read := operand.lexes rest qs reads
    rwa [lead_of_starts starts] at read
  | @join op t u _ _ _ _ _ right ihLeft ihRight =>
    obtain ⟨ps, alternates, readLeft⟩ := ihLeft
    obtain ⟨qs, alternatesRight, readRight⟩ := ihRight
    refine ⟨ps ++ .operator op :: qs, alternates.append op alternatesRight, ?_⟩
    intro rest rs reads starts
    have head : ∀ c ∈ (u ++ rest).head?, c ≠ '=' := by
      obtain ⟨c, tail, rfl, other⟩ := right.begins
      rintro d ⟨⟩
      exact other
    have operator := (readRight rest rs reads starts).operator op head
    have read := readLeft _ _ operator (by rintro _ ⟨⟩; exact ⟨op, rfl⟩)
    simpa using read

theorem Alternates.filter (alternates : Alternates ps first more) :
    ps.filter (fun piece => !piece.isGap) = ps := by
  induction alternates with
  | last operand => simp [Piece.isGap, operand.seen]
  | @cons t _ _ ps _ operand op _ ih =>
    rw [List.filter_cons_of_pos (by simp [Piece.isGap, operand.seen]),
      List.filter_cons_of_pos rfl, ih]

theorem Strung.pieces (strung : Strung t first more) :
    ∃ ps, Alternates ps first more ∧ Condition.pieces t = .ok ps := by
  obtain ⟨ps, alternates, read⟩ := strung.reads
  have whole := read [] [] (fun _ => rfl) (by simp [Starts]) 0
  rw [List.append_nil, List.append_nil] at whole
  refine ⟨ps, alternates, ?_⟩
  rw [Condition.pieces, scan]
  cases scanned : scanFrom 0 none t with
  | error e =>
    rw [scanned] at whole
    cases whole
  | ok lexemes =>
    rw [scanned] at whole
    cases whole
    exact congrArg Except.ok alternates.filter

/-- The values behind the operators, if all of them are there. -/
def values? : List (Operator × Option Value) → Option (List (Operator × Value))
  | [] => some []
  | (op, value) :: more => do
    let v ← value
    let vs ← values? more
    return (op, v) :: vs

/-- Values and operators in the order in which they stand. -/
def items (first : Value) : List (Operator × Value) → List Item
  | [] => [.value first]
  | (op, next) :: more => .value first :: .operator op :: items next more

theorem chain?_items (first : Value) (more : List (Operator × Value)) :
    chain? (items first more) = some (first, more) := by
  induction more generalizing first with
  | nil => rfl
  | cons entry more ih =>
    obtain ⟨op, next⟩ := entry
    rw [items, chain?, ih]
    rfl

theorem Alternates.mapM (alternates : Alternates ps first more) :
    (ps.mapM Piece.evaluate).toOption = do
      let v ← first
      let vs ← values? more
      return items v vs := by
  induction alternates with
  | @last t value operand =>
    simp [Piece.evaluate, Error.toOption_map, operand.worth, values?, items, Option.map_eq_bind]
  | @cons t value next ps rest operand op _ ih =>
    simp [Piece.evaluate, Error.toOption_ok, Error.toOption_map, Error.toOption_bind,
      operand.worth, ih, values?, items, Option.bind_assoc]

/-- What comes of folding the values behind `first`, if all of them are there. -/
def outcome (any all : Bool) (first : Option Value) (more : List (Operator × Option Value)) :
    Option Bool := do
  let v ← first
  let vs ← values? more
  (fold any all v vs).toOption

/-- A text of operands and operators is worth what its operands come to. -/
theorem Strung.evaluate (strung : Strung t first more) :
    (Condition.evaluate t).toOption = outcome false true first more := by
  obtain ⟨ps, alternates, read⟩ := strung.pieces
  have mapped := alternates.mapM
  simp [Condition.evaluate, read, Error.toOption_ok, Error.toOption_bind, mapped, outcome,
    chain?_items, Option.bind_assoc]

end Stringing

section Operands

open Decimal

variable {t : Text}

theorem plain_of_sameWord {word : Text} (letters : word.all isNameChar = true)
    (same : t.sameWord word = true) : ∀ c ∈ t, isPlain c = true := by
  intro c member
  have lower : c.toLower ∈ word.lower := by
    rw [← beq_iff_eq.mp same]
    exact List.mem_map_of_mem member
  obtain ⟨d, inWord, same⟩ := List.mem_map.mp lower
  have name := List.all_eq_true.mp letters d inWord
  rw [← isNameChar_toLower, same, isNameChar_toLower] at name
  exact isPlain_of_isNameChar name

theorem plain_of_readBool? {b : Bool} (reads : readBool? t = some b) :
    t ≠ [] ∧ ∀ c ∈ t, isPlain c = true := by
  have word : t.sameWord "true".toList = true ∨ t.sameWord "false".toList = true := by
    rw [readBool?] at reads
    split at reads
    · rename_i same
      exact .inl same
    · split at reads
      · rename_i same
        exact .inr same
      · cases reads
  constructor
  · rintro rfl
    rcases word with same | same
    · cases same
    · cases same
  · rcases word with same | same
    · exact plain_of_sameWord rfl same
    · exact plain_of_sameWord rfl same

theorem flat_of_readBool? {b : Bool} (reads : readBool? t = some b) : Group.Flat t := by
  obtain ⟨_, plain⟩ := plain_of_readBool? reads
  exact Group.flat_of_free fun c member =>
    ⟨ne_of_isPlain (plain c member) rfl, ne_of_isPlain (plain c member) rfl,
      ne_of_isPlain (plain c member) rfl⟩

theorem bare_of_readBool? {b : Bool} (reads : readBool? t = some b) : t.Bare := by
  obtain ⟨nonempty, plain⟩ := plain_of_readBool? reads
  exact @Arithmetic.bare_signed false t plain nonempty

/-- A text without quotes and operators is read as one operand. -/
theorem operand_unquoted (bare : t.Bare)
    (chars : ∀ c ∈ t, isWordChar c = true ∨ StepScript.isGap c = true) :
    Operand t (operandValue t).toOption := by
  have absent : ∀ c, isWordChar c = false → StepScript.isGap c = false → c ∉ t := by
    intro c word gap member
    rcases chars c member with found | found
    · rw [word] at found
      cases found
    · rw [gap] at found
      cases found
  obtain ⟨c, rest, rfl, blank⟩ := bare.first
  refine ⟨lexes_chars chars (List.cons_ne_nil c rest), ?_, ⟨c, rest, rfl, ?_⟩, ?_, rfl⟩
  · have solid : StepScript.isGap c = false := by
      cases gap : StepScript.isGap c with
      | false => rfl
      | true =>
        rw [isBlank_of_isGap gap] at blank
        cases blank
    rw [List.all_cons, solid, Bool.false_and]
  · rintro rfl
    exact absent '=' rfl rfl List.mem_cons_self
  · exact Quoted.after_of_free (absent '"' rfl rfl)

theorem operand_bool {b : Bool} (reads : readBool? t = some b) : Operand t (some (.bool b)) := by
  obtain ⟨_, plain⟩ := plain_of_readBool? reads
  have operand := operand_unquoted (bare_of_readBool? reads) fun c member =>
    .inl (isWordChar_of_isPlain (plain c member))
  have worth : operandValue t = .ok (.bool b) := by
    refine operandValue_of_read (trim_of_plain plain) (not_mem_of_plain plain rfl) ?_
    rw [reads]
    rfl
  rwa [worth] at operand

theorem operand_quoted {s : Text} (free : '"' ∉ s) :
    Operand ('"' :: s ++ ['"']) (some (.string s)) where
  lexes := lexes_quoted free
  seen := rfl
  begins := ⟨'"', s ++ ['"'], rfl, by decide⟩
  paired := Quoted.after_literal free false
  worth := by
    rw [show '"' :: s ++ ['"'] = (Value.string s).literal from rfl,
      Value.operandValue_literal (v := .string s) free]
    rfl

/-- A numeral with more behind it is no number, neither an Int nor a Double. -/
theorem read_numeral_append {c : Char} (arithmetic : Arithmetic.isArithmetic c = true)
    (digit : c.isDigit = false) (n : Int64) (rest : Text) :
    readBool? (renderInt n ++ c :: rest) = none ∧ readInt? (renderInt n ++ c :: rest) = none ∧
      Double.read? (renderInt n ++ c :: rest) = none := by
  have digits : ∀ d ∈ Nat.toDigits 10 n.toInt.natAbs, d.isDigit = true := fun _ member =>
    isDigit_toDigits member
  have shape : renderInt n ++ c :: rest =
      signed (decide (n.toInt < 0)) (Nat.toDigits 10 n.toInt.natAbs ++ c :: rest) := by
    rw [renderInt, renderInteger_eq]
    cases decide (n.toInt < 0) <;> rfl
  have stops : ∀ d ∈ (c :: rest).head?, d.isDigit = false := by
    rintro d ⟨⟩
    exact digit
  have cut := takeWhile_digits digits stops
  obtain ⟨d, more, spelled⟩ :=
    List.exists_cons_of_ne_nil (Nat.toDigits_ne_nil (b := 10) (n := n.toInt.natAbs))
  rw [spelled] at digits cut shape
  have first : d.isDigit = true := digits d List.mem_cons_self
  rw [shape, List.cons_append]
  rw [List.cons_append] at cut
  have differs : ∀ e, Arithmetic.isArithmetic e = false → c ≠ e := by
    rintro e other rfl
    rw [arithmetic] at other
    cases other
  refine ⟨readBool?_signed _ _ (letter_of_isDigit first), ?_, ?_⟩
  · have refused : isNumeral (d :: (more ++ c :: rest)) = false := by
      simp [isNumeral, digit]
    simp [readInt?, readInteger?, splitSign_signed _ (unsigned_of_isDigit first), refused]
  · have refused : Decimal.read? (d :: (more ++ c :: rest)) = none := by
      have point : c ≠ '.' := differs '.' rfl
      have exponent : c ≠ 'e' ∧ c ≠ 'E' := ⟨differs 'e' rfl, differs 'E' rfl⟩
      simp [Decimal.read?, cut, point, readExponent?, exponent]
    rw [Double.read?_of_digit first, refused]
    rfl

theorem readBool?_spelled {first : Int64} {more : List (Arithmetic.Operator × Int64)}
    (spelled : Arithmetic.Spelled Arithmetic.Numeral t first more) : readBool? t = none := by
  rcases spelled.begins with ⟨rfl, _⟩ | ⟨c, rest, rfl, arithmetic, digit, _⟩
  · obtain ⟨d, rest, digits⟩ :=
      List.exists_cons_of_ne_nil (Nat.toDigits_ne_nil (b := 10) (n := first.toInt.natAbs))
    have digit : d.isDigit = true := isDigit_toDigits (n := first.toInt.natAbs) (by simp [digits])
    rw [renderInt, renderInteger_eq, digits]
    exact readBool?_signed _ rest (letter_of_isDigit digit)
  · exact (read_numeral_append arithmetic digit first rest).1

/-- A chain of numbers is worth its fold, as an operand too. -/
theorem operandValue_spelled {first : Int64} {more : List (Arithmetic.Operator × Int64)}
    (spelled : Arithmetic.Spelled Arithmetic.Numeral t first more) :
    operandValue t = .int <$> Arithmetic.fold Arithmetic.ints first more := by
  have trimmed : t.trim = t := (spelled.bare fun _ _ numeral => numeral.bare).trim
  have unquoted : '"' ∉ t := spelled.not_mem rfl
  rcases spelled.begins with ⟨rfl, rfl⟩ | ⟨c, rest, shape, arithmetic, digit, operator⟩
  · exact Value.operandValue_literal (v := .int first) trivial
  · obtain ⟨noBool, noInt, noDouble⟩ := read_numeral_append arithmetic digit first rest
    rw [← shape] at noBool noInt noDouble
    have kind : arithmeticKind t = .int := by
      simp [arithmeticKind, spelled.not_mem (show Arithmetic.isArithmetic '.' = false from rfl)]
    simp only [operandValue, trimmed, List.contains_eq_mem, unquoted, noBool, noInt, noDouble, kind]
    simp [operator, evaluateArithmetic, spelled.evaluate]

theorem operand_spelled {first : Int64} {more : List (Arithmetic.Operator × Int64)}
    (spelled : Arithmetic.Spelled Arithmetic.Numeral t first more) :
    Operand t ((Arithmetic.fold Arithmetic.ints first more).toOption.map .int) := by
  have chars : ∀ c ∈ t, isWordChar c = true ∨ StepScript.isGap c = true := by
    intro c member
    have arithmetic := spelled.chars c member
    simp only [Arithmetic.isArithmetic, Bool.or_eq_true] at arithmetic
    rcases arithmetic with (digit | gap) | operator
    · exact .inl (isWordChar_of_isPlain (isPlain_of_isDigit digit))
    · exact .inr gap
    · obtain ⟨op, found⟩ := Option.isSome_iff_exists.mp operator
      obtain rfl := Arithmetic.Operator.eq_symbol_of_ofChar? found
      cases op <;> exact .inl rfl
  have operand := operand_unquoted (spelled.bare fun _ _ numeral => numeral.bare) chars
  rwa [operandValue_spelled spelled, Error.toOption_map] at operand

end Operands

end Condition
end StepScript
