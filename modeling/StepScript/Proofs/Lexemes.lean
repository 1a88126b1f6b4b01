import StepScript.Proofs.LongestMatch
import StepScript.Proofs.Operands
import StepScript.Proofs.StringExpressions

/-! The lexemes of arithmetic and of conditions. Both scans cut a text by longest match: arithmetic
always to its end, a condition as far as there is neither a literal without an end nor an operator
that there is not. The literals of a condition are those of the text. -/
namespace StepScript

section Runs

variable {chars : Char → Prop} {u v : Text}

/-- One character or more, all of one class. -/
def Run (chars : Char → Prop) (word : Text) : Prop :=
  word ≠ [] ∧ ∀ c ∈ word, chars c

theorem Run.append (left : Run chars u) (right : Run chars v) : Run chars (u ++ v) :=
  ⟨List.append_ne_nil_of_left_ne_nil left.1 v, List.forall_mem_append.mpr ⟨left.2, right.2⟩⟩

theorem run_singleton {c : Char} : Run chars [c] ↔ chars c := by
  simp [Run]

theorem mem_blanks_iff {c : Char} : c ∈ blanks ↔ isGap c = true := by
  simp [blanks, isGap, or_assoc]

end Runs

namespace Arithmetic

variable {t word after : Text} {pos last : Nat} {kind : Token}
  {lexemes tokens : List (Nat × Lexeme Token)}

/-- The lexemes of arithmetic. -/
inductive Rule : Token → Text → Prop where
  | gap {word : Text} (run : Run (· ∈ blanks) word) : Rule .gap word
  | operator (op : Operator) : Rule (.operator op) [op.symbol]
  | operand {word : Text} (run : Run (· ∉ blanks ++ ['+', '-', '*', '/']) word) :
      Rule .operand word

theorem isSolid_iff {c : Char} : isSolid c = true ↔ c ∉ blanks ++ ['+', '-', '*', '/'] := by
  simp only [isSolid, Bool.and_eq_true, Bool.not_eq_true', Option.isNone_iff_eq_none,
    List.mem_append, not_or, mem_blanks_iff, Bool.not_eq_true]
  refine and_congr_right fun _ => ?_
  unfold Operator.ofChar?
  split_ifs <;> simp_all

theorem stuck_iff : Stuck Rule t ↔ t = [] := by
  constructor
  · intro stuck
    cases t with
    | nil => rfl
    | cons c t =>
      have none : ∀ kind, ¬ Rule kind [c] := fun kind rule =>
        absurd (stuck kind [c] rule ⟨t, rfl⟩) (List.cons_ne_nil c [])
      by_cases gap : isGap c = true
      · exact absurd (.gap (run_singleton.mpr (mem_blanks_iff.mpr gap))) (none .gap)
      · cases found : Operator.ofChar? c with
        | some op =>
          obtain rfl := Operator.eq_symbol_of_ofChar? found
          exact absurd (.operator op) (none (.operator op))
        | none =>
          have solid : isSolid c = true := by simp [isSolid, gap, found]
          exact absurd (.operand (run_singleton.mpr (isSolid_iff.mp solid))) (none .operand)
  · rintro rfl kind word _ starts
    exact List.prefix_nil.mp starts

/-- The tokens of a text that starts at offset `pos`. -/
def placedFrom (pos : Nat) (t : Text) : List (Nat × Lexeme Token) :=
  (Lexeme.place pos (scan t)).filter (isToken .gap)

theorem placedFrom_gaps (gaps : ∀ c ∈ word, isGap c = true) (pos : Nat) (after : Text) :
    placedFrom pos (word ++ after) = placedFrom (pos + word.width) after := by
  induction word generalizing pos with
  | nil => rfl
  | cons c word ih =>
    obtain ⟨here, later⟩ := List.forall_mem_cons.mp gaps
    rw [Text.width, ← Nat.add_assoc, ← ih later, List.cons_append, placedFrom, scan, if_pos here]
    rfl

/-- The longest lexeme is what the scan takes. -/
theorem placedFrom_append (longest : Longest Rule kind word after) (pos : Nat) :
    placedFrom pos (word ++ after) =
      [(pos, ⟨kind, word⟩)].filter (isToken .gap) ++ placedFrom (pos + word.width) after := by
  cases longest.rule with
  | gap run => exact placedFrom_gaps (fun c member => mem_blanks_iff.mp (run.2 c member)) pos after
  | operator op =>
    have scanned : scan ([op.symbol] ++ after) = ⟨.operator op, [op.symbol]⟩ :: scan after := by
      simp [scan, op.isGap_symbol, op.ofChar?_symbol]
    rw [placedFrom, scanned]
    rfl
  | operand run =>
    have solid : ∀ c ∈ word, isSolid c = true := fun c member => isSolid_iff.mpr (run.2 c member)
    have separates : Separates after := by
      intro c next
      by_contra other
      simp only [not_or, Bool.not_eq_true, Option.isSome_eq_false_iff] at other
      have more : isSolid c = true := by simp [isSolid, other]
      exact longest.stops next .operand
        (.operand (run.append (run_singleton.mpr (isSolid_iff.mp more))))
    rw [placedFrom, scan_solid solid run.1 separates]
    rfl

theorem placedFrom_of_cuts (cuts : Cuts Rule last [] pos t lexemes) :
    placedFrom pos t = lexemes.filter (isToken .gap) := by
  induction cuts with
  | done => rfl
  | @next pos kind word after lexemes longest _ ih =>
    rw [placedFrom_append longest, ih, ← List.filter_append]
    rfl

/-- Longest match cuts every text to its end, into the tokens that the scan finds. -/
theorem cutInto_iff : CutInto Rule .gap t tokens ↔ tokens = placedTokens t := by
  have found : ∀ last lexemes, Cuts Rule last [] 0 t lexemes →
      placedTokens t = lexemes.filter (isToken .gap) := fun _ _ cuts => placedFrom_of_cuts cuts
  constructor
  · rintro ⟨last, lexemes, cuts, rfl⟩
    exact (found last lexemes cuts).symm
  · rintro rfl
    obtain ⟨last, rest, lexemes, cuts, stuck⟩ := exists_cuts Rule 0 t
    obtain rfl := stuck_iff.mp stuck
    exact ⟨last, lexemes, cuts, found last lexemes cuts⟩

theorem tokens_placedTokens (t : Text) : Tokens t .operand (placedTokens t) := by
  refine (cutInto_iff.mpr rfl).tokens ?_ ?_
  · rintro word ⟨run⟩
    exact run.2
  · intro u v left right
    cases left with
    | operand left =>
      cases right with
      | operand right => exact .operand (left.append right)

end Arithmetic

namespace Condition

variable {t word after rest : Text} {c : Char} {pos last : Nat} {kind : Token}
  {lexemes tokens : List (Nat × Lexeme Token)}

/-- The lexemes of conditions. -/
inductive Rule : Token → Text → Prop where
  | gap {word : Text} (run : Run (· ∈ blanks) word) : Rule .gap word
  | operator (op : Operator) : Rule (.operator op) op.symbol
  | quoted {s : Text} (free : '"' ∉ s) : Rule .quoted ('"' :: s ++ ['"'])
  | word {word : Text} (run : Run (· ∉ blanks ++ ['"', '&', '|', '=', '!', '<', '>']) word) :
      Rule .word word

theorem isWordChar_iff :
    isWordChar c = true ↔ c ∉ blanks ++ ['"', '&', '|', '=', '!', '<', '>'] := by
  simp only [isWordChar, isStray, Bool.and_eq_true, Bool.not_eq_true', Option.isNone_iff_eq_none,
    List.mem_append, not_or, mem_blanks_iff, Bool.not_eq_true, and_assoc]
  refine and_congr_right fun _ => ?_
  unfold Operator.ofChar?
  split_ifs <;> simp_all [and_assoc]

section Faults

theorem Operator.symbol_of_ofPair? {d : Char} {op : Operator} (found : ofPair? c d = some op) :
    op.symbol = [c, d] := by
  unfold ofPair? at found
  split_ifs at found <;> cases found <;> simp_all [symbol, Comparison.symbol]

theorem Operator.symbol_of_ofChar? {op : Operator} (found : ofChar? c = some op) :
    op.symbol = [c] := by
  unfold ofChar? at found
  split_ifs at found <;> cases found <;> simp_all [symbol, Comparison.symbol]

theorem Operator.symbol_ne_nil (op : Operator) : op.symbol ≠ [] := by
  match op with
  | .logical .and | .logical .or => exact List.cons_ne_nil _ _
  | .comparison .eq | .comparison .ne | .comparison .le => exact List.cons_ne_nil _ _
  | .comparison .ge | .comparison .lt | .comparison .gt => exact List.cons_ne_nil _ _

/-- What is wrong at a character where no lexeme fits: a literal without an end, or an operator that
there is not. -/
def fault (pos : Nat) (c : Char) : Error :=
  if c = '"' then .unterminatedString (pos + 1) else .unsupportedOperator [c]

theorem not_mem_of_stuck (stuck : Stuck Rule ('"' :: rest)) : '"' ∉ rest := by
  intro quote
  obtain ⟨s, behind, rfl, free⟩ := List.eq_append_cons_of_mem quote
  exact absurd (stuck _ _ (.quoted free) ⟨behind, by simp⟩) (List.cons_ne_nil _ _)

/-- Where no lexeme fits, the scan fails. -/
theorem scanFrom_stuck (stuck : Stuck Rule (c :: rest)) (pos : Nat) :
    scanFrom pos none (c :: rest) = .error (fault pos c) := by
  have none : ∀ kind, ¬ Rule kind [c] := fun kind rule =>
    absurd (stuck kind [c] rule ⟨rest, rfl⟩) (List.cons_ne_nil c [])
  have gap : isGap c = false := Bool.eq_false_iff.mpr fun gap =>
    none .gap (.gap (run_singleton.mpr (mem_blanks_iff.mpr gap)))
  have single : Operator.ofChar? c = Option.none := Option.eq_none_iff_forall_ne_some.mpr
    fun op found => none (.operator op) (Operator.symbol_of_ofChar? found ▸ .operator op)
  have pair : ∀ d ∈ rest.head?, Operator.ofPair? c d = Option.none := by
    intro d next
    obtain ⟨more, rfl⟩ := List.head?_eq_some_iff.mp next
    refine Option.eq_none_iff_forall_ne_some.mpr fun op found => op.symbol_ne_nil ?_
    exact stuck _ _ (.operator op) ⟨more, by rw [Operator.symbol_of_ofPair? found]; rfl⟩
  rw [scanFrom_alone pair, scanOne, gap, single, fault]
  by_cases quote : c = '"'
  · subst quote
    change consQuoted '"' <$> scanFrom _ (some pos) rest = _
    rw [scanFrom_open (not_mem_of_stuck stuck)]
    rfl
  · have word : isWordChar c = false := Bool.eq_false_iff.mpr fun word =>
      none .word (.word (run_singleton.mpr (isWordChar_iff.mp word)))
    have stray : isStray c = true := by simpa [isWordChar, gap, single, quote] using word
    simp [quote, stray]

end Faults

section Matching

/-- An operator of one character is not the longest one if an equals sign follows it. -/
theorem single_stops {op : Operator} (longest : Longest Rule (.operator op) op.symbol after) :
    op.symbol.length = 1 → ∀ c ∈ after.head?, c ≠ '=' := by
  rintro single c next rfl
  match op with
  | .comparison .lt => exact longest.stops next (.operator (.comparison .le)) (.operator _)
  | .comparison .gt => exact longest.stops next (.operator (.comparison .ge)) (.operator _)
  | .logical .and | .logical .or => cases single
  | .comparison .eq | .comparison .ne | .comparison .le | .comparison .ge => cases single

/-- Where the text does not go on as a word, a character in front of it is a word of its own. -/
theorem consWord_of_stops (stops : ∀ d ∈ after.head?, isWordChar d = false) (c : Char)
    (pos : Nat) : consWord c <$> scanFrom pos none after =
      (⟨.word, [c]⟩ :: ·) <$> scanFrom pos none after := by
  have apart : ∀ kind text later, kind ≠ Token.word →
      scanFrom pos none after = (⟨kind, text⟩ :: ·) <$> later →
      consWord c <$> scanFrom pos none after =
        (⟨.word, [c]⟩ :: ·) <$> scanFrom pos none after := by
    intro kind text later other scanned
    rw [scanned, Functor.map_map, Functor.map_map]
    congr 1
    funext lexemes
    cases kind with
    | operator | quoted | gap => rfl
    | word => exact absurd rfl other
  -- What follows starts with a lexeme of another kind, or the scan stops there.
  rcases stuck_or_longest Rule after with stuck | ⟨kind, word, rest, longest, rfl⟩
  · cases after with
    | nil => rfl
    | cons d after =>
      rw [scanFrom_stuck stuck]
      rfl
  · cases longest.rule with
    | gap run =>
      obtain ⟨d, word, rfl⟩ := List.exists_cons_of_ne_nil run.1
      have gap := mem_blanks_iff.mp (run.2 d List.mem_cons_self)
      exact apart _ _ _ (by simp) (scanFrom_gap gap pos _)
    | operator op => exact apart _ _ _ (by simp) (scanFrom_operator op (single_stops longest) pos)
    | quoted free => exact apart _ _ _ (by simp) (scanFrom_quoted free pos rest)
    | word run =>
      obtain ⟨d, word, rfl⟩ := List.exists_cons_of_ne_nil run.1
      have char := isWordChar_iff.mpr (run.2 d List.mem_cons_self)
      rw [stops d rfl] at char
      cases char

/-- A run of word characters is one word, where the text does not go on with it. -/
theorem scanFrom_run (words : ∀ c ∈ word, isWordChar c = true) (nonempty : word ≠ [])
    (stops : ∀ d ∈ after.head?, isWordChar d = false) (pos : Nat) :
    scanFrom pos none (word ++ after) =
      (⟨.word, word⟩ :: ·) <$> scanFrom (pos + word.width) none after := by
  induction word generalizing pos with
  | nil => exact absurd rfl nonempty
  | cons c word ih =>
    obtain ⟨here, later⟩ := List.forall_mem_cons.mp words
    rw [List.cons_append, scanFrom_alone fun d _ => ofPair?_of_isWordChar here d,
      scanOne_of_isWordChar here, Text.width, ← Nat.add_assoc]
    cases word with
    | nil => exact consWord_of_stops stops c _
    | cons d word =>
      rw [ih later (List.cons_ne_nil d word), Functor.map_map]
      rfl

/-- The tokens of a text that starts at offset `pos`. -/
def placedFrom (pos : Nat) (t : Text) : Except Error (List (Nat × Lexeme Token)) :=
  (fun lexemes => (Lexeme.place pos lexemes).filter (isToken .gap)) <$> scanFrom pos none t

theorem placedFrom_of_scan (scanned : scanFrom pos none (word ++ after) =
      (⟨kind, word⟩ :: ·) <$> scanFrom (pos + word.width) none after) :
    placedFrom pos (word ++ after) =
      ([(pos, ⟨kind, word⟩)].filter (isToken .gap) ++ ·) <$>
        placedFrom (pos + word.width) after := by
  rw [placedFrom, scanned, placedFrom, Functor.map_map, Functor.map_map]
  congr 1
  funext lexemes
  rw [Lexeme.place, ← List.filter_append]
  rfl

theorem placedFrom_gaps (gaps : ∀ c ∈ word, isGap c = true) (pos : Nat) (after : Text) :
    placedFrom pos (word ++ after) = placedFrom (pos + word.width) after := by
  induction word generalizing pos with
  | nil => rfl
  | cons c word ih =>
    obtain ⟨here, later⟩ := List.forall_mem_cons.mp gaps
    have single := @placedFrom_of_scan [c] (word ++ after) pos .gap (scanFrom_gap here pos _)
    rw [Text.width, ← Nat.add_assoc, ← ih later]
    exact single.trans (id_map _)

/-- The longest lexeme is what the scan takes. -/
theorem placedFrom_append (longest : Longest Rule kind word after) (pos : Nat) :
    placedFrom pos (word ++ after) =
      ([(pos, ⟨kind, word⟩)].filter (isToken .gap) ++ ·) <$>
        placedFrom (pos + word.width) after := by
  cases longest.rule with
  | gap run =>
    rw [placedFrom_gaps fun c member => mem_blanks_iff.mp (run.2 c member)]
    exact (id_map _).symm
  | operator op => exact placedFrom_of_scan (scanFrom_operator op (single_stops longest) pos)
  | quoted free => exact placedFrom_of_scan (scanFrom_quoted free pos after)
  | word run =>
    have words : ∀ c ∈ word, isWordChar c = true := fun c member =>
      isWordChar_iff.mpr (run.2 c member)
    have stops : ∀ d ∈ after.head?, isWordChar d = false := fun d next =>
      Bool.eq_false_iff.mpr fun more => longest.stops next .word
        (.word (run.append (run_singleton.mpr (isWordChar_iff.mp more))))
    exact placedFrom_of_scan (scanFrom_run words run.1 stops pos)

theorem placedFrom_of_cuts (cuts : Cuts Rule last rest pos t lexemes) :
    placedFrom pos t = (lexemes.filter (isToken .gap) ++ ·) <$> placedFrom last rest := by
  induction cuts with
  | done => exact (id_map _).symm
  | @next pos kind word after lexemes longest _ ih =>
    rw [placedFrom_append longest, ih, Functor.map_map]
    congr 1
    funext found
    rw [← List.append_assoc, ← List.filter_append]
    rfl

theorem placedFrom_stuck (stuck : Stuck Rule (c :: rest)) (pos : Nat) :
    placedFrom pos (c :: rest) = .error (fault pos c) := by
  rw [placedFrom, scanFrom_stuck stuck]
  rfl

/-- A scan succeeds if longest match cuts the text to its end, with the tokens of the cut. -/
theorem cutInto_iff : CutInto Rule .gap t tokens ↔ placedTokens t = .ok tokens := by
  have found : ∀ last lexemes, Cuts Rule last [] 0 t lexemes →
      placedTokens t = .ok (lexemes.filter (isToken .gap)) := by
    intro last lexemes cuts
    have placed : placedTokens t = _ := placedFrom_of_cuts cuts
    rw [placed]
    exact congrArg Except.ok (List.append_nil _)
  constructor
  · rintro ⟨last, lexemes, cuts, rfl⟩
    exact found last lexemes cuts
  · intro scanned
    obtain ⟨last, rest, lexemes, cuts, stuck⟩ := exists_cuts Rule 0 t
    cases rest with
    | nil =>
      rw [found last lexemes cuts] at scanned
      exact ⟨last, lexemes, cuts, (Except.ok.inj scanned).symm⟩
    | cons c rest =>
      have placed : placedTokens t = _ := placedFrom_of_cuts cuts
      rw [placedFrom_stuck stuck, scanned] at placed
      cases placed

/-- A scan fails where longest match finds no lexeme. -/
theorem placedTokens_error_iff {e : Error} : placedTokens t = .error e ↔
    ∃ last c rest lexemes, Cuts Rule last (c :: rest) 0 t lexemes ∧ Stuck Rule (c :: rest) ∧
      e = fault last c := by
  have found : ∀ last c rest lexemes, Cuts Rule last (c :: rest) 0 t lexemes →
      Stuck Rule (c :: rest) → placedTokens t = .error (fault last c) := by
    intro last c rest lexemes cuts stuck
    have placed : placedTokens t = _ := placedFrom_of_cuts cuts
    rw [placed, placedFrom_stuck stuck]
    rfl
  constructor
  · intro failed
    obtain ⟨last, rest, lexemes, cuts, stuck⟩ := exists_cuts Rule 0 t
    cases rest with
    | nil =>
      rw [cutInto_iff.mp ⟨last, lexemes, cuts, rfl⟩] at failed
      cases failed
    | cons c rest =>
      rw [found last c rest lexemes cuts stuck] at failed
      exact ⟨last, c, rest, lexemes, cuts, stuck, (Except.error.inj failed).symm⟩
  · rintro ⟨last, c, rest, lexemes, cuts, stuck, rfl⟩
    exact found last c rest lexemes cuts stuck

theorem tokens_of_placedTokens (scanned : placedTokens t = .ok tokens) : Tokens t .word tokens := by
  refine (cutInto_iff.mpr scanned).tokens ?_ ?_
  · rintro word ⟨run⟩
    exact run.2
  · intro u v left right
    cases left with
    | word left =>
      cases right with
      | word right => exact .word (left.append right)

end Matching

section Literals

/-- The literals among the tokens, from quote to quote. -/
def literals (tokens : List (Nat × Lexeme Token)) : List Span :=
  (tokens.filter fun l => l.2.kind == .quoted).map fun l => ⟨l.1, l.1 + l.2.text.width - 1⟩

theorem literals_append (left right : List (Nat × Lexeme Token)) :
    literals (left ++ right) = literals left ++ literals right := by
  rw [literals, List.filter_append, List.map_append]
  rfl

theorem literals_tokens (lexemes : List (Nat × Lexeme Token)) :
    literals (lexemes.filter (isToken .gap)) = literals lexemes := by
  have kept : ∀ l : Nat × Lexeme Token,
      (l.2.kind == .quoted && isToken .gap l) = (l.2.kind == .quoted) := by
    rintro ⟨pos, kind, text⟩
    cases kind <;> rfl
  simp only [literals, List.filter_filter, kept]

theorem unquoted_of_rule (rule : Rule kind word) (other : kind ≠ .quoted) : '"' ∉ word := by
  cases rule with
  | gap run => exact fun quote => absurd (run.2 _ quote) (by decide)
  | operator op =>
    match op with
    | .logical .and | .logical .or => decide
    | .comparison .eq | .comparison .ne | .comparison .le => decide
    | .comparison .ge | .comparison .lt | .comparison .gt => decide
  | quoted => exact absurd rfl other
  | word run => exact fun quote => absurd (run.2 _ quote) (by decide)

theorem spansFrom_quoted {s : Text} (free : '"' ∉ s) (pos : Nat) (after : Text) :
    Quoted.spansFrom pos none ('"' :: s ++ ['"'] ++ after) =
      (⟨pos, pos + Text.width ('"' :: s ++ ['"']) - 1⟩ :: ·) <$>
        Quoted.spansFrom (pos + Text.width ('"' :: s ++ ['"'])) none after := by
  have size : Text.width ('"' :: s ++ ['"']) = 1 + s.width + 1 := by
    rw [List.cons_append, Text.width, Text.width_append, ← Nat.add_assoc]
    rfl
  have closing : pos + (1 + s.width + 1) - 1 = pos + 1 + s.width := by omega
  have behind : pos + (1 + s.width + 1) = pos + 1 + s.width + 1 := by omega
  rw [size, closing, behind, show '"' :: s ++ ['"'] ++ after = '"' :: (s ++ '"' :: after) by simp]
  exact Quoted.spansFrom_append_of_free free (pos + 1) (some pos) ('"' :: after)

/-- A lexeme is a literal of the text if it is one of the condition. -/
theorem spansFrom_append (rule : Rule kind word) (pos : Nat) (after : Text) :
    Quoted.spansFrom pos none (word ++ after) = (literals [(pos, ⟨kind, word⟩)] ++ ·) <$>
      Quoted.spansFrom (pos + word.width) none after := by
  by_cases quoted : kind = .quoted
  · subst quoted
    cases rule with
    | quoted free => exact spansFrom_quoted free pos after
  · have none : literals [(pos, ⟨kind, word⟩)] = [] := by
      simp [literals, quoted]
    rw [Quoted.spansFrom_append_of_free (unquoted_of_rule rule quoted), none]
    exact (id_map _).symm

theorem spansFrom_of_cuts (cuts : Cuts Rule last rest pos t lexemes) :
    Quoted.spansFrom pos none t =
      (literals lexemes ++ ·) <$> Quoted.spansFrom last none rest := by
  induction cuts with
  | done => exact (id_map _).symm
  | @next pos kind word after lexemes longest _ ih =>
    rw [spansFrom_append longest.rule, ih, Functor.map_map]
    congr 1
    funext found
    rw [← List.append_assoc, ← literals_append]
    rfl

/-- The literals of a condition are those of its text. -/
theorem spans_of_placedTokens (scanned : placedTokens t = .ok tokens) :
    Quoted.spans t = .ok (literals tokens) := by
  obtain ⟨last, lexemes, cuts, rfl⟩ := cutInto_iff.mpr scanned
  rw [literals_tokens, Quoted.spans, spansFrom_of_cuts cuts]
  exact congrArg Except.ok (List.append_nil _)

/-- Where a literal of a condition has no end, the same literal of the text has none. -/
theorem spans_of_unterminated {column : Nat}
    (failed : placedTokens t = .error (.unterminatedString column)) :
    Quoted.spans t = .error (.unterminatedString column) := by
  obtain ⟨last, c, rest, lexemes, cuts, stuck, reason⟩ := placedTokens_error_iff.mp failed
  by_cases quote : c = '"'
  · subst quote
    have opened : Quoted.spansFrom last none ('"' :: rest) =
        .error (.unterminatedString (last + 1)) :=
      Quoted.spansFrom_open (not_mem_of_stuck stuck) _ last
    rw [reason, fault, if_pos rfl, Quoted.spans, spansFrom_of_cuts cuts, opened]
    rfl
  · rw [fault, if_neg quote] at reason
    cases reason

end Literals
end Condition

/-- Both lexers find what longest match cuts the text into: for arithmetic it always cuts to the
end. The tokens are what the text consists of, with blanks and nothing else left out and no two
operands or words that touch. The literals of a condition are those of the text, and where a literal
has no end both are refused for it. -/
theorem tokens_are_the_text (t : Text) :
    (∀ tokens, CutInto Arithmetic.Rule .gap t tokens ↔ tokens = Arithmetic.placedTokens t) ∧
    (∀ tokens, CutInto Condition.Rule .gap t tokens ↔ Condition.placedTokens t = .ok tokens) ∧
    Tokens t .operand (Arithmetic.placedTokens t) ∧
    (∀ tokens, Condition.placedTokens t = .ok tokens →
      Tokens t .word tokens ∧ Quoted.spans t = .ok (Condition.literals tokens)) ∧
    ∀ column, Condition.placedTokens t = .error (.unterminatedString column) →
      Quoted.spans t = .error (.unterminatedString column) := by
  refine ⟨fun _ => Arithmetic.cutInto_iff, fun _ => Condition.cutInto_iff,
    Arithmetic.tokens_placedTokens t, ?_, ?_⟩
  · intro tokens scanned
    exact ⟨Condition.tokens_of_placedTokens scanned, Condition.spans_of_placedTokens scanned⟩
  · intro column failed
    exact Condition.spans_of_unterminated failed

/-- An operator of two characters next to a literal with a character of two bytes, and the same
without the quote at the end. -/
theorem tokens_of_comparison :
    let closed := "x<=\"é\"".toList
    let tokens : List (Nat × Lexeme Condition.Token) :=
      [(0, ⟨.word, ['x']⟩), (1, ⟨.operator (.comparison .le), ['<', '=']⟩),
        (3, ⟨.quoted, ['"', 'é', '"']⟩)]
    let opened := "x<=\"é".toList
    (Condition.placedTokens closed = .ok tokens ∧ Tokens closed .word tokens ∧
      Quoted.spans closed = .ok [⟨3, 6⟩]) ∧
    Condition.placedTokens opened = .error (.unterminatedString 4) ∧
      Quoted.spans opened = .error (.unterminatedString 4) := by
  intro closed tokens opened
  have scanned : Condition.placedTokens closed = .ok tokens := rfl
  have failed : Condition.placedTokens opened = .error (.unterminatedString 4) := rfl
  obtain ⟨_, _, _, found, _⟩ := tokens_are_the_text closed
  obtain ⟨_, _, _, _, refused⟩ := tokens_are_the_text opened
  obtain ⟨consists, spans⟩ := found tokens scanned
  exact ⟨⟨scanned, consists, spans⟩, failed, refused 4 failed⟩

end StepScript
