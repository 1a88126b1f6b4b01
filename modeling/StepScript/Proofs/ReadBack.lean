import StepScript.Proofs.Effect
import StepScript.Proofs.Substitution

/-! Which values their literals give back. A string expression is worth a string without quotes, so
that a string with a quote never comes back; every other value but NaN does, and it does so as an
operand of a condition as well, where its kind is not given but found in the text. -/
namespace StepScript

theorem not_sep_of_mem_splitWhere {α : Type} {p : α → Bool} {as piece : List α} {a : α}
    (cut : piece ∈ splitWhere p as) (member : a ∈ piece) : p a = false := by
  induction as generalizing piece with
  | nil =>
    obtain rfl := List.mem_singleton.mp cut
    cases member
  | cons b as ih =>
    rw [splitWhere] at cut
    split at cut
    · rcases List.mem_cons.mp cut with rfl | later
      · cases member
      · exact ih later member
    · rename_i kept
      cases pieces : splitWhere p as with
      | nil => exact absurd pieces (splitWhere_ne_nil p as)
      | cons first rest =>
        rw [pieces] at cut ih
        rcases List.mem_cons.mp cut with rfl | later
        · rcases List.mem_cons.mp member with rfl | inFirst
          · simpa using kept
          · exact ih List.mem_cons_self inFirst
        · exact ih (List.mem_cons_of_mem _ later) member

theorem Quoted.mem_of_mem_pairs {texts : List Text} {contents gap : Text}
    (paired : (contents, gap) ∈ pairs texts) : contents ∈ texts ∧ gap ∈ texts := by
  induction texts using pairs.induct with
  | case1 first next more ih =>
    rw [pairs, List.mem_cons, Prod.mk.injEq] at paired
    rcases paired with ⟨rfl, rfl⟩ | later
    · simp
    · obtain ⟨left, right⟩ := ih later
      exact ⟨by simp [left], by simp [right]⟩
  | case2 texts short =>
    rw [pairs] at paired
    · cases paired
    · exact short

/-- The contents of a literal hold no quote. -/
theorem Quoted.contents_quoteFree {t contents gap : Text}
    (literal : (contents, gap) ∈ (pieces t).2) : '"' ∉ contents := by
  intro quote
  unfold pieces at literal
  cases cut : splitWhere (· == '"') t with
  | nil => simp [cut] at literal
  | cons lead more =>
    rw [cut] at literal
    have piece : contents ∈ splitWhere (· == '"') t := by
      rw [cut]
      exact List.mem_cons_of_mem _ (mem_of_mem_pairs literal).1
    simpa using not_sep_of_mem_splitWhere piece quote

namespace Concatenation

variable {text joined : Text} {literals : List (Text × Text)}

theorem join_quoteFree (free : ∀ literal ∈ literals, '"' ∉ literal.1)
    (done : join literals = .ok joined) : '"' ∉ joined := by
  induction literals generalizing joined with
  | nil =>
    cases done
    simp
  | cons literal more ih =>
    have first := free literal List.mem_cons_self
    cases more with
    | nil =>
      cases done
      exact first
    | cons next more =>
      rw [join] at done
      · split at done
        · obtain ⟨rest, joined, rfl⟩ := Error.ok_of_map done
          have later := ih (fun other member => free other (List.mem_cons_of_mem _ member)) joined
          simp [first, later]
        · cases done
      · simp

/-- A string expression is worth a string without quotes. -/
theorem evaluate_quoteFree (done : evaluate text = .ok joined) : '"' ∉ joined := by
  unfold evaluate at done
  dsimp only at done
  split at done
  · cases done
  · split at done
    · exact join_quoteFree (fun _ member => Quoted.contents_quoteFree member) done
    · cases done

end Concatenation

namespace Expr

variable {kind : Kind} {text raw : Text} {v : Value}

theorem evaluateFlat_quoteFree (done : evaluateFlat kind text = .ok v) : v.QuoteFree := by
  cases kind with
  | int | double | bool =>
    obtain ⟨result, _, rfl⟩ := Error.ok_of_map done
    trivial
  | string =>
    obtain ⟨joined, joins, rfl⟩ := Error.ok_of_map done
    exact Concatenation.evaluate_quoteFree joins

theorem evaluateText_quoteFree (done : evaluateText kind raw = .ok v) : v.QuoteFree := by
  obtain ⟨_, _, done⟩ := Error.ok_of_bind done
  obtain ⟨_, _, done⟩ := Error.ok_of_bind done
  obtain ⟨flat, _, done⟩ := Error.ok_of_bind done
  exact evaluateFlat_quoteFree done

end Expr

namespace Condition

variable {t : Text}

/-- Characters that continue a word of a condition. -/
def isWordChar (c : Char) : Bool :=
  !isGap c && c != '"' && !isStray c && (Operator.ofChar? c).isNone

theorem ofPair?_of_isWordChar {c : Char} (word : isWordChar c = true) (d : Char) :
    Operator.ofPair? c d = none := by
  simp only [isWordChar, isStray, Operator.ofChar?, Bool.and_eq_true, Bool.not_eq_true',
    Bool.or_eq_false_iff, beq_eq_false_iff_ne] at word
  obtain ⟨⟨_, ⟨⟨and, or⟩, equals⟩, bang⟩, operator⟩ := word
  have less : c ≠ '<' := by
    rintro rfl
    cases operator
  have greater : c ≠ '>' := by
    rintro rfl
    cases operator
  simp [Operator.ofPair?, and, or, equals, bang, less, greater]

theorem scanOne_of_isWordChar {c : Char} (word : isWordChar c = true) (pos : Nat)
    (next : Option Nat → Except Error (List (Lexeme Token))) :
    scanOne pos c next = consWord c <$> next none := by
  simp only [isWordChar, Bool.and_eq_true, Bool.not_eq_true', bne_iff_ne, ne_eq,
    Option.isNone_iff_eq_none] at word
  obtain ⟨⟨⟨gap, quote⟩, stray⟩, operator⟩ := word
  simp [scanOne, gap, quote, stray, operator]

theorem scanFrom_alone {c : Char} (alone : ∀ d ∈ t.head?, Operator.ofPair? c d = none)
    (pos : Nat) : scanFrom pos none (c :: t) =
      scanOne pos c fun opening? => scanFrom (pos + c.utf8Size) opening? t := by
  cases t with
  | nil => rw [scanFrom]
  | cons d t => rw [scanFrom, alone d rfl]

/-- A run of word characters is one word. -/
theorem scanFrom_word (words : ∀ c ∈ t, isWordChar c = true) (nonempty : t ≠ []) (pos : Nat) :
    scanFrom pos none t = .ok [⟨.word, t⟩] := by
  induction t generalizing pos with
  | nil => exact absurd rfl nonempty
  | cons c t ih =>
    have here := words c List.mem_cons_self
    rw [scanFrom_alone fun d _ => ofPair?_of_isWordChar here d, scanOne_of_isWordChar here]
    cases t with
    | nil =>
      rw [scanFrom]
      rfl
    | cons d t =>
      rw [ih (fun e member => words e (List.mem_cons_of_mem _ member)) (List.cons_ne_nil _ _)]
      rfl

/-- What follows an opened quote, up to the next one, is one literal. -/
theorem scanFrom_opened {s : Text} (free : '"' ∉ s) (opening pos : Nat) (rest : Text) :
    scanFrom pos (some opening) (s ++ '"' :: rest) =
      (⟨.quoted, s ++ ['"']⟩ :: ·) <$> scanFrom (pos + Text.width (s ++ ['"'])) none rest := by
  induction s generalizing pos with
  | nil => simp [scanFrom, Text.width]
  | cons c s ih =>
    rw [List.mem_cons, not_or] at free
    rw [List.cons_append, scanFrom, ih free.2, Functor.map_map, List.cons_append, Text.width,
      ← Nat.add_assoc]
    simp [Ne.symm free.1, consQuoted, Lexeme.extend]

/-- A quote without a partner is the fault of the scan. -/
theorem scanFrom_open (free : '"' ∉ t) (opening pos : Nat) :
    scanFrom pos (some opening) t = .error (.unterminatedString (opening + 1)) := by
  induction t generalizing pos with
  | nil => rfl
  | cons c t ih =>
    rw [List.mem_cons, not_or] at free
    rw [scanFrom, if_neg (by simpa using Ne.symm free.1), ih free.2]
    rfl

theorem scanFrom_quoted {s : Text} (free : '"' ∉ s) (pos : Nat) (rest : Text) :
    scanFrom pos none ('"' :: s ++ ['"'] ++ rest) = (⟨.quoted, '"' :: s ++ ['"']⟩ :: ·) <$>
      scanFrom (pos + Text.width ('"' :: s ++ ['"'])) none rest := by
  have alone : ∀ d, Operator.ofPair? '"' d = none := by simp [Operator.ofPair?]
  rw [show '"' :: s ++ ['"'] ++ rest = '"' :: (s ++ '"' :: rest) by simp,
    scanFrom_alone fun d _ => alone d]
  change consQuoted '"' <$> scanFrom (pos + '"'.utf8Size) (some pos) _ = _
  rw [scanFrom_opened free, Functor.map_map, List.cons_append, Text.width, Nat.add_assoc]
  rfl

theorem scan_quoted (free : '"' ∉ t) :
    scan ('"' :: t ++ ['"']) = .ok [⟨.quoted, '"' :: t ++ ['"']⟩] := by
  have scanned := scanFrom_quoted free 0 []
  rw [List.append_nil, scanFrom] at scanned
  exact scanned

theorem pieces_of_scan {kind : Token} (scanned : scan t = .ok [⟨kind, t⟩])
    (operand : ∀ op, kind ≠ .operator op) (seen : t.all StepScript.isGap = false) :
    pieces t = .ok [.operand t] := by
  have merged : merge [⟨kind, t⟩] = [.operand t] := by
    cases kind with
    | operator op => exact absurd rfl (operand op)
    | quoted | word | gap => rfl
  rw [pieces, scanned]
  change Except.ok ((merge [⟨kind, t⟩]).filter _) = _
  rw [merged]
  simp [Piece.isGap, seen]

end Condition

section Operands

open Decimal

theorem isWordChar_of_isPlain {c : Char} (plain : isPlain c = true) :
    Condition.isWordChar c = true := by
  have differs : ∀ d, isPlain d = false → c ≠ d := fun _ other => ne_of_isPlain plain other
  simp [Condition.isWordChar, isGap_of_isPlain plain, Condition.isStray,
    Condition.Operator.ofChar?, differs '"' rfl, differs '&' rfl, differs '|' rfl, differs '=' rfl,
    differs '!' rfl, differs '<' rfl, differs '>' rfl]

theorem isWordChar_of_mem_signed {body : Text} (plain : ∀ c ∈ body, isPlain c = true)
    (negative : Bool) : ∀ c ∈ signed negative body, Condition.isWordChar c = true := by
  intro c member
  by_cases minus : c = '-'
  · subst minus
    decide
  · exact isWordChar_of_isPlain (plain c ((mem_signed negative minus).mp member))

/-- A condition takes a literal as one operand. -/
theorem Value.pieces_literal {v : Value} (readable : v.Readable) :
    Condition.pieces v.literal = .ok [.operand v.literal] := by
  rcases v.literal_shape with ⟨s, rfl⟩ | ⟨negative, body, nonempty, plain, written⟩
  · exact Condition.pieces_of_scan (Condition.scan_quoted readable) (by simp) rfl
  · have words := isWordChar_of_mem_signed plain negative
    have some : signed negative body ≠ [] := signed_ne_nil nonempty
    obtain ⟨c, rest, shape⟩ := List.exists_cons_of_ne_nil some
    have seen : isGap c = false := by
      have word := words c (by simp [shape])
      simp only [Condition.isWordChar, Bool.and_eq_true, Bool.not_eq_true'] at word
      exact word.1.1.1
    rw [written]
    refine Condition.pieces_of_scan (Condition.scanFrom_word words some 0) (by simp) ?_
    rw [shape, List.all_cons, seen, Bool.false_and]

/-- A word that starts neither with `t` nor with `f` is no Bool. -/
theorem readBool?_of_first {c : Char} {t : Text} (first : c.toLower ≠ 't' ∧ c.toLower ≠ 'f') :
    readBool? (c :: t) = none := by
  simp [readBool?, Text.sameWord, Text.lower, first.1, first.2]

theorem readBool?_signed {c : Char} (negative : Bool) (rest : Text)
    (first : c.toLower ≠ 't' ∧ c.toLower ≠ 'f') :
    readBool? (signed negative (c :: rest)) = none := by
  cases negative with
  | false => exact readBool?_of_first first
  | true => exact readBool?_of_first (by decide)

theorem letter_of_isDigit {c : Char} (digit : c.isDigit = true) :
    c.toLower ≠ 't' ∧ c.toLower ≠ 'f' := by
  rw [toLower_of_isDigit digit]
  constructor
  · rintro rfl
    cases digit
  · rintro rfl
    cases digit

/-- A text with a character that is neither a digit nor a sign is no Int. -/
theorem readInt?_of_mem {c : Char} {t : Text} (member : c ∈ t) (digit : c.isDigit = false)
    (unsigned : c ≠ '-' ∧ c ≠ '+') : readInt? t = none := by
  have inside : c ∈ (splitSign t).2 := by
    unfold splitSign
    split
    · exact (List.mem_cons.mp member).resolve_left unsigned.1
    · exact (List.mem_cons.mp member).resolve_left unsigned.2
    · exact member
  have refused : isNumeral (splitSign t).2 = false := by
    rw [isNumeral, Bool.and_eq_false_iff]
    refine .inr (List.all_eq_false.mpr ⟨c, inside, ?_⟩)
    simp [digit]
  simp [readInt?, readInteger?, refused]

/-- Of the doubles the finite ones have a point in their literals. -/
theorem Value.point_mem_literal_iff {x : Float} (number : Double.isNaN x = false) :
    '.' ∈ (Value.double x).literal ↔ Double.isFinite x = true := by
  obtain ⟨text, rendered, ⟨finite, _⟩ | ⟨infinite, rfl, _⟩⟩ := Double.render_eq number
  · refine iff_of_true ?_ finite
    simp only [literal, finite, Bool.true_and, Bool.not_eq_true']
    split
    · simp
    · rename_i kept
      simpa using kept
  · refine iff_of_false ?_ (by simp [infinite])
    simp only [literal, infinite, Bool.false_and, Bool.false_eq_true, if_false, rendered]
    exact fun point => absurd ((mem_signed _ (by decide)).mp point) (by decide)

/-- The literal of a double is no Int: it has a point, or it is infinite. -/
theorem Value.readInt?_literal_double {x : Float} (number : Double.isNaN x = false) :
    readInt? (Value.double x).literal = none := by
  obtain ⟨text, rendered, ⟨finite, _⟩ | ⟨infinite, rfl, _⟩⟩ := Double.render_eq number
  · exact readInt?_of_mem ((point_mem_literal_iff number).mpr finite) rfl (by decide)
  · have inf : 'i' ∈ (Value.double x).literal := by
      simp only [literal, infinite, Bool.false_and, Bool.false_eq_true, if_false, rendered]
      exact (mem_signed _ (by decide)).mpr (by decide)
    exact readInt?_of_mem inf rfl (by decide)

/-- An operand without quotes is what it reads as, if it reads as anything. -/
theorem Condition.operandValue_of_read {text : Text} {value : Value} (trimmed : text.trim = text)
    (unquoted : '"' ∉ text)
    (read : ((readBool? text).map Value.bool |>.or ((readInt? text).map .int)
      |>.or ((Double.read? text).map .double)) = some value) : operandValue text = .ok value := by
  simp only [operandValue, trimmed, List.contains_eq_mem, unquoted, decide_false,
    Bool.false_eq_true, if_false, read]

/-- As an operand of a condition, a literal is read as the value it was written for. -/
theorem Value.operandValue_literal {v : Value} (readable : v.Readable) :
    Condition.operandValue v.literal = .ok v := by
  cases v with
  | bool b =>
    cases b with
    | true => rfl
    | false => rfl
  | int n =>
    obtain ⟨c, rest, digits⟩ :=
      List.exists_cons_of_ne_nil (Nat.toDigits_ne_nil (b := 10) (n := n.toInt.natAbs))
    have digit : c.isDigit = true := isDigit_toDigits (n := n.toInt.natAbs) (by simp [digits])
    have written : (Value.int n).literal = signed (decide (n.toInt < 0)) (c :: rest) := by
      rw [← digits]
      exact renderInteger_eq n.toInt
    have unworded := readBool?_signed (decide (n.toInt < 0)) rest (letter_of_isDigit digit)
    have back : readInt? (signed (decide (n.toInt < 0)) (c :: rest)) = some n := by
      rw [← written]
      exact readInt?_renderInt n
    have plain : ∀ d ∈ c :: rest, isPlain d = true := digits ▸ plain_toDigits _
    rw [written]
    refine Condition.operandValue_of_read (trim_signed plain (List.cons_ne_nil _ _))
      (not_mem_signed plain rfl (by decide)) ?_
    rw [unworded, back]
    rfl
  | double x =>
    obtain ⟨text, written, body⟩ := literal_double readable
    have noInt := readInt?_literal_double readable
    have noBool : readBool? (signed (Double.isNegative x) text) = none := by
      cases body with
      | finite spells =>
        obtain ⟨c, rest, rfl, digit⟩ := spells.begins
        exact readBool?_signed _ _ (letter_of_isDigit digit)
      | infinite => exact readBool?_signed _ _ (by decide)
    rw [written] at noInt
    rw [written]
    refine Condition.operandValue_of_read (trim_signed body.plain body.nonempty)
      (not_mem_signed body.plain rfl (by decide)) ?_
    rw [noBool, noInt, body.read?, Double.ofCode_code]
    rfl
  | string s =>
    have trimmed : Text.trim ('"' :: s ++ ['"']) = '"' :: s ++ ['"'] := trim_enclosed rfl rfl
    simp only [literal, Condition.operandValue, trimmed]
    rw [Expr.concatenation_literal readable]
    simp [Functor.map, Except.map]

end Operands

/-- A value other than NaN is given back by its literal exactly if it is no string with a quote, and
then a condition takes the literal as one operand and finds in it the value with its kind. -/
theorem literal_reads_back_iff (v : Value)
    (number : ∀ x, v = .double x → Double.isNaN x = false) :
    (Expr.evaluateText v.kind v.literal = .ok v ↔ ¬ ∃ s, v = .string s ∧ '"' ∈ s) ∧
    (Expr.evaluateText v.kind v.literal = .ok v →
      Condition.pieces v.literal = .ok [.operand v.literal] ∧
      Condition.operandValue v.literal = .ok v) := by
  have readable : (¬ ∃ s, v = .string s ∧ '"' ∈ s) → v.Readable := by
    intro unquoted
    cases v with
    | bool | int => trivial
    | double x => exact number x rfl
    | string s => exact fun quote => unquoted ⟨s, rfl, quote⟩
  have unquoted : Expr.evaluateText v.kind v.literal = .ok v →
      ¬ ∃ s, v = .string s ∧ '"' ∈ s := by
    rintro back ⟨s, rfl, quote⟩
    exact Expr.evaluateText_quoteFree back quote
  refine ⟨⟨unquoted, fun free => Expr.evaluateText_literal (readable free)⟩, ?_⟩
  intro back
  have good := readable (unquoted back)
  exact ⟨Value.pieces_literal good, Value.operandValue_literal good⟩

/-- The least Int, whose magnitude is no Int, comes back; a string whose quotes are paired does
not. -/
theorem least_int_reads_back :
    let least : Value := .int Int64.minValue
    let quoted : Value := .string "a\" + \"b".toList
    Expr.evaluateText .int least.literal = .ok least ∧
      Condition.operandValue least.literal = .ok least ∧
      Expr.evaluateText .string quoted.literal ≠ .ok quoted := by
  intro least quoted
  obtain ⟨back, operand⟩ := literal_reads_back_iff least (by simp [least])
  have read : Expr.evaluateText least.kind least.literal = .ok least := back.mpr (by simp [least])
  obtain ⟨lost, _⟩ := literal_reads_back_iff quoted (by simp [quoted])
  refine ⟨read, (operand read).2, ?_⟩
  intro same
  exact lost.mp same ⟨_, rfl, by decide⟩

end StepScript
