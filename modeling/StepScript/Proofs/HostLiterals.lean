import StepScript.Proofs.Calculations

/-! Numbers from hosts and from scripts. A host gives a text that is read as a whole; in a script the
same text is an expression, which is divided at its signs before anything is read. The two agree on
a text in which no sign stands but a minus at its start. A plus at the start is an operator without
its left operand, and the sign of an exponent stands between two operands, of which the left one is
no number. -/
namespace StepScript

open Decimal

section Shape

variable {t m rest : Text} {c : Char}

/-- Digits, with a point among them or without. -/
inductive Mantissa : Text → Prop where
  | whole {w : Text} (digits : ∀ c ∈ w, c.isDigit = true) (nonempty : w ≠ []) : Mantissa w
  | pointed {w f : Text} (digits : ∀ c ∈ w ++ f, c.isDigit = true) (nonempty : w ++ f ≠ []) :
      Mantissa (w ++ '.' :: f)

/-- What stands after the sign of a number: a text without signs, or a number with a signed
exponent. -/
inductive Magnitude : Text → Prop where
  | plain {t : Text} (plain : ∀ c ∈ t, isPlain c = true) (nonempty : t ≠ []) : Magnitude t
  | exponent {m digits : Text} {mark : Char} {op : Arithmetic.Operator} (mantissa : Mantissa m)
      (marks : mark = 'e' ∨ mark = 'E') (sign : op = .add ∨ op = .sub)
      (numeral : isNumeral digits = true) : Magnitude (m ++ mark :: op.symbol :: digits)

theorem isNumeral_iff : isNumeral t = true ↔ t ≠ [] ∧ ∀ c ∈ t, c.isDigit = true := by
  simp [isNumeral]

theorem Mantissa.char (mantissa : Mantissa m) (member : c ∈ m) : c.isDigit = true ∨ c = '.' := by
  cases mantissa with
  | whole digits => exact .inl (digits c member)
  | pointed digits =>
    rw [List.mem_append, List.mem_cons] at member
    rcases member with digit | point | digit
    · exact .inl (digits c (List.mem_append_left _ digit))
    · exact .inr point
    · exact .inl (digits c (List.mem_append_right _ digit))

theorem Mantissa.plain (mantissa : Mantissa m) : ∀ c ∈ m, isPlain c = true := by
  intro c member
  rcases mantissa.char member with digit | rfl
  · exact isPlain_of_isDigit digit
  · rfl

theorem Mantissa.plain_mark (mantissa : Mantissa m) {mark : Char}
    (marks : mark = 'e' ∨ mark = 'E') : ∀ c ∈ m ++ [mark], isPlain c = true := by
  refine List.forall_mem_append.mpr ⟨mantissa.plain, List.forall_mem_singleton.mpr ?_⟩
  rcases marks with rfl | rfl <;> rfl

theorem plain_of_isNumeral (numeral : isNumeral t = true) : ∀ c ∈ t, isPlain c = true :=
  fun c member => isPlain_of_isDigit ((isNumeral_iff.mp numeral).2 c member)

theorem Mantissa.nonempty (mantissa : Mantissa m) : m ≠ [] := by
  cases mantissa with
  | whole _ nonempty => exact nonempty
  | pointed => simp

/-- A mantissa alone, or with an exponent. -/
theorem mantissa_of_read? (reads : (Decimal.read? t).isSome = true) :
    ∃ m rest, Mantissa m ∧ t = m ++ rest ∧ (readExponent? rest).isSome = true := by
  have digits : ∀ u : Text, ∀ c ∈ u.takeWhile Char.isDigit, c.isDigit = true := fun _ _ member =>
    List.mem_takeWhile_imp member
  unfold Decimal.read? at reads
  dsimp only at reads
  split at reads
  · rename_i u pointed
    split at reads
    · cases reads
    · rename_i present
      rw [Option.isSome_map] at reads
      refine ⟨t.takeWhile Char.isDigit ++ '.' :: u.takeWhile Char.isDigit,
        u.dropWhile Char.isDigit, .pointed ?_ ?_, ?_, reads⟩
      · exact List.forall_mem_append.mpr ⟨digits t, digits u⟩
      · simpa using present
      · rw [List.append_assoc, List.cons_append, List.takeWhile_append_dropWhile, ← pointed,
          List.takeWhile_append_dropWhile]
  · split at reads
    · cases reads
    · rename_i present
      rw [Option.isSome_map] at reads
      refine ⟨t.takeWhile Char.isDigit, t.dropWhile Char.isDigit, .whole (digits t) ?_, ?_, reads⟩
      · simpa using present
      · exact List.takeWhile_append_dropWhile.symm

/-- A mantissa with a mark behind it, but no exponent, is no number. -/
theorem Mantissa.read?_mark (mantissa : Mantissa m) {mark : Char} (marks : mark = 'e' ∨ mark = 'E') :
    Decimal.read? (m ++ [mark]) = none := by
  have stops : ∀ c ∈ [mark].head?, c.isDigit = false := by
    rcases marks with rfl | rfl <;> · rintro c ⟨⟩; rfl
  have unread : readExponent? [mark] = none := by
    rcases marks with rfl | rfl <;> rfl
  have other : mark ≠ '.' := by
    rcases marks with rfl | rfl <;> decide
  cases mantissa with
  | whole digits nonempty =>
    obtain ⟨taken, left⟩ := takeWhile_digits digits stops
    simp [Decimal.read?, taken, left, other, unread]
  | @pointed w f digits nonempty =>
    obtain ⟨wholeDigits, fractionDigits⟩ := List.forall_mem_append.mp digits
    have point : ∀ c ∈ ('.' :: (f ++ [mark])).head?, c.isDigit = false := by
      rintro c ⟨⟩
      rfl
    obtain ⟨taken, left⟩ := takeWhile_digits wholeDigits point
    obtain ⟨fractionTaken, fractionLeft⟩ := takeWhile_digits fractionDigits stops
    simp [Decimal.read?, taken, left, fractionTaken, fractionLeft, unread]

theorem Magnitude.of_read? (reads : (Decimal.read? t).isSome = true) : Magnitude t := by
  obtain ⟨m, rest, mantissa, rfl, exponent⟩ := mantissa_of_read? reads
  cases rest with
  | nil =>
    rw [List.append_nil]
    exact .plain mantissa.plain mantissa.nonempty
  | cons mark rest =>
    rw [readExponent?] at exponent
    split at exponent
    · rename_i marks
      have marks : mark = 'e' ∨ mark = 'E' := by simpa using marks
      obtain ⟨digits, nonempty, digit, signed⟩ := readInteger?_shape exponent
      have numeral := isNumeral_iff.mpr ⟨nonempty, digit⟩
      cases signed with
      | unsigned =>
        refine .plain ?_ (by simp)
        rw [List.append_cons]
        exact List.forall_mem_append.mpr ⟨mantissa.plain_mark marks, plain_of_isNumeral numeral⟩
      | minus => exact .exponent mantissa marks (Or.inr (Eq.refl Arithmetic.Operator.sub)) numeral
      | plus => exact .exponent mantissa marks (Or.inl (Eq.refl Arithmetic.Operator.add)) numeral
    · cases exponent

/-- What is read is a magnitude behind a sign or alone. -/
theorem Double.magnitude_of_read? (reads : (Double.read? t).isSome = true) :
    ∃ body, Magnitude body ∧ SignedDigits body t := by
  have word {word : Text} (letters : word.all isNameChar = true) (some : word ≠ [])
      (same : (splitSign t).2.sameWord word = true) : Magnitude (splitSign t).2 := by
    refine .plain (Condition.plain_of_sameWord letters same) ?_
    intro empty
    rw [empty, Text.sameWord, beq_iff_eq] at same
    exact some (List.map_eq_nil_iff.mp same.symm)
  refine ⟨(splitSign t).2, ?_, ?_⟩
  · unfold Double.read? at reads
    dsimp only at reads
    split at reads
    · rename_i infinite
      rcases Bool.or_eq_true_iff.mp infinite with same | same
      · exact word rfl (by decide) same
      · exact word rfl (by decide) same
    · split at reads
      · rename_i none
        exact word rfl (by decide) none
      · rw [Option.isSome_map] at reads
        exact .of_read? reads
  · fun_cases splitSign t with
    | case1 body => exact .minus
    | case2 body => exact .plus
    | case3 => exact .unsigned

end Shape

section Words

variable {m digits : Text} {mark : Char} {negative : Bool}

/-- A text that begins like a mantissa is none of the words for special doubles. -/
theorem Mantissa.sameWord_append (mantissa : Mantissa m) (rest word : Text) {first : Char}
    (letter : first = 'i' ∨ first = 'n') : Text.sameWord (m ++ rest) (first :: word) = false := by
  obtain ⟨c, more, rfl⟩ := List.exists_cons_of_ne_nil mantissa.nonempty
  rcases mantissa.char List.mem_cons_self with digit | rfl
  · exact sameWord_of_isDigit digit (by rcases letter with rfl | rfl <;> rfl)
  · rcases letter with rfl | rfl <;> simp [Text.sameWord, Text.lower]

theorem Mantissa.unsigned (mantissa : Mantissa m) : ∃ c rest, m = c :: rest ∧ c ≠ '-' ∧ c ≠ '+' := by
  obtain ⟨c, rest, rfl⟩ := List.exists_cons_of_ne_nil mantissa.nonempty
  have plain := mantissa.plain c List.mem_cons_self
  exact ⟨c, rest, rfl, ne_of_isPlain plain rfl, ne_of_isPlain plain rfl⟩

/-- What stands before the sign of an exponent counts as zero. -/
theorem Mantissa.readDoubleOrZero_mark (mantissa : Mantissa m) (marks : mark = 'e' ∨ mark = 'E')
    (negative : Bool) : readDoubleOrZero (signed negative (m ++ [mark])) = Double.ofInt 0 := by
  obtain ⟨c, rest, cut, unsigned⟩ := mantissa.unsigned
  have split : splitSign (signed negative (m ++ [mark])) = (negative, m ++ [mark]) := by
    rw [cut]
    exact splitSign_signed negative unsigned
  have unread : Double.read? (signed negative (m ++ [mark])) = none := by
    have noInf := mantissa.sameWord_append [mark] ['n', 'f'] (.inl rfl)
    have noInfinity := mantissa.sameWord_append [mark] "nfinity".toList (.inl rfl)
    have noNan := mantissa.sameWord_append [mark] ['a', 'n'] (.inr rfl)
    rw [Double.read?, split]
    dsimp only
    rw [show "inf".toList = ['i', 'n', 'f'] from rfl,
      show "infinity".toList = 'i' :: "nfinity".toList from rfl,
      show "nan".toList = ['n', 'a', 'n'] from rfl, noInf, noInfinity, noNan,
      mantissa.read?_mark marks]
    rfl
  rw [readDoubleOrZero, trim_signed (mantissa.plain_mark marks) (by simp), unread]
  rfl

theorem read?_numeral (numeral : isNumeral digits = true) : ∃ x, Double.read? digits = some x := by
  obtain ⟨nonempty, digit⟩ := isNumeral_iff.mp numeral
  have all : ∀ c ∈ digits ++ [], c.isDigit = true := by simpa using digit
  have whole := read?_positional nonempty all
  obtain ⟨c, rest, rfl⟩ := List.exists_cons_of_ne_nil nonempty
  have read := Double.read?_of_digit (digit c List.mem_cons_self) false rest
  rw [show Decimal.read? (c :: rest) = _ from whole] at read
  exact ⟨_, read⟩

end Words

namespace Condition

theorem evaluate_of_readBool? {t : Text} {b : Bool} (reads : readBool? t = some b) :
    evaluate t = .ok b := by
  obtain ⟨nonempty, plain⟩ := plain_of_readBool? reads
  have unquoted : '"' ∉ t := not_mem_of_plain plain rfl
  have operand : operandValue t = .ok (.bool b) :=
    operandValue_of_read (trim_of_plain plain) unquoted (by rw [reads]; rfl)
  have scanned : scan t = .ok [⟨.word, t⟩] :=
    scanFrom_word (fun c member => isWordChar_of_isPlain (plain c member)) nonempty 0
  have seen : t.all StepScript.isGap = false := by
    obtain ⟨c, rest, rfl⟩ := List.exists_cons_of_ne_nil nonempty
    simp [isGap_of_isPlain (plain c List.mem_cons_self)]
  have item : Piece.evaluate (.operand t) = .ok (.value (.bool b)) := by
    rw [Piece.evaluate, operand]
    rfl
  rw [evaluate, pieces_of_scan scanned (by simp) seen]
  change ([Piece.operand t].mapM Piece.evaluate >>= _) = _
  rw [List.mapM_cons, item]
  cases b <;> rfl

end Condition

namespace Arithmetic

variable {α : Type} {domain : Domain α} {head digits t : Text} {op : Operator}

theorem tokens_plain (plain : ∀ c ∈ t, isPlain c = true) (nonempty : t ≠ []) :
    tokens t = [⟨.operand, t⟩] := by
  have ends : Separates [] := by simp [Separates]
  have single := tokens_solid (fun c member => isSolid_of_isPlain (plain c member)) nonempty ends
  rwa [List.append_nil] at single

theorem tokens_pair (plainHead : ∀ c ∈ head, isPlain c = true) (nonemptyHead : head ≠ [])
    (plain : ∀ c ∈ digits, isPlain c = true) (nonempty : digits ≠ []) :
    tokens (head ++ op.symbol :: digits) =
      [⟨.operand, head⟩, ⟨.operator op, [op.symbol]⟩, ⟨.operand, digits⟩] := by
  have separates : Separates (op.symbol :: digits) := by
    rintro c ⟨⟩
    exact .inr (by rw [op.ofChar?_symbol]; rfl)
  rw [tokens_solid (fun c member => isSolid_of_isPlain (plainHead c member)) nonemptyHead separates,
    tokens_symbol, tokens_plain plain nonempty]

/-- A number, an operator and digits are two operands with the operator between them, whatever the
number and the digits are worth. -/
theorem evaluate_pair (negative : Bool) (plainHead : ∀ c ∈ head, isPlain c = true)
    (nonemptyHead : head ≠ []) (plain : ∀ c ∈ digits, isPlain c = true) (nonempty : digits ≠ []) :
    evaluate domain (signed negative head ++ op.symbol :: digits) =
      domain.apply op (domain.read (signed negative head)) (domain.read digits) := by
  have free : '"' ∉ signed negative head ++ op.symbol :: digits := by
    rw [List.mem_append, List.mem_cons]
    rintro (inHead | same | inDigits)
    · exact not_mem_signed plainHead rfl (by decide) inHead
    · cases op <;> cases same
    · exact not_mem_of_plain plain rfl inDigits
  have read : ∀ minus : Bool, chain? domain minus (tokens (head ++ op.symbol :: digits)) =
      some (domain.read (signed minus head), [(op, domain.read digits)]) := by
    intro minus
    rw [tokens_pair plainHead nonemptyHead plain nonempty]
    rfl
  have chained : chain? domain false (tokens (signed negative head ++ op.symbol :: digits)) =
      some (domain.read (signed negative head), [(op, domain.read digits)]) := by
    cases negative with
    | false => exact read false
    | true => exact (chain?_sign domain false _).trans (read true)
  rw [evaluate, Quoted.mapLiterals_of_free free, chained]
  exact fold_single domain op _ _

/-- The number of signs in a text. -/
def signs (t : Text) : Nat :=
  t.countP fun c => c == '+' || c == '-'

theorem signs_of_plain (plain : ∀ c ∈ t, isPlain c = true) : signs t = 0 := by
  refine List.countP_eq_zero.mpr fun c member => ?_
  have other : c ≠ '+' ∧ c ≠ '-' :=
    ⟨ne_of_isPlain (plain c member) rfl, ne_of_isPlain (plain c member) rfl⟩
  simp [other]

theorem signs_pair (sign : op = .add ∨ op = .sub) (plainHead : ∀ c ∈ head, isPlain c = true)
    (plain : ∀ c ∈ digits, isPlain c = true) : signs (head ++ op.symbol :: digits) = 1 := by
  have counted : signs (head ++ op.symbol :: digits) = signs head + signs (op.symbol :: digits) :=
    List.countP_append
  have one : signs (op.symbol :: digits) = signs digits + 1 := by
    rcases sign with rfl | rfl <;> simp [signs, Operator.symbol]
  rw [counted, one, signs_of_plain plainHead, signs_of_plain plain]

/-- A plus before a number is an operator without a left operand. -/
theorem evaluate_plus (magnitude : Magnitude t) (free : '"' ∉ t) :
    evaluate domain ('+' :: t) =
      .error (.operandCount (signs ('+' :: t)) (signs ('+' :: t))) := by
  have read : tokens ('+' :: t) = ⟨.operator .add, ['+']⟩ :: tokens t := tokens_symbol .add t
  have unchained : chain? domain false (⟨.operator .add, ['+']⟩ :: tokens t) = none := by
    rw [chain?, if_neg (by decide)]
  have counted : countError (⟨.operator .add, ['+']⟩ :: tokens t) =
      .operandCount (signs ('+' :: t)) (signs ('+' :: t)) := by
    have more : signs ('+' :: t) = signs t + 1 := by simp [signs]
    rw [more]
    cases magnitude with
    | plain plain nonempty => rw [tokens_plain plain nonempty, signs_of_plain plain]; rfl
    | @exponent m digits mark op mantissa marks sign numeral =>
      have plainHead := mantissa.plain_mark marks
      have plain := plain_of_isNumeral numeral
      rw [List.append_cons, tokens_pair plainHead (by simp) plain (isNumeral_iff.mp numeral).1,
        signs_pair sign plainHead plain]
      rfl
  rw [evaluate, Quoted.mapLiterals_of_free (by simpa using free), read, unchained]
  exact congrArg Except.error counted

end Arithmetic

section Created

open StepScript.Expr StepScript.Arithmetic

variable {kind : Kind} {t body : Text} {v : Value} {c : Char}

theorem Magnitude.chars (magnitude : Magnitude body) : ∀ c ∈ body, isNumberChar c = true := by
  intro c member
  cases magnitude with
  | plain plain => exact isNumberChar_of_isPlain (plain c member)
  | @exponent m digits mark op mantissa marks sign numeral =>
    rw [List.append_cons, List.mem_append, List.mem_cons] at member
    rcases member with inHead | rfl | inDigits
    · exact isNumberChar_of_isPlain (mantissa.plain_mark marks c inHead)
    · rcases sign with rfl | rfl <;> rfl
    · exact isNumberChar_of_isPlain (plain_of_isNumeral numeral c inDigits)

theorem SignedDigits.chars (signed : SignedDigits body t) (magnitude : Magnitude body) :
    ∀ c ∈ t, isNumberChar c = true := by
  intro c member
  rcases signed.mem member with rfl | rfl | inside
  · rfl
  · rfl
  · exact magnitude.chars c inside

/-- A text made of the characters of numbers has nothing to be resolved in it. -/
theorem evaluateText_number (chars : ∀ c ∈ t.trim, isNumberChar c = true) (kind : Kind) :
    evaluateText kind t = evaluateFlat kind t.trim := by
  have free : ∀ d, isNumberChar d = false → d ∉ t.trim := by
    intro d other member
    rw [chars d member] at other
    cases other
  have trimmed : evaluateText kind t = evaluateText kind t.trim := by
    simp only [evaluateText, Text.trim_trim]
  rw [trimmed]
  exact evaluateText_flat t.trim_trim (Quoted.after_of_free (free '"' rfl))
    (Group.noneOpen_of_free (free '(' rfl) (free ')' rfl)) kind

/-- The readings of a text by which a host gives a value. -/
inductive Given (t : Text) : Kind → Value → Prop where
  | bool {b : Bool} (reads : readBool? t = some b) : Given t .bool (.bool b)
  | int {n : Int64} (reads : readInt? t = some n) : Given t .int (.int n)
  | double {x : Float} (reads : Double.read? t = some x) : Given t .double (.double x)

theorem given_of_create (other : kind ≠ .string) (created : Value.create kind t = .ok v) :
    Given t.trim kind v := by
  unfold Value.create at created
  dsimp only at created
  split at created
  · rename_i read
    cases created
    cases kind with
    | bool =>
      obtain ⟨b, reads, rfl⟩ := Option.map_eq_some_iff.mp read
      exact .bool reads
    | int =>
      obtain ⟨n, reads, rfl⟩ := Option.map_eq_some_iff.mp read
      exact .int reads
    | double =>
      obtain ⟨x, reads, rfl⟩ := Option.map_eq_some_iff.mp read
      exact .double reads
    | string => exact absurd rfl other
  · cases created

theorem Given.magnitude (given : Given t kind v) :
    ∃ body, Magnitude body ∧ SignedDigits body t := by
  cases given with
  | bool reads =>
    obtain ⟨nonempty, plain⟩ := Condition.plain_of_readBool? reads
    exact ⟨t, .plain plain nonempty, .unsigned⟩
  | int reads =>
    obtain ⟨digits, nonempty, digit, signed⟩ :=
      readInteger?_shape (readInteger?_of_readInt? (Option.isSome_of_eq_some reads))
    exact ⟨digits, .plain (fun c member => isPlain_of_isDigit (digit c member)) nonempty, signed⟩
  | double reads => exact Double.magnitude_of_read? (Option.isSome_of_eq_some reads)

/-- Without a sign in it, the text is worth the same in a script. -/
theorem Given.evaluateFlat_signed {negative : Bool} (given : Given (signed negative body) kind v)
    (plain : ∀ c ∈ body, isPlain c = true) (nonempty : body ≠ []) :
    evaluateFlat kind (signed negative body) = .ok v := by
  have trimmed : (signed negative body).trim = signed negative body := trim_signed plain nonempty
  cases given with
  | bool reads =>
    change Value.bool <$> Condition.evaluate _ = _
    rw [Condition.evaluate_of_readBool? reads]
    rfl
  | int reads =>
    change Value.int <$> evaluate ints _ = _
    rw [evaluate_signed ints negative plain nonempty]
    change Except.ok (Value.int (readIntOrZero _)) = _
    rw [readIntOrZero, trimmed, reads]
    rfl
  | double reads =>
    change Value.double <$> evaluate doubles _ = _
    rw [evaluate_signed doubles negative plain nonempty]
    change Except.ok (Value.double (readDoubleOrZero _)) = _
    rw [readDoubleOrZero, trimmed, reads]
    rfl

theorem Given.evaluateFlat_plus (given : Given ('+' :: body) kind v) (magnitude : Magnitude body) :
    evaluateFlat kind ('+' :: body) =
      .error (.operandCount (signs ('+' :: body)) (signs ('+' :: body))) := by
  have free : '"' ∉ body := fun quote => absurd (magnitude.chars _ quote) (by decide)
  cases given with
  | bool reads =>
    have plain := (Condition.plain_of_readBool? reads).2 '+' List.mem_cons_self
    cases plain
  | int =>
    change Value.int <$> evaluate ints _ = _
    rw [evaluate_plus magnitude free]
    rfl
  | double =>
    change Value.double <$> evaluate doubles _ = _
    rw [evaluate_plus magnitude free]
    rfl

/-- A number in which the exponent has a sign: up to the mark of the exponent, the sign as an
operator, and the digits behind it, worth `x`. -/
inductive SignedExponent (op : Operator) (x : Float) : Text → Prop where
  | mk {before digits : Text} {mark : Char} (marks : mark = 'e' ∨ mark = 'E')
      (sign : op = .add ∨ op = .sub) (numeral : isNumeral digits = true)
      (reads : Double.read? digits = some x) :
      SignedExponent op x (before ++ mark :: op.symbol :: digits)

theorem Given.evaluateFlat_exponent {m digits : Text} {mark : Char} {op : Operator}
    {negative : Bool} (given : Given (signed negative (m ++ mark :: op.symbol :: digits)) kind v)
    (mantissa : Mantissa m) (marks : mark = 'e' ∨ mark = 'E') (sign : op = .add ∨ op = .sub)
    (numeral : isNumeral digits = true) :
    kind = .double ∧ ∃ x, SignedExponent op x (signed negative (m ++ mark :: op.symbol :: digits)) ∧
      evaluateFlat kind (signed negative (m ++ mark :: op.symbol :: digits)) =
        .double <$> doubles.apply op (Double.ofInt 0) x := by
  have cut : signed negative (m ++ mark :: op.symbol :: digits) =
      signed negative (m ++ [mark]) ++ op.symbol :: digits := by
    cases negative <;> simp [signed]
  have marked : mark ∈ signed negative (m ++ mark :: op.symbol :: digits) :=
    (mem_signed _ (by rcases marks with rfl | rfl <;> decide)).mpr (by simp)
  have plain := plain_of_isNumeral numeral
  obtain ⟨x, reads⟩ := read?_numeral numeral
  cases given with
  | bool word =>
    have symbol : isPlain op.symbol = true := (Condition.plain_of_readBool? word).2 _ (by
      rw [cut]
      simp)
    rcases sign with rfl | rfl <;> cases symbol
  | int integer =>
    have none := readInt?_of_mem marked (by rcases marks with rfl | rfl <;> rfl)
      (by rcases marks with rfl | rfl <;> decide)
    rw [none] at integer
    cases integer
  | double =>
    refine ⟨rfl, x, ?_, ?_⟩
    · cases negative with
      | false => exact .mk marks sign numeral reads
      | true =>
        have exponent : SignedExponent op x ('-' :: m ++ mark :: op.symbol :: digits) :=
          .mk marks sign numeral reads
        exact exponent
    · change Value.double <$> evaluate doubles _ = _
      rw [cut, evaluate_pair negative (mantissa.plain_mark marks) (by simp) plain
        (isNumeral_iff.mp numeral).1]
      change Value.double <$> doubles.apply op (readDoubleOrZero _) (readDoubleOrZero _) = _
      rw [mantissa.readDoubleOrZero_mark marks negative, readDoubleOrZero, trim_of_plain plain, reads]
      rfl

/-- No sign is in the text but a minus at its start. -/
def Unsplit (t : Text) : Prop :=
  '+' ∉ t ∧ '-' ∉ t.tail

theorem unsplit_signed (negative : Bool) (plain : ∀ c ∈ body, isPlain c = true) :
    Unsplit (signed negative body) := by
  refine ⟨not_mem_signed plain rfl (by decide), fun member => ?_⟩
  have minus : '-' ∉ body := not_mem_of_plain plain rfl
  cases negative with
  | true => exact minus member
  | false => exact minus (List.mem_of_mem_tail member)

theorem Mantissa.split {m digits : Text} {mark : Char} {op : Operator} (negative : Bool)
    (mantissa : Mantissa m) (sign : op = .add ∨ op = .sub) :
    ¬Unsplit (signed negative (m ++ mark :: op.symbol :: digits)) ∧
      (signed negative (m ++ mark :: op.symbol :: digits)).head? ≠ some '+' := by
  obtain ⟨c, rest, rfl, _, unsigned⟩ := mantissa.unsigned
  have inner : op.symbol ∈ (signed negative (c :: rest ++ mark :: op.symbol :: digits)).tail := by
    cases negative <;> simp [signed]
  constructor
  · rintro ⟨noPlus, noMinus⟩
    rcases sign with rfl | rfl
    · exact noPlus (List.mem_of_mem_tail inner)
    · exact noMinus inner
  · cases negative with
    | true => simp [signed]
    | false => exact fun first => unsigned (Option.some.inj first)

theorem SignedDigits.plus_or_signed (digits : SignedDigits body t) :
    t = '+' :: body ∨ ∃ negative, t = signed negative body := by
  cases digits with
  | unsigned => exact .inr ⟨false, rfl⟩
  | minus => exact .inr ⟨true, rfl⟩
  | plus => exact .inl rfl

end Created

open StepScript.Expr StepScript.Arithmetic in
/-- What a host can give for a Bool, an Int or a Double is worth the same as an expression if no
sign is in the text but a minus at its start. A text that starts with a plus is refused for the
number of its operators. There is one other case, of a double whose exponent has a sign: that sign
is taken for an operator behind a zero. -/
theorem host_literal_evaluates {kind : Kind} (other : kind ≠ .string) {t : Text} {v : Value}
    (created : Value.create kind t = .ok v) :
    (Unsplit t.trim → evaluateText kind t = .ok v) ∧
    (t.trim.head? = some '+' →
      evaluateText kind t = .error (.operandCount (signs t.trim) (signs t.trim))) ∧
    (¬Unsplit t.trim → t.trim.head? ≠ some '+' → kind = .double ∧
      ∃ op x, SignedExponent op x t.trim ∧
        evaluateText kind t = .double <$> doubles.apply op (Double.ofInt 0) x) := by
  have given := given_of_create other created
  obtain ⟨body, magnitude, digits⟩ := given.magnitude
  rw [evaluateText_number (digits.chars magnitude)]
  generalize t.trim = text at given digits
  rcases digits.plus_or_signed with rfl | ⟨negative, rfl⟩
  · refine ⟨fun unsplit => absurd List.mem_cons_self unsplit.1, ?_, fun _ first => absurd rfl first⟩
    exact fun _ => given.evaluateFlat_plus magnitude
  · cases magnitude with
    | plain plain nonempty =>
      have unsplit := unsplit_signed negative plain
      refine ⟨fun _ => given.evaluateFlat_signed plain nonempty, ?_, absurd unsplit⟩
      exact fun first => absurd (List.mem_of_mem_head? first) unsplit.1
    | exponent mantissa marks sign numeral =>
      obtain ⟨split, first⟩ := mantissa.split negative sign
      refine ⟨fun unsplit => absurd unsplit split, fun plus => absurd plus first, fun _ _ => ?_⟩
      obtain ⟨double, x, exponent, worth⟩ :=
        given.evaluateFlat_exponent mantissa marks sign numeral
      exact ⟨double, _, x, exponent, worth⟩

open StepScript.Expr StepScript.Arithmetic in
/-- The least Int is given and written alike. With a plus before it an Int can be given, but not
written. -/
theorem least_int_is_given_and_written :
    evaluateText .int " -9223372036854775808".toList = .ok (.int Int64.minValue) ∧
      evaluateText .int "+5".toList = .error (.operandCount 1 1) := by
  have least : Value.create .int " -9223372036854775808".toList = .ok (.int Int64.minValue) := by
    decide +kernel
  have plus : Value.create .int "+5".toList = .ok (.int 5) := by decide +kernel
  have number : Kind.int ≠ .string := nofun
  have unsplit : Unsplit (Text.trim " -9223372036854775808".toList) := ⟨by decide, by decide⟩
  exact ⟨(host_literal_evaluates number least).1 unsplit,
    (host_literal_evaluates number plus).2.1 (by decide)⟩

open StepScript.Expr in
/-- A plus before an Int, and an exponent with a sign: a hundred that is given is two in a script. -/
theorem given_hundred_is_written_two :
    (¬ ∀ (t : Text) (v : Value), Value.create .int t = .ok v → evaluateText .int t = .ok v) ∧
      ¬ ∀ (t : Text) (v : Value), Value.create .double t = .ok v →
        evaluateText .double t = .ok v := by
  constructor
  · intro agree
    have plus := agree "+5".toList (.int 5) (by decide +kernel)
    exact absurd plus (by decide +kernel)
  · intro agree
    have hundred := agree "1e+2".toList (.double (Double.ofInt 100)) (by decide +kernel)
    have two : evaluateText .double "1e+2".toList = .ok (.double (Double.ofInt 2)) := by
      decide +kernel
    rw [two] at hundred
    exact absurd hundred (by decide +kernel)

end StepScript
