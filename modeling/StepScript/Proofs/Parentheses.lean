import StepScript.Proofs.Conditions
import StepScript.Proofs.DoubleOrder
import StepScript.Proofs.QuotedPieces
import StepScript.Proofs.Resolution

/-! Parentheses around a whole text. As a group the text is evaluated for a kind that is found in
what is left of it, and its value is put down as a literal and read again. The kind is the right
one: a text that is worth a Bool shows an operator or is a Bool, and one that is worth a String
shows a quote and no operator. -/
namespace StepScript

section Blanks

open StepScript.Group

variable {t u before after : Text}

theorem Text.trim_eq_iff : t.trim = t ↔
    (∀ c ∈ t.head?, isBlank c = false) ∧ ∀ c ∈ t.getLast?, isBlank c = false := by
  constructor
  · intro trimmed
    rw [← trimmed]
    exact ⟨t.first_trim, last_trimEnd _⟩
  · rintro ⟨first, last⟩
    exact trim_of_ends first last

/-- A text of which nothing is left when it is trimmed holds blanks only. -/
theorem Text.blank_of_trim (empty : t.trim = []) : ∀ c ∈ t, isBlank c = true := by
  obtain ⟨before, after, same, blankBefore, blankAfter⟩ := t.trim_between
  rw [empty, List.append_nil] at same
  rw [same]
  exact List.forall_mem_append.mpr ⟨blankBefore, blankAfter⟩

theorem Text.bare_of_trim (nonempty : t ≠ []) (trimmed : t.trim = t) : t.Bare := by
  obtain ⟨first, last⟩ := trim_eq_iff.mp trimmed
  constructor
  · obtain ⟨c, rest, rfl⟩ := List.exists_cons_of_ne_nil nonempty
    exact ⟨c, rest, rfl, first c rfl⟩
  · refine ⟨_, _, (List.dropLast_append_getLast nonempty).symm, ?_⟩
    exact last _ (List.getLast?_eq_getLast_of_ne_nil nonempty)

/-- Between the same texts one part that is bare can stand for another. -/
theorem Text.trim_exchange (bareT : t.Bare) (bareU : u.Bare)
    (trimmed : Text.trim (before ++ t ++ after) = before ++ t ++ after) :
    Text.trim (before ++ u ++ after) = before ++ u ++ after := by
  obtain ⟨c, rest, same, full⟩ := bareU.first
  obtain ⟨lead, d, sameLast, fullLast⟩ := bareU.last
  obtain ⟨e, more, rfl, _⟩ := bareT.first
  rw [trim_eq_iff] at trimmed ⊢
  constructor
  · cases before with
    | nil => simpa [same] using full
    | cons => exact trimmed.1
  · have last := trimmed.2
    rw [List.getLast?_append] at last ⊢
    cases behind : after.getLast? with
    | some f => simpa [behind] using last
    | none => simpa [sameLast] using fullLast

theorem flat_of_blank (blank : ∀ c ∈ t, isBlank c = true) : Flat t := by
  have differs : ∀ c ∈ t, ∀ d, isBlank d = false → c ≠ d := by
    rintro c member d other rfl
    rw [blank c member] at other
    cases other
  exact flat_of_free fun c member =>
    ⟨differs c member '(' rfl, differs c member ')' rfl, differs c member '"' rfl⟩

theorem Text.bare_group (t : Text) : Text.Bare ('(' :: t ++ [')']) :=
  ⟨⟨'(', t ++ [')'], rfl, rfl⟩, ⟨'(' :: t, ')', rfl, rfl⟩⟩

theorem Value.bare_literal (v : Value) : v.literal.Bare := by
  rcases v.literal_shape with ⟨s, rfl⟩ | ⟨negative, body, nonempty, plain, written⟩
  · exact ⟨⟨'"', s ++ ['"'], rfl, rfl⟩, ⟨'"' :: s, '"', rfl, rfl⟩⟩
  · rw [written]
    exact Arithmetic.bare_signed plain nonempty

end Blanks

namespace Expr

open StepScript.Group

section Trimming

variable {target kind : Kind} {t u raw : Text} {v : Value}

/-- A text that is trimmed is still trimmed when its groups are resolved. -/
theorem trim_of_flatten (balanced : Balanced t) (trimmed : t.trim = t)
    (done : flatten target t = .ok u) : u.trim = u := by
  induction balanced using Balanced.last_induction with
  | flat t flat =>
    rw [flatten_flat flat] at done
    cases done
    exact trimmed
  | last t cut balanced last ih =>
    rw [flatten_last last] at done
    obtain ⟨w, worth, rest⟩ := Error.ok_of_bind done
    refine ih w (groupLiteral_flat worth) ?_ rest
    obtain ⟨value, _, rfl⟩ := Error.ok_of_map worth
    rw [last.whole] at trimmed
    exact Text.trim_exchange (Text.bare_group cut.inner) value.bare_literal trimmed

theorem balanced_of_trim (balanced : Balanced raw.trim) : Balanced raw := by
  obtain ⟨before, after, same, blankBefore, blankAfter⟩ := raw.trim_between
  rw [same]
  exact ((Balanced.flat (flat_of_blank blankBefore)).append balanced).append
    (.flat (flat_of_blank blankAfter))

theorem flatten_trim (balanced : Balanced raw.trim) :
    flatten target raw.trim = Text.trim <$> flatten target raw := by
  obtain ⟨before, after, same, blankBefore, blankAfter⟩ := raw.trim_between
  conv => rhs; rw [same]
  rw [flatten_pad (flat_of_blank blankBefore) balanced (flat_of_blank blankAfter)]
  cases done : flatten target raw.trim with
  | error e => rfl
  | ok u =>
    have kept := trim_of_flatten balanced raw.trim_trim done
    exact congrArg Except.ok (by rw [Text.trim_pad blankBefore blankAfter, kept])

/-- The blanks around a text can also be taken away after its groups are resolved. -/
theorem evaluateText_balanced (balanced : Balanced raw.trim) (kind : Kind) :
    evaluateText kind raw = flatten kind raw >>= fun flat => evaluateFlat kind flat.trim := by
  rw [evaluateText_eq, resolved_balanced balanced, flatten_trim balanced, bind_map_left]

theorem balanced_of_evaluateText (done : evaluateText kind raw = .ok v) : Balanced raw.trim := by
  obtain ⟨_, quotes, done⟩ := Error.ok_of_bind done
  obtain ⟨_, matched, _⟩ := Error.ok_of_bind done
  exact balanced_of_check matched (Quoted.check_ok.mp quotes)

end Trimming

section Signs

variable {inside : Bool} {t u : Text}

theorem isSign_of_isBlank {c : Char} (blank : isBlank c = true) : isSign c = false := by
  cases sign : isSign c with
  | false => rfl
  | true =>
    simp only [isSign, List.contains_eq_mem, decide_eq_true_eq, List.mem_cons, List.not_mem_nil,
      or_false] at sign
    rcases sign with rfl | rfl | rfl | rfl | rfl | rfl <;> cases blank

/-- What stands in a literal is no operator. -/
theorem hasCondition_literal {s : Text} (free : '"' ∉ s) (u : Text) :
    hasCondition false ('"' :: s ++ ['"'] ++ u) = hasCondition false u := by
  have contents : hasCondition true (s ++ '"' :: u) = hasCondition false u := by
    induction s with
    | nil => rfl
    | cons c s ih =>
      rw [List.mem_cons, not_or] at free
      rw [List.cons_append, hasCondition, Quoted.step_of_ne (Ne.symm free.1), ih free.2]
      rfl
  rw [← contents]
  simp [hasCondition, hasCondition.startsOperator, Quoted.step]

theorem hasCondition_of_pieces (paired : t.Paired)
    (lead : ∀ c ∈ (Quoted.pieces t).1, isSign c = false)
    (gaps : ∀ literal ∈ (Quoted.pieces t).2, ∀ c ∈ literal.2, isSign c = false) :
    hasCondition false t = false := by
  induction paired using Text.Paired.literal_induction with
  | free t free =>
    rw [Quoted.pieces_of_free free] at lead
    exact hasCondition_of_plain lead
  | literal front s rest paired whole frontFree free ih =>
    rw [Quoted.pieces_append_of_free frontFree, Quoted.pieces_literal free] at lead gaps
    rw [List.append_nil] at lead
    obtain ⟨first, later⟩ := List.forall_mem_cons.mp gaps
    rw [hasCondition_append_of_plain lead, Quoted.after_of_free frontFree,
      hasCondition_literal free]
    exact ih first later

/-- An operator does not depend on what follows the text that it ends, if that is no sign. -/
theorem startsOperator_before_plain (plain : ∀ c ∈ u, isSign c = false) (c : Char) :
    hasCondition.startsOperator c u.head? = hasCondition.startsOperator c none := by
  cases u with
  | nil => rfl
  | cons d u =>
    have other := plain d List.mem_cons_self
    simp only [isSign, List.contains_eq_mem, decide_eq_false_iff_not, List.mem_cons,
      List.not_mem_nil, or_false, not_or] at other
    simp only [hasCondition.startsOperator, List.head?_cons]
    split
    · rfl
    · split
      · simp [other]
      · split
        · rename_i double
          rw [Bool.or_eq_true, beq_iff_eq, beq_iff_eq] at double
          rcases double with rfl | rfl <;> simp [other]
        · rfl

theorem hasCondition_before_plain (plain : ∀ c ∈ u, isSign c = false) (t : Text) :
    hasCondition inside (t ++ u) = hasCondition inside t := by
  induction t generalizing inside with
  | nil => exact hasCondition_of_plain plain
  | cons c t ih =>
    rw [List.cons_append, hasCondition, hasCondition, ih]
    cases t with
    | cons => rfl
    | nil => rw [List.nil_append, startsOperator_before_plain plain, List.head?_nil]

theorem hasCondition_trim (t : Text) : hasCondition false t.trim = hasCondition false t := by
  obtain ⟨before, after, same, blankBefore, blankAfter⟩ := t.trim_between
  have unquoted : Quoted.after false before = false := (flat_of_blank blankBefore).paired
  conv => rhs; rw [same]
  rw [hasCondition_before_plain fun c member => isSign_of_isBlank (blankAfter c member),
    hasCondition_append_of_plain fun c member => isSign_of_isBlank (blankBefore c member), unquoted]

theorem contains_trim {d : Char} (solid : isBlank d = false) (t : Text) :
    t.trim.contains d = t.contains d := by
  obtain ⟨before, after, same, blankBefore, blankAfter⟩ := t.trim_between
  have absent : ∀ blanks : Text, (∀ c ∈ blanks, isBlank c = true) → d ∉ blanks := by
    intro blanks blank member
    rw [blank d member] at solid
    cases solid
  conv => rhs; rw [same]
  simp [absent before blankBefore, absent after blankAfter]

/-- Blanks around the contents of a group do not count for its kind. -/
theorem groupKind_trim (target : Kind) (t : Text) :
    groupKind target t.trim = groupKind target t := by
  simp only [groupKind, hasCondition_trim, t.trim_trim, contains_trim (d := '"') rfl,
    Condition.arithmeticKind, contains_trim (d := '.') rfl]

end Signs
end Expr

namespace Condition

open StepScript.Expr

section Operators

variable {t : Text} {lexemes : List (Lexeme Token)}

/-- One of the lexemes is an operator. -/
def HasOperator (lexemes : List (Lexeme Token)) : Prop :=
  ∃ l ∈ lexemes, ∃ op, l.kind = .operator op

@[simp] theorem hasOperator_nil : ¬ HasOperator [] := by
  simp [HasOperator]

@[simp] theorem hasOperator_cons {kind : Token} {text : Text} :
    HasOperator (⟨kind, text⟩ :: lexemes) ↔ (∃ op, kind = .operator op) ∨ HasOperator lexemes := by
  simp [HasOperator]

@[simp] theorem hasOperator_consWord (c : Char) :
    HasOperator (consWord c lexemes) ↔ HasOperator lexemes := by
  cases lexemes with
  | nil => simp [consWord]
  | cons l more =>
    obtain ⟨kind, text⟩ := l
    cases kind <;> simp [consWord]

@[simp] theorem hasOperator_consQuoted (c : Char) :
    HasOperator (consQuoted c lexemes) ↔ HasOperator lexemes := by
  cases lexemes with
  | nil => simp [consQuoted]
  | cons l more =>
    obtain ⟨kind, text⟩ := l
    simp [consQuoted, Lexeme.extend]

theorem startsOperator_of_ofPair? {c d : Char} {op : Operator}
    (found : Operator.ofPair? c d = some op) : hasCondition.startsOperator c (some d) = true := by
  unfold Operator.ofPair? at found
  split_ifs at found <;> simp_all [hasCondition.startsOperator]

theorem isSign_of_isWord {c : Char} (stray : isStray c = false)
    (single : Operator.ofChar? c = none) : isSign c = false := by
  have less : c ≠ '<' := by
    rintro rfl
    cases single
  have greater : c ≠ '>' := by
    rintro rfl
    cases single
  simp only [isStray, Bool.or_eq_false_iff, beq_eq_false_iff_ne] at stray
  simp [isSign, stray, less, greater]

theorem hasCondition_scanOne {pos : Nat} {c : Char}
    {next : Option Nat → Except Error (List (Lexeme Token))}
    (nexts : ∀ opening? lexemes, next opening? = .ok lexemes →
      (hasCondition opening?.isSome t = true ↔ HasOperator lexemes))
    (scanned : scanOne pos c next = .ok lexemes) :
    hasCondition false (c :: t) = true ↔ HasOperator lexemes := by
  unfold scanOne at scanned
  split at scanned
  · rename_i gap
    obtain ⟨more, rest, rfl⟩ := Error.ok_of_map scanned
    have plain := isSign_of_isBlank (isBlank_of_isGap gap)
    have outside : Quoted.step false c = false := Quoted.step_of_ne (by rintro rfl; cases gap)
    rw [hasCondition, startsOperator_of_not_sign plain, outside]
    simpa using nexts _ _ rest
  · split at scanned
    · rename_i quote
      obtain rfl := beq_iff_eq.mp quote
      obtain ⟨more, rest, rfl⟩ := Error.ok_of_map scanned
      simpa [hasCondition, hasCondition.startsOperator, Quoted.step] using nexts _ _ rest
    · rename_i unquoted
      split at scanned
      · cases scanned
      · rename_i stray
        split at scanned
        · rename_i op found
          obtain ⟨more, rest, rfl⟩ := Error.ok_of_map scanned
          unfold Operator.ofChar? at found
          split_ifs at found with less greater
          · simp [hasCondition, hasCondition.startsOperator, less]
          · simp [hasCondition, hasCondition.startsOperator, greater]
        · rename_i single
          obtain ⟨more, rest, rfl⟩ := Error.ok_of_map scanned
          have plain := isSign_of_isWord (Bool.eq_false_iff.mpr stray) single
          have outside : Quoted.step false c = false :=
            Quoted.step_of_ne fun same => unquoted (beq_iff_eq.mpr same)
          rw [hasCondition, startsOperator_of_not_sign plain, outside, hasOperator_consWord]
          simpa using nexts _ _ rest

/-- A text that can be scanned shows an operator outside its literals exactly if one of its lexemes
is an operator. -/
theorem hasCondition_iff {pos : Nat} {opening? : Option Nat}
    (scanned : scanFrom pos opening? t = .ok lexemes) :
    hasCondition opening?.isSome t = true ↔ HasOperator lexemes := by
  fun_induction scanFrom pos opening? t generalizing lexemes with
  | case1 pos =>
    cases scanned
    simp [hasCondition]
  | case2 pos opening => cases scanned
  | case3 pos opening c t quote ih =>
    obtain rfl := beq_iff_eq.mp quote
    obtain ⟨more, rest, rfl⟩ := Error.ok_of_map scanned
    simpa [hasCondition, Quoted.step] using ih rest
  | case4 pos opening c t unquoted ih =>
    obtain ⟨more, rest, rfl⟩ := Error.ok_of_map scanned
    have inside : Quoted.step true c = true :=
      Quoted.step_of_ne fun same => unquoted (beq_iff_eq.mpr same)
    simpa [hasCondition, inside] using ih rest
  | case5 pos c ih => exact hasCondition_scanOne (fun opening? _ => ih opening?) scanned
  | case6 pos c d t op found ih =>
    obtain ⟨more, rest, rfl⟩ := Error.ok_of_map scanned
    simp [hasCondition, startsOperator_of_ofPair? found]
  | case7 pos c d t none ih => exact hasCondition_scanOne (fun opening? _ => ih opening?) scanned

end Operators

section Lone

variable {t raw : Text} {lexemes : List (Lexeme Token)} {b : Bool}

/-- Lexemes without an operator among them are one operand. -/
theorem merge_of_operands (none : ¬ HasOperator lexemes) (nonempty : lexemes ≠ []) :
    merge lexemes = [.operand (lexemes.flatMap Lexeme.text)] := by
  induction lexemes with
  | nil => exact absurd rfl nonempty
  | cons l more ih =>
    obtain ⟨kind, text⟩ := l
    rw [hasOperator_cons, not_or] at none
    cases kind with
    | operator op => exact absurd ⟨op, rfl⟩ none.1
    | quoted | word | gap =>
      cases more with
      | nil => simp [merge]
      | cons next more => simp [merge, ih none.2 (List.cons_ne_nil _ _)]

theorem readBool?_of_operandValue (done : operandValue raw = .ok (.bool b)) :
    readBool? raw.trim = some b := by
  simp only [operandValue] at done
  split at done
  · obtain ⟨_, _, string⟩ := Error.ok_of_map done
    cases string
  · cases word : readBool? raw.trim with
    | some value =>
      rw [word] at done
      cases done
      rfl
    | none =>
      rw [word] at done
      cases integer : Decimal.readInt? raw.trim with
      | some n =>
        rw [integer] at done
        cases done
      | none =>
        cases double : Double.read? raw.trim with
        | some x =>
          rw [integer, double] at done
          cases done
        | none =>
          rw [integer, double] at done
          dsimp only [Option.map_none, Option.or] at done
          split at done
          · unfold evaluateArithmetic at done
            split at done
            · obtain ⟨_, _, number⟩ := Error.ok_of_map done
              cases number
            · obtain ⟨_, _, number⟩ := Error.ok_of_map done
              cases number
          · cases done

/-- A condition that holds or not shows an operator, or it is a Bool. -/
theorem shown_of_evaluate (done : evaluate t = .ok b) :
    hasCondition false t = true ∨ (readBool? t.trim).isSome = true := by
  obtain ⟨ps, cut, done⟩ := Error.ok_of_bind done
  obtain ⟨items, values, done⟩ := Error.ok_of_bind done
  obtain ⟨lexemes, scanned, rfl⟩ := Error.ok_of_map cut
  by_cases operator : HasOperator lexemes
  · exact .inl ((hasCondition_iff scanned).mpr operator)
  · refine .inr ?_
    cases lexemes with
    | nil =>
      cases values
      cases done
    | cons l more =>
      rw [merge_of_operands operator (List.cons_ne_nil l more), scanFrom_flatMap scanned] at values
      cases gap : Piece.isGap (.operand t) with
      | true =>
        rw [List.filter_cons_of_neg (by simp [gap])] at values
        cases values
        cases done
      | false =>
        rw [List.filter_cons_of_pos (by simp [gap])] at values
        cases worth : operandValue t with
        | error e =>
          simp [Piece.evaluate, worth, Functor.map, Except.map, bind, Except.bind] at values
        | ok v =>
          simp [Piece.evaluate, worth, Functor.map, Except.map, bind, Except.bind, pure,
            Except.pure] at values
          subst values
          cases v with
          | bool value => rw [readBool?_of_operandValue worth, Option.isSome_some]
          | int | double | string => cases done

end Lone
end Condition

namespace Concatenation

variable {t s : Text} {literals : List (Text × Text)}

/-- Blanks, and the sign between two literals. -/
def isJoint (c : Char) : Bool :=
  isBlank c || c == '+'

theorem joint_of_trim {gap : Text} (trimmed : gap.trim.isEmpty = true ∨ gap.trim = ['+']) :
    ∀ c ∈ gap, isJoint c = true := by
  obtain ⟨before, after, same, blankBefore, blankAfter⟩ := gap.trim_between
  have inner : ∀ c ∈ gap.trim, isJoint c = true := by
    rcases trimmed with none | plus
    · simp [List.isEmpty_iff.mp none]
    · simp [plus, isJoint]
  rw [same]
  intro c member
  simp only [List.mem_append] at member
  rcases member with (blank | kept) | blank
  · simp [isJoint, blankBefore c blank]
  · exact inner c kept
  · simp [isJoint, blankAfter c blank]

theorem joint_of_join (done : join literals = .ok s)
    (trail : ∀ literal ∈ literals.getLast?, literal.2.trim.isEmpty = true) :
    ∀ literal ∈ literals, ∀ c ∈ literal.2, isJoint c = true := by
  induction literals generalizing s with
  | nil => exact List.forall_mem_nil _
  | cons literal more ih =>
    obtain ⟨contents, gap⟩ := literal
    cases more with
    | nil =>
      refine List.forall_mem_singleton.mpr ?_
      exact joint_of_trim (.inl (trail _ rfl))
    | cons next more =>
      rw [join] at done
      · split at done
        · rename_i plus
          obtain ⟨rest, joined, rfl⟩ := Error.ok_of_map done
          have later := ih joined (by simpa using trail)
          exact List.forall_mem_cons.mpr ⟨joint_of_trim (.inr (beq_iff_eq.mp plus)), later⟩
        · cases done
      · simp

/-- A string expression has a literal, and only blanks and plus signs around its literals. -/
theorem joint_of_evaluate (done : evaluate t = .ok s) :
    (Quoted.pieces t).2 ≠ [] ∧ (∀ c ∈ (Quoted.pieces t).1, isJoint c = true) ∧
      ∀ literal ∈ (Quoted.pieces t).2, ∀ c ∈ literal.2, isJoint c = true := by
  unfold evaluate at done
  dsimp only at done
  split at done
  · cases done
  · rename_i contents trail last
    split at done
    · rename_i blank
      rw [Bool.and_eq_true] at blank
      refine ⟨?_, joint_of_trim (.inl blank.1), joint_of_join done ?_⟩
      · intro none
        rw [none] at last
        cases last
      · rw [last]
        rintro _ ⟨⟩
        exact blank.2
    · cases done

theorem isSign_of_isJoint {c : Char} (joint : isJoint c = true) : Expr.isSign c = false := by
  rw [isJoint, Bool.or_eq_true, beq_iff_eq] at joint
  rcases joint with blank | rfl
  · exact Expr.isSign_of_isBlank blank
  · rfl

end Concatenation

namespace Expr

open StepScript.Group

variable {kind : Kind} {flat raw : Text} {v : Value}

theorem kind_of_evaluateFlat (done : evaluateFlat kind flat = .ok v) : v.kind = kind := by
  cases kind <;>
  · obtain ⟨_, _, rfl⟩ := Error.ok_of_map done
    rfl

theorem kind_of_evaluateText (done : evaluateText kind raw = .ok v) : v.kind = kind := by
  rw [evaluateText_eq] at done
  obtain ⟨_, _, worth⟩ := Error.ok_of_bind done
  exact kind_of_evaluateFlat worth

/-- A text that can be evaluated for a kind is evaluated for it as the contents of a group too. -/
theorem groupKind_of_evaluateFlat (paired : flat.Paired) (done : evaluateFlat kind flat = .ok v) :
    groupKind kind flat = kind := by
  cases kind with
  | int | double => rfl
  | bool =>
    obtain ⟨b, holds, _⟩ := Error.ok_of_map done
    rcases Condition.shown_of_evaluate holds with shown | word
    · simp [groupKind, Kind.isNumeric, shown]
    · simp [groupKind, Kind.isNumeric, word]
  | string =>
    obtain ⟨s, joined, _⟩ := Error.ok_of_map done
    obtain ⟨literals, lead, gaps⟩ := Concatenation.joint_of_evaluate joined
    have noCondition : hasCondition false flat = false := by
      refine hasCondition_of_pieces paired ?_ ?_
      · exact fun c member => Concatenation.isSign_of_isJoint (lead c member)
      · exact fun literal found c member =>
          Concatenation.isSign_of_isJoint (gaps literal found c member)
    have quote : '"' ∈ flat := by
      by_contra free
      rw [Quoted.pieces_of_free free] at literals
      exact literals rfl
    have noBool : readBool? flat.trim = none := by
      cases word : readBool? flat.trim with
      | none => rfl
      | some b =>
        have free : '"' ∉ flat.trim := not_mem_of_plain (Condition.plain_of_readBool? word).2 rfl
        have kept := contains_trim (d := '"') rfl flat
        simp [free, quote] at kept
    simp [groupKind, Kind.isNumeric, noCondition, noBool, quote]

/-- A literal is worth its value, also that of NaN: there is only one. -/
theorem evaluateFlat_literal (free : v.QuoteFree) : evaluateFlat v.kind v.literal = .ok v := by
  have literal : evaluateText v.kind v.literal = evaluateFlat v.kind v.literal := by
    rw [evaluateText_flatten_eq (v.flat_literal free), v.bare_literal.trim]
  cases v with
  | bool | int => exact literal.symm.trans (evaluateText_literal trivial)
  | string => exact literal.symm.trans (evaluateText_literal free)
  | double x =>
    cases number : Double.isNaN x with
    | false => exact literal.symm.trans (evaluateText_literal number)
    | true =>
      rw [Double.eq_nan number]
      decide

/-- A text that has a value leaves its literal when it stands in parentheses. -/
theorem flatten_parenthesised (done : evaluateText kind raw = .ok v) :
    flatten kind ('(' :: raw ++ [')']) = .ok v.literal := by
  have balanced := balanced_of_evaluateText done
  rw [evaluateText_balanced balanced] at done
  obtain ⟨flat, resolved, worth⟩ := Error.ok_of_bind done
  have isFlat := flat_of_flatten (balanced_of_trim balanced) resolved
  have kinds : groupKind kind flat = kind := by
    rw [← groupKind_trim]
    exact groupKind_of_evaluateFlat isFlat.trim.paired worth
  rw [flatten_group (balanced_of_trim balanced), resolved]
  change groupLiteral kind flat = _
  rw [groupLiteral, kinds, worth]
  rfl

end Expr

open StepScript.Expr in
/-- A text that has a value has the same value in parentheses, for every kind. -/
theorem outer_parentheses_are_redundant {kind : Kind} {text : Text} {v : Value}
    (done : evaluateText kind text = .ok v) :
    evaluateText kind ('(' :: text ++ [')']) = .ok v := by
  have balanced := balanced_of_trim (balanced_of_evaluateText done)
  have bare := Text.bare_group text
  have same := kind_of_evaluateText done
  rw [evaluateText_balanced (bare.trim.symm ▸ balanced.group), flatten_parenthesised done]
  change evaluateFlat kind v.literal.trim = .ok v
  rw [v.bare_literal.trim, ← same]
  exact evaluateFlat_literal (evaluateText_quoteFree done)

open StepScript.Expr in
/-- As a group the condition stays a Bool, although its first group is an Int and its second one a
String. -/
theorem parenthesised_condition_holds :
    let text := " (1 + 2) * 3 == 9 && (\"(\" + \"b\") == \"(b\" ".toList
    evaluateText .bool text = .ok (.bool true) ∧
      evaluateText .bool ('(' :: text ++ [')']) = .ok (.bool true) := by
  intro text
  have holds : evaluateText .bool text = .ok (.bool true) := by decide +kernel
  exact ⟨holds, outer_parentheses_are_redundant holds⟩

end StepScript
