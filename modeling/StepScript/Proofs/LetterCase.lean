import StepScript.Proofs.Literal

/-! Letter case. What reads a text for its separators, its numbers or its keywords takes a text in
lower case as it takes the text itself. -/
namespace StepScript

section Letters

variable {c d : Char}

theorem isPlain_of_isAlpha (letter : c.isAlpha = true) : isPlain c = true := by
  simp [isPlain, isNameChar, Char.isAlphanum, letter]

/-- What treats all letters alike does not see their case. -/
theorem apply_toLower {β : Type} {p : Char → β} {b : β}
    (letters : ∀ c, c.isAlpha = true → p c = b) (c : Char) : p c.toLower = p c := by
  cases upper : c.isUpper with
  | false => rw [Char.toLower_eq_of_not_isUpper (by simp [upper])]
  | true =>
    have letter : c.isAlpha = true := by simp [Char.isAlpha, upper]
    rw [letters c.toLower (by simp [letter]), letters c letter]

theorem toLower_beq (other : d.isAlpha = false) (c : Char) : (c.toLower == d) = (c == d) := by
  refine apply_toLower (p := (· == d)) (b := false) ?_ c
  intro c letter
  refine beq_false_of_ne ?_
  rintro rfl
  rw [letter] at other
  cases other

theorem toLower_eq_iff (other : d.isAlpha = false) : c.toLower = d ↔ c = d := by
  rw [← beq_iff_eq, toLower_beq other, beq_iff_eq]

@[simp] theorem isBlank_toLower (c : Char) : isBlank c.toLower = isBlank c :=
  apply_toLower (p := isBlank) (fun _ letter => isBlank_of_isPlain (isPlain_of_isAlpha letter)) c

@[simp] theorem isGap_toLower (c : Char) : isGap c.toLower = isGap c :=
  apply_toLower (p := isGap) (fun _ letter => isGap_of_isPlain (isPlain_of_isAlpha letter)) c

@[simp] theorem isNameChar_toLower (c : Char) : isNameChar c.toLower = isNameChar c :=
  apply_toLower (p := isNameChar) (b := true)
    (fun _ letter => by simp [isNameChar, Char.isAlphanum, letter]) c

@[simp] theorem utf8Size_toLower (c : Char) : c.toLower.utf8Size = c.utf8Size := by
  refine apply_toLower (p := Char.utf8Size) (b := 1) ?_ c
  intro c letter
  have bounds := isPlain_bounds (isPlain_of_isAlpha letter)
  refine Char.utf8Size_eq_one_iff.mpr ?_
  rw [UInt32.le_iff_toNat_le]
  exact Nat.le_trans bounds.2 (by decide)

@[simp] theorem isDigit_toLower (c : Char) : c.toLower.isDigit = c.isDigit := by
  refine apply_toLower (p := Char.isDigit) (b := false) ?_ c
  intro c letter
  have letters : 'A'.val.toNat = 65 ∧ 'Z'.val.toNat = 90 ∧ 'a'.val.toNat = 97 ∧
      'z'.val.toNat = 122 ∧ '0'.val.toNat = 48 ∧ '9'.val.toNat = 57 := by decide
  simp only [Char.isAlpha, Char.isUpper, Char.isLower, Bool.or_eq_true, Bool.and_eq_true,
    decide_eq_true_eq, ge_iff_le, UInt32.le_iff_toNat_le] at letter
  simp only [Char.isDigit, Bool.and_eq_false_iff, decide_eq_false_iff_not, ge_iff_le,
    UInt32.le_iff_toNat_le]
  omega

/-- The letter before an exponent. -/
theorem toLower_exponent (c : Char) :
    (c.toLower == 'e' || c.toLower == 'E') = (c == 'e' || c == 'E') := by
  cases upper : c.isUpper with
  | false => rw [Char.toLower_eq_of_not_isUpper (by simp [upper])]
  | true =>
    have back : c.toLower.toUpper = c := by
      rw [Char.toUpper_toLower_eq_toUpper,
        Char.toUpper_eq_of_not_isLower (Char.not_isLower_of_isUpper upper)]
    rw [Bool.eq_iff_iff, Bool.or_eq_true, Bool.or_eq_true, beq_iff_eq, beq_iff_eq, beq_iff_eq,
      beq_iff_eq]
    constructor
    · rintro (small | big)
      · rw [small] at back
        exact .inr back.symm
      · have small := c.isUpper_toLower_eq_false
        rw [big] at small
        cases small
    · rintro (rfl | rfl)
      · cases upper
      · exact .inl rfl

end Letters

/-- Separators that `f` does not move cut the mapped list where they cut the list. -/
theorem splitWhere_map {α : Type} {p : α → Bool} {f : α → α} (blind : ∀ a, p (f a) = p a)
    (as : List α) : splitWhere p (as.map f) = (splitWhere p as).map (List.map f) := by
  induction as with
  | nil => rfl
  | cons a as ih =>
    rw [List.map_cons, splitWhere, blind, ih, splitWhere]
    split
    · rfl
    · cases splitWhere p as with
      | nil => rfl
      | cons piece pieces => rfl

namespace Text

variable {d : Char}

@[simp] theorem lower_nil : lower [] = [] := rfl

@[simp] theorem lower_cons (c : Char) (t : Text) : lower (c :: t) = c.toLower :: lower t := rfl

@[simp] theorem lower_append (left right : Text) :
    lower (left ++ right) = lower left ++ lower right :=
  List.map_append

@[simp] theorem lower_lower (t : Text) : lower (lower t) = lower t := by
  simp [lower]

@[simp] theorem isEmpty_lower (t : Text) : (lower t).isEmpty = t.isEmpty := by
  cases t <;> rfl

@[simp] theorem width_lower (t : Text) : width (lower t) = width t := by
  induction t with
  | nil => rfl
  | cons c t ih => simp [width, ih]

@[simp] theorem sameWord_lower (word t : Text) : sameWord word (lower t) = sameWord word t := by
  simp [sameWord]

@[simp] theorem lower_sameWord (t word : Text) : sameWord (lower t) word = sameWord t word := by
  simp [sameWord]

theorem lower_eq_singleton {t : Text} (other : d.isAlpha = false) : lower t = [d] ↔ t = [d] := by
  cases t with
  | nil => simp
  | cons c t =>
    cases t with
    | nil => simp [toLower_eq_iff other]
    | cons e t => simp

theorem contains_lower (other : d.isAlpha = false) (t : Text) :
    (lower t).contains d = t.contains d := by
  induction t with
  | nil => rfl
  | cons c t ih =>
    rw [lower_cons, List.contains_cons, List.contains_cons, ih, Bool.beq_comm, toLower_beq other,
      Bool.beq_comm]

theorem count_lower (other : d.isAlpha = false) (t : Text) : (lower t).count d = t.count d := by
  induction t with
  | nil => rfl
  | cons c t ih => rw [lower_cons, List.count_cons, List.count_cons, ih, toLower_beq other]

theorem trimStart_lower (t : Text) : trimStart (lower t) = lower (trimStart t) := by
  induction t with
  | nil => rfl
  | cons c t ih =>
    cases blank : isBlank c with
    | true => simpa [trimStart, blank] using ih
    | false => simp [trimStart, blank]

theorem trimEnd_lower (t : Text) : trimEnd (lower t) = lower (trimEnd t) := by
  induction t with
  | nil => rfl
  | cons c t ih =>
    rw [lower_cons, trimEnd, ih, trimEnd]
    cases trimEnd t with
    | nil => cases blank : isBlank c <;> simp [blank]
    | cons d u => rfl

@[simp] theorem trim_lower (t : Text) : trim (lower t) = lower (trim t) := by
  rw [trim, trimStart_lower, trimEnd_lower, trim]

theorem words_lower (t : Text) : words (lower t) = (words t).map lower := by
  rw [words, lower, splitWhere_map isBlank_toLower, List.filter_map, words]
  congr 2
  funext piece
  simp

end Text

section Numbers

theorem readBool?_lower (t : Text) : readBool? t.lower = readBool? t := by
  simp [readBool?]

namespace Decimal

theorem splitSign_lower (t : Text) :
    splitSign t.lower = ((splitSign t).1, (splitSign t).2.lower) := by
  cases t with
  | nil => rfl
  | cons c t =>
    by_cases minus : c = '-'
    · subst minus
      rfl
    · by_cases plus : c = '+'
      · subst plus
        rfl
      · have minus' : c.toLower ≠ '-' := fun same => minus ((toLower_eq_iff (by decide)).mp same)
        have plus' : c.toLower ≠ '+' := fun same => plus ((toLower_eq_iff (by decide)).mp same)
        simp [splitSign, minus, plus, minus', plus']

theorem lower_of_digits {t : Text} (digits : ∀ c ∈ t, c.isDigit = true) : t.lower = t :=
  (List.map_congr_left fun c member => toLower_of_isDigit (digits c member)).trans (List.map_id t)

theorem readInteger?_lower (t : Text) : readInteger? t.lower = readInteger? t := by
  have numeral : ∀ digits : Text, isNumeral digits.lower = isNumeral digits := by
    intro digits
    simp [isNumeral, Text.lower, List.all_map, Function.comp_def]
  simp only [readInteger?, splitSign_lower, numeral]
  split
  · rename_i digits
    simp only [isNumeral, Bool.and_eq_true, List.all_eq_true] at digits
    rw [lower_of_digits digits.2]
  · rfl

theorem readInt?_lower (t : Text) : readInt? t.lower = readInt? t := by
  rw [readInt?, readInteger?_lower, readInt?]

theorem readExponent?_lower (t : Text) : readExponent? t.lower = readExponent? t := by
  cases t with
  | nil => rfl
  | cons c t =>
    rw [Text.lower_cons, readExponent?, toLower_exponent, readInteger?_lower, readExponent?]

theorem takeWhile_isDigit_lower (t : Text) :
    t.lower.takeWhile Char.isDigit = t.takeWhile Char.isDigit := by
  induction t with
  | nil => rfl
  | cons c t ih =>
    cases digit : c.isDigit with
    | true => simp [digit, ih, toLower_of_isDigit digit]
    | false => simp [digit]

theorem dropWhile_isDigit_lower (t : Text) :
    t.lower.dropWhile Char.isDigit = Text.lower (t.dropWhile Char.isDigit) := by
  induction t with
  | nil => rfl
  | cons c t ih =>
    cases digit : c.isDigit with
    | true => simp [digit, ih]
    | false => simp [digit]

theorem read?_lower (t : Text) : read? t.lower = read? t := by
  simp only [read?, takeWhile_isDigit_lower, dropWhile_isDigit_lower]
  cases t.dropWhile Char.isDigit with
  | nil => rfl
  | cons c rest =>
    by_cases point : c = '.'
    · subst point
      have same : ('.' : Char).toLower = '.' := rfl
      simp only [Text.lower_cons, same, takeWhile_isDigit_lower, dropWhile_isDigit_lower,
        readExponent?_lower]
    · have point' : c.toLower ≠ '.' := fun same => point ((toLower_eq_iff (by decide)).mp same)
      have exponent := readExponent?_lower (c :: rest)
      simp only [Text.lower_cons] at exponent
      simp [point, point', exponent]

end Decimal

theorem Double.read?_lower (t : Text) : Double.read? t.lower = Double.read? t := by
  simp only [Double.read?, Decimal.splitSign_lower, Text.lower_sameWord, Decimal.read?_lower]

theorem readIntOrZero_lower (t : Text) : readIntOrZero t.lower = readIntOrZero t := by
  simp only [readIntOrZero, Text.trim_lower, Decimal.readInt?_lower, Double.read?_lower]

theorem readDoubleOrZero_lower (t : Text) : readDoubleOrZero t.lower = readDoubleOrZero t := by
  simp only [readDoubleOrZero, Text.trim_lower, Double.read?_lower]

end Numbers

namespace Quoted

@[simp] theorem step_toLower (inside : Bool) (c : Char) :
    step inside c.toLower = step inside c := by
  rw [step, toLower_beq (by decide), step]

@[simp] theorem after_lower (inside : Bool) (t : Text) : after inside t.lower = after inside t := by
  induction t generalizing inside with
  | nil => rfl
  | cons c t ih => rw [Text.lower_cons, after_cons, step_toLower, ih, after_cons]

theorem spansFrom_lower (pos : Nat) (opening? : Option Nat) (t : Text) :
    spansFrom pos opening? t.lower = spansFrom pos opening? t := by
  induction t generalizing pos opening? with
  | nil => rfl
  | cons c t ih =>
    cases opening? with
    | none =>
      simp (disch := decide) only [Text.lower_cons, spansFrom, toLower_beq, utf8Size_toLower, ih]
    | some opening =>
      simp (disch := decide) only [Text.lower_cons, spansFrom, toLower_beq, utf8Size_toLower, ih]

theorem check_lower (t : Text) : check t.lower = check t := by
  rw [check, spans, spansFrom_lower, check, spans]

end Quoted

theorem Group.spansFrom_lower (pos : Nat) (inside : Bool) (stack : List Nat) (t : Text) :
    spansFrom pos inside stack t.lower = spansFrom pos inside stack t := by
  induction t generalizing pos inside stack with
  | nil => rfl
  | cons c t ih =>
    simp (disch := decide) only [Text.lower_cons, spansFrom, toLower_beq, utf8Size_toLower,
      Quoted.step_toLower, ih]

/-- The lexeme in lower case. -/
def Lexeme.lower {κ : Type} (l : Lexeme κ) : Lexeme κ :=
  { l with text := l.text.lower }

namespace Arithmetic

variable {α : Type} {domain : Domain α}

@[simp] theorem Operator.ofChar?_toLower (c : Char) :
    Operator.ofChar? c.toLower = Operator.ofChar? c :=
  apply_toLower (p := Operator.ofChar?)
    (fun _ letter => ofChar?_of_isPlain (isPlain_of_isAlpha letter)) c

theorem scan_lower (t : Text) : scan t.lower = (scan t).map Lexeme.lower := by
  induction t with
  | nil => rfl
  | cons c t ih =>
    rw [Text.lower_cons, scan, isGap_toLower, Operator.ofChar?_toLower, ih, scan]
    split
    · rfl
    · split
      · rfl
      · cases scan t with
        | nil => rfl
        | cons first more =>
          obtain ⟨kind, text⟩ := first
          cases kind <;> rfl

theorem tokens_lower (t : Text) : tokens t.lower = (tokens t).map Lexeme.lower := by
  rw [tokens, scan_lower, List.filter_map, tokens]
  rfl

theorem chain?_lower (blind : ∀ t, domain.read t.lower = domain.read t) (negative : Bool)
    (tokens : List (Lexeme Token)) :
    chain? domain negative (tokens.map Lexeme.lower) = chain? domain negative tokens := by
  -- A minus sign before an operand has no case, so it may go in before or after lowering.
  have reads : ∀ (negative : Bool) (text : Text),
      domain.read (if negative then '-' :: text.lower else text.lower) =
        domain.read (if negative then '-' :: text else text) := by
    intro negative text
    cases negative with
    | false => exact blind text
    | true => exact blind ('-' :: text)
  fun_induction chain? domain negative tokens with
  | case1 => rfl
  | case2 => rfl
  | case3 negative text more ih => simpa [Lexeme.lower, chain?] using ih
  | case4 negative op text more other => simp [Lexeme.lower, chain?, other]
  | case5 negative text value => simpa [Lexeme.lower, chain?] using reads negative text
  | case6 negative text value op sign rest ih =>
    simp only [List.map_cons, Lexeme.lower, chain?, reads] at ih ⊢
    rw [ih]
  | case7 negative text more nonempty unsigned =>
    cases more with
    | nil => exact absurd rfl nonempty
    | cons first rest =>
      obtain ⟨kind, sign⟩ := first
      cases kind with
      | operator op => exact absurd rfl (unsigned op sign rest)
      | operand | gap => rfl

/-- The text as arithmetic without literals, which does not see the case of letters. -/
theorem tokens_lower_reads (blind : ∀ t, domain.read t.lower = domain.read t) (t : Text) :
    chain? domain false (tokens t.lower) = chain? domain false (tokens t) ∧
      countError (tokens t.lower) = countError (tokens t) := by
  rw [tokens_lower]
  constructor
  · exact chain?_lower blind false _
  · simp only [countError, List.countP_map]
    rfl

end Arithmetic

end StepScript
