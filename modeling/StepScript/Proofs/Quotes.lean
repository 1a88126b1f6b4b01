import Mathlib.Algebra.Group.Nat.Even
import Mathlib.Data.List.Induction
import StepScript.Text.Group

/-! Quotes in a text. Only their parity counts: it decides whether the text is accepted, and where
what follows it stands. Parentheses count outside literals only. -/
namespace StepScript

namespace Text

theorem width_append (left right : Text) :
    width (left ++ right) = width left + width right := by
  induction left with
  | nil => exact (Nat.zero_add _).symm
  | cons c left ih => rw [List.cons_append, width, ih, width, Nat.add_assoc]

theorem trimEnd_append (t : Text) :
    ∃ blanks, t = trimEnd t ++ blanks ∧ ∀ c ∈ blanks, isBlank c = true := by
  induction t with
  | nil => exact ⟨[], rfl, by simp⟩
  | cons c t ih =>
    obtain ⟨blanks, same, blank⟩ := ih
    unfold trimEnd
    split
    · rename_i gone
      rw [gone, List.nil_append] at same
      split
      · rename_i blankHead
        refine ⟨c :: blanks, by rw [← same]; rfl, ?_⟩
        intro d member
        rcases List.mem_cons.mp member with rfl | member
        · exact blankHead
        · exact blank d member
      · exact ⟨blanks, by rw [← same]; rfl, blank⟩
    · rename_i kept
      exact ⟨blanks, by rw [← kept, List.cons_append, ← same], blank⟩

/-- Trimming takes blanks off both ends and nothing else. -/
theorem trim_between (t : Text) :
    ∃ before after, t = before ++ trim t ++ after ∧ (∀ c ∈ before, isBlank c = true) ∧
      ∀ c ∈ after, isBlank c = true := by
  obtain ⟨after, same, blank⟩ := trimEnd_append (trimStart t)
  refine ⟨t.takeWhile isBlank, after, ?_, List.all_eq_true.mp List.all_takeWhile, blank⟩
  rw [List.append_assoc]
  change t = t.takeWhile isBlank ++ (trimEnd (trimStart t) ++ after)
  rw [← same]
  exact List.takeWhile_append_dropWhile.symm

theorem trimEnd_concat {c : Char} (blank : isBlank c = true) (t : Text) :
    trimEnd (t ++ [c]) = trimEnd t := by
  induction t with
  | nil => simp [trimEnd, blank]
  | cons d t ih => rw [List.cons_append, trimEnd, ih, trimEnd]

theorem trimEnd_of_last {t : Text} (last : ∀ c ∈ t.getLast?, isBlank c = false) :
    trimEnd t = t := by
  induction t with
  | nil => rfl
  | cons c t ih =>
    cases t with
    | nil => simp [trimEnd, last c rfl]
    | cons d t =>
      have rest : trimEnd (d :: t) = d :: t := ih (by simpa using last)
      rw [trimEnd, rest]

theorem trimStart_of_first {t : Text} (first : ∀ c ∈ t.head?, isBlank c = false) :
    trimStart t = t := by
  cases t with
  | nil => rfl
  | cons c t => simp [trimStart, first c rfl]

/-- A text that starts and ends without a blank has nothing to trim. -/
theorem trim_of_ends {t : Text} (first : ∀ c ∈ t.head?, isBlank c = false)
    (last : ∀ c ∈ t.getLast?, isBlank c = false) : trim t = t := by
  rw [trim, trimStart_of_first first, trimEnd_of_last last]

theorem last_trimEnd (t : Text) : ∀ c ∈ (trimEnd t).getLast?, isBlank c = false := by
  induction t with
  | nil => rintro _ ⟨⟩
  | cons c t ih =>
    unfold trimEnd
    split
    · split
      · rintro _ ⟨⟩
      · rename_i full
        rintro _ ⟨⟩
        simpa using full
    · rename_i kept
      rw [kept] at ih
      simpa using ih

theorem first_trim (t : Text) : ∀ c ∈ t.trim.head?, isBlank c = false := by
  rw [trim, trimStart]
  induction t with
  | nil => rintro _ ⟨⟩
  | cons c t ih =>
    rw [List.dropWhile_cons]
    split
    · exact ih
    · rename_i full
      unfold trimEnd
      split
      · rw [if_neg full]
        rintro _ ⟨⟩
        simpa using full
      · rintro _ ⟨⟩
        simpa using full

theorem trim_trim (t : Text) : t.trim.trim = t.trim :=
  trim_of_ends t.first_trim (last_trimEnd _)

/-- Blanks at the ends are trimmed away, whatever they are put around. -/
theorem trim_pad {left right : Text} (before : ∀ c ∈ left, isBlank c = true)
    (behind : ∀ c ∈ right, isBlank c = true) (t : Text) : trim (left ++ t ++ right) = trim t := by
  have start : trim (left ++ t ++ right) = trim (t ++ right) := by
    rw [trim, trimStart, List.append_assoc, List.dropWhile_append_of_pos before]
    rfl
  rw [start]
  clear start before
  -- The blanks behind the text go one by one, from the last.
  induction right using List.reverseRecOn with
  | nil => rw [List.append_nil]
  | append_singleton right c ih =>
    have blank : isBlank c = true := behind c (by simp)
    rw [← ih fun d member => behind d (by simp [member]), ← List.append_assoc]
    generalize t ++ right = u
    rw [trim, trim, trimStart, trimStart, List.dropWhile_append]
    split
    · rename_i blanks
      rw [List.isEmpty_iff.mp blanks]
      simp [blank, trimEnd]
    · exact trimEnd_concat blank _

end Text

namespace Quoted

variable {inside : Bool} {t : Text}

/-- Whether what follows the text lies inside a literal. -/
def after (inside : Bool) (t : Text) : Bool :=
  t.foldl step inside

@[simp] theorem after_nil (inside : Bool) : after inside [] = inside := rfl

@[simp] theorem after_cons (inside : Bool) (c : Char) (t : Text) :
    after inside (c :: t) = after (step inside c) t := rfl

@[simp] theorem after_append (inside : Bool) (left right : Text) :
    after inside (left ++ right) = after (after inside left) right :=
  List.foldl_append

theorem step_of_ne {c : Char} (other : c ≠ '"') : step inside c = inside := by
  rw [step, beq_false_of_ne other, Bool.bne_false]

theorem after_of_free (free : '"' ∉ t) : after inside t = inside := by
  induction t with
  | nil => rfl
  | cons c t ih =>
    rw [List.mem_cons, not_or] at free
    rw [after_cons, step_of_ne (Ne.symm free.1), ih free.2]

/-- What follows a text lies where the text started if its quotes are even in number. -/
theorem after_eq_iff_even (inside : Bool) (t : Text) :
    after inside t = inside ↔ Even (t.count '"') := by
  induction t generalizing inside with
  | nil => simp
  | cons c t ih =>
    rw [after_cons]
    by_cases quote : c = '"'
    · subst quote
      rw [List.count_cons_self, Nat.even_add_one, ← ih (step inside '"')]
      cases inside <;> cases after _ t <;> decide
    · rw [step_of_ne quote, List.count_cons_of_ne quote]
      exact ih inside

theorem after_trim (inside : Bool) (t : Text) : after inside t.trim = after inside t := by
  obtain ⟨before, rest, same, left, right⟩ := t.trim_between
  have free : ∀ blanks : Text, (∀ c ∈ blanks, isBlank c = true) → '"' ∉ blanks := by
    intro blanks blank member
    exact absurd (blank _ member) (by decide)
  conv => rhs; rw [same]
  rw [after_append, after_append, after_of_free (free before left), after_of_free (free rest right)]

theorem after_literal {s : Text} (free : '"' ∉ s) (inside : Bool) :
    after inside ('"' :: s ++ ['"']) = inside := by
  rw [List.cons_append, after_cons, after_append, after_of_free free]
  cases inside with
  | true => rfl
  | false => rfl

theorem splitWhere_of_free (free : '"' ∉ t) : splitWhere (· == '"') t = [t] := by
  induction t with
  | nil => rfl
  | cons c t ih =>
    rw [List.mem_cons, not_or] at free
    rw [splitWhere, ih free.2]
    simp [Ne.symm free.1]

theorem mapLiterals_of_free (free : '"' ∉ t) (f : Text → Text) : mapLiterals f t = t := by
  simp [mapLiterals, pieces, splitWhere_of_free free, pairs]

theorem spansFrom_ok (pos : Nat) (opening? : Option Nat) (t : Text) :
    (∃ spans, spansFrom pos opening? t = .ok spans) ↔ after opening?.isSome t = false := by
  induction t generalizing pos opening? with
  | nil => cases opening? <;> simp [spansFrom]
  | cons c t ih =>
    rw [after_cons]
    cases opening? with
    | none =>
      rw [spansFrom, ih]
      by_cases quote : c = '"'
      · simp [step, quote]
      · rw [step_of_ne quote, beq_false_of_ne quote]
        rfl
    | some opening =>
      by_cases quote : c = '"'
      · subst quote
        have closed := ih (pos + '"'.utf8Size) none
        simp only [Option.isSome_none] at closed
        simp only [spansFrom, beq_self_eq_true, if_true, Option.isSome_some, step]
        rw [show (true != true) = false from rfl, ← closed]
        cases spansFrom (pos + '"'.utf8Size) none t <;> simp [Functor.map, Except.map]
      · simp only [spansFrom, beq_iff_eq, quote, if_false]
        rw [ih, step_of_ne quote]

/-- A text is accepted if its quotes are paired. -/
theorem check_ok : check t = .ok () ↔ after false t = false := by
  have spans := spansFrom_ok 0 none t
  rw [Option.isSome_none] at spans
  rw [← spans, check, Quoted.spans]
  cases spansFrom 0 none t <;> simp [Functor.map, Except.map]

end Quoted

namespace Group

variable {inside : Bool} {t : Text}

/-- No parenthesis of the text stands outside a literal. -/
def NoneOpen : Bool → Text → Prop
  | _, [] => True
  | inside, c :: t => (inside = true ∨ c ≠ '(' ∧ c ≠ ')') ∧ NoneOpen (Quoted.step inside c) t

theorem noneOpen_of_free (opening : '(' ∉ t) (closing : ')' ∉ t) : NoneOpen inside t := by
  induction t generalizing inside with
  | nil => trivial
  | cons c t ih =>
    rw [List.mem_cons, not_or] at opening closing
    exact ⟨.inr ⟨Ne.symm opening.1, Ne.symm closing.1⟩, ih opening.2 closing.2⟩

/-- Whatever a literal contains is not seen. -/
theorem noneOpen_literal {s : Text} (free : '"' ∉ s) : NoneOpen false ('"' :: s ++ ['"']) := by
  refine ⟨.inr (by decide), ?_⟩
  change NoneOpen true (s ++ ['"'])
  induction s with
  | nil => exact ⟨.inl rfl, trivial⟩
  | cons c s ih =>
    rw [List.mem_cons, not_or] at free
    refine ⟨.inl rfl, ?_⟩
    rw [Quoted.step_of_ne (Ne.symm free.1)]
    exact ih free.2

/-- Text without parentheses is passed over. -/
theorem spansFrom_of_noneOpen (none : NoneOpen inside t) (pos : Nat) (stack : List Nat)
    (rest : Text) :
    spansFrom pos inside stack (t ++ rest) =
      spansFrom (pos + t.width) (Quoted.after inside t) stack rest := by
  induction t generalizing inside pos with
  | nil => rfl
  | cons c t ih =>
    obtain ⟨here, later⟩ := none
    rw [Text.width, Quoted.after_cons, ← Nat.add_assoc, ← ih later, List.cons_append]
    rcases here with rfl | ⟨opening, closing⟩
    · rfl
    · simp [spansFrom, opening, closing]

theorem splitLastOpen_noneOpen (none : NoneOpen inside t) : splitLastOpen inside t = .none := by
  induction t generalizing inside with
  | nil => rfl
  | cons c t ih =>
    obtain ⟨here, rest⟩ := none
    rw [splitLastOpen, ih rest]
    rcases here with rfl | ⟨opening, closing⟩
    · rfl
    · simp [opening]

theorem check_noneOpen (none : NoneOpen false t) : check t = .ok () := by
  have passed := spansFrom_of_noneOpen none 0 [] []
  rw [List.append_nil] at passed
  rw [check, spans, passed]
  rfl

theorem last?_noneOpen (none : NoneOpen false t) : last? t = .none := by
  rw [last?, splitLastOpen_noneOpen none]
  rfl

end Group
end StepScript
