import StepScript.Proofs.Parentheses

/-! String expressions. A tree of literals is worth its contents from left to right, however it is
written with plus signs, parentheses and blanks. A text without groups has a value only if it is a
chain of literals with one plus sign between neighbours; every other one is refused for the first
thing that is wrong with it. -/
namespace StepScript

open StepScript.Group

instance Group.decidableNoneOpen (inside : Bool) (t : Text) : Decidable (NoneOpen inside t) :=
  match t with
  | [] => .isTrue trivial
  | c :: t =>
    have := decidableNoneOpen (Quoted.step inside c) t
    inferInstanceAs (Decidable (_ ∧ _))

namespace Quoted

variable {t before rest : Text} {pos : Nat} {opening? : Option Nat}

theorem spansFrom_append_of_free (free : '"' ∉ t) (pos : Nat) (opening? : Option Nat)
    (rest : Text) :
    spansFrom pos opening? (t ++ rest) = spansFrom (pos + t.width) opening? rest := by
  induction t generalizing pos with
  | nil => rfl
  | cons c t ih =>
    rw [List.mem_cons, not_or] at free
    rw [Text.width, ← Nat.add_assoc, ← ih free.2]
    cases opening? <;> simp [spansFrom, Ne.symm free.1]

theorem spansFrom_open (free : '"' ∉ rest) (pos opening : Nat) :
    spansFrom pos (some opening) rest = .error (.unterminatedString (opening + 1)) := by
  have passed := spansFrom_append_of_free free pos (some opening) []
  rw [List.append_nil] at passed
  exact passed

/-- The quote without a partner is the last one. -/
theorem spansFrom_unterminated (paired : after opening?.isSome before = false)
    (free : '"' ∉ rest) :
    spansFrom pos opening? (before ++ '"' :: rest) =
      .error (.unterminatedString (pos + before.width + 1)) := by
  induction before generalizing pos opening? with
  | nil =>
    cases opening? with
    | none => exact spansFrom_open free _ pos
    | some opening => cases paired
  | cons c before ih =>
    rw [after_cons] at paired
    rw [Text.width, ← Nat.add_assoc, List.cons_append]
    cases opening? with
    | none =>
      rw [spansFrom]
      refine ih (Eq.trans ?_ paired)
      by_cases quote : c = '"'
      · simp [quote, step]
      · simp [quote, step_of_ne quote]
    | some opening =>
      by_cases quote : c = '"'
      · rw [spansFrom, if_pos (by simpa using quote), ih (by simpa [quote, step] using paired)]
        rfl
      · rw [spansFrom, if_neg (by simpa using quote)]
        exact ih (by simpa [step_of_ne quote] using paired)

theorem check_unterminated (paired : before.Paired) (free : '"' ∉ rest) :
    check (before ++ '"' :: rest) = .error (.unterminatedString (before.width + 1)) := by
  have opened : spansFrom 0 none (before ++ '"' :: rest) = _ :=
    spansFrom_unterminated paired free
  rw [check, spans, opened, Nat.zero_add]
  rfl

/-- Before the last quote of a text the quotes are paired, or all of them are. -/
theorem paired_or_unterminated (t : Text) :
    t.Paired ∨ ∃ before rest, t = before ++ '"' :: rest ∧ before.Paired ∧ '"' ∉ rest := by
  by_cases quote : '"' ∈ t
  · obtain ⟨rest, before, mirrored, free⟩ := List.eq_append_cons_of_mem (List.mem_reverse.mpr quote)
    have whole : t = before.reverse ++ '"' :: rest.reverse := by
      rw [← t.reverse_reverse, mirrored]
      simp
    have restFree : '"' ∉ rest.reverse := by simpa using free
    cases outside : after false before.reverse with
    | false => exact .inr ⟨_, _, whole, outside, restFree⟩
    | true =>
      refine .inl ?_
      rw [Text.Paired, whole, after_append, outside, after_cons, after_of_free restFree]
      rfl
  · exact .inl (after_of_free quote)

/-- No quote stands before the first literal, and none behind the last one. -/
theorem pieces_ends (paired : t.Paired) (quote : '"' ∈ t) :
    ('"' ∉ (pieces t).1 ∧ ∃ more, t = (pieces t).1 ++ '"' :: more) ∧
      ∃ u s trail, (pieces t).2.getLast? = some (s, trail) ∧ t = u ++ '"' :: trail ∧
        '"' ∉ trail := by
  induction paired using Text.Paired.literal_induction with
  | free t free => exact absurd quote free
  | literal lead s rest paired whole leadFree free ih =>
    rw [pieces_append_of_free leadFree, pieces_literal free]
    refine ⟨⟨by simpa using leadFree, s ++ '"' :: rest, by simp⟩, ?_⟩
    by_cases more : '"' ∈ rest
    · obtain ⟨_, u, s', trail, last, same, trailFree⟩ := ih more
      refine ⟨lead ++ ('"' :: s ++ ['"'] ++ u), s', trail, ?_, ?_, trailFree⟩
      · rw [List.getLast?_cons, last]
        rfl
      · conv => lhs; rw [same]
        simp
    · rw [pieces_of_free more]
      exact ⟨lead ++ '"' :: s, s, rest, rfl, by simp, more⟩

end Quoted

namespace Concatenation

open StepScript.Quoted

section Chains

variable {t u s contents gap more before after : Text}

/-- Literals with one plus sign and blanks between neighbours, and what they join to. -/
inductive Chain : Text → Text → Prop where
  | literal {s : Text} (free : '"' ∉ s) : Chain ('"' :: s ++ ['"']) s
  | cons {s before after t contents : Text} (free : '"' ∉ s)
      (blankBefore : ∀ c ∈ before, isBlank c = true) (blankAfter : ∀ c ∈ after, isBlank c = true)
      (more : Chain t contents) :
      Chain ('"' :: s ++ ['"'] ++ (before ++ '+' :: after) ++ t) (s ++ contents)

theorem trim_plus (blankBefore : ∀ c ∈ before, isBlank c = true)
    (blankAfter : ∀ c ∈ after, isBlank c = true) : Text.trim (before ++ '+' :: after) = ['+'] := by
  have padded := Text.trim_pad blankBefore blankAfter ['+']
  rwa [List.append_assoc] at padded

theorem flat_plus (blankBefore : ∀ c ∈ before, isBlank c = true)
    (blankAfter : ∀ c ∈ after, isBlank c = true) : Flat (before ++ '+' :: after) := by
  have plus : Flat ['+'] := Arithmetic.Operator.flat_symbol .add
  simpa using (flat_of_blank blankBefore).append (plus.append (flat_of_blank blankAfter))

theorem free_plus (blankBefore : ∀ c ∈ before, isBlank c = true)
    (blankAfter : ∀ c ∈ after, isBlank c = true) : '"' ∉ before ++ '+' :: after := by
  have free : ∀ t : Text, (∀ c ∈ t, isBlank c = true) → '"' ∉ t := fun t blank member =>
    absurd (blank _ member) (by decide)
  simp [free before blankBefore, free after blankAfter]

theorem Chain.free (chain : Chain t s) : '"' ∉ s := by
  induction chain with
  | literal free => exact free
  | cons free _ _ _ ih => simp [free, ih]

theorem Chain.flat (chain : Chain t s) : Flat t := by
  induction chain with
  | literal free => exact flat_quoted free
  | cons free blankBefore blankAfter _ ih =>
    exact ((flat_quoted free).append (flat_plus blankBefore blankAfter)).append ih

theorem Chain.begins (chain : Chain t s) : ∃ rest, t = '"' :: rest := by
  cases chain with
  | literal => exact ⟨_, rfl⟩
  | cons => exact ⟨_, rfl⟩

theorem Chain.ends (chain : Chain t s) : t.getLast? = some '"' := by
  induction chain with
  | literal => exact List.getLast?_concat
  | cons _ _ _ _ ih => rw [List.getLast?_append, ih]; rfl

theorem Chain.append (left : Chain t s) (blankBefore : ∀ c ∈ before, isBlank c = true)
    (blankAfter : ∀ c ∈ after, isBlank c = true) (right : Chain u contents) :
    Chain (t ++ (before ++ '+' :: after) ++ u) (s ++ contents) := by
  induction left with
  | literal free => exact .cons free blankBefore blankAfter right
  | cons free blankLeft blankRight _ ih => simpa using Chain.cons free blankLeft blankRight ih

theorem join_plus (plus : gap.trim = ['+']) {entry : Text × Text} {entries : List (Text × Text)} :
    join ((s, gap) :: entry :: entries) = (s ++ ·) <$> join (entry :: entries) := by
  simp [join, plus]

theorem join_other (other : gap.trim ≠ ['+']) {entry : Text × Text}
    {entries : List (Text × Text)} :
    join ((s, gap) :: entry :: entries) = .error (.unsupportedStringOperator gap.trim) := by
  simp [join, other]

/-- The literals of a chain and of whatever stands behind it; up to the last one of the chain they
are joined. -/
theorem Chain.pieces (chain : Chain u s) : ∃ front lead last, s = lead ++ last ∧
    (∀ w, Quoted.pieces (u ++ w) =
      ([], front ++ (last, (Quoted.pieces w).1) :: (Quoted.pieces w).2)) ∧
    ∀ gap entries,
      join (front ++ (last, gap) :: entries) = (lead ++ ·) <$> join ((last, gap) :: entries) := by
  induction chain with
  | @literal s free =>
    refine ⟨[], [], s, rfl, fun w => pieces_literal free w, fun gap entries => ?_⟩
    exact (id_map _).symm
  | @cons s before after t contents free blankBefore blankAfter _ ih =>
    obtain ⟨front, lead, last, rfl, cut, joined⟩ := ih
    refine ⟨(s, before ++ '+' :: after) :: front, s ++ lead, last, by simp, fun w => ?_,
      fun gap entries => ?_⟩
    · rw [List.append_assoc, List.append_assoc, pieces_literal free,
        pieces_append_of_free (free_plus blankBefore blankAfter), cut]
      simp
    · have nonempty : front ++ (last, gap) :: entries ≠ [] := by simp
      obtain ⟨entry, others, same⟩ := List.exists_cons_of_ne_nil nonempty
      rw [List.cons_append, same, join_plus (trim_plus blankBefore blankAfter), ← same, joined,
        Functor.map_map]
      simp

end Chains

section Ends

variable {t u s gap more : Text}

/-- The text begins and ends with a quote. -/
def Enclosed (t : Text) : Prop :=
  t.head? = some '"' ∧ t.getLast? = some '"'

theorem getLast?_behind (u t : Text) (c : Char) :
    (u ++ c :: t).getLast? = some (t.getLast?.getD c) := by
  rw [List.getLast?_append, List.getLast?_cons]
  rfl

/-- Between quotes at both ends nothing but the joining can fail. -/
theorem evaluate_enclosed (paired : t.Paired) (enclosed : Enclosed t) :
    evaluate t = join (Quoted.pieces t).2 := by
  obtain ⟨begins, ends⟩ := enclosed
  have quote : '"' ∈ t := List.mem_of_getLast? ends
  obtain ⟨⟨leadFree, rest, first⟩, u, s, trail, last, same, trailFree⟩ := pieces_ends paired quote
  have noLead : (Quoted.pieces t).1 = [] := by
    cases lead : (Quoted.pieces t).1 with
    | nil => rfl
    | cons c others =>
      rw [lead] at leadFree first
      rw [first] at begins
      cases begins
      exact absurd List.mem_cons_self leadFree
  have noTrail : trail = [] := by
    cases final : trail.getLast? with
    | none => exact List.getLast?_eq_none_iff.mp final
    | some c =>
      rw [same, getLast?_behind, final] at ends
      cases ends
      exact absurd (List.mem_of_getLast? final) trailFree
  simp [evaluate, noLead, last, noTrail, Text.trim, Text.trimStart, Text.trimEnd]

/-- Where one of the quotes at the ends is missing, a string is expected. -/
theorem evaluate_bare (paired : t.Paired) (trimmed : t.trim = t) (bare : ¬ Enclosed t) :
    evaluate t = .error (.expectedString t) := by
  by_cases quote : '"' ∈ t
  · obtain ⟨⟨_, rest, first⟩, u, s, trail, last, same, _⟩ := pieces_ends paired quote
    have blanks : ¬ ((Quoted.pieces t).1.trim = [] ∧ trail.trim = []) := by
      rintro ⟨blankLead, blankTrail⟩
      obtain ⟨firstFull, lastFull⟩ := Text.trim_eq_iff.mp trimmed
      refine bare ⟨?_, ?_⟩
      · cases lead : (Quoted.pieces t).1 with
        | nil => rw [first, lead]; rfl
        | cons c others =>
          have blank : isBlank c = true := Text.blank_of_trim blankLead c (by simp [lead])
          have full : isBlank c = false := firstFull c (by rw [first, lead]; rfl)
          rw [blank] at full
          cases full
      · cases final : trail.getLast? with
        | none => rw [same, getLast?_behind, final]; rfl
        | some c =>
          have member : c ∈ trail := List.mem_of_getLast? final
          have blank : isBlank c = true := Text.blank_of_trim blankTrail c member
          have full : isBlank c = false := lastFull c (by rw [same, getLast?_behind, final]; rfl)
          rw [blank] at full
          cases full
    simp only [evaluate, last]
    rw [if_neg (by simpa using blanks)]
  · simp [evaluate, pieces_of_free quote]

theorem Chain.enclosed (chain : Chain t s) : Enclosed t := by
  obtain ⟨rest, rfl⟩ := chain.begins
  exact ⟨rfl, chain.ends⟩

theorem Chain.evaluate (chain : Chain t s) : evaluate t = .ok s := by
  obtain ⟨front, lead, last, rfl, cut, joined⟩ := chain.pieces
  have whole := cut []
  rw [List.append_nil] at whole
  rw [evaluate_enclosed chain.flat.paired chain.enclosed, whole]
  exact joined _ []

/-- Behind a chain nothing but one plus sign may stand before the next quote. -/
theorem evaluate_gap (chain : Chain u s) (free : '"' ∉ gap) (other : gap.trim ≠ ['+'])
    (paired : Text.Paired (u ++ gap ++ '"' :: more))
    (ends : (u ++ gap ++ '"' :: more).getLast? = some '"') :
    Concatenation.evaluate (u ++ gap ++ '"' :: more) =
      .error (.unsupportedStringOperator gap.trim) := by
  have inside : after true more = false := by
    have outside : after false u = false := chain.flat.paired
    rw [Text.Paired, after_append, after_append, outside, after_of_free free] at paired
    exact paired
  have closed : '"' ∈ more := by
    by_contra unclosed
    rw [after_of_free unclosed] at inside
    cases inside
  obtain ⟨next, rest, rfl, nextFree⟩ := List.eq_append_cons_of_mem closed
  have enclosed : Enclosed (u ++ gap ++ '"' :: (next ++ '"' :: rest)) := by
    obtain ⟨behind, rfl⟩ := chain.begins
    exact ⟨rfl, ends⟩
  obtain ⟨front, lead, last, rfl, cut, joined⟩ := chain.pieces
  have literals : (Quoted.pieces (u ++ gap ++ '"' :: (next ++ '"' :: rest))).2 =
      front ++ (last, gap) :: (next, (Quoted.pieces rest).1) :: (Quoted.pieces rest).2 := by
    rw [List.append_assoc, cut, pieces_append_of_free free,
      show '"' :: (next ++ '"' :: rest) = '"' :: next ++ ['"'] ++ rest by simp,
      pieces_literal nextFree]
    simp
  rw [evaluate_enclosed paired enclosed, literals, joined, join_other other]
  rfl

end Ends

section Grammar

variable {t s : Text} {e : Error}

/-- What is wrong with a trimmed text that is no chain: a quote without a partner, of which it is
the last one; no quote at one of its ends; or something else than a plus sign behind a chain. -/
inductive Refused : Text → Error → Prop where
  | unterminated {before rest : Text} (paired : before.Paired) (free : '"' ∉ rest) :
      Refused (before ++ '"' :: rest) (.unterminatedString (before.width + 1))
  | bare {t : Text} (paired : t.Paired) (bare : ¬ Enclosed t) : Refused t (.expectedString t)
  | gap {u s gap more : Text} (chain : Chain u s) (free : '"' ∉ gap) (other : gap.trim ≠ ['+'])
      (paired : Text.Paired (u ++ gap ++ '"' :: more))
      (ends : (u ++ gap ++ '"' :: more).getLast? = some '"') :
      Refused (u ++ gap ++ '"' :: more) (.unsupportedStringOperator gap.trim)

/-- A text that ends with a quote is a chain from its first quote on, or there is another gap than a
plus sign behind a chain. -/
theorem chain_or_gap (paired : t.Paired) (ends : t.getLast? = some '"') :
    ∃ lead v, t = lead ++ v ∧ '"' ∉ lead ∧ ((∃ s, Chain v s) ∨
      ∃ u s gap more, v = u ++ gap ++ '"' :: more ∧ Chain u s ∧ '"' ∉ gap ∧ gap.trim ≠ ['+']) := by
  induction paired using Text.Paired.literal_induction with
  | free t free => exact absurd (List.mem_of_getLast? ends) free
  | literal lead s rest paired whole leadFree free ih =>
    refine ⟨lead, '"' :: s ++ ['"'] ++ rest, rfl, leadFree, ?_⟩
    cases final : rest.getLast? with
    | none =>
      rw [List.getLast?_eq_none_iff.mp final, List.append_nil]
      exact .inl ⟨s, .literal free⟩
    | some c =>
      have restEnds : rest.getLast? = some '"' := by
        rw [List.getLast?_append, List.getLast?_append, final] at ends
        cases ends
        exact final
      obtain ⟨gap, v, rfl, gapFree, behind⟩ := ih restEnds
      have begins : ∃ more, v = '"' :: more := by
        rcases behind with ⟨_, chain⟩ | ⟨u, _, _, _, rfl, chain, _⟩
        · exact chain.begins
        · obtain ⟨more, rfl⟩ := chain.begins
          exact ⟨_, rfl⟩
      by_cases plus : gap.trim = ['+']
      · obtain ⟨before, after, same, blankBefore, blankAfter⟩ := gap.trim_between
        rw [plus, List.append_assoc] at same
        subst same
        rcases behind with ⟨contents, chain⟩ | ⟨u, contents, gap, more, rfl, chain, gapFree, other⟩
        · exact .inl ⟨s ++ contents, by
            simpa using Chain.cons free blankBefore blankAfter chain⟩
        · exact .inr ⟨_, s ++ contents, gap, more, by simp,
            Chain.cons free blankBefore blankAfter chain, gapFree, other⟩
      · obtain ⟨more, rfl⟩ := begins
        exact .inr ⟨_, s, gap, more, by simp, .literal free, gapFree, plus⟩

theorem chain_or_refused (trimmed : t.trim = t) : (∃ s, Chain t s) ∨ ∃ e, Refused t e := by
  obtain paired | ⟨before, rest, rfl, paired, free⟩ := paired_or_unterminated t
  · by_cases enclosed : Enclosed t
    · obtain ⟨begins, ends⟩ := enclosed
      obtain ⟨lead, v, rfl, leadFree, found⟩ := chain_or_gap paired ends
      cases lead with
      | cons c lead =>
        cases begins
        exact absurd List.mem_cons_self leadFree
      | nil =>
        rcases found with chain | ⟨u, s, gap, more, rfl, chain, free, other⟩
        · exact .inl chain
        · exact .inr ⟨_, .gap chain free other paired ends⟩
    · exact .inr ⟨_, .bare paired enclosed⟩
  · exact .inr ⟨_, .unterminated paired free⟩

end Grammar

section Trees

/-- An expression of literals, without the layout of its text. -/
inductive Tree where
  | literal (s : Text)
  | join (left right : Tree)

/-- The contents of the literals from left to right. -/
def Tree.contents : Tree → Text
  | .literal s => s
  | .join left right => left.contents ++ right.contents

/-- The tree can be written as the text: with parentheses around any part of it, and with blanks
around the plus signs and within the parentheses. -/
inductive Written : Tree → Text → Prop where
  | literal {s : Text} (free : '"' ∉ s) : Written (.literal s) ('"' :: s ++ ['"'])
  | group {tree : Tree} {t before after : Text} (inner : Written tree t)
      (blankBefore : ∀ c ∈ before, isBlank c = true) (blankAfter : ∀ c ∈ after, isBlank c = true) :
      Written tree ('(' :: (before ++ t ++ after) ++ [')'])
  | join {left right : Tree} {t before after u : Text} (writtenLeft : Written left t)
      (blankBefore : ∀ c ∈ before, isBlank c = true) (blankAfter : ∀ c ∈ after, isBlank c = true)
      (writtenRight : Written right u) :
      Written (.join left right) (t ++ (before ++ '+' :: after) ++ u)

variable {tree : Tree} {t before after : Text}

theorem Written.balanced (written : Written tree t) : Balanced t := by
  induction written with
  | literal free => exact .flat (flat_quoted free)
  | group _ blankBefore blankAfter ih =>
    have flatBefore : Balanced _ := .flat (flat_of_blank blankBefore)
    exact ((flatBefore.append ih).append (.flat (flat_of_blank blankAfter))).group
  | join _ blankBefore blankAfter _ ihLeft ihRight =>
    exact (ihLeft.append (.flat (flat_plus blankBefore blankAfter))).append ihRight

theorem Written.bare (written : Written tree t) : t.Bare := by
  induction written with
  | @literal s _ => exact Value.bare_literal (.string s)
  | group => exact Text.bare_group _
  | join _ _ _ _ ihLeft ihRight => exact ihLeft.around ihRight _

/-- What is left of a written tree without its groups is a chain of its literals. -/
theorem Written.flattens (written : Written tree t) :
    ∃ u, Expr.flatten .string t = .ok u ∧ Chain u tree.contents := by
  induction written with
  | literal free => exact ⟨_, Expr.flatten_flat (flat_quoted free), .literal free⟩
  | @group tree t before after inner blankBefore blankAfter ih =>
    obtain ⟨u, flat, chain⟩ := ih
    have worth : Expr.evaluateText .string (before ++ t ++ after) = .ok (.string tree.contents) := by
      rw [Expr.evaluateText_padded inner.balanced inner.bare blankBefore blankAfter, flat]
      change Value.string <$> Concatenation.evaluate u = _
      rw [chain.evaluate]
      rfl
    exact ⟨_, Expr.flatten_parenthesised worth, .literal chain.free⟩
  | join writtenLeft blankBefore blankAfter writtenRight ihLeft ihRight =>
    obtain ⟨u, flatLeft, left⟩ := ihLeft
    obtain ⟨v, flatRight, right⟩ := ihRight
    refine ⟨_, ?_, left.append blankBefore blankAfter right⟩
    rw [Expr.flatten_between writtenLeft.balanced (flat_plus blankBefore blankAfter)
      writtenRight.balanced, flatRight, flatLeft]
    rfl

theorem Written.evaluateText (written : Written tree t)
    (blankBefore : ∀ c ∈ before, isBlank c = true) (blankAfter : ∀ c ∈ after, isBlank c = true) :
    Expr.evaluateText .string (before ++ t ++ after) = .ok (.string tree.contents) := by
  obtain ⟨u, flat, chain⟩ := written.flattens
  rw [Expr.evaluateText_padded written.balanced written.bare blankBefore blankAfter, flat]
  change Value.string <$> Concatenation.evaluate u = _
  rw [chain.evaluate]
  rfl

end Trees

section Groupless

variable {raw s : Text} {e : Error}

theorem evaluateText_paired (none : NoneOpen false raw) (paired : raw.trim.Paired) :
    Expr.evaluateText .string raw = .string <$> Concatenation.evaluate raw.trim := by
  have flat : Flat raw := ⟨none, (after_trim false raw).symm.trans paired⟩
  rw [Expr.evaluateText_flatten_eq flat]
  rfl

theorem Chain.evaluateText (none : NoneOpen false raw) (chain : Chain raw.trim s) :
    Expr.evaluateText .string raw = .ok (.string s) := by
  rw [evaluateText_paired none chain.flat.paired, chain.evaluate]
  rfl

theorem Refused.evaluateText (none : NoneOpen false raw) (refused : Refused raw.trim e) :
    Expr.evaluateText .string raw = .error e := by
  have trimmed : raw.trim.trim = raw.trim := raw.trim_trim
  have checked : Quoted.check raw.trim = .error e → Expr.evaluateText .string raw = .error e := by
    intro failed
    simp only [Expr.evaluateText, failed]
    rfl
  have passed : raw.trim.Paired → Expr.evaluateText .string raw = _ := evaluateText_paired none
  generalize raw.trim = t at refused trimmed checked passed
  cases refused with
  | unterminated paired free => exact checked (check_unterminated paired free)
  | bare paired bare =>
    rw [passed paired, evaluate_bare paired trimmed bare]
    rfl
  | gap chain free other paired ends =>
    rw [passed paired, evaluate_gap chain free other paired ends]
    rfl

end Groupless
end Concatenation

open StepScript.Concatenation in
/-- However a tree of literals is written, with parentheses and any blanks, the text is worth the
contents of its literals from left to right. A text without parentheses outside its literals is
worth what it joins to if, between blanks, it is a chain of literals with one plus sign between
neighbours; it fails with what is wrong with it if it is none, and there is nothing else. -/
theorem string_expressions_concatenate :
    (∀ {tree : Tree} {text before after : Text}, Written tree text →
      (∀ c ∈ before, isBlank c = true) → (∀ c ∈ after, isBlank c = true) →
        Expr.evaluateText .string (before ++ text ++ after) = .ok (.string tree.contents)) ∧
    ∀ {raw : Text}, NoneOpen false raw →
      (∀ v, Expr.evaluateText .string raw = .ok v ↔ ∃ s, v = .string s ∧ Chain raw.trim s) ∧
      ∀ e, Expr.evaluateText .string raw = .error e ↔ Refused raw.trim e := by
  constructor
  · intro tree text before after written blankBefore blankAfter
    exact written.evaluateText blankBefore blankAfter
  · intro raw none
    have either := chain_or_refused raw.trim_trim
    constructor
    · intro v
      constructor
      · intro done
        obtain ⟨s, chain⟩ | ⟨e, refused⟩ := either
        · rw [chain.evaluateText none] at done
          cases done
          exact ⟨s, rfl, chain⟩
        · rw [refused.evaluateText none] at done
          cases done
      · rintro ⟨s, rfl, chain⟩
        exact chain.evaluateText none
    · intro e
      refine ⟨fun failed => ?_, Refused.evaluateText none⟩
      obtain ⟨s, chain⟩ | ⟨other, refused⟩ := either
      · rw [chain.evaluateText none] at failed
        cases failed
      · rw [refused.evaluateText none] at failed
        cases failed
        exact refused

open StepScript.Concatenation in
/-- Operators and parentheses within the literals of nested groups count for nothing. Outside of
them, only a plus sign joins two literals. -/
theorem string_groups_concatenate :
    Expr.evaluateText .string "(\"a)\"+ ( \"<\" + \"+\" ) )\t+\"\"\n".toList =
        .ok (.string "a)<+".toList) ∧
      Expr.evaluateText .string " \"a\" + \"b\" - \"c\"".toList =
        .error (.unsupportedStringOperator ['-']) ∧
      Expr.evaluateText .string "\"a\" + ".toList = .error (.expectedString "\"a\" +".toList) ∧
      Expr.evaluateText .string "\"a\" + \"(".toList = .error (.unterminatedString 7) := by
  obtain ⟨trees, texts⟩ := string_expressions_concatenate
  have blank : ∀ c ∈ [' '], isBlank c = true := List.all_eq_true.mp rfl
  have none : ∀ c ∈ ([] : Text), isBlank c = true := List.forall_mem_nil _
  have inner : Written (.join (.literal ['<']) (.literal ['+'])) "\"<\" + \"+\"".toList :=
    @Written.join _ _ "\"<\"".toList [' '] [' '] "\"+\"".toList (.literal (by decide)) blank blank
      (.literal (by decide))
  have outer : Written (.join (.literal "a)".toList) _) "\"a)\"+ ( \"<\" + \"+\" )".toList :=
    @Written.join _ _ "\"a)\"".toList [] [' '] _ (.literal (by decide)) none blank
      (.group inner blank blank)
  have whole : Written (.join _ (.literal [])) "(\"a)\"+ ( \"<\" + \"+\" ) )\t+\"\"".toList :=
    @Written.join _ _ "(\"a)\"+ ( \"<\" + \"+\" ) )".toList ['\t'] [] "\"\"".toList
      (.group outer none blank) (List.all_eq_true.mp rfl) none (.literal (by decide))
  have chain : Chain "\"a\" + \"b\"".toList "ab".toList :=
    @Chain.cons ['a'] [' '] [' '] _ ['b'] (by decide) blank blank (@Chain.literal ['b'] (by decide))
  refine ⟨@trees _ _ [] _ whole none (List.all_eq_true.mp rfl), ?_, ?_, ?_⟩
  · obtain ⟨_, fails⟩ := @texts " \"a\" + \"b\" - \"c\"".toList (by decide)
    exact (fails _).mpr (@Refused.gap _ _ " - ".toList _ chain (by decide) (by decide) (by decide)
      (by decide))
  · obtain ⟨_, fails⟩ := @texts "\"a\" + ".toList (by decide)
    exact (fails _).mpr (.bare (by decide) (by rw [Enclosed]; decide))
  · obtain ⟨_, fails⟩ := @texts "\"a\" + \"(".toList (by decide)
    exact (fails _).mpr (@Refused.unterminated "\"a\" + ".toList _ (by decide) (by decide))

end StepScript
