import StepScript.Proofs.Offsets
import StepScript.Token

/-! Longest match. Rules tell which words are lexemes, and of which kind. A text is cut from the
left, each lexeme the longest that fits, as far as one fits at all. Whatever the rules are, the
lexemes of a cut stand in the text one behind the other and leave nothing of it out, and words of a
kind that can be joined do not touch. -/
namespace StepScript

variable {κ : Type} {rules : κ → Text → Prop} {kind : κ} {word after t rest : Text}
  {pos last : Nat} {lexemes : List (Nat × Lexeme κ)}

/-- A lexeme in front of a text, with no longer one in its place. -/
structure Longest (rules : κ → Text → Prop) (kind : κ) (word after : Text) : Prop where
  rule : rules kind word
  nonempty : word ≠ []
  longest : ∀ other longer, rules other longer → longer <+: word ++ after →
    longer.length ≤ word.length

/-- No lexeme fits where the text starts. -/
def Stuck (rules : κ → Text → Prop) (t : Text) : Prop :=
  ∀ kind word, rules kind word → word <+: t → word = []

/-- Where a lexeme fits, there is a longest one. -/
theorem exists_longest (rule : rules kind word) (nonempty : word ≠ []) (after : Text) :
    ∃ other longest rest, Longest rules other longest rest ∧ longest ++ rest = word ++ after := by
  induction size : after.length using Nat.strong_induction_on generalizing kind word after with
  | _ size ih =>
    by_cases longer : ∃ other w, rules other w ∧ w <+: word ++ after ∧ word.length < w.length
    · obtain ⟨other, w, fits, ⟨behind, same⟩, more⟩ := longer
      have lengths := congrArg List.length same
      rw [List.length_append, List.length_append] at lengths
      have some : w ≠ [] := List.ne_nil_of_length_pos (Nat.zero_lt_of_lt more)
      obtain ⟨last, longest, rest, found, split⟩ := ih _ (by omega) fits some behind rfl
      exact ⟨last, longest, rest, found, split.trans same⟩
    · refine ⟨kind, word, after, ⟨rule, nonempty, fun other w fits starts => ?_⟩, rfl⟩
      by_contra more
      exact longer ⟨other, w, fits, starts, Nat.lt_of_not_le more⟩

theorem stuck_or_longest (rules : κ → Text → Prop) (t : Text) :
    Stuck rules t ∨ ∃ kind word after, Longest rules kind word after ∧ t = word ++ after := by
  by_cases stuck : Stuck rules t
  · exact .inl stuck
  · simp only [Stuck, not_forall] at stuck
    obtain ⟨kind, word, rule, ⟨after, rfl⟩, nonempty⟩ := stuck
    obtain ⟨other, longest, rest, found, same⟩ := exists_longest rule nonempty after
    exact .inr ⟨other, longest, rest, found, same.symm⟩

/-- With the next character the word is no lexeme any more, of whichever kind. -/
theorem Longest.stops {c : Char} (longest : Longest rules kind word after) (next : c ∈ after.head?)
    (other : κ) : ¬ rules other (word ++ [c]) := by
  intro fits
  obtain ⟨rest, rfl⟩ := List.head?_eq_some_iff.mp next
  have short := longest.longest other _ fits ⟨rest, by simp⟩
  rw [List.length_append] at short
  exact absurd short (Nat.not_succ_le_self _)

/-- The lexemes of a text that starts at offset `pos`, each the longest in its place, with their
offsets. At offset `last` the rest of the text is left. -/
inductive Cuts (rules : κ → Text → Prop) (last : Nat) (rest : Text) :
    Nat → Text → List (Nat × Lexeme κ) → Prop where
  | done : Cuts rules last rest last rest []
  | next {pos : Nat} {kind : κ} {word after : Text} {lexemes : List (Nat × Lexeme κ)}
      (longest : Longest rules kind word after)
      (later : Cuts rules last rest (pos + word.width) after lexemes) :
      Cuts rules last rest pos (word ++ after) ((pos, ⟨kind, word⟩) :: lexemes)

/-- A text is cut to its end, or to where no lexeme fits. -/
theorem exists_cuts (rules : κ → Text → Prop) (pos : Nat) (t : Text) :
    ∃ last rest lexemes, Cuts rules last rest pos t lexemes ∧ Stuck rules rest := by
  induction size : t.length using Nat.strong_induction_on generalizing pos t with
  | _ size ih =>
    rcases stuck_or_longest rules t with stuck | ⟨kind, word, after, longest, rfl⟩
    · exact ⟨pos, t, [], .done, stuck⟩
    · have positive := List.length_pos_of_ne_nil longest.nonempty
      rw [List.length_append] at size
      obtain ⟨last, rest, lexemes, cuts, stuck⟩ :=
        ih after.length (by omega) (pos + word.width) after rfl
      exact ⟨last, rest, (pos, ⟨kind, word⟩) :: lexemes, .next longest cuts, stuck⟩

namespace Cuts

/-- Each lexeme is one by the rules, and stands in the text at its offset. -/
theorem stands (cuts : Cuts rules last rest pos t lexemes) :
    ∀ l ∈ lexemes, rules l.2.kind l.2.text ∧ l.2.text ≠ [] ∧
      ∃ offset, t.At offset l.2.text ∧ l.1 = pos + offset := by
  induction cuts with
  | done => exact List.forall_mem_nil _
  | @next pos kind word after lexemes longest _ ih =>
    refine List.forall_mem_cons.mpr
      ⟨⟨longest.rule, longest.nonempty, 0, ⟨[], after, rfl, rfl⟩, rfl⟩, fun l member => ?_⟩
    obtain ⟨rule, nonempty, offset, ⟨left, right, rfl, rfl⟩, place⟩ := ih l member
    refine ⟨rule, nonempty, word.width + left.width, ⟨word ++ left, right, ?_, ?_⟩, ?_⟩
    · simp only [List.append_assoc]
    · exact Text.width_append word left
    · rw [place, Nat.add_assoc]

theorem ordered (cuts : Cuts rules last rest pos t lexemes) :
    lexemes.Pairwise fun a b => a.1 + a.2.text.width ≤ b.1 := by
  induction cuts with
  | done => exact List.Pairwise.nil
  | next _ later ih =>
    refine List.pairwise_cons.mpr ⟨fun l member => ?_, ih⟩
    obtain ⟨_, _, offset, _, place⟩ := later.stands l member
    exact Nat.le.intro place.symm

/-- Every character of a text that is cut to its end is in a lexeme. -/
theorem covers (cuts : Cuts rules last [] pos t lexemes) {offset : Nat} {c : Char}
    (here : t.At offset [c]) : ∃ l ∈ lexemes, c ∈ l.2.text ∧ l.1 ≤ pos + offset ∧
      pos + offset < l.1 + l.2.text.width := by
  induction cuts generalizing offset with
  | done =>
    obtain ⟨left, right, same, _⟩ := here
    simp at same
  | @next pos kind word after lexemes longest _ ih =>
    obtain ⟨left, right, same, rfl⟩ := here
    rw [List.append_assoc] at same
    rcases Text.cut_append same with ⟨held, rfl⟩ | ⟨passed, rfl, later⟩
    · refine ⟨_, List.mem_cons_self, by simp, Nat.le_add_right pos _, ?_⟩
      have positive := c.utf8Size_pos
      rw [Text.width_append, Text.width]
      omega
    · obtain ⟨l, member, found⟩ := ih ⟨passed, right, by rw [later, List.append_assoc]; rfl, rfl⟩
      rw [Nat.add_assoc, ← Text.width_append] at found
      exact ⟨l, List.mem_cons_of_mem _ member, found⟩

/-- Words of a kind do not touch if any two of them join to one. -/
theorem parted (joins : ∀ u v, rules kind u → rules kind v → rules kind (u ++ v))
    (cuts : Cuts rules last rest pos t lexemes) :
    lexemes.Pairwise fun a b => a.2.kind = kind → b.2.kind = kind →
      a.1 + a.2.text.width < b.1 := by
  induction cuts with
  | done => exact List.Pairwise.nil
  | @next pos first word after lexemes longest later ih =>
    refine List.pairwise_cons.mpr ⟨fun l member same other => ?_, ih⟩
    obtain ⟨rule, nonempty, offset, ⟨left, right, shape, rfl⟩, place⟩ := later.stands l member
    cases left with
    | nil =>
      -- Nothing between the two: joined they are one word, which is longer than the longest.
      cases same
      have joined := joins _ _ longest.rule (other ▸ rule)
      have fits := longest.longest _ _ joined ⟨right, by rw [shape]; simp⟩
      have positive := List.length_pos_of_ne_nil nonempty
      rw [List.length_append] at fits
      omega
    | cons c left =>
      have positive := c.utf8Size_pos
      change pos + word.width < l.1
      rw [place, Text.width]
      omega

end Cuts

/-- The blanks that may stand between tokens. -/
def blanks : List Char := [' ', '\t', '\r', '\n']

/-- Tokens that are what a text consists of: they stand in it one behind the other, tokens of the
kind `run` with something between them, and all that is left are blanks. -/
structure Tokens (t : Text) (run : κ) (tokens : List (Nat × Lexeme κ)) : Prop where
  stands : ∀ token ∈ tokens, token.2.text ≠ [] ∧ t.At token.1 token.2.text
  ordered : tokens.Pairwise fun a b => a.1 + a.2.text.width ≤ b.1
  parted : tokens.Pairwise fun a b => a.2.kind = run → b.2.kind = run →
    a.1 + a.2.text.width < b.1
  blank : ∀ pos c, t.At pos [c] →
    (∀ token ∈ tokens, ¬ (token.1 ≤ pos ∧ pos < token.1 + token.2.text.width)) → c ∈ blanks

section Cutting

variable [DecidableEq κ] {gap run : κ}

/-- Lexemes of the kind `gap` are no tokens. -/
def isToken (gap : κ) (l : Nat × Lexeme κ) : Bool :=
  l.2.kind != gap

/-- The tokens of a text that longest match cuts to its end. -/
def CutInto (rules : κ → Text → Prop) (gap : κ) (t : Text) (tokens : List (Nat × Lexeme κ)) :
    Prop :=
  ∃ last lexemes, Cuts rules last [] 0 t lexemes ∧ tokens = lexemes.filter (isToken gap)

/-- Where gaps are blanks, and words of the kind `run` can be joined, the tokens are what the text
consists of. -/
theorem CutInto.tokens {found : List (Nat × Lexeme κ)} (cut : CutInto rules gap t found)
    (gaps : ∀ word, rules gap word → ∀ c ∈ word, c ∈ blanks)
    (joins : ∀ u v, rules run u → rules run v → rules run (u ++ v)) : Tokens t run found := by
  obtain ⟨last, lexemes, cuts, rfl⟩ := cut
  constructor
  case stands =>
    intro token member
    obtain ⟨_, nonempty, offset, here, place⟩ := cuts.stands token (List.mem_filter.mp member).1
    rw [place, Nat.zero_add]
    exact ⟨nonempty, here⟩
  case ordered => exact cuts.ordered.filter _
  case parted => exact (cuts.parted joins).filter _
  case blank =>
    intro pos c here outside
    obtain ⟨l, member, inside, bounds⟩ := cuts.covers here
    rw [Nat.zero_add] at bounds
    by_cases isGap : l.2.kind = gap
    · exact gaps _ (isGap ▸ (cuts.stands l member).1) c inside
    · exact absurd bounds (outside l (List.mem_filter.mpr ⟨member, by simpa [isToken] using isGap⟩))

end Cutting
end StepScript
