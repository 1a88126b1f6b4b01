import StepScript.Proofs.Grouping
import StepScript.Proofs.Unrelated

/-! Matched parentheses. A text with paired quotes is balanced if its parentheses match, and of all
its groups the one with the greatest opening offset is the one opened last. -/
namespace StepScript

theorem Text.eq_of_width {a b c d : Text} (same : a ++ b = c ++ d) (widths : a.width = c.width) :
    a = c ∧ b = d := by
  induction a generalizing c with
  | nil =>
    cases c with
    | nil => exact ⟨rfl, same⟩
    | cons e c =>
      have positive := e.utf8Size_pos
      simp only [width] at widths
      omega
  | cons e a ih =>
    cases c with
    | nil =>
      have positive := e.utf8Size_pos
      simp only [width] at widths
      omega
    | cons f c =>
      obtain ⟨rfl, rest⟩ := List.cons.inj same
      obtain ⟨rfl, rfl⟩ := ih rest (by simpa [width] using widths)
      exact ⟨rfl, rfl⟩

namespace Group

variable {inside : Bool} {pos : Nat} {stack : List Nat} {found : List Span} {t u : Text}

section Parentheses

/-- How many parentheses stand outside literals. -/
def parens : Bool → Text → Nat
  | _, [] => 0
  | inside, c :: t =>
    (if !inside && (c == '(' || c == ')') then 1 else 0) + parens (Quoted.step inside c) t

theorem parens_append (inside : Bool) (t u : Text) :
    parens inside (t ++ u) = parens inside t + parens (Quoted.after inside t) u := by
  induction t generalizing inside with
  | nil => simp [parens]
  | cons c t ih => simp only [List.cons_append, parens, ih, Quoted.after_cons, Nat.add_assoc]

theorem parens_eq_zero : parens inside t = 0 ↔ NoneOpen inside t := by
  induction t generalizing inside with
  | nil => simp [parens, NoneOpen]
  | cons c t ih =>
    rw [parens, NoneOpen, Nat.add_eq_zero_iff, ih]
    cases inside <;> simp

/-- The group taken away has two parentheses, and what is put in its place has none. -/
theorem Cut.Last.parens_fill {cut : Cut} (last : cut.Last t) (flat : Flat u) :
    parens false (cut.fill u) + 2 = parens false t := by
  have inner : ∀ w : Text, Quoted.after false w = false →
      parens false (cut.fill w) =
        parens false cut.before + parens false w + parens false cut.after := by
    intro w paired
    rw [Cut.fill, parens_append, parens_append, Quoted.after_append, last.before, paired]
  have pairedInner : Quoted.after false cut.inner = false := last.inner.paired
  have group : Quoted.after false ('(' :: cut.inner ++ [')']) = false := by
    rw [List.cons_append, Quoted.after_cons, Quoted.after_append,
      show Quoted.step false '(' = false from rfl, pairedInner]
    rfl
  have two : parens false ('(' :: cut.inner ++ [')']) = 2 := by
    rw [List.cons_append, parens, parens_append, show Quoted.step false '(' = false from rfl,
      parens_eq_zero.mpr last.inner.none, pairedInner]
    rfl
  conv => rhs; rw [last.whole]
  rw [inner u flat.paired, inner _ group, parens_eq_zero.mpr flat.none, two]
  omega

end Parentheses

section Scanning

/-- What one character does to the offsets of the open groups, and the group that it closes. -/
inductive Turn (pos : Nat) : Bool → Char → List Nat → List Nat → List Span → Prop where
  | pass {inside : Bool} {c : Char} {stack : List Nat}
      (other : inside = true ∨ c ≠ '(' ∧ c ≠ ')') : Turn pos inside c stack stack []
  | opens {stack : List Nat} : Turn pos false '(' stack (pos :: stack) []
  | closes {opening : Nat} {outer : List Nat} :
      Turn pos false ')' (opening :: outer) outer [⟨opening, pos⟩]

theorem spansFrom_cons {c : Char} (done : spansFrom pos inside stack (c :: t) = some found) :
    ∃ held closed rest, Turn pos inside c stack held closed ∧ found = closed ++ rest ∧
      spansFrom (pos + c.utf8Size) (Quoted.step inside c) held t = some rest := by
  simp only [spansFrom] at done
  split at done
  · rename_i literal
    exact ⟨stack, [], found, .pass (.inl literal), rfl, done⟩
  · rename_i outside
    obtain rfl := Bool.eq_false_iff.mpr outside
    split at done
    · rename_i opening
      obtain rfl := beq_iff_eq.mp opening
      exact ⟨_, [], found, .opens, rfl, done⟩
    · rename_i notOpening
      split at done
      · rename_i closing
        obtain rfl := beq_iff_eq.mp closing
        cases stack with
        | nil => cases done
        | cons opening outer =>
          obtain ⟨rest, later, rfl⟩ := Option.map_eq_some_iff.mp done
          exact ⟨outer, _, rest, .closes, rfl, later⟩
      · rename_i notClosing
        refine ⟨stack, [], found, .pass (.inr ⟨?_, ?_⟩), rfl, done⟩
        · exact fun same => notOpening (beq_iff_eq.mpr same)
        · exact fun same => notClosing (beq_iff_eq.mpr same)

/-- Where no group is opened, only groups that were open before are closed. -/
theorem mem_stack_of_shut (shut : opens inside t = 0)
    (done : spansFrom pos inside stack t = some found) : ∀ span ∈ found, span.opening ∈ stack := by
  induction t generalizing pos inside stack found with
  | nil =>
    cases stack with
    | nil =>
      cases done
      simp
    | cons => cases done
  | cons c t ih =>
    obtain ⟨here, later⟩ := Nat.add_eq_zero_iff.mp shut
    obtain ⟨held, closed, rest, turn, rfl, next⟩ := spansFrom_cons done
    have openings := ih later next
    cases turn with
    | pass => exact openings
    | opens => cases here
    | closes =>
      refine List.forall_mem_cons.mpr ⟨List.mem_cons_self, fun span member => ?_⟩
      exact List.mem_cons_of_mem _ (openings span member)

/-- Groups that are open or closed after a part of the text were opened before its end. -/
theorem spansFrom_append_some (done : spansFrom pos inside stack (t ++ u) = some found)
    (below : ∀ opening ∈ stack, opening < pos) :
    ∃ front held back, found = front ++ back ∧
      spansFrom (pos + t.width) (Quoted.after inside t) held u = some back ∧
      (∀ span ∈ front, span.opening < pos + t.width) ∧
      ∀ opening ∈ held, opening < pos + t.width := by
  induction t generalizing pos inside stack found with
  | nil => exact ⟨[], stack, found, rfl, done, by simp, below⟩
  | cons c t ih =>
    obtain ⟨held, closed, rest, turn, rfl, next⟩ := spansFrom_cons done
    have positive := c.utf8Size_pos
    have known : (∀ opening ∈ held, opening < pos + c.utf8Size) ∧
        ∀ span ∈ closed, span.opening < pos := by
      have further : ∀ opening ∈ stack, opening < pos + c.utf8Size := fun opening member =>
        Nat.lt_add_right _ (below opening member)
      cases turn with
      | pass => exact ⟨further, by simp⟩
      | opens => exact ⟨List.forall_mem_cons.mpr ⟨by omega, further⟩, by simp⟩
      | closes =>
        obtain ⟨first, _⟩ := List.forall_mem_cons.mp below
        exact ⟨(List.forall_mem_cons.mp further).2, by simpa using first⟩
    obtain ⟨front, held', back, rfl, passed, closedBefore, openBefore⟩ := ih next known.1
    rw [Text.width, ← Nat.add_assoc, Quoted.after_cons]
    refine ⟨closed ++ front, held', back, by simp, passed, ?_, openBefore⟩
    refine List.forall_mem_append.mpr ⟨fun span member => ?_, closedBefore⟩
    have early := known.2 span member
    omega

end Scanning

section Converse

/-- The text closes so many groups that were open before it, and leaves none open of its own. -/
inductive Closes : Nat → Text → Prop where
  | done {t : Text} (balanced : Balanced t) : Closes 0 t
  | close {n : Nat} {t u : Text} (balanced : Balanced t) (rest : Closes n u) :
      Closes (n + 1) (t ++ ')' :: u)

theorem Closes.prepend {n : Nat} (closes : Closes n u) (balanced : Balanced t) :
    Closes n (t ++ u) := by
  cases closes with
  | done rest => exact .done (balanced.append rest)
  | close inner rest =>
    rw [← List.append_assoc]
    exact .close (balanced.append inner) rest

/-- From within a literal the groups are closed after its end. -/
def ClosesFrom : Bool → Nat → Text → Prop
  | false, n, t => Closes n t
  | true, n, t => ∃ s u, t = s ++ '"' :: u ∧ '"' ∉ s ∧ Closes n u

theorem ClosesFrom.cons {n : Nat} {c : Char} (later : ClosesFrom (Quoted.step inside c) n t)
    (other : inside = true ∨ c ≠ '(' ∧ c ≠ ')') : ClosesFrom inside n (c :: t) := by
  by_cases quote : c = '"'
  · subst quote
    cases inside with
    | false =>
      obtain ⟨s, u, rfl, free, closes⟩ := later
      have prepended := closes.prepend (.flat (flat_quoted free))
      simpa [ClosesFrom] using prepended
    | true => exact ⟨[], t, rfl, by simp, later⟩
  · rw [Quoted.step_of_ne quote] at later
    cases inside with
    | false =>
      obtain ⟨opening, closing⟩ := other.resolve_left Bool.false_ne_true
      have flat : Flat [c] := flat_of_free (by simp [opening, closing, quote])
      exact Closes.prepend later (.flat flat)
    | true =>
      obtain ⟨s, u, rfl, free, closes⟩ := later
      exact ⟨c :: s, u, rfl, by simp [Ne.symm quote, free], closes⟩

theorem closesFrom_of_spansFrom (done : spansFrom pos inside stack t = some found)
    (paired : Quoted.after inside t = false) : ClosesFrom inside stack.length t := by
  induction t generalizing pos inside stack found with
  | nil =>
    rw [Quoted.after_nil] at paired
    subst paired
    cases stack with
    | nil => exact Closes.done (.flat ⟨trivial, rfl⟩)
    | cons => cases done
  | cons c t ih =>
    rw [Quoted.after_cons] at paired
    obtain ⟨held, closed, rest, turn, rfl, next⟩ := spansFrom_cons done
    have later := ih next paired
    cases turn with
    | pass other => exact later.cons other
    | opens =>
      cases later with
      | @close _ t u inner rest =>
        have prepended := rest.prepend inner.group
        simpa [ClosesFrom] using prepended
    | closes => exact @Closes.close _ [] t (.flat ⟨trivial, rfl⟩) later

theorem balanced_of_check (matched : check t = .ok ()) (paired : t.Paired) : Balanced t := by
  rw [check, spans] at matched
  cases done : spansFrom 0 false [] t with
  | none =>
    rw [done] at matched
    cases matched
  | some found =>
    have closes := closesFrom_of_spansFrom done paired
    cases closes with
    | done balanced => exact balanced

end Converse

section Latest

/-- The offsets of the parentheses around what is cut out. -/
def Cut.span (cut : Cut) : Span :=
  ⟨cut.before.width, cut.before.width + '('.utf8Size + cut.inner.width⟩

/-- The cut is made around the group with the greatest opening offset. -/
structure Cut.Latest (cut : Cut) (t : Text) (found : List Span) : Prop where
  whole : t = cut.fill ('(' :: cut.inner ++ [')'])
  member : cut.span ∈ found
  greatest : ∀ span ∈ found, span.opening ≤ cut.span.opening

variable {cut : Cut}

theorem Cut.Last.spansFrom (last : cut.Last t) (done : Group.spansFrom 0 false [] t = some found) :
    cut.span ∈ found ∧ ∀ span ∈ found, span = cut.span ∨ span.opening < cut.span.opening := by
  have whole : t = cut.before ++ ('(' :: (cut.inner ++ ')' :: cut.after)) := by
    conv => lhs; rw [last.whole]
    simp [Cut.fill]
  rw [whole] at done
  obtain ⟨front, held, back, rfl, opening, closedBefore, openBefore⟩ :=
    spansFrom_append_some done (by simp)
  rw [Nat.zero_add] at opening closedBefore openBefore
  rw [last.before] at opening
  obtain ⟨_, _, rest, turn, rfl, inside⟩ := spansFrom_cons opening
  cases turn with
  | pass other => simp at other
  | opens =>
    rw [show Quoted.step false '(' = false from rfl, spansFrom_of_noneOpen last.inner.none,
      show Quoted.after false cut.inner = false from last.inner.paired] at inside
    obtain ⟨_, _, rest, turn, rfl, behind⟩ := spansFrom_cons inside
    cases turn with
    | pass other => simp at other
    | closes =>
      have openings := mem_stack_of_shut last.after behind
      refine ⟨by simp [Cut.span], ?_⟩
      intro span member
      simp only [List.nil_append, List.singleton_append, List.mem_append, List.mem_cons] at member
      rcases member with early | here | later
      · exact .inr (closedBefore span early)
      · exact .inl here
      · exact .inr (openBefore _ (openings span later))

theorem spansFrom_of_spans (done : spans t = .ok found) :
    ∃ scanned, spansFrom 0 false [] t = some scanned ∧ ∀ span, span ∈ found ↔ span ∈ scanned := by
  rw [spans] at done
  cases scan : spansFrom 0 false [] t with
  | none =>
    rw [scan] at done
    cases done
  | some scanned =>
    rw [scan] at done
    cases done
    exact ⟨scanned, rfl, fun span => (arrange_perm _ _).mem_iff⟩

theorem spans_flat (flat : Flat t) : spans t = .ok [] := by
  have scanned := spansFrom_of_noneOpen flat.none 0 [] []
  rw [List.append_nil] at scanned
  rw [spans, scanned]
  rfl

/-- The group opened last is the latest: no two groups are opened at one place. -/
theorem Cut.Last.latest (last : cut.Last t) (done : spans t = .ok found) : cut.Latest t found := by
  obtain ⟨scanned, scan, members⟩ := spansFrom_of_spans done
  obtain ⟨member, others⟩ := last.spansFrom scan
  refine ⟨last.whole, (members _).mpr member, fun span found => ?_⟩
  rcases others span ((members span).mp found) with rfl | less
  · exact Nat.le_refl _
  · exact less.le

theorem flat_of_spans_nil (balanced : Balanced t) (done : spans t = .ok []) : Flat t := by
  rcases balanced.flat_or_last with flat | ⟨cut, last⟩
  · exact flat
  · cases (last.latest done).member

theorem Cut.Latest.last (latest : cut.Latest t found) (balanced : Balanced t)
    (done : spans t = .ok found) : cut.Last t := by
  rcases balanced.flat_or_last with flat | ⟨other, last⟩
  · rw [spans_flat flat] at done
    cases done
    cases latest.member
  obtain ⟨scanned, scan, members⟩ := spansFrom_of_spans done
  have same : cut.span = other.span := by
    rcases (last.spansFrom scan).2 _ ((members _).mp latest.member) with same | less
    · exact same
    · exact absurd (latest.greatest _ (last.latest done).member) (Nat.not_le.mpr less)
  have whole := latest.whole.symm.trans last.whole
  simp only [fill, List.append_assoc, List.cons_append, List.nil_append] at whole
  obtain ⟨before, rest⟩ := Text.eq_of_width whole (congrArg Span.opening same)
  have closing := congrArg Span.closing same
  simp only [span, before] at closing
  obtain ⟨inner, after⟩ := Text.eq_of_width (List.cons.inj rest).2 (by omega)
  obtain ⟨_, _, _⟩ := cut
  obtain ⟨_, _, _⟩ := other
  cases before
  cases inner
  cases after
  exact last

end Latest
end Group
end StepScript
