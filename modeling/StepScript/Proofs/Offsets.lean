import StepScript.Proofs.Matching

/-! Offsets in a text: what stands at an offset, and which offsets lie within the string literals of
a text. A scan that carries a flag knows of each character whether a literal covers it. -/
namespace StepScript

namespace Text

variable {t u before after word : Text} {pos : Nat}

/-- A character of two texts stands in the one or in the other. -/
theorem cut_append {c : Char} (whole : t ++ u = before ++ c :: after) :
    (∃ rest, t = before ++ c :: rest) ∨ ∃ front, before = t ++ front ∧ u = front ++ c :: after := by
  rcases List.append_eq_append_iff.mp whole with ⟨front, rfl, same⟩ | ⟨front, rfl, same⟩
  · exact .inr ⟨front, rfl, same⟩
  · cases front with
    | nil => exact .inr ⟨[], by simp, same.symm⟩
    | cons d front =>
      obtain ⟨rfl, _⟩ := List.cons.inj same
      exact .inl ⟨front, rfl⟩

/-- The word stands in the text at this offset. -/
def At (t : Text) (pos : Nat) (word : Text) : Prop :=
  ∃ before after, t = before ++ word ++ after ∧ before.width = pos

/-- Of two words of one width only one stands at an offset. -/
theorem At.unique {other : Text} (left : t.At pos word) (right : t.At pos other)
    (widths : word.width = other.width) : word = other := by
  obtain ⟨before, after, rfl, rfl⟩ := left
  obtain ⟨before', after', same, width⟩ := right
  simp only [List.append_assoc] at same
  obtain ⟨_, rest⟩ := eq_of_width same width.symm
  exact (eq_of_width rest widths).1

end Text

namespace Quoted

variable {t before after : Text} {c : Char} {strings : List Span} {pos : Nat}
  {opening? : Option Nat}

/-- An offset on or between the quotes of a literal. -/
def covers (strings : List Span) (pos : Nat) : Bool :=
  strings.any fun s => s.opening ≤ pos && pos ≤ s.closing

/-- What one character does to the quote that is open, and the literal that it closes. -/
inductive Turn (pos : Nat) : Char → Option Nat → Option Nat → List Span → Prop where
  | pass {c : Char} {opening? : Option Nat} (other : c ≠ '"') : Turn pos c opening? opening? []
  | opens : Turn pos '"' none (some pos) []
  | closes {opening : Nat} : Turn pos '"' (some opening) none [⟨opening, pos⟩]

theorem spansFrom_cons (done : spansFrom pos opening? (c :: t) = .ok strings) :
    ∃ held? closed rest, Turn pos c opening? held? closed ∧ strings = closed ++ rest ∧
      spansFrom (pos + c.utf8Size) held? t = .ok rest := by
  by_cases quote : c = '"'
  · subst quote
    cases opening? with
    | none => exact ⟨some pos, [], strings, .opens, rfl, done⟩
    | some opening =>
      obtain ⟨rest, later, rfl⟩ := Error.ok_of_map done
      exact ⟨none, [⟨opening, pos⟩], rest, .closes, rfl, later⟩
  · refine ⟨opening?, [], strings, .pass quote, rfl, ?_⟩
    cases opening? with
    | none => rwa [spansFrom, beq_false_of_ne quote] at done
    | some opening => rwa [spansFrom, if_neg (by simpa using quote)] at done

theorem Turn.step {held? : Option Nat} {closed : List Span}
    (turn : Turn pos c opening? held? closed) : step opening?.isSome c = held?.isSome := by
  cases turn with
  | pass other => exact step_of_ne other
  | opens => rfl
  | closes => rfl

/-- Literals are closed behind the offset, and opened there but for the one that is open. -/
theorem bounds_of_spansFrom (done : spansFrom pos opening? t = .ok strings) :
    ∀ s ∈ strings, (opening? = some s.opening ∨ pos ≤ s.opening) ∧ pos ≤ s.closing := by
  induction t generalizing pos opening? strings with
  | nil =>
    cases opening? with
    | none =>
      cases done
      exact List.forall_mem_nil _
    | some opening => cases done
  | cons c t ih =>
    obtain ⟨held?, closed, rest, turn, rfl, later⟩ := spansFrom_cons done
    have behind := ih later
    intro s member
    rcases List.mem_append.mp member with here | there
    · cases turn with
      | pass | opens => cases here
      | closes =>
        cases List.mem_singleton.mp here
        exact ⟨.inl rfl, Nat.le_refl pos⟩
    · obtain ⟨opened, closing⟩ := behind s there
      refine ⟨?_, Nat.le_of_add_right_le closing⟩
      rcases opened with held | far
      · cases turn with
        | pass => exact .inl held
        | opens =>
          cases held
          exact .inr (Nat.le_refl _)
        | closes => cases held
      · exact .inr (Nat.le_of_add_right_le far)

/-- A literal that is open is one of the literals. -/
theorem exists_of_open {opening : Nat} (done : spansFrom pos (some opening) t = .ok strings) :
    ∃ s ∈ strings, s.opening = opening := by
  induction t generalizing pos strings with
  | nil => cases done
  | cons c t ih =>
    obtain ⟨held?, closed, rest, turn, rfl, later⟩ := spansFrom_cons done
    cases turn with
    | pass => exact ih later
    | closes => exact ⟨_, List.mem_cons_self, rfl⟩

/-- The literals cover a character if it stands inside of one, seen from where the text starts. -/
theorem covers_of_spansFrom (done : spansFrom pos opening? (before ++ c :: after) = .ok strings)
    (other : c ≠ '"') (opened : ∀ opening ∈ opening?, opening < pos) :
    covers strings (pos + before.width) = Quoted.after opening?.isSome before := by
  induction before generalizing pos opening? strings with
  | nil =>
    obtain ⟨held?, closed, rest, turn, rfl, later⟩ := spansFrom_cons done
    cases turn with
    | opens => exact absurd rfl other
    | closes => exact absurd rfl other
    | pass =>
      have positive := c.utf8Size_pos
      have bounds := bounds_of_spansFrom later
      rw [Text.width, Nat.add_zero, after_nil]
      cases opening? with
      | none =>
        refine List.any_eq_false.mpr fun s member => ?_
        have far := (bounds s member).1.resolve_left (by simp)
        simp only [Bool.and_eq_true, decide_eq_true_eq, not_and]
        omega
      | some opening =>
        obtain ⟨s, member, rfl⟩ := exists_of_open later
        refine List.any_eq_true.mpr ⟨s, member, ?_⟩
        have start := opened _ rfl
        have stop := (bounds s member).2
        simp only [Bool.and_eq_true, decide_eq_true_eq]
        omega
  | cons d before ih =>
    obtain ⟨held?, closed, rest, turn, rfl, later⟩ := spansFrom_cons done
    have positive := d.utf8Size_pos
    have next : ∀ opening ∈ held?, opening < pos + d.utf8Size := by
      intro opening held
      cases turn with
      | pass => exact Nat.lt_add_right _ (opened opening held)
      | opens =>
        cases held
        omega
      | closes => cases held
    have passed : covers closed (pos + (d.utf8Size + Text.width before)) = false := by
      cases turn with
      | pass | opens => rfl
      | closes =>
        simp only [covers, List.any_cons, List.any_nil, Bool.or_false, Bool.and_eq_false_iff,
          decide_eq_false_iff_not]
        omega
    rw [after_cons, turn.step, ← ih later next, Text.width, covers, List.any_append]
    change (covers closed _ || covers rest _) = _
    rw [passed, Bool.false_or, Nat.add_assoc]

theorem covers_eq_after (quoted : spans (before ++ c :: after) = .ok strings) (other : c ≠ '"') :
    covers strings before.width = Quoted.after false before := by
  have covered := covers_of_spansFrom quoted other (by simp)
  rwa [Nat.zero_add] at covered

end Quoted
end StepScript
