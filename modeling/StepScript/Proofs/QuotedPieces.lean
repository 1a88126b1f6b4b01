import StepScript.Proofs.ReadBack

/-! The literals of a text whose quotes are paired. Such a text has no quote, or it is a literal
with quote-free text before it and a text with paired quotes behind. -/
namespace StepScript

/-- Induction on the literals of a text, from the first. -/
theorem Text.Paired.literal_induction {motive : (t : Text) → t.Paired → Prop}
    (free : ∀ t (quoteFree : '"' ∉ t), motive t (Quoted.after_of_free quoteFree))
    (literal : ∀ lead s rest (paired : Text.Paired rest)
      (whole : Text.Paired (lead ++ ('"' :: s ++ ['"'] ++ rest))), '"' ∉ lead → '"' ∉ s →
      motive rest paired → motive _ whole)
    {t : Text} (paired : t.Paired) : motive t paired := by
  induction length : t.length using Nat.strong_induction_on generalizing t with
  | _ size ih =>
    by_cases quote : '"' ∈ t
    · obtain ⟨lead, opened, rfl, leadFree⟩ := List.eq_append_cons_of_mem quote
      have inside : Quoted.after true opened = false := by
        rw [Text.Paired, Quoted.after_append, Quoted.after_of_free leadFree] at paired
        exact paired
      by_cases closed : '"' ∈ opened
      · obtain ⟨s, rest, rfl, sFree⟩ := List.eq_append_cons_of_mem closed
        have pairedRest : Text.Paired rest := by
          rw [Quoted.after_append, Quoted.after_of_free sFree] at inside
          exact inside
        have shorter : rest.length < size := by
          simp only [List.length_append, List.length_cons] at length
          omega
        have split : lead ++ '"' :: (s ++ '"' :: rest) = lead ++ ('"' :: s ++ ['"'] ++ rest) := by
          simp
        have whole := literal lead s rest pairedRest (split ▸ paired) leadFree sFree
          (ih _ shorter pairedRest rfl)
        simpa only [split] using whole
      · rw [Quoted.after_of_free closed] at inside
        cases inside
    · exact free t quote

namespace Quoted

variable {t u lead s : Text}

theorem splitWhere_append_of_free (free : '"' ∉ t) (u : Text) :
    splitWhere (· == '"') (t ++ u) =
      (splitWhere (· == '"') u).modifyHead (t ++ ·) := by
  induction t with
  | nil =>
    rw [List.nil_append]
    cases splitWhere (· == '"') u <;> rfl
  | cons c t ih =>
    rw [List.mem_cons, not_or] at free
    rw [List.cons_append, splitWhere, if_neg (by simp [Ne.symm free.1]), ih free.2]
    cases behind : splitWhere (· == '"') u with
    | nil => exact absurd behind (splitWhere_ne_nil _ u)
    | cons piece pieces => rfl

theorem pieces_append_of_free (free : '"' ∉ t) (u : Text) :
    pieces (t ++ u) = (t ++ (pieces u).1, (pieces u).2) := by
  rw [pieces, splitWhere_append_of_free free, pieces]
  cases behind : splitWhere (· == '"') u with
  | nil => exact absurd behind (splitWhere_ne_nil _ u)
  | cons piece more => rfl

theorem pieces_of_free (free : '"' ∉ t) : pieces t = (t, []) := by
  rw [pieces, splitWhere_of_free free]
  rfl

/-- A literal that the text begins with, and what stands behind it. -/
theorem pieces_literal (free : '"' ∉ s) (rest : Text) :
    pieces ('"' :: s ++ ['"'] ++ rest) = ([], (s, (pieces rest).1) :: (pieces rest).2) := by
  have cut : splitWhere (· == '"') ('"' :: s ++ ['"'] ++ rest) =
      [] :: s :: splitWhere (· == '"') rest := by
    rw [show '"' :: s ++ ['"'] ++ rest = '"' :: (s ++ '"' :: rest) by simp, splitWhere,
      splitWhere_append rfl, splitWhere_of_free free]
    rfl
  rw [pieces, cut, pieces]
  cases behind : splitWhere (· == '"') rest with
  | nil => exact absurd behind (splitWhere_ne_nil _ rest)
  | cons gap more => rfl

theorem mapLiterals_append_of_free (free : '"' ∉ t) (f : Text → Text) (u : Text) :
    mapLiterals f (t ++ u) = t ++ mapLiterals f u := by
  simp only [mapLiterals, pieces_append_of_free free, List.append_assoc]

theorem mapLiterals_literal (free : '"' ∉ s) (f : Text → Text) (rest : Text) :
    mapLiterals f ('"' :: s ++ ['"'] ++ rest) = f s ++ mapLiterals f rest := by
  rw [mapLiterals, pieces_literal free, mapLiterals]
  simp

/-- The literals of two texts are replaced separately. -/
theorem mapLiterals_append (paired : t.Paired) (f : Text → Text) (u : Text) :
    mapLiterals f (t ++ u) = mapLiterals f t ++ mapLiterals f u := by
  induction paired using Text.Paired.literal_induction with
  | free t free => rw [mapLiterals_append_of_free free, mapLiterals_of_free free]
  | literal lead s rest paired whole leadFree free ih =>
    rw [List.append_assoc, mapLiterals_append_of_free leadFree, List.append_assoc _ rest,
      mapLiterals_literal free, ih, mapLiterals_append_of_free leadFree, mapLiterals_literal free]
    simp

end Quoted
end StepScript
