import Mathlib.Data.List.Nodup
import Mathlib.Data.List.Lex
import Mathlib.Order.Lattice
import StepScript.Text

/-! Lists in order. Inserting and arranging keep the elements and put them in ascending order of
their keys; where no two keys are equal, there is one such order, whatever order the elements had
before. -/
namespace StepScript

section Arrange

variable {α : Type}

theorem insertOrdered_perm (precedes : α → α → Bool) (a : α) (as : List α) :
    (insertOrdered precedes a as).Perm (a :: as) := by
  induction as with
  | nil => exact .refl _
  | cons b as ih =>
    unfold insertOrdered
    split
    · exact .refl _
    · exact (ih.cons b).trans (.swap a b as)

theorem arrange_perm (precedes : α → α → Bool) (as : List α) : (arrange precedes as).Perm as := by
  induction as with
  | nil => exact .refl _
  | cons a as ih => exact (insertOrdered_perm precedes a _).trans (ih.cons a)

end Arrange

section Ascending

variable {α β : Type} [LinearOrder β] {key : α → β} {as bs : List α}

/-- In ascending order of their keys, no two of which are equal. -/
def Ascends (key : α → β) (as : List α) : Prop :=
  as.Pairwise fun a b => key a < key b

/-- An element whose key is new takes its place among the others. -/
theorem Ascends.insertOrdered {precedes : α → α → Bool} {a : α} (ascends : Ascends key as)
    (decides : ∀ b ∈ as, precedes a b = true ↔ key a < key b) (fresh : ∀ b ∈ as, key b ≠ key a) :
    Ascends key (insertOrdered precedes a as) := by
  induction as with
  | nil => exact List.pairwise_singleton _ _
  | cons b as ih =>
    obtain ⟨first, rest⟩ := List.pairwise_cons.mp ascends
    obtain ⟨decidesHere, decidesRest⟩ := List.forall_mem_cons.mp decides
    obtain ⟨freshHere, freshRest⟩ := List.forall_mem_cons.mp fresh
    unfold StepScript.insertOrdered
    split
    · rename_i before
      have less : key a < key b := decidesHere.mp before
      refine List.pairwise_cons.mpr ⟨List.forall_mem_cons.mpr ⟨less, fun c member => ?_⟩, ascends⟩
      exact less.trans (first c member)
    · rename_i behind
      have less : key b < key a := lt_of_le_of_ne (not_lt.mp (mt decidesHere.mpr behind)) freshHere
      refine List.pairwise_cons.mpr ⟨fun c member => ?_, ih rest decidesRest freshRest⟩
      rcases List.mem_cons.mp ((insertOrdered_perm _ _ _).mem_iff.mp member) with rfl | member
      · exact less
      · exact first c member

/-- Elements whose keys differ are arranged in ascending order. -/
theorem ascends_arrange (distinct : (as.map key).Nodup) :
    Ascends key (arrange (fun a b => key a ≤ key b) as) := by
  induction as with
  | nil => exact .nil
  | cons a as ih =>
    obtain ⟨first, rest⟩ := List.nodup_cons.mp distinct
    have fresh : ∀ b ∈ arrange (fun a b => key a ≤ key b) as, key b ≠ key a := by
      intro b member same
      exact first (List.mem_map.mpr ⟨b, (arrange_perm _ _).mem_iff.mp member, same⟩)
    refine (ih rest).insertOrdered (fun b member => ?_) fresh
    rw [decide_eq_true_eq]
    exact ⟨fun le => lt_of_le_of_ne le (fresh b member).symm, le_of_lt⟩

/-- There is one way to put elements in ascending order. -/
theorem Ascends.eq_of_perm (left : Ascends key as) (right : Ascends key bs) (perm : as.Perm bs) :
    as = bs :=
  List.Perm.eq_of_pairwise (fun _ _ _ _ less more => absurd more less.asymm) left right perm

theorem Ascends.keys_nodup (ascends : Ascends key as) : (as.map key).Nodup :=
  List.pairwise_map.mpr (ascends.imp fun less => ne_of_lt less)

/-- Sorting brings the elements back in order, whatever order they are stored in. -/
theorem Ascends.mergeSort_eq (ascends : Ascends key as) (perm : bs.Perm as) :
    bs.mergeSort (fun a b => key a ≤ key b) = as := by
  have sorted := @List.pairwise_mergeSort _ (fun a b => decide (key a ≤ key b))
    (fun a b c ab bc => by simpa using le_trans (of_decide_eq_true ab) (of_decide_eq_true bc))
    (fun a b => by simpa using le_total (key a) (key b)) bs
  have ordered : as.Pairwise fun a b => decide (key a ≤ key b) = true :=
    ascends.imp fun less => decide_eq_true less.le
  have same : (bs.mergeSort fun a b => key a ≤ key b).Perm as := (bs.mergeSort_perm _).trans perm
  refine List.Perm.eq_of_pairwise ?_ sorted ordered same
  intro a b memberA memberB le ge
  have equal : key a = key b := le_antisymm (of_decide_eq_true le) (of_decide_eq_true ge)
  exact List.inj_on_of_nodup_map ascends.keys_nodup (same.mem_iff.mp memberA) memberB equal

end Ascending

end StepScript
