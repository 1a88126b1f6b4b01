import Mathlib
import StepScript.Scope.Table

/-! Tables as finite maps. Look-ups see the latest binding of a name and nothing else, and a table in
ascending order is determined by its look-ups. -/
namespace StepScript.Table

/-- Names strictly ascend, so no name is bound twice. -/
def Ordered (table : Table) : Prop :=
  table.Pairwise fun a b => a.1 < b.1

/-- The name is bound. -/
def Binds (table : Table) (name : Text) : Prop :=
  (table.find? name).isSome

instance (table : Table) (name : Text) : Decidable (table.Binds name) :=
  inferInstanceAs (Decidable ((table.find? name).isSome = true))

variable {table other : Table} {name query : Text} {value : Value}

@[simp] theorem find?_nil : find? [] name = none := rfl

theorem find?_cons (bound : Text) (value : Value) (rest : Table) (query : Text) :
    find? ((bound, value) :: rest) query =
      if query = bound then some value else rest.find? query := by
  by_cases same : query = bound
  · simp [find?, same]
  · have differ : (query == bound) = false := beq_false_of_ne same
    simp [find?, List.lookup, differ, same]

@[simp] theorem find?_insert_self (name : Text) (value : Value) (table : Table) :
    (table.insert name value).find? name = some value := by
  induction table with
  | nil => simp [insert, find?_cons]
  | cons entry rest ih =>
    obtain ⟨bound, old⟩ := entry
    unfold insert
    split
    · simp [find?_cons]
    · split
      · simp [find?_cons]
      · rename_i differ _
        simpa [find?_cons, differ] using ih

theorem find?_insert_of_ne (differ : query ≠ name) (value : Value) (table : Table) :
    (table.insert name value).find? query = table.find? query := by
  induction table with
  | nil => simp [insert, find?_cons, differ]
  | cons entry rest ih =>
    obtain ⟨bound, old⟩ := entry
    unfold insert
    split
    · rename_i same
      subst same
      simp [find?_cons, differ]
    · split
      · simp [find?_cons, differ]
      · simp [find?_cons, ih]

theorem find?_absorb (table source : Table) (query : Text) :
    (table.absorb source).find? query =
      (table.find? query).map fun value => (source.find? query).getD value := by
  induction table with
  | nil => rfl
  | cons entry rest ih =>
    obtain ⟨bound, old⟩ := entry
    change find? ((bound, (source.find? bound).getD old) :: absorb rest source) query = _
    by_cases same : query = bound
    · simp [find?_cons, same]
    · simp [find?_cons, same, ih]

/-- A filter on names leaves the bindings of the names it keeps. -/
theorem find?_filter (keep : Text → Bool) (table : Table) (query : Text) :
    find? (table.filter fun entry => keep entry.1) query =
      if keep query then table.find? query else none := by
  induction table with
  | nil => simp
  | cons entry rest ih =>
    obtain ⟨bound, old⟩ := entry
    by_cases kept : keep bound
    · by_cases same : query = bound
      · simp [kept, find?_cons, same]
      · simp [kept, find?_cons, same, ih]
    · by_cases same : query = bound
      · subst same
        simpa [kept] using ih
      · simp [kept, find?_cons, same, ih]

theorem mem_of_find? (found : table.find? name = some value) : (name, value) ∈ table := by
  induction table with
  | nil => simp at found
  | cons entry rest ih =>
    obtain ⟨bound, old⟩ := entry
    rw [find?_cons] at found
    split at found
    · cases found
      rename_i same
      subst same
      exact List.mem_cons_self
    · exact List.mem_cons_of_mem _ (ih found)

theorem eq_or_mem_of_mem_insert {entry : Text × Value} (member : entry ∈ table.insert name value) :
    entry = (name, value) ∨ entry ∈ table := by
  induction table with
  | nil => exact .inl (List.mem_singleton.mp member)
  | cons first rest ih =>
    unfold insert at member
    split at member
    · rcases List.mem_cons.mp member with same | inside
      · exact .inl same
      · exact .inr (List.mem_cons_of_mem _ inside)
    · split at member
      · exact List.mem_cons.mp member
      · rcases List.mem_cons.mp member with same | inside
        · exact .inr (by simp [same])
        · exact (ih inside).imp_right (List.mem_cons_of_mem _)

namespace Ordered

theorem nil : Ordered [] := List.Pairwise.nil

theorem tail {entry : Text × Value} (ordered : Ordered (entry :: table)) : Ordered table :=
  (List.pairwise_cons.mp ordered).2

/-- The least name is bound once. -/
theorem find?_tail {bound : Text} {old : Value} (ordered : Ordered ((bound, old) :: table)) :
    table.find? bound = none := by
  cases found : table.find? bound with
  | none => rfl
  | some later =>
    exact absurd ((List.pairwise_cons.mp ordered).1 _ (mem_of_find? found)) (lt_irrefl bound)

/-- Names below the least one are not bound. -/
theorem find?_of_lt {bound : Text} {old : Value} (ordered : Ordered ((bound, old) :: table))
    (below : query < bound) : find? ((bound, old) :: table) query = none := by
  cases found : find? ((bound, old) :: table) query with
  | none => rfl
  | some value =>
    have member := mem_of_find? found
    rcases List.mem_cons.mp member with same | inside
    · cases same
      exact absurd below (lt_irrefl _)
    · have above := (List.pairwise_cons.mp ordered).1 _ inside
      exact absurd (lt_trans below above) (lt_irrefl _)

theorem insert (ordered : table.Ordered) (name : Text) (value : Value) :
    (table.insert name value).Ordered := by
  induction table with
  | nil => exact List.pairwise_singleton _ _
  | cons entry rest ih =>
    obtain ⟨bound, old⟩ := entry
    obtain ⟨above, restOrdered⟩ := List.pairwise_cons.mp ordered
    unfold Table.insert
    split
    · rename_i same
      subst same
      exact List.pairwise_cons.mpr ⟨above, restOrdered⟩
    · split
      · rename_i below
        refine List.pairwise_cons.mpr ⟨?_, ordered⟩
        intro later member
        rcases List.mem_cons.mp member with same | inside
        · subst same
          exact below
        · exact lt_trans below (above later inside)
      · rename_i differ notBelow
        have beyond : bound < name := lt_of_le_of_ne (not_lt.mp notBelow) (Ne.symm differ)
        refine List.pairwise_cons.mpr ⟨?_, ih restOrdered⟩
        intro later member
        rcases eq_or_mem_of_mem_insert member with same | inside
        · simpa [same] using beyond
        · exact above later inside

theorem absorb (ordered : table.Ordered) (source : Table) : (table.absorb source).Ordered :=
  List.pairwise_map.mpr ordered

theorem filter (ordered : table.Ordered) (keep : Text × Value → Bool) :
    Ordered (table.filter keep) :=
  List.Pairwise.filter keep ordered

/-- Equal look-ups make equal tables. -/
theorem ext (ordered : table.Ordered) (otherOrdered : other.Ordered)
    (same : ∀ query, table.find? query = other.find? query) : table = other := by
  induction table generalizing other with
  | nil =>
    cases other with
    | nil => rfl
    | cons entry rest =>
      obtain ⟨bound, value⟩ := entry
      simpa [find?_cons] using same bound
  | cons entry rest ih =>
    obtain ⟨bound, value⟩ := entry
    cases other with
    | nil => simpa [find?_cons] using same bound
    | cons entry' rest' =>
      obtain ⟨bound', value'⟩ := entry'
      have bounds : bound = bound' := by
        rcases lt_trichotomy bound bound' with below | equal | beyond
        · simpa [otherOrdered.find?_of_lt below, find?_cons] using same bound
        · exact equal
        · simpa [ordered.find?_of_lt beyond, find?_cons] using (same bound').symm
      subst bounds
      have values : value = value' := by simpa [find?_cons] using same bound
      subst values
      congr 1
      apply ih ordered.tail otherOrdered.tail
      intro query
      by_cases least : query = bound
      · subst least
        rw [ordered.find?_tail, otherOrdered.find?_tail]
      · simpa [find?_cons, least] using same query

end Ordered
end StepScript.Table
