import StepScript.Proofs.Ascending
import StepScript.Proofs.Effect
import StepScript.Proofs.Substitution

/-! A variable that an expression does not mention. It is looked for in the text that the variables
before it leave, so what counts is whether it occurs there: a literal that was put in may hold its
name although the expression does not. -/
namespace StepScript

namespace Table

variable {table : Table} {name : Text} {value : Value}

/-- The name `a` is replaced before the name `b`. -/
def Precedes (a b : Text) : Prop :=
  b.length < a.length ∨ b.length = a.length ∧ a < b

instance (a b : Text) : Decidable (Precedes a b) :=
  inferInstanceAs (Decidable (_ ∨ _))

theorem Precedes.asymm {a b : Text} (first : Precedes a b) : ¬ Precedes b a := by
  intro second
  rcases first with longer | ⟨even, less⟩
  · rcases second with longer' | ⟨even', _⟩
    · omega
    · omega
  · rcases second with longer' | ⟨_, less'⟩
    · omega
    · exact lt_asymm less less'

theorem insertOrdered_precedes {entry : Text × Value} {sorted : Table}
    (below : ∀ other ∈ sorted, entry.1 < other.1)
    (pairwise : sorted.Pairwise fun a b => Precedes a.1 b.1) :
    (insertOrdered (fun a b => b.1.length ≤ a.1.length) entry sorted).Pairwise
      fun a b => Precedes a.1 b.1 := by
  induction sorted with
  | nil => exact List.pairwise_singleton _ _
  | cons head sorted ih =>
    obtain ⟨first, rest⟩ := List.pairwise_cons.mp pairwise
    unfold insertOrdered
    split
    · rename_i short
      rw [decide_eq_true_eq] at short
      refine List.pairwise_cons.mpr ⟨?_, pairwise⟩
      intro other member
      have less := below other member
      have shorter : other.1.length ≤ entry.1.length := by
        rcases List.mem_cons.mp member with rfl | member
        · exact short
        · rcases first other member with longer | ⟨even, _⟩
          · omega
          · omega
      rcases Nat.lt_or_eq_of_le shorter with longer | even
      · exact .inl longer
      · exact .inr ⟨even, less⟩
    · rename_i long
      rw [decide_eq_true_eq] at long
      refine List.pairwise_cons.mpr ⟨?_, ih (fun other member =>
        below other (List.mem_cons_of_mem _ member)) rest⟩
      intro other member
      rcases List.mem_cons.mp ((insertOrdered_perm _ _ _).mem_iff.mp member) with rfl | member
      · exact .inl (by omega)
      · exact first other member

theorem longestFirst_precedes (ordered : table.Ordered) :
    table.longestFirst.Pairwise fun a b => Precedes a.1 b.1 := by
  induction table with
  | nil => exact .nil
  | cons entry table ih =>
    obtain ⟨first, rest⟩ := List.pairwise_cons.mp ordered
    refine insertOrdered_precedes ?_ (ih rest)
    intro other member
    exact first other ((arrange_perm _ _).mem_iff.mp member)

theorem insert_perm (free : table.find? name = none) (value : Value) :
    (table.insert name value).Perm ((name, value) :: table) := by
  induction table with
  | nil => exact .refl _
  | cons entry table ih =>
    obtain ⟨bound, old⟩ := entry
    rw [find?_cons] at free
    split at free
    · cases free
    · rename_i differ
      rw [insert, if_neg differ]
      split
      · exact .refl _
      · exact ((ih free).cons _).trans (.swap _ _ _)

/-- The variables of the table that are replaced before one of this name. -/
def ahead (table : Table) (name : Text) : Table :=
  table.longestFirst.filter fun entry => Precedes entry.1 name

/-- A new name takes its place among the others and leaves their order alone. -/
theorem longestFirst_insert (ordered : table.Ordered) (free : table.find? name = none)
    (value : Value) :
    ∃ behind, table.longestFirst = table.ahead name ++ behind ∧
      (table.insert name value).longestFirst = table.ahead name ++ (name, value) :: behind := by
  have inserted : (table.insert name value).longestFirst.Perm ((name, value) :: table) :=
    (arrange_perm _ _).trans (insert_perm free value)
  have sorted := longestFirst_precedes (ordered.insert name value)
  obtain ⟨before, behind, split⟩ :=
    List.append_of_mem (inserted.mem_iff.mpr (List.mem_cons_self (a := (name, value))))
  rw [split] at inserted sorted
  obtain ⟨beforeSorted, _, across⟩ := List.pairwise_append.mp sorted
  obtain ⟨afterName, _⟩ := List.pairwise_cons.mp (List.pairwise_append.mp sorted).2.1
  -- Without the new name both lists are sorted arrangements of the same table.
  have rest : before ++ behind = table.longestFirst := by
    have perm : (before ++ behind).Perm table :=
      (List.perm_middle.symm.trans inserted).cons_inv
    refine List.Perm.eq_of_pairwise ?_ (sorted.sublist (by simp))
      (longestFirst_precedes ordered) (perm.trans (arrange_perm _ _).symm)
    intro a b _ _ first second
    exact absurd second first.asymm
  have front : table.ahead name = before := by
    rw [ahead, ← rest, List.filter_append, List.filter_eq_self.mpr, List.filter_eq_nil_iff.mpr,
      List.append_nil]
    · intro entry member early
      rw [decide_eq_true_eq] at early
      exact (afterName entry member).asymm early
    · intro entry member
      rw [decide_eq_true_eq]
      exact across entry member (name, value) List.mem_cons_self
  exact ⟨behind, by rw [front, rest], by rw [front, split]⟩

end Table

namespace Expr

variable {name : Text} {value : Value} {table : Table} {t : Text}

theorem substitute_append (left right : Table) (t : Text) :
    substitute (left ++ right) t = (substitute left t).bind (substitute right) := by
  induction left generalizing t with
  | nil => rfl
  | cons entry left ih =>
    rw [List.cons_append, substitute, substitute]
    cases Quoted.check t with
    | error e => rfl
    | ok => exact ih _

/-- A variable is passed over if its name does not occur in what the ones before it leave. -/
theorem substitute_unrelated {front behind : Table} (tame : front.Tame) (paired : t.Paired)
    (absent : occurs name false (rewrite front t) = false) (value : Value) :
    substitute (front ++ (name, value) :: behind) t = substitute (front ++ behind) t := by
  have checked := Quoted.check_ok.mpr (paired_rewrite tame paired)
  rw [substitute_append, substitute_append, substitute_eq tame paired]
  change substitute ((name, value) :: behind) (rewrite front t) = substitute behind (rewrite front t)
  rw [substitute, checked, replace_of_not_occurs absent]
  rfl

/-- No character that stands outside the literals is one of the name, in any letter case. -/
def Misses (name : Text) : Bool → Text → Prop
  | _, [] => True
  | inside, c :: t => (inside = true ∨ c.toLower ∉ name) ∧ Misses name (Quoted.step inside c) t

theorem not_beginsWith_of_not_mem {c : Char} (nonempty : name ≠ []) (other : c.toLower ∉ name)
    (t : Text) : Text.beginsWith (c :: t) name = false := by
  obtain ⟨w, name, rfl⟩ := List.exists_cons_of_ne_nil nonempty
  rw [List.mem_cons, not_or] at other
  simp [Text.beginsWith, other.1]

theorem occurs_of_misses {left : Text} {inside : Bool} (nonempty : name ≠ [])
    (misses : Misses name inside left)
    (absent : occurs name (Quoted.after inside left) t = false) :
    occurs name inside (left ++ t) = false := by
  induction left generalizing inside with
  | nil => exact absent
  | cons c left ih =>
    obtain ⟨here, rest⟩ := misses
    rw [List.cons_append, occurs, ih rest absent, Bool.or_false]
    rcases here with rfl | other
    · rfl
    · rw [not_beginsWith_of_not_mem nonempty other, Bool.and_false]

/-- A word of the name's characters that begins what replacing leaves began the text before. -/
theorem Replaces.beginsWith {other word u : Text} {inside : Bool}
    (replaces : Replaces other value inside t u) (outside : inside = false)
    (misses : Misses name false value.literal) (free : '"' ∉ name)
    (part : ∀ w ∈ word, w ∈ name) (begins : Text.beginsWith u word = true) :
    Text.beginsWith t word = true := by
  induction replaces generalizing word with
  | done => exact begins
  | swap same rest ih =>
    cases word with
    | nil => simp [Text.beginsWith]
    | cons w word =>
      -- The literal would have to start with a character of the name.
      obtain ⟨c, literal, shape⟩ := List.exists_cons_of_ne_nil value.literal_ne_nil
      rw [shape] at misses begins
      have first : c.toLower = w := by
        simp only [List.cons_append, Text.beginsWith, Bool.and_eq_true, beq_iff_eq] at begins
        exact begins.1
      rcases misses.1 with inside | missing
      · cases inside
      · exact absurd (part w List.mem_cons_self) (first ▸ missing)
  | @keep inside c t u none rest ih =>
    cases word with
    | nil => simp [Text.beginsWith]
    | cons w word =>
      simp only [Text.beginsWith, Bool.and_eq_true, beq_iff_eq] at begins ⊢
      obtain ⟨first, begins⟩ := begins
      have unquoted : c ≠ '"' := by
        rintro rfl
        have quote : w = '"' := first.symm
        exact free (quote ▸ part w List.mem_cons_self)
      refine ⟨first, ih ?_ (fun d member => part d (List.mem_cons_of_mem _ member)) begins⟩
      rw [Quoted.step_of_ne unquoted, outside]

/-- Putting in literals that share no character with the name does not make it occur. -/
theorem Replaces.occurs {other u : Text} {inside : Bool}
    (replaces : Replaces other value inside t u) (otherFree : '"' ∉ other)
    (valueFree : value.QuoteFree)
    (misses : Misses name false value.literal) (nonempty : name ≠ []) (free : '"' ∉ name)
    (absent : Expr.occurs name inside t = false) : Expr.occurs name inside u = false := by
  induction replaces with
  | done => rfl
  | swap same rest ih =>
    refine occurs_of_misses nonempty misses ?_
    rw [Value.after_literal valueFree]
    have tail := occurs_suffix absent
    rw [Quoted.after_of_free (quoteFree_of_lower same otherFree)] at tail
    exact ih tail
  | @keep inside c t u none rest ih =>
    rw [Expr.occurs, Bool.or_eq_false_iff] at absent ⊢
    refine ⟨?_, ih absent.2⟩
    cases inside with
    | true => rfl
    | false =>
      cases begins : Text.beginsWith (c :: u) name with
      | false => rfl
      | true =>
        have before := (Replaces.keep none rest).beginsWith rfl misses free
          (fun _ member => member) begins
        rw [before] at absent
        cases absent.1

theorem misses_of_apart (apart : ∀ c ∈ t, c.toLower ∉ name) (inside : Bool) :
    Misses name inside t := by
  induction t generalizing inside with
  | nil => trivial
  | cons c t ih =>
    exact ⟨.inr (apart c List.mem_cons_self), ih (fun d member =>
      apart d (List.mem_cons_of_mem _ member)) _⟩

theorem misses_string {s : Text} (free : '"' ∉ s) (nameFree : '"' ∉ name) :
    Misses name false ('"' :: s ++ ['"']) := by
  refine ⟨.inr nameFree, ?_⟩
  change Misses name true (s ++ ['"'])
  induction s with
  | nil => exact ⟨.inl rfl, trivial⟩
  | cons c s ih =>
    rw [List.mem_cons, not_or] at free
    refine ⟨.inl rfl, ?_⟩
    rw [Quoted.step_of_ne (Ne.symm free.1)]
    exact ih free.2

/-- The value is a string, or its literal shares no character with the name. -/
def Apart (name : Text) (value : Value) : Prop :=
  value.kind = .string ∨ ∀ c ∈ value.literal, c.toLower ∉ name

instance (name : Text) (value : Value) : Decidable (Apart name value) :=
  have : Decidable (∀ c ∈ value.literal, c.toLower ∉ name) := List.decidableBAll _ _
  inferInstanceAs (Decidable (_ ∨ _))

theorem Apart.misses (apart : Apart name value) (free : value.QuoteFree) (nameFree : '"' ∉ name) :
    Misses name false value.literal := by
  rcases apart with string | apart
  · cases value with
    | string s => exact misses_string free nameFree
    | bool | int | double => cases string
  · exact misses_of_apart apart false

/-- A name that no literal can bring in stays out. -/
theorem occurs_rewrite (valid : isName name = true) (tame : table.Tame)
    (apart : ∀ entry ∈ table, Apart name entry.2) (absent : occurs name false t = false) :
    occurs name false (rewrite table t) = false := by
  induction table generalizing t with
  | nil => exact absent
  | cons entry table ih =>
    obtain ⟨entryValid, free⟩ := tame entry List.mem_cons_self
    have nameFree := quoteFree_of_isName valid
    have misses := (apart entry List.mem_cons_self).misses free nameFree
    have replaces := replaces_replace (ne_nil_of_isName entryValid) entry.2 false t
    have kept := replaces.occurs (quoteFree_of_isName entryValid) free misses
      (ne_nil_of_isName valid) nameFree absent
    exact ih (fun other member => tame other (List.mem_cons_of_mem _ member))
      (fun other member => apart other (List.mem_cons_of_mem _ member)) kept

end Expr

theorem Table.Tame.ahead {table : Table} (tame : table.Tame) (name : Text) :
    (table.ahead name).Tame := by
  intro entry member
  exact tame entry ((arrange_perm _ _).mem_iff.mp (List.mem_filter.mp member).1)

/-- A new local changes no expression in which it does not occur once the variables before it have
been replaced; a literal of these that shares no character with the new name cannot bring it in. -/
theorem declareLocal_unrelated {scope : Scope} {name expr : Text} (ordered : scope.locals.Ordered)
    (tame : scope.locals.Tame) (valid : isName name.trim = true)
    (fresh : scope.locals.find? (Scope.key name) = none) (paired : expr.Paired) (value : Value)
    (kind : Kind) :
    let before := scope.locals.ahead (Scope.key name)
    ∃ after, scope.declareLocal name value = .ok after ∧
      (Expr.occurs (Scope.key name) false (Expr.rewrite before expr.trim) = false →
        Expr.evaluate kind expr after = Expr.evaluate kind expr scope) ∧
      ((∀ entry ∈ before, Expr.Apart (Scope.key name) entry.2) →
        Expr.occurs (Scope.key name) false expr = false →
        Expr.evaluate kind expr after = Expr.evaluate kind expr scope) := by
  intro before
  have declared : scope.declareLocal name value =
      .ok { scope with locals := scope.locals.insert (Scope.key name) value } := by
    simp only [Scope.declareLocal, checkName, valid, if_true]
    rfl
  have trimmed : Text.Paired expr.trim := (Quoted.after_trim false expr).trans paired
  have unchanged : Expr.occurs (Scope.key name) false (Expr.rewrite before expr.trim) = false →
      Expr.evaluate kind expr { scope with
        locals := scope.locals.insert (Scope.key name) value } =
      Expr.evaluate kind expr scope := by
    intro absent
    obtain ⟨behind, old, new⟩ := Table.longestFirst_insert ordered fresh value
    simp only [Expr.evaluate, Scope.substitutionOrder, old, new, List.append_assoc,
      List.cons_append]
    rw [Expr.substitute_unrelated (tame.ahead _) trimmed absent]
  refine ⟨_, declared, unchanged, ?_⟩
  intro apart absent
  refine unchanged (Expr.occurs_rewrite (isName_key valid) (tame.ahead _) apart ?_)
  obtain ⟨left, right, whole, leftBlank, _⟩ := expr.trim_between
  have leftFree : '"' ∉ left := fun member => absurd (leftBlank _ member) (by decide)
  rw [whole, List.append_assoc] at absent
  have tail := Expr.occurs_suffix absent
  rw [Quoted.after_of_free leftFree] at tail
  exact Expr.occurs_prefix tail

/-- A quote as the new value does no harm, for it is never put in. -/
theorem new_name_leaves_condition :
    let scope : Scope := ⟨[("flag".toList, .bool true), ("total".toList, .int 12)], []⟩
    let expr := "flag && total > 2".toList
    ∃ after, scope.declareLocal ['x'] (.string ['"']) = .ok after ∧
      Expr.evaluate .bool expr scope = .ok (.bool true) ∧
      Expr.evaluate .bool expr after = .ok (.bool true) := by
  intro scope expr
  have ordered : scope.locals.Ordered := by
    unfold Table.Ordered
    decide +kernel
  obtain ⟨after, declared, _, unchanged⟩ := declareLocal_unrelated ordered
    (show scope.locals.Tame by decide +kernel) (show isName (Text.trim ['x']) = true by decide)
    (by decide +kernel) (show Text.Paired expr by decide +kernel) (.string ['"']) .bool
  have before : Expr.evaluate .bool expr scope = .ok (.bool true) := by decide +kernel
  refine ⟨after, declared, before, ?_⟩
  rw [unchanged (by decide +kernel) (by decide +kernel), before]

/-- The variable `t` is not mentioned, and yet it is found in the literal that `flag` leaves. -/
theorem literal_brings_in_a_name :
    ¬ ∀ (scope after : Scope) (name expr : Text) (value : Value) (kind : Kind),
      scope.locals.Ordered → scope.locals.Tame → scope.interactive.Tame →
      isName name.trim = true → scope.get? name = none → expr.Paired →
      Expr.occurs (Scope.key name) false expr = false →
      scope.declareLocal name value = .ok after →
      Expr.evaluate kind expr after = Expr.evaluate kind expr scope := by
  intro unrelated
  let scope : Scope := ⟨[("flag".toList, .bool true)], []⟩
  have ordered : scope.locals.Ordered := List.pairwise_singleton _ _
  have same := unrelated scope ⟨scope.locals.insert ['t'] (.int 1), []⟩ ['t'] "flag".toList (.int 1)
    .bool ordered (by decide +kernel) (by decide +kernel) (by decide) rfl (by decide +kernel)
    (by decide +kernel) rfl
  have before : Expr.evaluate .bool "flag".toList scope = .ok (.bool true) := by decide +kernel
  have after : Expr.evaluate .bool "flag".toList ⟨scope.locals.insert ['t'] (.int 1), []⟩ =
      .error (.unrecognizedOperand "1rue".toList) := by decide +kernel
  rw [before, after] at same
  cases same

end StepScript
