import StepScript.Proofs.Unrelated

/-! A variable on its own as an expression. The variables of its table that are replaced before it
have longer names, or other names of the same length, which cannot stand in its name; so it is
replaced by the literal of its value. Only the locals before an interactive variable, and the
variables behind it that meet its literal, can come between. -/
namespace StepScript

namespace Scope

/-- The variables that an expression replaces after this one. -/
def behind (scope : Scope) (name : Text) : Table :=
  (scope.substitutionOrder.dropWhile fun entry => entry.1 != key name).tail

end Scope

namespace Table

variable {table : Table} {name : Text} {value : Value}

/-- A name that is replaced before another is no part of it. -/
theorem Precedes.not_part {a b : Text} (first : Precedes a b) : ¬ a <:+: b := by
  intro part
  rcases first with longer | ⟨even, less⟩
  · exact absurd part.length_le (Nat.not_le.mpr longer)
  · exact absurd (part.eq_of_length even.symm) less.ne

/-- The names in front of a variable in the order of its table are no parts of its name. -/
theorem longestFirst_split (ordered : table.Ordered) (found : table.find? name = some value) :
    ∃ front behind, table.longestFirst = front ++ (name, value) :: behind ∧
      ∀ entry ∈ front, ¬ entry.1 <:+: name := by
  have member : (name, value) ∈ table.longestFirst :=
    (arrange_perm _ _).mem_iff.mpr (mem_of_find? found)
  obtain ⟨front, behind, split⟩ := List.append_of_mem member
  have sorted := longestFirst_precedes ordered
  rw [split] at sorted
  refine ⟨front, behind, split, fun entry early => ?_⟩
  exact ((List.pairwise_append.mp sorted).2.2 entry early _ List.mem_cons_self).not_part

end Table

namespace Expr

variable {name word t : Text} {value : Value} {front behind : Table}

theorem infix_of_occurs {inside : Bool} (found : occurs name inside t = true) :
    name <:+: t.lower := by
  induction t generalizing inside with
  | nil => cases found
  | cons c t ih =>
    rw [occurs, Bool.or_eq_true, Bool.and_eq_true] at found
    rcases found with ⟨_, begins⟩ | later
    · obtain ⟨word, rest, split, rfl⟩ := (Text.beginsWith_iff _ _).mp begins
      rw [split]
      change word.lower <:+: List.map Char.toLower (word ++ rest)
      rw [List.map_append]
      exact (List.prefix_append _ _).isInfix
    · exact (ih later).trans (List.suffix_cons _ _).isInfix

/-- Variables that do not occur leave the text alone. -/
theorem substitute_absent (paired : t.Paired)
    (absent : ∀ entry ∈ front, occurs entry.1 false t = false) : substitute front t = .ok t := by
  induction front with
  | nil => rfl
  | cons entry front ih =>
    obtain ⟨here, rest⟩ := List.forall_mem_cons.mp absent
    rw [substitute, Quoted.check_ok.mpr paired, replace_of_not_occurs here]
    exact ih rest

theorem substitute_reference (valid : isName name = true) (same : word.lower = name)
    (free : value.QuoteFree) (before : ∀ entry ∈ front, ¬ entry.1 <:+: name)
    (clear : ∀ entry ∈ behind, occurs entry.1 false value.literal = false) :
    substitute (front ++ (name, value) :: behind) word = .ok value.literal := by
  have nonempty : word ≠ [] := by
    rintro rfl
    exact ne_nil_of_isName valid same.symm
  have paired : word.Paired :=
    Quoted.after_of_free (quoteFree_of_lower same (quoteFree_of_isName valid))
  have untouched : substitute front word = .ok word := by
    refine substitute_absent paired fun entry member => Bool.eq_false_iff.mpr fun found => ?_
    exact before entry member (same ▸ infix_of_occurs found)
  have whole := replace_here value same nonempty []
  rw [List.append_nil, replace, List.append_nil] at whole
  rw [substitute_append, untouched]
  change substitute ((name, value) :: behind) word = _
  rw [substitute, Quoted.check_ok.mpr paired, whole]
  exact substitute_absent (Value.after_literal free false) clear

/-- Variables whose names are no parts of the text leave it alone. -/
theorem rewrite_apart {table : Table} (apart : ∀ entry ∈ table, ¬ entry.1 <:+: t.lower) :
    rewrite table t = t := by
  induction table with
  | nil => rfl
  | cons entry table ih =>
    obtain ⟨here, later⟩ := List.forall_mem_cons.mp apart
    have absent : occurs entry.1 false t = false :=
      Bool.eq_false_iff.mpr fun found => here (infix_of_occurs found)
    have first : rewrite (entry :: table) t =
        rewrite table (replace entry.1 entry.2 false 0 t) := rfl
    rw [first, replace_of_not_occurs absent, ih later]

/-- A reference to a variable becomes the literal of its value, if no name in front of it in the
table is a part of its own and no name behind it is one of the literal. -/
theorem rewrite_reference (front behind : Table)
    (tame : Table.Tame (front ++ (name, value) :: behind)) (same : word.lower = name)
    (before : ∀ entry ∈ front, ¬ entry.1 <:+: name)
    (clear : ∀ entry ∈ behind, occurs entry.1 false value.literal = false) :
    rewrite (front ++ (name, value) :: behind) word = value.literal := by
  obtain ⟨valid, free⟩ := tame (name, value) (by simp)
  have paired : word.Paired :=
    Quoted.after_of_free (quoteFree_of_lower same (quoteFree_of_isName valid))
  have substituted := substitute_reference valid same free before clear
  rw [substitute_eq tame paired] at substituted
  exact Except.ok.inj substituted

/-- Among variables whose names are no parts of its own or of its literal, in any order, a reference
becomes the literal of its value. -/
theorem rewrite_among {table others : Table} (among : table.Perm ((name, value) :: others))
    (tame : table.Tame) (same : word.lower = name)
    (apart : ∀ entry ∈ others, ¬ entry.1 <:+: name ∧ ¬ entry.1 <:+: value.literal.lower) :
    rewrite table word = value.literal := by
  have member : (name, value) ∈ table := among.mem_iff.mpr List.mem_cons_self
  obtain ⟨front, behind, rfl⟩ := List.append_of_mem member
  have rest : (front ++ behind).Perm others :=
    (List.perm_cons _).mp (List.perm_middle.symm.trans among)
  refine rewrite_reference front behind tame same ?_ ?_
  · intro entry early
    exact (apart entry (rest.mem_iff.mp (List.mem_append_left _ early))).1
  · intro entry later
    exact Bool.eq_false_iff.mpr fun found =>
      (apart entry (rest.mem_iff.mp (List.mem_append_right _ later))).2 (infix_of_occurs found)

/-- Names do not occur in the literal of a string, and elsewhere only as parts of it. -/
theorem not_occurs_literal (valid : isName name = true) (free : value.QuoteFree)
    (clear : value.kind ≠ .string → ¬ name <:+: value.literal.lower) :
    occurs name false value.literal = false := by
  by_cases string : value.kind = .string
  · cases value with
    | string s =>
      have misses := misses_string free (quoteFree_of_isName valid)
      have absent := occurs_of_misses (t := []) (ne_nil_of_isName valid) misses rfl
      rwa [List.append_nil] at absent
    | bool | int | double => cases string
  · exact Bool.eq_false_iff.mpr fun found => clear string (infix_of_occurs found)

end Expr

namespace Scope

variable {scope : Scope} {name : Text} {value : Value}

theorem key_of_isName (valid : isName name = true) : key name = name.lower := by
  rw [key, trim_of_plain (plain_of_isName valid)]

theorem isName_key_of_isName (valid : isName name = true) : isName (key name) = true := by
  refine isName_key ?_
  rwa [trim_of_plain (plain_of_isName valid)]

theorem substitutionOrder_perm (scope : Scope) :
    scope.substitutionOrder.Perm (scope.locals ++ scope.interactive) :=
  (arrange_perm _ _).append (arrange_perm _ _)

/-- In the order of substitution no name in front of a variable is a part of its own, if no local's
name is a part of an interactive one. -/
theorem substitutionOrder_split (ordered : scope.Ordered) (found : scope.get? name = some value)
    (apart : scope.interactive.Binds (key name) →
      ∀ entry ∈ scope.locals, ¬ entry.1 <:+: key name) :
    ∃ front behind, scope.substitutionOrder = front ++ (key name, value) :: behind ∧
      ∀ entry ∈ front, ¬ entry.1 <:+: key name := by
  rw [get?] at found
  cases interactive : scope.interactive.find? (key name) with
  | some shown =>
    rw [interactive] at found
    cases found
    obtain ⟨front, behind, split, before⟩ :=
      Table.longestFirst_split ordered.interactive interactive
    refine ⟨scope.locals.longestFirst ++ front, behind, ?_, ?_⟩
    · rw [substitutionOrder, split, List.append_assoc]
    · have binds : scope.interactive.Binds (key name) := by
        rw [Table.Binds, interactive]
        rfl
      intro entry member
      rcases List.mem_append.mp member with isLocal | early
      · exact apart binds entry ((arrange_perm _ _).mem_iff.mp isLocal)
      · exact before entry early
  | none =>
    rw [interactive] at found
    obtain ⟨front, behind, split, before⟩ := Table.longestFirst_split ordered.locals found
    refine ⟨front, behind ++ scope.interactive.longestFirst, ?_, before⟩
    rw [substitutionOrder, split, List.append_assoc, List.cons_append]

/-- The variables behind a place in the order where the name is met first. -/
theorem behind_eq {front behind : Table}
    (split : scope.substitutionOrder = front ++ (key name, value) :: behind)
    (before : ∀ entry ∈ front, ¬ entry.1 <:+: key name) : scope.behind name = behind := by
  have passed : ∀ entry ∈ front, (entry.1 != key name) = true := by
    intro entry member
    refine bne_iff_ne.mpr fun same => before entry member ?_
    rw [same]
  rw [Scope.behind, split, List.dropWhile_append_of_pos passed]
  simp

end Scope

/-- A variable on its own, in any letter case and with any blanks around it, is worth its value. The
other variables may have any values, and names of the same table may overlap its name in any way:
only a local can change the name of an interactive variable before its turn, and only a variable
whose turn comes later can change the literal, unless that is in quotes. -/
theorem reference_reads_value {scope : Scope} {name text : Text} {value : Value}
    (ordered : scope.Ordered) (valid : ∀ entry ∈ scope.substitutionOrder, isName entry.1 = true)
    (found : scope.get? name = some value) (readable : value.Readable)
    (same : Scope.key text = Scope.key name)
    (apart : scope.interactive.Binds (Scope.key name) →
      ∀ entry ∈ scope.locals, ¬ entry.1 <:+: Scope.key name)
    (clear : value.kind ≠ .string →
      ∀ entry ∈ scope.behind name, ¬ entry.1 <:+: value.literal.lower) :
    Expr.evaluate value.kind text scope = .ok value := by
  obtain ⟨front, behind, split, before⟩ :=
    Scope.substitutionOrder_split ordered found apart
  rw [Scope.behind_eq split before] at clear
  rw [split] at valid
  obtain ⟨_, validRest⟩ := List.forall_mem_append.mp valid
  obtain ⟨validName, validBehind⟩ := List.forall_mem_cons.mp validRest
  have replaced : Expr.substitute scope.substitutionOrder text.trim = .ok value.literal := by
    rw [split]
    refine Expr.substitute_reference validName same readable.quoteFree before ?_
    intro entry member
    exact Expr.not_occurs_literal (validBehind entry member) readable.quoteFree fun unquoted =>
      clear unquoted entry member
  have paired : Text.Paired text.trim :=
    Quoted.after_of_free (Expr.quoteFree_of_lower same (quoteFree_of_isName validName))
  rw [Expr.evaluate, Quoted.check_ok.mpr paired, replaced]
  exact Expr.evaluateText_literal readable

/-- Names that overlap: of two interactive variables the shorter is part of the longer, and the
local holds a lone quote. -/
theorem reference_reads_overlapping :
    let scope : Scope :=
      ⟨[("count".toList, .string "\"".toList)], [("c".toList, .int 1), ("co".toList, .bool true)]⟩
    scope.get? "co".toList = some (.bool true) ∧
      Expr.evaluate .bool "\tCo ".toList scope = .ok (.bool true) := by
  intro scope
  have found : scope.get? "co".toList = some (.bool true) := by decide
  have ordered : scope.Ordered :=
    ⟨List.pairwise_singleton _ _, List.pairwise_pair.mpr (by decide)⟩
  exact ⟨found, reference_reads_value ordered (by decide) found trivial (by decide) (by decide)
    (by decide)⟩

end StepScript
