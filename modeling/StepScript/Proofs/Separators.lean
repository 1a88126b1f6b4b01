import StepScript.Proofs.Grouping
import StepScript.Statement

/-! Signs that divide a line or a statement: the slashes of a comment, the equals sign of an
assignment, the commas between arguments and the parentheses of a call. A scan passes over a text
that has its sign in literals and groups only. -/
namespace StepScript

namespace Line

variable {inside : Bool} {t u sep : Text}

/-- Slashes one after the other stand in literals only. -/
def Uncommented (inside : Bool) (t : Text) : Prop :=
  ∀ before after, t = before ++ '/' :: '/' :: after → Quoted.after inside before = true

theorem uncommented_cons {c : Char} : Uncommented inside (c :: t) ↔
    (c = '/' → t.head? = some '/' → inside = true) ∧ Uncommented (Quoted.step inside c) t := by
  constructor
  · intro none
    refine ⟨?_, fun before after same => none (c :: before) after (congrArg (c :: ·) same)⟩
    rintro rfl slash
    obtain ⟨rest, rfl⟩ := List.head?_eq_some_iff.mp slash
    exact none [] rest rfl
  · rintro ⟨here, later⟩ before after same
    cases before with
    | nil =>
      obtain ⟨rfl, rfl⟩ := List.cons.inj same
      exact here rfl rfl
    | cons d before =>
      obtain ⟨rfl, rest⟩ := List.cons.inj same
      exact later before after rest

theorem uncommented_nil (inside : Bool) : Uncommented inside [] := by
  intro before after same
  simp at same

instance decidableUncommented (inside : Bool) (t : Text) : Decidable (Uncommented inside t) :=
  match t with
  | [] => .isTrue (uncommented_nil inside)
  | c :: t =>
    have := decidableUncommented (Quoted.step inside c) t
    decidable_of_iff _ uncommented_cons.symm

theorem beforeComment_of_uncommented (none : Uncommented inside t) : beforeComment inside t = t := by
  induction t generalizing inside with
  | nil => rfl
  | cons c t ih =>
    obtain ⟨here, later⟩ := uncommented_cons.mp none
    rw [beforeComment, ih later, if_neg]
    simp only [Bool.and_eq_true, beq_iff_eq, not_and]
    rintro ⟨outside, slash⟩ next
    rw [here slash next] at outside
    cases outside

theorem uncommented_append_free (slashes : '/' ∉ sep) (quotes : '"' ∉ sep) :
    Uncommented inside (sep ++ t) ↔ Uncommented inside t := by
  induction sep with
  | nil => rfl
  | cons c sep ih =>
    rw [List.mem_cons, not_or] at slashes quotes
    rw [List.cons_append, uncommented_cons, Quoted.step_of_ne (Ne.symm quotes.1),
      ih slashes.2 quotes.2]
    simp [Ne.symm slashes.1]

theorem uncommented_append (unslashed : u.head? ≠ some '/') :
    Uncommented inside (t ++ u) ↔ Uncommented inside t ∧ Uncommented (Quoted.after inside t) u := by
  induction t generalizing inside with
  | nil => simp [uncommented_nil]
  | cons c t ih =>
    have next : (t ++ u).head? = some '/' ↔ t.head? = some '/' := by
      cases t with
      | nil => simpa using unslashed
      | cons d t => rfl
    rw [List.cons_append, uncommented_cons, uncommented_cons, ih, next, Quoted.after_cons, and_assoc]

/-- Neither a comment nor an open literal reaches beyond the text. -/
structure Quiet (t : Text) : Prop where
  uncommented : Uncommented false t
  paired : t.Paired

/-- A text that parts two others: it is not empty, and has no slashes and no quotes. -/
def Parts (sep : Text) : Prop :=
  sep ≠ [] ∧ '/' ∉ sep ∧ '"' ∉ sep

instance (sep : Text) : Decidable (Parts sep) :=
  inferInstanceAs (Decidable (_ ∧ _))

theorem quiet_of_free (slashes : '/' ∉ t) (quotes : '"' ∉ t) : Quiet t where
  uncommented := by
    rw [← List.append_nil t, uncommented_append_free slashes quotes]
    exact uncommented_nil false
  paired := Quoted.after_of_free quotes

theorem Quiet.between (left : Quiet t) (right : Quiet u) (parts : Parts sep) :
    Quiet (t ++ sep ++ u) := by
  obtain ⟨nonempty, slashes, quotes⟩ := parts
  obtain ⟨c, rest, rfl⟩ := List.exists_cons_of_ne_nil nonempty
  have outside : Quoted.after false t = false := left.paired
  constructor
  · have unslashed : (c :: rest ++ u).head? ≠ some '/' := by
      rintro ⟨⟩
      exact slashes List.mem_cons_self
    rw [List.append_assoc, uncommented_append unslashed, outside,
      uncommented_append_free slashes quotes]
    exact ⟨left.uncommented, right.uncommented⟩
  · rw [Text.Paired, Quoted.after_append, Quoted.after_append, outside, Quoted.after_of_free quotes]
    exact right.paired

theorem Quiet.before (quiet : Quiet t) (parts : Parts sep) : Quiet (t ++ sep) := by
  have nothing : Quiet [] := quiet_of_free List.not_mem_nil List.not_mem_nil
  simpa using quiet.between nothing parts

end Line

namespace Group

variable {sep : Char} {inside : Bool} {d : Nat} {t u : Text}

/-- How many groups are open behind the text. -/
def depth (inside : Bool) (d : Nat) : Text → Nat
  | [] => d
  | c :: t => depth (Quoted.step inside c) (depthAfter inside d c) t

/-- The separator stands in literals and groups only. -/
def Shelters (sep : Char) (inside : Bool) (d : Nat) (t : Text) : Prop :=
  ∀ before after, t = before ++ sep :: after →
    Quoted.after inside before = true ∨ 0 < depth inside d before

theorem shelters_nil (sep : Char) (inside : Bool) (d : Nat) : Shelters sep inside d [] := by
  intro before after same
  simp at same

theorem shelters_cons {c : Char} : Shelters sep inside d (c :: t) ↔
    (c = sep → inside = true ∨ 0 < d) ∧
      Shelters sep (Quoted.step inside c) (depthAfter inside d c) t := by
  constructor
  · intro shelters
    refine ⟨?_, fun before after same => shelters (c :: before) after (congrArg (c :: ·) same)⟩
    rintro rfl
    exact shelters [] t rfl
  · rintro ⟨here, later⟩ before after same
    cases before with
    | nil => exact here (List.cons.inj same).1
    | cons d before =>
      obtain ⟨rfl, rest⟩ := List.cons.inj same
      exact later before after rest

/-- The test for a separator fails on a character that is sheltered. -/
theorem Shelters.passed {c : Char} (shelters : Shelters sep inside d (c :: t)) :
    (!inside && c == sep && d == 0) = false := by
  by_cases same : c = sep
  · rcases (shelters_cons.mp shelters).1 same with rfl | positive
    · rfl
    · simp [Nat.ne_of_gt positive]
  · simp [same]

instance decidableShelters (sep : Char) (inside : Bool) (d : Nat) (t : Text) :
    Decidable (Shelters sep inside d t) :=
  match t with
  | [] => .isTrue (shelters_nil sep inside d)
  | c :: t =>
    have := decidableShelters sep (Quoted.step inside c) (depthAfter inside d c) t
    decidable_of_iff _ shelters_cons.symm

theorem depth_append (inside : Bool) (d : Nat) (t u : Text) :
    depth inside d (t ++ u) = depth (Quoted.after inside t) (depth inside d t) u := by
  induction t generalizing inside d with
  | nil => rfl
  | cons c t ih => exact ih _ _

theorem shelters_append : Shelters sep inside d (t ++ u) ↔
    Shelters sep inside d t ∧ Shelters sep (Quoted.after inside t) (depth inside d t) u := by
  induction t generalizing inside d with
  | nil => simp [shelters_nil, depth]
  | cons c t ih =>
    rw [List.cons_append, shelters_cons, shelters_cons, ih, and_assoc]
    rfl

theorem shelters_of_free (free : sep ∉ t) : Shelters sep inside d t := by
  rintro before after rfl
  simp at free

theorem depth_of_noneOpen (none : NoneOpen inside t) : depth inside d t = d := by
  induction t generalizing inside with
  | nil => rfl
  | cons c t ih =>
    obtain ⟨here, later⟩ := none
    have same : depthAfter inside d c = d := by
      rcases here with rfl | ⟨opening, closing⟩
      · rfl
      · simp [depthAfter, opening, closing]
    rw [depth, same, ih later]

theorem shelters_of_noneOpen (none : NoneOpen inside t) (positive : 0 < d) :
    Shelters sep inside d t := by
  rintro before after rfl
  rw [noneOpen_append] at none
  rw [depth_of_noneOpen none.1]
  exact .inr positive

theorem Balanced.depth (balanced : Balanced t) (d : Nat) : Group.depth false d t = d := by
  induction balanced generalizing d with
  | flat flat => exact depth_of_noneOpen flat.none
  | append left _ ihLeft ihRight =>
    rw [depth_append, show Quoted.after false _ = false from left.paired, ihLeft, ihRight]
  | @group t inner ih =>
    change Group.depth false (d + 1) (t ++ [')']) = d
    rw [depth_append, show Quoted.after false t = false from inner.paired, ih]
    rfl

theorem shelters_group (balanced : Balanced t) (inner : Shelters sep false (d + 1) t)
    (first : '(' = sep → 0 < d) : Shelters sep false d ('(' :: t ++ [')']) := by
  have outside : Quoted.after false t = false := balanced.paired
  rw [List.cons_append, shelters_cons]
  change _ ∧ Shelters sep false (d + 1) (t ++ [')'])
  rw [shelters_append, outside, balanced.depth, shelters_cons]
  exact ⟨fun same => .inr (first same), inner, fun _ => .inr d.succ_pos, shelters_nil _ _ _⟩

/-- Within a group nothing of a balanced text stands outside of groups. -/
theorem Balanced.shelters (balanced : Balanced t) (sep : Char) (positive : 0 < d) :
    Shelters sep false d t := by
  induction balanced generalizing d with
  | flat flat => exact shelters_of_noneOpen flat.none positive
  | append left _ ihLeft ihRight =>
    rw [shelters_append, show Quoted.after false _ = false from left.paired, left.depth]
    exact ⟨ihLeft positive, ihRight positive⟩
  | group inner ih => exact shelters_group inner (ih d.succ_pos) fun _ => positive

section Commas

theorem splitTop_cons_sheltered {c : Char} (shelters : Shelters sep inside d (c :: t))
    {piece : Text} {pieces : List Text}
    (later : splitTop sep (Quoted.step inside c) (depthAfter inside d c) (t ++ u) =
      piece :: pieces) :
    splitTop sep inside d (c :: t ++ u) = (c :: piece) :: pieces := by
  rw [List.cons_append, splitTop, shelters.passed, if_neg Bool.false_ne_true, later]

theorem splitTop_sheltered (shelters : Shelters sep inside d t) :
    splitTop sep inside d t = [t] := by
  induction t generalizing inside d with
  | nil => rfl
  | cons c t ih =>
    have later := ih (shelters_cons.mp shelters).2
    rw [← List.append_nil t] at later
    simpa using splitTop_cons_sheltered shelters later

/-- The first separator that is not sheltered cuts off what stands before it. -/
theorem splitTop_append (shelters : Shelters sep inside d t)
    (outside : Quoted.after inside t = false) (level : depth inside d t = 0) (rest : Text) :
    splitTop sep inside d (t ++ sep :: rest) = t :: splitTop sep false 0 rest := by
  induction t generalizing inside d with
  | nil =>
    cases outside
    cases level
    simp [splitTop]
  | cons c t ih =>
    exact splitTop_cons_sheltered shelters (ih (shelters_cons.mp shelters).2 outside level)

end Commas

section Calls

theorem arrange_append_first {α : Type} {precedes : α → α → Bool} {first : α} {as : List α}
    (behind : ∀ a ∈ as, precedes a first = false) :
    ∃ more, arrange precedes (as ++ [first]) = first :: more := by
  induction as with
  | nil => exact ⟨[], rfl⟩
  | cons a as ih =>
    obtain ⟨here, later⟩ := List.forall_mem_cons.mp behind
    obtain ⟨more, same⟩ := ih later
    refine ⟨insertOrdered precedes a more, ?_⟩
    change insertOrdered precedes a (arrange precedes (as ++ [first])) = _
    rw [same, insertOrdered, here]
    rfl

/-- The first group of a call is closed at its end. -/
theorem spans_call (flat : Flat t) (balanced : Balanced u) :
    ∃ span more, spans (t ++ '(' :: u ++ [')']) = .ok (span :: more) ∧
      span.closing + 1 = (t ++ '(' :: u ++ [')']).width := by
  obtain ⟨found, above, passed⟩ := balanced.spansFrom_append (t.width + '('.utf8Size)
  have scanned : spansFrom 0 false [] (t ++ '(' :: u ++ [')']) =
      some (found ++ [⟨t.width, t.width + '('.utf8Size + u.width⟩]) := by
    have opened : ∀ pos rest, spansFrom pos false [] ('(' :: rest) =
        spansFrom (pos + '('.utf8Size) false [pos] rest := fun _ _ => rfl
    rw [List.append_assoc, spansFrom_of_noneOpen flat.none,
      show Quoted.after false t = false from flat.paired, Nat.zero_add, List.cons_append, opened,
      passed]
    rfl
  have last : ∀ span ∈ found, decide (span.opening ≤ t.width) = false := by
    intro span member
    have size : '('.utf8Size = 1 := rfl
    have later := above span member
    simp only [decide_eq_false_iff_not, Nat.not_le]
    omega
  obtain ⟨more, arranged⟩ := @arrange_append_first Span (fun a b => a.opening ≤ b.opening)
    ⟨t.width, t.width + '('.utf8Size + u.width⟩ found last
  refine ⟨_, more, by rw [spans, scanned]; exact congrArg Except.ok arranged, ?_⟩
  have size : ')'.utf8Size = 1 := rfl
  simp only [Text.width_append, Text.width, size, Nat.add_assoc]

end Calls
end Group

namespace Statement

open StepScript.Group

variable {inside : Bool} {d : Nat} {t rest : Text}

theorem splitEquals_cons_sheltered {c : Char} (shelters : Shelters '=' inside d (c :: t))
    (previous? : Option Char) :
    splitEquals inside d previous? (c :: t ++ rest) =
      (splitEquals (Quoted.step inside c) (depthAfter inside d c) (some c) (t ++ rest)).map
        fun (left, right) => (c :: left, right) := by
  rw [List.cons_append, splitEquals, shelters.passed, Bool.false_and, if_neg Bool.false_ne_true]

theorem splitEquals_sheltered (shelters : Shelters '=' inside d t) (previous? : Option Char) :
    splitEquals inside d previous? t = none := by
  induction t generalizing inside d previous? with
  | nil => rfl
  | cons c t ih =>
    have passed := @splitEquals_cons_sheltered _ _ _ [] c shelters previous?
    rw [List.append_nil, List.append_nil] at passed
    rw [passed, ih (shelters_cons.mp shelters).2]
    rfl

/-- The first equals sign that is not sheltered, alone between blanks, divides the text. -/
theorem splitEquals_append (shelters : Shelters '=' inside d t)
    (outside : Quoted.after inside t = false) (level : depth inside d t = 0)
    (previous? : Option Char) (rest : Text) :
    splitEquals inside d previous? (t ++ [' ', '=', ' '] ++ rest) =
      some (t ++ [' '], ' ' :: rest) := by
  rw [List.append_assoc]
  induction t generalizing inside d previous? with
  | nil =>
    cases outside
    cases level
    rfl
  | cons c t ih =>
    rw [splitEquals_cons_sheltered shelters, ih (shelters_cons.mp shelters).2 outside level]
    rfl

end Statement

theorem Text.splitFirst_append {sep : Char} {t : Text} (free : sep ∉ t) (rest : Text) :
    splitFirst sep (t ++ sep :: rest) = some (t, rest) := by
  induction t with
  | nil => simp [splitFirst]
  | cons c t ih =>
    rw [List.mem_cons, not_or] at free
    rw [List.cons_append, splitFirst, ih free.2]
    simp [Ne.symm free.1]

theorem Text.words_append {c : Char} (blank : isBlank c = true) (t u : Text) :
    words (t ++ c :: u) = words t ++ words u := by
  rw [words, splitWhere_append blank, List.filter_append]
  rfl

end StepScript
