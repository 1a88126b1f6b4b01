import StepScript.Proofs.Substitution

/-! String literals under substitution. No name holds a quote, so that no occurrence of a name
reaches over one: what stands on both sides of a literal is rewritten on its own, and the literal
stays, whether it was in the text from the start or was put in for a variable. The same holds of
every other character that is not one of a name, as gaps and operators are. -/
namespace StepScript

theorem Text.beginsWith_before {name : Text} {sep : Char} (other : sep.toLower ∉ name)
    (t u : Text) : beginsWith (t ++ sep :: u) name = beginsWith t name := by
  induction name generalizing t with
  | nil => simp [beginsWith]
  | cons w name ih =>
    rw [List.mem_cons, not_or] at other
    cases t with
    | nil => simp [beginsWith, beq_false_of_ne other.1]
    | cons c t => rw [List.cons_append, beginsWith, beginsWith, ih other.2]

theorem not_mem_of_isName {name : Text} {sep : Char} (valid : isName name = true)
    (other : isNameChar sep = false) : sep.toLower ∉ name := by
  simp only [isName, Bool.and_eq_true, List.all_eq_true] at valid
  intro member
  have named := valid.2 _ member
  rw [isNameChar_toLower, other] at named
  cases named

namespace Expr

section Replace

variable {name : Text} {value : Value} {inside : Bool} {t u s : Text} {sep : Char}

/-- What stands before a separator is rewritten as if the text ended there. -/
theorem Replaces.before (replaces : Replaces name value inside t u) (nonempty : name ≠ [])
    (free : '"' ∉ name) (other : sep.toLower ∉ name) (rest : Text) :
    replace name value inside 0 (t ++ sep :: rest) =
      u ++ replace name value (Quoted.after inside t) 0 (sep :: rest) := by
  induction replaces with
  | done => rfl
  | @swap word t u same _ ih =>
    have wordNonempty : word ≠ [] := by
      rintro rfl
      exact nonempty same.symm
    rw [List.append_assoc, replace_here value same wordNonempty, ih, Quoted.after_append,
      Quoted.after_of_free (quoteFree_of_lower same free), List.append_assoc]
  | @keep inside c t u none _ ih =>
    have kept : (!inside && Text.beginsWith (c :: (t ++ sep :: rest)) name) = false := by
      rcases none with rfl | none
      · rfl
      · rw [← List.cons_append, Text.beginsWith_before other, none, Bool.and_false]
    rw [List.cons_append, replace, kept, if_neg Bool.false_ne_true, ih]
    rfl

theorem replace_separator (nonempty : name ≠ []) (other : sep.toLower ∉ name) (rest : Text) :
    replace name value inside 0 (sep :: rest) =
      sep :: replace name value (Quoted.step inside sep) 0 rest := by
  have none : Text.beginsWith (sep :: rest) name = false := by
    rw [show sep :: rest = [] ++ sep :: rest from rfl, Text.beginsWith_before other]
    obtain ⟨w, name, rfl⟩ := List.exists_cons_of_ne_nil nonempty
    rfl
  rw [replace, none, Bool.and_false, if_neg Bool.false_ne_true]

/-- A literal is passed over. -/
theorem replace_literal (nonempty : name ≠ []) (nameFree : '"' ∉ name) (free : '"' ∉ s)
    (rest : Text) :
    replace name value false 0 ('"' :: s ++ ['"'] ++ rest) =
      '"' :: s ++ ['"'] ++ replace name value false 0 rest := by
  have outside : Char.toLower '"' ∉ name := nameFree
  have contents : ∀ s : Text, '"' ∉ s → replace name value true 0 (s ++ ('"' :: rest)) =
      s ++ '"' :: replace name value false 0 rest := by
    intro s free
    induction s with
    | nil => rfl
    | cons c s ih =>
      rw [List.mem_cons, not_or] at free
      rw [List.cons_append, replace, Quoted.step_of_ne (Ne.symm free.1), ih free.2]
      rfl
  have inner := contents s free
  rw [show '"' :: s ++ ['"'] ++ rest = '"' :: (s ++ '"' :: rest) by simp,
    replace_separator nonempty outside, show Quoted.step false '"' = true from rfl, inner]
  simp

/-- The text on the two sides of a literal is rewritten separately. -/
theorem replace_around (nonempty : name ≠ []) (nameFree : '"' ∉ name) (free : '"' ∉ s)
    (paired : t.Paired) (rest : Text) :
    replace name value false 0 (t ++ ('"' :: s ++ ['"']) ++ rest) =
      replace name value false 0 t ++ ('"' :: s ++ ['"']) ++ replace name value false 0 rest := by
  have outside : Char.toLower '"' ∉ name := nameFree
  have before := (replaces_replace nonempty value false t).before nonempty nameFree outside
    (s ++ ['"'] ++ rest)
  have literal : replace name value false 0 ('"' :: (s ++ ['"'] ++ rest)) = _ :=
    replace_literal nonempty nameFree free rest
  rw [show Quoted.after false t = false from paired, literal] at before
  simpa using before

end Replace

section Rewrite

variable {table : Table} {t s : Text}

/-- However many variables are replaced, a literal separates what stands before and behind it. -/
theorem rewrite_around (tame : table.Tame) (free : '"' ∉ s) (paired : t.Paired) (rest : Text) :
    rewrite table (t ++ ('"' :: s ++ ['"']) ++ rest) =
      rewrite table t ++ ('"' :: s ++ ['"']) ++ rewrite table rest := by
  induction table generalizing t rest with
  | nil => rfl
  | cons entry table ih =>
    obtain ⟨name, value⟩ := entry
    obtain ⟨valid, valueFree⟩ := tame (name, value) List.mem_cons_self
    have split := @replace_around name value t s (ne_nil_of_isName valid)
      (quoteFree_of_isName valid) free paired rest
    have tail := ih (fun other member => tame other (List.mem_cons_of_mem _ member))
      (paired_replace valid valueFree paired) (replace name value false 0 rest)
    exact (congrArg (rewrite table) split).trans tail

@[simp] theorem rewrite_nil (table : Table) : rewrite table [] = [] := by
  induction table with
  | nil => rfl
  | cons entry table ih => exact ih

/-- Gaps and operators of an expression: no characters of names, and no quotes. -/
def IsSeparator (c : Char) : Prop :=
  isNameChar c = false ∧ c ≠ '"'

instance (c : Char) : Decidable (IsSeparator c) :=
  inferInstanceAs (Decidable (_ ∧ _))

theorem IsSeparator.of_isGap {c : Char} (gap : isGap c = true) : IsSeparator c := by
  simp only [isGap, Bool.or_eq_true, beq_iff_eq] at gap
  rcases gap with ((rfl | rfl) | rfl) | rfl <;> exact ⟨rfl, by decide⟩

theorem rewrite_separator (tame : table.Tame) {sep : Char} (separator : IsSeparator sep)
    (paired : t.Paired) (rest : Text) :
    rewrite table (t ++ sep :: rest) = rewrite table t ++ sep :: rewrite table rest := by
  induction table generalizing t rest with
  | nil => rfl
  | cons entry table ih =>
    obtain ⟨name, value⟩ := entry
    obtain ⟨valid, valueFree⟩ := tame (name, value) List.mem_cons_self
    have nonempty := ne_nil_of_isName valid
    have outside := not_mem_of_isName valid separator.1
    have split := (replaces_replace nonempty value false t).before nonempty
      (quoteFree_of_isName valid) outside rest
    rw [show Quoted.after false t = false from paired, replace_separator nonempty outside,
      Quoted.step_of_ne separator.2] at split
    have tail := ih (fun later member => tame later (List.mem_cons_of_mem _ member))
      (paired_replace valid valueFree paired) (replace name value false 0 rest)
    exact (congrArg (rewrite table) split).trans tail

/-- What stands on both sides of separators is rewritten on its own. -/
theorem rewrite_separated (tame : table.Tame) {middle : Text} (nonempty : middle ≠ [])
    (separators : ∀ c ∈ middle, IsSeparator c) (paired : t.Paired) (rest : Text) :
    rewrite table (t ++ middle ++ rest) = rewrite table t ++ middle ++ rewrite table rest := by
  induction middle generalizing t with
  | nil => exact absurd rfl nonempty
  | cons sep middle ih =>
    obtain ⟨here, later⟩ := List.forall_mem_cons.mp separators
    rw [List.append_assoc, List.cons_append, rewrite_separator tame here paired]
    cases middle with
    | nil => simp
    | cons next middle =>
      have behind := ih (List.cons_ne_nil _ _) later (t := []) rfl
      rw [List.nil_append, rewrite_nil, List.nil_append] at behind
      rw [behind]
      simp

theorem paired_around (paired : t.Paired) (free : '"' ∉ s) {rest : Text}
    (pairedRest : rest.Paired) : Text.Paired (t ++ ('"' :: s ++ ['"']) ++ rest) := by
  rw [Text.Paired, Quoted.after_append, Quoted.after_append,
    show Quoted.after false t = false from paired, Quoted.after_literal free]
  exact pairedRest

end Rewrite

section Occurrences

variable {name : Text} {value : Value} {inside : Bool} {t u : Text}

/-- A text with further parts behind it, each a word and the text that follows the word. -/
def weave (first : Text) (parts : List (Text × Text)) : Text :=
  first ++ parts.flatMap fun part => part.1 ++ part.2

theorem weave_cons (first word piece : Text) (parts : List (Text × Text)) :
    weave first ((word, piece) :: parts) = first ++ (word ++ weave piece parts) := by
  simp [weave]

/-- The words are the occurrences of the name outside literals, one after another from the left:
the texts around them have no further one, and all of their literals end. -/
structure Occurrences (name : Text) (inside : Bool) (first : Text) (parts : List (Text × Text)) :
    Prop where
  words : ∀ part ∈ parts, part.1.lower = name
  absent : occurs name inside first = false
  absentPieces : ∀ part ∈ parts, occurs name false part.2 = false
  paired : Quoted.after inside first = false
  pairedPieces : ∀ part ∈ parts, Text.Paired part.2

/-- Where the name does not stand in front of a text, it does not in front of a beginning of it. -/
theorem beginsWith_left (none : Text.beginsWith (t ++ u) name = false) :
    Text.beginsWith t name = false := by
  rw [Bool.eq_false_iff] at none ⊢
  intro begins
  obtain ⟨word, rest, rfl, same⟩ := (Text.beginsWith_iff _ _).mp begins
  exact none ((Text.beginsWith_iff _ _).mpr ⟨word, rest ++ u, by simp, same⟩)

theorem Replaces.occurrences (replaces : Replaces name value inside t u) (free : '"' ∉ name)
    (paired : Quoted.after inside t = false) :
    ∃ first parts, Occurrences name inside first parts ∧ t = weave first parts ∧
      u = weave first (parts.map fun part => (value.literal, part.2)) := by
  induction replaces with
  | done => exact ⟨[], [], ⟨by simp, rfl, by simp, paired, by simp⟩, rfl, rfl⟩
  | @swap word t u same _ ih =>
    rw [Quoted.after_append, Quoted.after_of_free (quoteFree_of_lower same free)] at paired
    obtain ⟨first, parts, occurrences, rfl, rfl⟩ := ih paired
    refine ⟨[], (word, first) :: parts, ⟨?_, rfl, ?_, rfl, ?_⟩, ?_, ?_⟩
    · exact List.forall_mem_cons.mpr ⟨same, occurrences.words⟩
    · exact List.forall_mem_cons.mpr ⟨occurrences.absent, occurrences.absentPieces⟩
    · exact List.forall_mem_cons.mpr ⟨occurrences.paired, occurrences.pairedPieces⟩
    · rw [weave_cons, List.nil_append]
    · rw [List.map_cons, weave_cons, List.nil_append]
  | @keep inside c t u none _ ih =>
    obtain ⟨first, parts, occurrences, rfl, rfl⟩ := ih paired
    refine ⟨c :: first, parts, ⟨occurrences.words, ?_, occurrences.absentPieces,
      occurrences.paired, occurrences.pairedPieces⟩, rfl, rfl⟩
    rw [occurs, occurrences.absent, Bool.or_false]
    rcases none with rfl | none
    · rfl
    · rw [beginsWith_left (t := c :: first) none, Bool.and_false]

/-- Literals that a text is woven with stay, and the texts between them are rewritten. -/
theorem rewrite_weave {table : Table} {s first : Text} {parts : List (Text × Text)}
    (tame : table.Tame) (free : '"' ∉ s) (paired : first.Paired)
    (pieces : ∀ part ∈ parts, Text.Paired part.2) :
    rewrite table (weave first (parts.map fun part => ('"' :: s ++ ['"'], part.2))) =
      weave (rewrite table first)
        (parts.map fun part => ('"' :: s ++ ['"'], rewrite table part.2)) := by
  induction parts generalizing first with
  | nil => simp [weave]
  | cons part parts ih =>
    obtain ⟨pairedPiece, rest⟩ := List.forall_mem_cons.mp pieces
    rw [List.map_cons, weave_cons, ← List.append_assoc, rewrite_around tame free paired,
      ih pairedPiece rest, List.map_cons, weave_cons, List.append_assoc]

end Occurrences
end Expr

open StepScript.Expr in
/-- Around a literal without a quote in it the texts on both sides are substituted independently,
nothing fails, and the literal stays whatever names it holds. The same is true of the literals that
come in for a variable: wherever its name stood when its turn came, its literal stands in the end,
and the variables behind it are replaced in the texts between. -/
theorem substitute_around_literal {scope : Scope} {pre post s : Text}
    (tame : scope.substitutionOrder.Tame) (evenPre : Even (pre.count '"'))
    (evenPost : Even (post.count '"')) (free : '"' ∉ s) :
    let result := substitute scope.substitutionOrder
    let literal := fun s => (Value.string s).literal
    (∃ left right, result pre = .ok left ∧ result post = .ok right ∧
      result (pre ++ literal s ++ post) = .ok (left ++ literal s ++ right)) ∧
    ∀ front name u behind, scope.substitutionOrder = front ++ (name, .string u) :: behind →
      ∃ first parts, substitute front pre = .ok (weave first parts) ∧
        Occurrences name false first parts ∧
        (∀ piece ∈ first :: parts.map Prod.snd,
          substitute behind piece = .ok (rewrite behind piece)) ∧
        result pre = .ok (weave (rewrite behind first)
          (parts.map fun part => (literal u, rewrite behind part.2))) := by
  intro result literal
  have pairedPre : pre.Paired := (Quoted.after_eq_iff_even false pre).mpr evenPre
  have pairedPost : post.Paired := (Quoted.after_eq_iff_even false post).mpr evenPost
  refine ⟨⟨_, _, substitute_eq tame pairedPre, substitute_eq tame pairedPost, ?_⟩, ?_⟩
  · have whole := substitute_eq tame (paired_around pairedPre free pairedPost)
    rwa [rewrite_around tame free pairedPre] at whole
  · intro front name u behind split
    rw [split] at tame
    obtain ⟨tameFront, tameRest⟩ := List.forall_mem_append.mp tame
    obtain ⟨⟨valid, quoteFree⟩, tameBehind⟩ := List.forall_mem_cons.mp tameRest
    have pairedFront := paired_rewrite tameFront pairedPre
    obtain ⟨first, parts, occurrences, woven, replaced⟩ :=
      (replaces_replace (ne_nil_of_isName valid) (.string u) false _).occurrences
        (quoteFree_of_isName valid) pairedFront
    refine ⟨first, parts, ?_, occurrences, ?_, ?_⟩
    · rw [substitute_eq tameFront pairedPre, woven]
    · refine List.forall_mem_cons.mpr ⟨substitute_eq tameBehind occurrences.paired, ?_⟩
      intro piece member
      obtain ⟨part, isPart, rfl⟩ := List.mem_map.mp member
      exact substitute_eq tameBehind (occurrences.pairedPieces part isPart)
    · have whole : result pre = .ok (rewrite (front ++ (name, .string u) :: behind) pre) := by
        rw [← split]
        exact substitute_eq (split ▸ tame) pairedPre
      rw [whole, rewrite, List.foldl_append, List.foldl_cons]
      change Except.ok (rewrite behind (replace name (.string u) false 0 (rewrite front pre))) = _
      rw [replaced]
      exact congrArg _ (rewrite_weave tameBehind quoteFree occurrences.paired
        occurrences.pairedPieces)

/-- A variable whose value holds the name of another one, and a literal that holds both names. -/
theorem substitute_around_names :
    let scope : Scope := ⟨[("n".toList, .int 5), ("na".toList, .string "n".toList)], []⟩
    Expr.substitute scope.substitutionOrder "na + \"na n\" + n".toList =
      .ok "\"n\" + \"na n\" + 5".toList := by
  intro scope
  obtain ⟨⟨left, right, doneLeft, doneRight, whole⟩, _⟩ := @substitute_around_literal scope
    "na + ".toList " + n".toList "na n".toList (by decide) (by decide) (by decide) (by decide)
  cases doneLeft
  cases doneRight
  exact whole

end StepScript
