import StepScript.Expr.Substitution
import StepScript.Proofs.LetterCase
import StepScript.Proofs.Table

/-! Substitution. Replacing a name keeps the parity of the quotes, so that on a text with paired
quotes the variables are rewritten one after another and nothing fails; a name that does not occur
outside the literals of the text it is looked for in leaves that text alone. -/
namespace StepScript

/-- Strings hold no quote. -/
def Value.QuoteFree : Value → Prop
  | .string s => '"' ∉ s
  | _ => True

instance (v : Value) : Decidable v.QuoteFree :=
  match v with
  | .string s => inferInstanceAs (Decidable ('"' ∉ s))
  | .bool _ | .int _ | .double _ => .isTrue trivial

theorem Value.Readable.quoteFree {v : Value} (readable : v.Readable) : v.QuoteFree := by
  cases v with
  | string s => exact readable
  | bool | int | double => trivial

/-- The literal of a string stands in quotes; any other is a sign and plain characters. -/
theorem Value.literal_shape (v : Value) :
    (∃ s, v = .string s) ∨ ∃ negative body, body ≠ [] ∧ (∀ c ∈ body, isPlain c = true) ∧
      v.literal = Decimal.signed negative body := by
  cases v with
  | bool b =>
    refine .inr ⟨false, (Value.bool b).literal, ?_, List.all_eq_true.mp ?_, rfl⟩
    · cases b <;> decide
    · cases b <;> rfl
  | int n => exact .inr ⟨_, _, Nat.toDigits_ne_nil, plain_toDigits _, renderInteger_eq n.toInt⟩
  | double x =>
    refine .inr ?_
    cases number : Double.isNaN x with
    | false =>
      obtain ⟨text, written, body⟩ := literal_double number
      exact ⟨_, text, body.nonempty, body.plain, written⟩
    | true =>
      have infinite : Double.isFinite x = false := by
        simp only [Double.isNaN, decide_eq_true_eq] at number
        simp only [Double.isFinite, decide_eq_false_iff_not]
        omega
      refine ⟨false, "NaN".toList, by decide, List.all_eq_true.mp rfl, ?_⟩
      simp [literal, Double.render, number, infinite, Decimal.signed]
  | string s => exact .inl ⟨s, rfl⟩

theorem Value.after_literal {v : Value} (free : v.QuoteFree) (inside : Bool) :
    Quoted.after inside v.literal = inside := by
  rcases v.literal_shape with ⟨s, rfl⟩ | ⟨negative, body, _, plain, written⟩
  · exact Quoted.after_literal free inside
  · rw [written]
    exact Quoted.after_of_free (not_mem_signed plain rfl (by decide))

theorem Value.literal_ne_nil (v : Value) : v.literal ≠ [] := by
  rcases v.literal_shape with ⟨s, rfl⟩ | ⟨negative, body, nonempty, _, written⟩
  · exact List.cons_ne_nil _ _
  · rw [written]
    exact signed_ne_nil nonempty

/-- A text whose quotes are paired. -/
def Text.Paired (t : Text) : Prop :=
  Quoted.after false t = false

instance (t : Text) : Decidable t.Paired :=
  inferInstanceAs (Decidable (_ = _))

theorem Text.beginsWith_iff (t name : Text) :
    beginsWith t name = true ↔ ∃ word rest : Text, t = word ++ rest ∧ word.lower = name := by
  induction name generalizing t with
  | nil => exact ⟨fun _ => ⟨[], t, rfl, rfl⟩, fun _ => by simp [beginsWith]⟩
  | cons w name ih =>
    cases t with
    | nil =>
      constructor
      · intro begins
        simp [beginsWith] at begins
      · rintro ⟨word, rest, empty, same⟩
        obtain ⟨rfl, rfl⟩ := List.append_eq_nil_iff.mp empty.symm
        cases same
    | cons c t =>
      rw [beginsWith, Bool.and_eq_true, beq_iff_eq, ih]
      constructor
      · rintro ⟨rfl, word, rest, rfl, rfl⟩
        exact ⟨c :: word, rest, rfl, rfl⟩
      · rintro ⟨word, rest, split, same⟩
        cases word with
        | nil => cases same
        | cons d word =>
          cases split
          cases same
          exact ⟨rfl, word, rest, rfl, rfl⟩

namespace Expr

variable {name : Text} {value : Value} {inside : Bool} {t u : Text}

/-- The name, which is in lower case, stands somewhere outside the literals. -/
def occurs (name : Text) (inside : Bool) : Text → Bool
  | [] => false
  | c :: t =>
    (!inside && Text.beginsWith (c :: t) name) || occurs name (Quoted.step inside c) t

theorem replace_of_not_occurs (absent : occurs name inside t = false) (value : Value) :
    replace name value inside 0 t = t := by
  induction t generalizing inside with
  | nil => rfl
  | cons c t ih =>
    rw [occurs, Bool.or_eq_false_iff] at absent
    rw [replace, absent.1, ih absent.2]
    rfl

theorem occurs_prefix {left right : Text} (absent : occurs name inside (left ++ right) = false) :
    occurs name inside left = false := by
  induction left generalizing inside with
  | nil => rfl
  | cons c left ih =>
    rw [List.cons_append, occurs, Bool.or_eq_false_iff] at absent
    rw [occurs, ih absent.2, Bool.or_false]
    cases begins : Text.beginsWith (c :: left) name with
    | false => rw [Bool.and_false]
    | true =>
      obtain ⟨word, rest, split, same⟩ := (Text.beginsWith_iff _ _).mp begins
      have longer : Text.beginsWith (c :: (left ++ right)) name = true := by
        refine (Text.beginsWith_iff _ _).mpr ⟨word, rest ++ right, ?_, same⟩
        rw [← List.cons_append, split, List.append_assoc]
      rw [longer] at absent
      exact absent.1

/-- What does not occur in a text does not occur in what follows a part of it. -/
theorem occurs_suffix {left right : Text} (absent : occurs name inside (left ++ right) = false) :
    occurs name (Quoted.after inside left) right = false := by
  induction left generalizing inside with
  | nil => exact absent
  | cons c left ih =>
    rw [List.cons_append, occurs, Bool.or_eq_false_iff] at absent
    exact ih absent.2

/-- Replacing from left to right: an occurrence gives way to the literal, other characters stay. -/
inductive Replaces (name : Text) (value : Value) : Bool → Text → Text → Prop where
  | done {inside : Bool} : Replaces name value inside [] []
  | swap {word t u : Text} (same : word.lower = name) (rest : Replaces name value false t u) :
      Replaces name value false (word ++ t) (value.literal ++ u)
  | keep {inside : Bool} {c : Char} {t u : Text}
      (none : inside = true ∨ Text.beginsWith (c :: t) name = false)
      (rest : Replaces name value (Quoted.step inside c) t u) :
      Replaces name value inside (c :: t) (c :: u)

theorem replace_skip (name : Text) (value : Value) (inside : Bool) (skip : Nat) (t : Text) :
    replace name value inside skip t = replace name value inside 0 (t.drop skip) := by
  induction t generalizing skip with
  | nil => simp [replace]
  | cons c t ih =>
    cases skip with
    | zero => rfl
    | succ skip => rw [replace, ih, List.drop_succ_cons]

/-- Where the name stands, its literal comes in and the rest follows. -/
theorem replace_here {word : Text} (value : Value) (same : word.lower = name)
    (nonempty : word ≠ []) (rest : Text) :
    replace name value false 0 (word ++ rest) =
      value.literal ++ replace name value false 0 rest := by
  obtain ⟨c, word, rfl⟩ := List.exists_cons_of_ne_nil nonempty
  have length : name.length - 1 = word.length := by
    rw [← same]
    simp [Text.lower]
  have here : Text.beginsWith (c :: (word ++ rest)) name = true :=
    (Text.beginsWith_iff _ _).mpr ⟨c :: word, rest, rfl, same⟩
  rw [List.cons_append, replace, here, length, replace_skip, List.drop_left]
  rfl

theorem replaces_replace (nonempty : name ≠ []) (value : Value) (inside : Bool) (t : Text) :
    Replaces name value inside t (replace name value inside 0 t) := by
  induction length : t.length using Nat.strong_induction_on generalizing inside t with
  | _ size ih =>
    cases t with
    | nil => exact .done
    | cons c t =>
      by_cases here : inside = false ∧ Text.beginsWith (c :: t) name = true
      · obtain ⟨rfl, begins⟩ := here
        obtain ⟨word, rest, split, same⟩ := (Text.beginsWith_iff _ _).mp begins
        have wordNonempty : word ≠ [] := by
          rintro rfl
          exact nonempty same.symm
        have shorter : rest.length < size := by
          have lengths := congrArg List.length split
          have positive := List.length_pos_iff.mpr wordNonempty
          simp only [List.length_append] at lengths
          omega
        rw [split, replace_here value same wordNonempty]
        exact .swap same (ih _ shorter false rest rfl)
      · have none : inside = true ∨ Text.beginsWith (c :: t) name = false := by
          cases inside with
          | true => exact .inl rfl
          | false => exact .inr (by simpa using here)
        have kept : (!inside && Text.beginsWith (c :: t) name) = false := by
          rcases none with rfl | none
          · rfl
          · simp [none]
        rw [replace, kept]
        have shorter : t.length < size := by
          rw [← length]
          exact Nat.lt_succ_self _
        exact .keep none (ih _ shorter (Quoted.step inside c) t rfl)

/-- A word that is the name up to letter case holds no quote. -/
theorem quoteFree_of_lower {word : Text} (same : word.lower = name) (free : '"' ∉ name) :
    '"' ∉ word := by
  intro member
  refine free ?_
  rw [← same]
  exact List.mem_map.mpr ⟨'"', member, rfl⟩

/-- Replacing keeps the parity of the quotes. -/
theorem Replaces.after (replaces : Replaces name value inside t u) (nameFree : '"' ∉ name)
    (valueFree : value.QuoteFree) : Quoted.after inside u = Quoted.after inside t := by
  induction replaces with
  | done => rfl
  | swap same rest ih =>
    rw [Quoted.after_append, Quoted.after_append, Value.after_literal valueFree,
      Quoted.after_of_free (quoteFree_of_lower same nameFree), ih]
  | keep none rest ih => exact ih

end Expr

theorem quoteFree_of_isName {name : Text} (valid : isName name = true) : '"' ∉ name := by
  simp only [isName, Bool.and_eq_true, List.all_eq_true] at valid
  exact fun member => absurd (valid.2 _ member) (by decide)

theorem ne_nil_of_isName {name : Text} (valid : isName name = true) : name ≠ [] := by
  rintro rfl
  cases valid

theorem plain_of_isName {name : Text} (valid : isName name = true) :
    ∀ c ∈ name, isPlain c = true := by
  simp only [isName, Bool.and_eq_true, List.all_eq_true] at valid
  exact fun c member => isPlain_of_isNameChar (valid.2 c member)

theorem isName_key {name : Text} (valid : isName name.trim = true) :
    isName (Scope.key name) = true := by
  simp only [isName, Bool.and_eq_true, List.all_eq_true] at valid ⊢
  obtain ⟨nonempty, valid⟩ := valid
  refine ⟨by simpa [Scope.key, Text.lower] using nonempty, ?_⟩
  intro c member
  obtain ⟨d, inName, rfl⟩ := List.mem_map.mp member
  rw [isNameChar_toLower]
  exact valid d inName

/-- Valid names, and strings without quotes. -/
def Table.Tame (table : Table) : Prop :=
  ∀ entry ∈ table, isName entry.1 = true ∧ entry.2.QuoteFree

instance (table : Table) : Decidable table.Tame :=
  inferInstanceAs (Decidable (∀ entry ∈ table, _ ∧ _))

namespace Expr

variable {table : Table} {t : Text}

/-- The variables of the table replaced one after another. -/
def rewrite (table : Table) (t : Text) : Text :=
  table.foldl (fun t entry => replace entry.1 entry.2 false 0 t) t

theorem paired_replace {name : Text} {value : Value} (valid : isName name = true)
    (free : value.QuoteFree) (paired : t.Paired) : Text.Paired (replace name value false 0 t) := by
  have replaces := replaces_replace (ne_nil_of_isName valid) value false t
  exact (replaces.after (quoteFree_of_isName valid) free).trans paired

theorem paired_rewrite (tame : table.Tame) (paired : t.Paired) : Text.Paired (rewrite table t) := by
  induction table generalizing t with
  | nil => exact paired
  | cons entry table ih =>
    obtain ⟨valid, free⟩ := tame entry List.mem_cons_self
    exact ih (fun other member => tame other (List.mem_cons_of_mem _ member))
      (paired_replace valid free paired)

theorem substitute_eq (tame : table.Tame) (paired : t.Paired) :
    substitute table t = .ok (rewrite table t) := by
  induction table generalizing t with
  | nil => rfl
  | cons entry table ih =>
    obtain ⟨valid, free⟩ := tame entry List.mem_cons_self
    rw [substitute, Quoted.check_ok.mpr paired]
    exact ih (fun other member => tame other (List.mem_cons_of_mem _ member))
      (paired_replace valid free paired)

/-- Evaluation in a tame scope is rewriting and then evaluation without variables. -/
theorem evaluate_eq {scope : Scope} {raw : Text} (tame : scope.substitutionOrder.Tame)
    (paired : raw.Paired) (kind : Kind) :
    evaluate kind raw scope = evaluateText kind (rewrite scope.substitutionOrder raw.trim) := by
  have trimmed : Text.Paired raw.trim := (Quoted.after_trim false raw).trans paired
  rw [evaluate, Quoted.check_ok.mpr trimmed, substitute_eq tame trimmed]
  rfl

end Expr
end StepScript
