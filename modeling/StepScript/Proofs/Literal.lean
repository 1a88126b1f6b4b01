import StepScript.Expr
import StepScript.Proofs.Positional
import StepScript.Proofs.Quotes
import StepScript.Statement

/-! Literals. The literal of a value, evaluated for the kind of the value, gives the value back. -/
namespace StepScript

/-- Characters of names, and of numbers after their sign. -/
def isPlain (c : Char) : Bool :=
  isNameChar c || c == '.'

section Plain

variable {c : Char} {t : Text}

theorem isPlain_of_isNameChar (name : isNameChar c = true) : isPlain c = true := by
  simp [isPlain, name]

theorem isPlain_of_isDigit (digit : c.isDigit = true) : isPlain c = true := by
  simp [isPlain, isNameChar, Char.isAlphanum, digit]

theorem isPlain_bounds (plain : isPlain c = true) : 46 ≤ c.toNat ∧ c.toNat ≤ 122 := by
  simp only [isPlain, isNameChar, Char.isAlphanum, Char.isAlpha, Char.isUpper, Char.isLower,
    Char.isDigit, Bool.or_eq_true, Bool.and_eq_true, decide_eq_true_eq, beq_iff_eq, ge_iff_le,
    UInt32.le_iff_toNat_le] at plain
  have number : c.val.toNat = c.toNat := rfl
  have letters : 'A'.val.toNat = 65 ∧ 'Z'.val.toNat = 90 ∧ 'a'.val.toNat = 97 ∧
      'z'.val.toNat = 122 ∧ '0'.val.toNat = 48 ∧ '9'.val.toNat = 57 := by decide
  rcases plain with (range | rfl) | rfl
  · omega
  · decide
  · decide

theorem isBlank_of_isPlain (plain : isPlain c = true) : isBlank c = false := by
  have bounds := isPlain_bounds plain
  simp only [isBlank, Bool.or_eq_false_iff, Bool.and_eq_false_iff, decide_eq_false_iff_not,
    beq_eq_false_iff_ne]
  omega

theorem isGap_of_isPlain (plain : isPlain c = true) : isGap c = false := by
  cases gap : isGap c with
  | false => rfl
  | true =>
    have blank := isBlank_of_isGap gap
    rw [isBlank_of_isPlain plain] at blank
    cases blank

theorem ne_of_isPlain {d : Char} (plain : isPlain c = true) (other : isPlain d = false) : c ≠ d := by
  rintro rfl
  rw [plain] at other
  cases other

theorem not_mem_of_plain {d : Char} (plain : ∀ c ∈ t, isPlain c = true)
    (other : isPlain d = false) : d ∉ t := fun member => ne_of_isPlain (plain d member) other rfl

theorem trim_of_plain (plain : ∀ c ∈ t, isPlain c = true) : t.trim = t := by
  refine Text.trim_of_ends ?_ ?_
  · intro c first
    exact isBlank_of_isPlain (plain c (List.mem_of_mem_head? first))
  · intro c last
    exact isBlank_of_isPlain (plain c (List.mem_of_mem_getLast? last))

/-- Text around which only its ends matter. -/
theorem trim_enclosed {t : Text} {first last : Char} (firstFull : isBlank first = false)
    (lastFull : isBlank last = false) : Text.trim (first :: t ++ [last]) = first :: t ++ [last] := by
  refine Text.trim_of_ends ?_ ?_
  · rintro c ⟨⟩
    exact firstFull
  · intro c found
    rw [List.getLast?_concat] at found
    cases found
    exact lastFull

end Plain

section Signed

open Decimal

variable {body : Text} {negative : Bool}

theorem signed_first (plain : ∀ c ∈ body, isPlain c = true) :
    ∀ c ∈ (signed negative body).head?, isBlank c = false := by
  cases negative with
  | false =>
    intro c first
    exact isBlank_of_isPlain (plain c (List.mem_of_mem_head? first))
  | true =>
    rintro c ⟨⟩
    rfl

theorem signed_ne_nil (nonempty : body ≠ []) : signed negative body ≠ [] := by
  cases negative with
  | false => exact nonempty
  | true => exact List.cons_ne_nil _ _

theorem signed_last (plain : ∀ c ∈ body, isPlain c = true) (nonempty : body ≠ []) :
    ∀ c ∈ (signed negative body).getLast?, isBlank c = false := by
  have tail : ∀ c ∈ body.getLast?, isBlank c = false := fun c last =>
    isBlank_of_isPlain (plain c (List.mem_of_mem_getLast? last))
  cases negative with
  | false => exact tail
  | true =>
    obtain ⟨c, rest, rfl⟩ := List.exists_cons_of_ne_nil nonempty
    simpa [signed] using tail

theorem trim_signed (plain : ∀ c ∈ body, isPlain c = true) (nonempty : body ≠ []) :
    (signed negative body).trim = signed negative body :=
  Text.trim_of_ends (signed_first plain) (signed_last plain nonempty)

theorem not_mem_signed {d : Char} (plain : ∀ c ∈ body, isPlain c = true) (other : isPlain d = false)
    (unsigned : d ≠ '-') : d ∉ signed negative body := by
  rw [mem_signed negative unsigned]
  exact not_mem_of_plain plain other

end Signed

namespace Arithmetic

open Decimal

variable {α : Type} {body rest : Text}

/-- The text ends or goes on with a gap or an operator. -/
def Separates (rest : Text) : Prop :=
  ∀ c ∈ rest.head?, isGap c = true ∨ (Operator.ofChar? c).isSome = true

theorem ofChar?_of_isPlain {c : Char} (plain : isPlain c = true) : Operator.ofChar? c = none := by
  simp [Operator.ofChar?, ne_of_isPlain plain (show isPlain '+' = false from rfl),
    ne_of_isPlain plain (show isPlain '-' = false from rfl),
    ne_of_isPlain plain (show isPlain '*' = false from rfl),
    ne_of_isPlain plain (show isPlain '/' = false from rfl)]

/-- Characters that operands are made of: neither gaps nor operators. -/
def isSolid (c : Char) : Bool :=
  !isGap c && (Operator.ofChar? c).isNone

theorem isSolid_of_isPlain {c : Char} (plain : isPlain c = true) : isSolid c = true := by
  simp [isSolid, isGap_of_isPlain plain, ofChar?_of_isPlain plain]

theorem scan_cons_solid {c : Char} (solid : isSolid c = true) (rest : Text) :
    scan (c :: rest) =
      match scan rest with
      | ⟨.operand, text⟩ :: more => ⟨.operand, c :: text⟩ :: more
      | more => ⟨.operand, [c]⟩ :: more := by
  simp only [isSolid, Bool.and_eq_true, Bool.not_eq_true', Option.isNone_iff_eq_none] at solid
  rw [scan, solid.1, solid.2]
  rfl

/-- Solid characters make one operand, up to where the text separates. -/
theorem scan_solid (solid : ∀ c ∈ body, isSolid c = true) (nonempty : body ≠ [])
    (separates : Separates rest) : scan (body ++ rest) = ⟨.operand, body⟩ :: scan rest := by
  induction body with
  | nil => exact absurd rfl nonempty
  | cons c body ih =>
    obtain ⟨here, later⟩ := List.forall_mem_cons.mp solid
    rw [List.cons_append, scan_cons_solid here]
    cases body with
    | nil =>
      rw [List.nil_append]
      cases rest with
      | nil => rfl
      | cons d rest =>
        rw [scan]
        by_cases gap : isGap d = true
        · rw [if_pos gap]
        · have operator := (separates d rfl).resolve_left gap
          obtain ⟨op, found⟩ := Option.isSome_iff_exists.mp operator
          rw [if_neg gap, found]
    | cons d body => rw [ih later (List.cons_ne_nil _ _)]

theorem scan_operand (plain : ∀ c ∈ body, isPlain c = true) (nonempty : body ≠ [])
    (separates : Separates rest) : scan (body ++ rest) = ⟨.operand, body⟩ :: scan rest :=
  scan_solid (fun c member => isSolid_of_isPlain (plain c member)) nonempty separates

/-- A number alone is worth what it reads as. -/
theorem evaluate_signed (domain : Domain α) (negative : Bool) (plain : ∀ c ∈ body, isPlain c = true)
    (nonempty : body ≠ []) :
    evaluate domain (signed negative body) = .ok (domain.read (signed negative body)) := by
  have free : '"' ∉ signed negative body := not_mem_signed plain rfl (by decide)
  have operand : scan body = [⟨.operand, body⟩] := by
    have ends : Separates [] := by simp [Separates]
    have scanned := scan_operand plain nonempty ends
    rwa [List.append_nil] at scanned
  rw [evaluate, Quoted.mapLiterals_of_free free]
  cases negative with
  | false => simp [signed, tokens, operand, chain?, fold, products, sums, bind, Except.bind]
  | true =>
    simp [signed, tokens, scan, isGap, operand, Operator.ofChar?, chain?, fold, products, sums,
      bind, Except.bind]

theorem fold_single (domain : Domain α) (op : Operator) (a z : α) :
    fold domain a [(op, z)] = domain.apply op a z := by
  rw [fold, products, products]
  cases op with
  | add | sub =>
    change domain.apply _ a z >>= pure = _
    rw [bind_pure]
  | mul | div =>
    change (domain.apply _ a z >>= fun acc => pure (acc, [])) >>= _ = _
    cases domain.apply _ a z <;> rfl

end Arithmetic

section Numbers

open Decimal

theorem renderInteger_eq (n : Int) :
    renderInteger n = signed (decide (n < 0)) (Nat.toDigits 10 n.natAbs) := by
  simp [renderInteger, signed]

theorem plain_toDigits (n : Nat) : ∀ c ∈ Nat.toDigits 10 n, isPlain c = true := fun _ member =>
  isPlain_of_isDigit (isDigit_toDigits member)

theorem trim_renderInteger (n : Int) : (renderInteger n).trim = renderInteger n := by
  rw [renderInteger_eq]
  exact trim_signed (plain_toDigits _) Nat.toDigits_ne_nil

theorem readInteger?_renderInteger (n : Int) : readInteger? (renderInteger n) = some n := by
  have nonempty : Nat.toDigits 10 n.natAbs ≠ [] := Nat.toDigits_ne_nil
  obtain ⟨c, rest, digits⟩ := List.exists_cons_of_ne_nil nonempty
  have digit : c.isDigit = true := isDigit_toDigits (n := n.natAbs) (by simp [digits])
  have unsigned := unsigned_of_isDigit digit
  have numeral : isNumeral (c :: rest) = true := by
    rw [← digits]
    simp only [isNumeral, Bool.and_eq_true, List.all_eq_true]
    exact ⟨by simp [nonempty], fun _ member => isDigit_toDigits member⟩
  have value : Nat.ofDigitChars 10 (c :: rest) 0 = n.natAbs := by
    rw [← digits, Nat.ofDigitChars_ten_toDigits]
  rw [renderInteger_eq, digits]
  simp only [readInteger?, splitSign_signed _ unsigned, numeral, value, if_true, decide_eq_true_eq]
  congr 1
  split
  · omega
  · omega

theorem readInt?_renderInt (n : Int64) : readInt? (renderInt n) = some n := by
  have range : -Double.signPlace ≤ n.toInt ∧ n.toInt < Double.signPlace :=
    ⟨n.le_toInt, n.toInt_lt⟩
  simp [readInt?, renderInt, readInteger?_renderInteger, range, Int64.ofInt_toInt]

theorem readIntOrZero_renderInt (n : Int64) : readIntOrZero (renderInt n) = n := by
  have trimmed : (renderInt n).trim = renderInt n := trim_renderInteger n.toInt
  simp [readIntOrZero, trimmed, readInt?_renderInt]

namespace Double

variable {code : Nat} {text : Text}

theorem Body.plain (body : Body code text) : ∀ c ∈ text, isPlain c = true := by
  cases body with
  | finite spells =>
    intro c member
    rcases spells.char member with digit | rfl
    · exact isPlain_of_isDigit digit
    · rfl
  | infinite => exact List.all_eq_true.mp rfl

theorem Body.nonempty (body : Body code text) : text ≠ [] := by
  cases body with
  | finite spells =>
    obtain ⟨c, rest, rfl, _⟩ := spells.begins
    exact List.cons_ne_nil c rest
  | infinite => decide

theorem Body.readDoubleOrZero {x : Float} (body : Body (Double.code x) text) :
    StepScript.readDoubleOrZero (signed (isNegative x) text) = x := by
  simp [StepScript.readDoubleOrZero, trim_signed body.plain body.nonempty, body.read?, ofCode_code]

end Double
end Numbers

open Double Decimal in
/-- The literal of a double is a sign and a body that is worth it. -/
theorem Value.literal_double {x : Float} (number : isNaN x = false) :
    ∃ text, (Value.double x).literal = signed (isNegative x) text ∧ Body (code x) text := by
  obtain ⟨text, rendered, ⟨finite, spells⟩ | ⟨infinite, rfl, code_eq⟩⟩ := render_eq number
  · by_cases point : '.' ∈ text
    · refine ⟨text, ?_, .finite spells⟩
      have kept : '.' ∈ signed (isNegative x) text := (mem_signed _ (by decide)).mpr point
      simp [literal, rendered, kept]
    · refine ⟨text ++ ['.', '0'], ?_, .finite (spells.pointed point)⟩
      have missing : '.' ∉ signed (isNegative x) text := fun found =>
        point ((mem_signed _ (by decide)).mp found)
      simp only [literal, rendered, finite, List.contains_eq_mem, missing, decide_false,
        Bool.not_false, Bool.and_true, if_true]
      cases isNegative x with
      | true => rfl
      | false => rfl
  · refine ⟨_, ?_, .infinite code_eq⟩
    simp [literal, rendered, infinite]

/-- Values that a literal can stand for: no NaN, and no string with a quote. -/
def Value.Readable : Value → Prop
  | .double x => Double.isNaN x = false
  | .string s => '"' ∉ s
  | _ => True

instance (v : Value) : Decidable v.Readable :=
  match v with
  | .double x => inferInstanceAs (Decidable (Double.isNaN x = false))
  | .string s => inferInstanceAs (Decidable ('"' ∉ s))
  | .bool _ | .int _ => .isTrue trivial

namespace Expr

open Decimal

variable {text body : Text} {kind : Kind}

theorem resolve_noneOpen (none : Group.NoneOpen false text) (kind : Kind) (count : Nat) :
    resolve kind count text = .ok text := by
  cases count with
  | zero => rfl
  | succ count => simp [resolve, Group.last?_noneOpen none]

/-- Text without groups is evaluated as it stands. -/
theorem evaluateText_flat (trimmed : text.trim = text) (paired : Quoted.after false text = false)
    (none : Group.NoneOpen false text) (kind : Kind) :
    evaluateText kind text = evaluateFlat kind text := by
  simp only [evaluateText, trimmed, Quoted.check_ok.mpr paired, Group.check_noneOpen none,
    resolve_noneOpen none, bind, Except.bind]

theorem evaluateText_signed (negative : Bool) (plain : ∀ c ∈ body, isPlain c = true)
    (nonempty : body ≠ []) (kind : Kind) :
    evaluateText kind (signed negative body) = evaluateFlat kind (signed negative body) := by
  have free : ∀ d, isPlain d = false → d ≠ '-' → d ∉ signed negative body := fun _ other unsigned =>
    not_mem_signed plain other unsigned
  refine evaluateText_flat (trim_signed plain nonempty) ?_ ?_ kind
  · exact Quoted.after_of_free (free '"' rfl (by decide))
  · exact Group.noneOpen_of_free (free '(' rfl (by decide)) (free ')' rfl (by decide))

theorem concatenation_literal {s : Text} (free : '"' ∉ s) :
    Concatenation.evaluate ('"' :: s ++ ['"']) = .ok s := by
  have cut : splitWhere (· == '"') (s ++ ['"']) = [s, []] := by
    rw [splitWhere_append rfl, Quoted.splitWhere_of_free free]
    rfl
  have pieces : Quoted.pieces ('"' :: s ++ ['"']) = ([], [(s, [])]) := by
    rw [Quoted.pieces, List.cons_append, splitWhere, cut]
    rfl
  simp only [Concatenation.evaluate, pieces]
  rfl

theorem evaluateText_string {s : Text} (free : '"' ∉ s) :
    evaluateText .string ('"' :: s ++ ['"']) = .ok (.string s) := by
  have trimmed : Text.trim ('"' :: s ++ ['"']) = '"' :: s ++ ['"'] := trim_enclosed rfl rfl
  rw [evaluateText_flat trimmed (Quoted.after_literal free false) (Group.noneOpen_literal free)]
  change Value.string <$> Concatenation.evaluate _ = _
  rw [concatenation_literal free]
  rfl

/-- A literal is worth the value it was written for. -/
theorem evaluateText_literal {v : Value} (readable : v.Readable) :
    evaluateText v.kind v.literal = .ok v := by
  cases v with
  | bool b =>
    cases b with
    | true => rfl
    | false => rfl
  | int n =>
    have written : (Value.int n).literal = renderInt n := rfl
    rw [written, renderInt, renderInteger_eq,
      evaluateText_signed _ (plain_toDigits _) Nat.toDigits_ne_nil]
    change Value.int <$> Arithmetic.evaluate Arithmetic.ints _ = _
    rw [Arithmetic.evaluate_signed _ _ (plain_toDigits _) Nat.toDigits_ne_nil, ← renderInteger_eq]
    change Except.ok (Value.int (readIntOrZero (renderInt n))) = _
    rw [readIntOrZero_renderInt]
  | double x =>
    obtain ⟨text, written, body⟩ := Value.literal_double readable
    rw [written, evaluateText_signed _ body.plain body.nonempty]
    change Value.double <$> Arithmetic.evaluate Arithmetic.doubles _ = _
    rw [Arithmetic.evaluate_signed _ _ body.plain body.nonempty]
    change Except.ok (Value.double (readDoubleOrZero _)) = _
    rw [body.readDoubleOrZero]
  | string s => exact evaluateText_string readable

end Expr
end StepScript
