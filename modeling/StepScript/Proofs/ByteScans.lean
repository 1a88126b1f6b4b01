import StepScript.Line
import StepScript.Statement
import StepScript.Expr.Substitution
import StepScript.Proofs.Boundaries

/-! Scans over the bytes of a text. The signs of the language are ASCII characters, so a scan that
looks for their bytes passes over every other character, and finds what a scan over characters
finds. Offsets inside literals are told by the spans of the literals. -/
namespace StepScript

namespace Quoted

variable {mask : Nat → Bool} {pos : Nat} {inside : Bool} {c : Char} {t : Text}
  {strings : List Span}

/-- At every character but the quotes the mask tells whether it stands inside a literal. -/
def Masks (mask : Nat → Bool) (pos : Nat) (inside : Bool) (t : Text) : Prop :=
  ∀ before c rest, t = before ++ c :: rest → c ≠ '"' →
    mask (pos + Text.width before) = after inside before

theorem Masks.here (masks : Masks mask pos inside (c :: t)) (other : c ≠ '"') :
    mask pos = inside :=
  masks [] c t rfl other

theorem Masks.behind (before : Text) (masks : Masks mask pos inside (before ++ t)) :
    Masks mask (pos + before.width) (after inside before) t := by
  rintro front c rest rfl other
  rw [Nat.add_assoc, ← Text.width_append, ← after_append]
  exact masks (before ++ front) c rest (List.append_assoc _ _ _).symm other

theorem Masks.tail (masks : Masks mask pos inside (c :: t)) :
    Masks mask (pos + c.utf8Size) (step inside c) t :=
  masks.behind [c]

theorem masks_covers (quoted : spans t = .ok strings) : Masks (covers strings) 0 false t := by
  rintro before c rest rfl other
  rw [Nat.zero_add, covers_eq_after quoted other]

theorem check_of_spans (quoted : spans t = .ok strings) : check t = .ok () := by
  rw [check, quoted]
  rfl

/-- Both ends of a literal are quotes of the text, but for the one that was open before it. -/
theorem quotes_of_spansFrom {opening? : Option Nat}
    (done : spansFrom pos opening? t = .ok strings) :
    ∀ s ∈ strings,
      (opening? = some s.opening ∨ ∃ offset, t.At offset ['"'] ∧ s.opening = pos + offset) ∧
      ∃ offset, t.At offset ['"'] ∧ s.closing = pos + offset := by
  induction t generalizing pos opening? strings with
  | nil =>
    cases opening? with
    | none =>
      cases done
      exact List.forall_mem_nil _
    | some opening => cases done
  | cons c t ih =>
    obtain ⟨held?, closed, rest, turn, rfl, later⟩ := spansFrom_cons done
    have shifted : ∀ place, (∃ offset, Text.At t offset ['"'] ∧ place = pos + c.utf8Size + offset) →
        ∃ offset, Text.At (c :: t) offset ['"'] ∧ place = pos + offset := by
      rintro place ⟨offset, here, rfl⟩
      exact ⟨c.utf8Size + offset, Text.at_cons.mpr (.inr ⟨offset, rfl, here⟩), Nat.add_assoc _ _ _⟩
    intro s member
    rcases List.mem_append.mp member with here | there
    · cases turn with
      | pass | opens => cases here
      | closes =>
        cases List.mem_singleton.mp here
        exact ⟨.inl rfl, 0, Text.at_cons.mpr (.inl ⟨rfl, rfl⟩), rfl⟩
    · obtain ⟨opened, closing⟩ := ih later s there
      refine ⟨?_, shifted _ closing⟩
      rcases opened with held | far
      · cases turn with
        | pass => exact .inl held
        | opens =>
          cases held
          exact .inr ⟨0, Text.at_cons.mpr (.inl ⟨rfl, rfl⟩), rfl⟩
        | closes => cases held
      · exact .inr (shifted _ far)

/-- Whether the quotes count as part of a literal makes no difference at other characters. -/
theorem masks_contains (quoted : spans t = .ok strings) : Masks (contains strings) 0 false t := by
  rintro before c rest rfl other
  have apart : ∀ place,
      (∃ offset, Text.At (before ++ c :: rest) offset ['"'] ∧ place = 0 + offset) →
      place ≠ before.width := by
    rintro place ⟨offset, ⟨front, back, same, rfl⟩, rfl⟩ width
    rw [List.append_assoc] at same
    obtain ⟨_, here⟩ := Text.eq_of_width same (width.symm.trans (Nat.zero_add _))
    exact other (List.cons.inj here).1
  rw [Nat.zero_add, ← covers_eq_after quoted other, contains, covers, Bool.eq_iff_iff,
    List.any_eq_true, List.any_eq_true]
  refine exists_congr fun s => and_congr_right fun member => ?_
  obtain ⟨opened, closed⟩ := quotes_of_spansFrom quoted s member
  have opening := apart _ (opened.resolve_left (by simp))
  have closing := apart _ closed
  simp only [Bool.and_eq_true, decide_eq_true_eq]
  omega

end Quoted

namespace Group

/-- The offsets of a separator outside literals and groups, in a text from offset `pos` on. -/
def separatorsFrom (sep : Char) (pos : Nat) (inside : Bool) (depth : Nat) : Text → List Nat
  | [] => []
  | c :: t =>
    let later := separatorsFrom sep (pos + c.utf8Size) (Quoted.step inside c)
      (depthAfter inside depth c) t
    if !inside && c == sep && depth == 0 then pos :: later else later

end Group

namespace Encoded

open StepScript.Text

variable {t name : Text} {c sign sep : Char} {b : UInt8} {pos depth : Nat} {inside : Bool}
  {strings : List Span}

section Signs

/-- Bytes are compared as the characters that they stand for. -/
theorem byte_beq (ascii : IsAscii c) (asciiSign : IsAscii sign) :
    (c.toUInt8 == sign.toUInt8) = (c == sign) := by
  rw [Bool.eq_iff_iff, beq_iff_eq, beq_iff_eq, ascii.toUInt8_eq_iff asciiSign]

theorem wide_beq (wide : 128 ≤ b) (asciiSign : IsAscii sign) : (b == sign.toUInt8) = false :=
  beq_false_of_ne (asciiSign.ne_of_wide wide)

theorem beq_of_wide (other : ¬ IsAscii c) (asciiSign : IsAscii sign) : (c == sign) = false := by
  refine beq_false_of_ne ?_
  rintro rfl
  exact other asciiSign

theorem ascii_quote : IsAscii '"' := rfl

theorem ascii_opening : IsAscii '(' := rfl

theorem ascii_closing : IsAscii ')' := rfl

theorem ascii_slash : IsAscii '/' := rfl

theorem step_of_wide (other : ¬ IsAscii c) : Quoted.step inside c = inside := by
  rw [Quoted.step, beq_of_wide other ascii_quote, Bool.bne_false]

theorem head?_bytes_beq (ascii : IsAscii sign) (t : Text) :
    (t.bytes.head? == some sign.toUInt8) = (t.head? == some sign) := by
  cases t with
  | nil => rfl
  | cons c t =>
    by_cases single : IsAscii c
    · rw [single.bytes_cons]
      exact byte_beq single ascii
    · have wide := wide_of_not_isAscii single
      rw [bytes_cons]
      cases encoded : String.utf8EncodeChar c with
      | nil => exact absurd encoded String.utf8EncodeChar_ne_nil
      | cons b bs =>
        rw [encoded] at wide
        exact (wide_beq (wide b List.mem_cons_self) ascii).trans (beq_of_wide single ascii).symm

end Signs

section Literals

/-- The literals among bytes from offset `pos` on, with the offset of a quote still open. -/
def literalsFrom (pos : Nat) (opening? : Option Nat) : List UInt8 → Except Error (List Span)
  | [] =>
    match opening? with
    | none => .ok []
    | some opening => .error (.unterminatedString (opening + 1))
  | b :: bs =>
    if b == '"'.toUInt8 then
      match opening? with
      | none => literalsFrom (pos + 1) (some pos) bs
      | some opening => (⟨opening, pos⟩ :: ·) <$> literalsFrom (pos + 1) none bs
    else literalsFrom (pos + 1) opening? bs

def literals (t : Text) : Except Error (List Span) :=
  literalsFrom 0 none t.bytes

theorem literalsFrom_bytes (pos : Nat) (opening? : Option Nat) (t : Text) :
    literalsFrom pos opening? t.bytes = Quoted.spansFrom pos opening? t := by
  induction t generalizing pos opening? with
  | nil => cases opening? <;> rfl
  | cons c t ih =>
    by_cases ascii : IsAscii c
    · have size : c.utf8Size = 1 := ascii
      rw [ascii.bytes_cons, literalsFrom.eq_def]
      dsimp only
      rw [byte_beq ascii ascii_quote]
      cases opening? with
      | none =>
        rw [Quoted.spansFrom, size]
        split
        · exact ih _ _
        · exact ih _ _
      | some opening =>
        dsimp only
        rw [Quoted.spansFrom, size, ih, ih]
    · have pass : ∀ pos b bs, 128 ≤ b →
          literalsFrom pos opening? (b :: bs) = literalsFrom (pos + 1) opening? bs := by
        intro pos b bs wide
        rw [literalsFrom.eq_def]
        simp [wide_beq wide ascii_quote]
      rw [pass_wide (fun pos => literalsFrom pos opening?) pass ascii, ih]
      cases opening? <;> simp [Quoted.spansFrom, beq_of_wide ascii ascii_quote]

theorem literals_eq (t : Text) : literals t = Quoted.spans t :=
  literalsFrom_bytes 0 none t

end Literals

section Groups

/-- The groups among bytes from offset `pos` on, in the order in which they close. -/
def groupsFrom (strings : List Span) (pos : Nat) (stack : List Nat) :
    List UInt8 → Option (List Span)
  | [] => if stack.isEmpty then some [] else none
  | b :: bs =>
    if Quoted.covers strings pos then groupsFrom strings (pos + 1) stack bs
    else if b == '('.toUInt8 then groupsFrom strings (pos + 1) (pos :: stack) bs
    else if b == ')'.toUInt8 then
      match stack with
      | [] => none
      | opening :: outer => (⟨opening, pos⟩ :: ·) <$> groupsFrom strings (pos + 1) outer bs
    else groupsFrom strings (pos + 1) stack bs

/-- The groups of a text, by their openings. -/
def groups (strings : List Span) (t : Text) : Except Error (List Span) :=
  match groupsFrom strings 0 [] t.bytes with
  | some found => .ok (arrange (fun a b => a.opening ≤ b.opening) found)
  | none => .error (.unmatchedParens t)

theorem groupsFrom_bytes (masks : Quoted.Masks (Quoted.covers strings) pos inside t)
    (stack : List Nat) :
    groupsFrom strings pos stack t.bytes = Group.spansFrom pos inside stack t := by
  induction t generalizing pos inside stack with
  | nil => rfl
  | cons c t ih =>
    have later := fun stack => ih masks.tail stack
    rw [Group.spansFrom.eq_def]
    dsimp only
    by_cases ascii : IsAscii c
    · have size : c.utf8Size = 1 := ascii
      rw [size] at later ⊢
      rw [ascii.bytes_cons, groupsFrom.eq_def]
      dsimp only
      rw [byte_beq ascii ascii_opening, byte_beq ascii ascii_closing]
      by_cases quote : c = '"'
      · subst quote
        simp [later]
      · rw [masks.here quote]
        cases stack <;> simp only [later]
    · have pass : ∀ pos b bs, 128 ≤ b →
          groupsFrom strings pos stack (b :: bs) = groupsFrom strings (pos + 1) stack bs := by
        intro pos b bs wide
        rw [groupsFrom.eq_def]
        simp [wide_beq wide ascii_opening, wide_beq wide ascii_closing]
      rw [pass_wide (fun pos => groupsFrom strings pos stack) pass ascii, later]
      simp [beq_of_wide ascii ascii_opening, beq_of_wide ascii ascii_closing]

theorem groups_eq (quoted : Quoted.spans t = .ok strings) : groups strings t = Group.spans t := by
  rw [groups, groupsFrom_bytes (Quoted.masks_covers quoted)]
  rfl

end Groups

section Separators

/-- The offsets of a separator outside literals and groups, among bytes from offset `pos` on. -/
def separatorsFrom (strings : List Span) (sep : Char) (pos depth : Nat) : List UInt8 → List Nat
  | [] => []
  | b :: bs =>
    if Quoted.covers strings pos then separatorsFrom strings sep (pos + 1) depth bs
    else if b == '('.toUInt8 then separatorsFrom strings sep (pos + 1) (depth + 1) bs
    else if b == ')'.toUInt8 then separatorsFrom strings sep (pos + 1) (depth - 1) bs
    else if b == sep.toUInt8 && depth == 0 then
      pos :: separatorsFrom strings sep (pos + 1) depth bs
    else separatorsFrom strings sep (pos + 1) depth bs

def separators (sep : Char) (t : Text) : Except Error (List Nat) :=
  (fun strings => separatorsFrom strings sep 0 0 t.bytes) <$> literals t

/-- The signs that a scan for separators can look for. -/
def IsSeparator (sep : Char) : Prop :=
  IsAscii sep ∧ sep ≠ '"' ∧ sep ≠ '(' ∧ sep ≠ ')'

instance (sep : Char) : Decidable (IsSeparator sep) :=
  inferInstanceAs (Decidable (_ ∧ _))

theorem separatorsFrom_bytes (separator : IsSeparator sep)
    (masks : Quoted.Masks (Quoted.covers strings) pos inside t) :
    separatorsFrom strings sep pos depth t.bytes = Group.separatorsFrom sep pos inside depth t := by
  obtain ⟨asciiSep, unquoted, notOpening, notClosing⟩ := separator
  induction t generalizing pos inside depth with
  | nil => rfl
  | cons c t ih =>
    have later := fun depth => @ih _ depth _ masks.tail
    rw [Group.separatorsFrom]
    by_cases ascii : IsAscii c
    · have size : c.utf8Size = 1 := ascii
      rw [size] at later ⊢
      rw [ascii.bytes_cons, separatorsFrom, byte_beq ascii ascii_opening,
        byte_beq ascii ascii_closing, byte_beq ascii asciiSep]
      by_cases quote : c = '"'
      · subst quote
        simp [later, beq_false_of_ne (Ne.symm unquoted), Group.depthAfter]
      · rw [masks.here quote]
        by_cases opening : c = '('
        · subst opening
          cases inside <;> simp [later, beq_false_of_ne (Ne.symm notOpening), Group.depthAfter]
        · by_cases closing : c = ')'
          · subst closing
            cases inside <;> simp [later, beq_false_of_ne (Ne.symm notClosing), Group.depthAfter]
          · cases inside <;> simp [later, opening, closing, Group.depthAfter]
    · have pass : ∀ pos b bs, 128 ≤ b →
          separatorsFrom strings sep pos depth (b :: bs) =
            separatorsFrom strings sep (pos + 1) depth bs := by
        intro pos b bs wide
        simp [separatorsFrom, wide_beq wide ascii_opening, wide_beq wide ascii_closing,
          wide_beq wide asciiSep]
      rw [pass_wide (fun pos => separatorsFrom strings sep pos depth) pass ascii, later]
      simp [Group.depthAfter, beq_of_wide ascii ascii_opening, beq_of_wide ascii ascii_closing,
        beq_of_wide ascii asciiSep]

theorem separators_eq (separator : IsSeparator sep) (t : Text) :
    separators sep t = (fun _ => Group.separatorsFrom sep 0 false 0 t) <$> Quoted.check t := by
  rw [separators, literals_eq, Quoted.check]
  cases quoted : Quoted.spans t with
  | error e => rfl
  | ok strings =>
    exact congrArg Except.ok (separatorsFrom_bytes separator (Quoted.masks_covers quoted))

end Separators

section Comments

/-- The offset of two slashes outside literals, among bytes from offset `pos` on. -/
def commentFrom? (pos : Nat) (inside : Bool) : List UInt8 → Option Nat
  | [] => none
  | b :: bs =>
    if b == '"'.toUInt8 then commentFrom? (pos + 1) (!inside) bs
    else if b == '/'.toUInt8 && !inside && bs.head? == some '/'.toUInt8 then some pos
    else commentFrom? (pos + 1) inside bs

/-- What stands before a comment ends at its offset, and is all of a text without one. -/
theorem commentFrom?_bytes (pos : Nat) (inside : Bool) (t : Text) :
    ∃ rest, t = Line.beforeComment inside t ++ rest ∧
      match commentFrom? pos inside t.bytes with
      | some comment => comment = pos + (Line.beforeComment inside t).width
      | none => rest = [] := by
  induction t generalizing pos inside with
  | nil => exact ⟨[], rfl, rfl⟩
  | cons c t ih =>
    have next : ∀ held,
        Line.beforeComment inside (c :: t) = c :: Line.beforeComment held t →
        commentFrom? pos inside (bytes (c :: t)) = commentFrom? (pos + c.utf8Size) held (bytes t) →
        ∃ rest, c :: t = Line.beforeComment inside (c :: t) ++ rest ∧
          match commentFrom? pos inside (bytes (c :: t)) with
          | some comment => comment = pos + (Line.beforeComment inside (c :: t)).width
          | none => rest = [] := by
      intro held before walked
      obtain ⟨rest, whole, found⟩ := ih (pos + c.utf8Size) held
      refine ⟨rest, by rw [before, List.cons_append, ← whole], ?_⟩
      rw [walked, before, Text.width, ← Nat.add_assoc]
      exact found
    by_cases ascii : IsAscii c
    · have size : c.utf8Size = 1 := ascii
      have walk : commentFrom? pos inside (bytes (c :: t)) =
          if c == '"' then commentFrom? (pos + 1) (!inside) (bytes t)
          else if c == '/' && !inside && t.head? == some '/' then some pos
          else commentFrom? (pos + 1) inside (bytes t) := by
        rw [ascii.bytes_cons, commentFrom?, byte_beq ascii ascii_quote,
          byte_beq ascii ascii_slash, head?_bytes_beq ascii_slash]
      by_cases quote : c = '"'
      · subst quote
        refine next (!inside) ?_ walk
        simp [Line.beforeComment, Quoted.step]
      · by_cases comment : (!inside && c == '/' && t.head? == some '/') = true
        · refine ⟨c :: t, ?_, ?_⟩
          · rw [Line.beforeComment, if_pos comment]
            rfl
          · rw [walk, Line.beforeComment, if_pos comment, if_neg (by simpa using quote),
              Bool.and_comm (c == '/'), if_pos comment]
            rfl
        · refine next inside ?_ ?_
          · rw [Line.beforeComment, if_neg comment, Quoted.step_of_ne quote]
          · rw [walk, size, if_neg (by simpa using quote), Bool.and_comm (c == '/'),
              if_neg comment]
    · refine next inside ?_ ?_
      · simp [Line.beforeComment, beq_of_wide ascii ascii_slash, step_of_wide ascii]
      · refine pass_wide (fun pos => commentFrom? pos inside) ?_ ascii pos t
        intro pos b bs wide
        simp [commentFrom?, wide_beq wide ascii_quote, wide_beq wide ascii_slash]

end Comments

section Finding

/-- The first offset of a sign among bytes from offset `pos` on. -/
def findFrom? (sign : Char) (pos : Nat) : List UInt8 → Option Nat
  | [] => none
  | b :: bs => if b == sign.toUInt8 then some pos else findFrom? sign (pos + 1) bs

def find? (sign : Char) (t : Text) : Option Nat :=
  findFrom? sign 0 t.bytes

theorem findFrom?_bytes (asciiSign : IsAscii sign) (pos : Nat) (t : Text) :
    findFrom? sign pos t.bytes = (t.splitFirst sign).map fun cut => pos + cut.1.width := by
  induction t generalizing pos with
  | nil => rfl
  | cons c t ih =>
    have shifted : ((splitFirst sign t).map fun cut => (c :: cut.1, cut.2)).map
        (fun cut => pos + Text.width cut.1) =
          (splitFirst sign t).map fun cut => pos + c.utf8Size + cut.1.width := by
      rw [Option.map_map]
      congr 1
      funext cut
      exact (Nat.add_assoc _ _ _).symm
    rw [splitFirst]
    by_cases ascii : IsAscii c
    · have size : c.utf8Size = 1 := ascii
      rw [ascii.bytes_cons, findFrom?, byte_beq ascii asciiSign]
      split
      · rfl
      · rw [ih, ← size]
        exact shifted.symm
    · have pass : ∀ pos b bs, 128 ≤ b →
          findFrom? sign pos (b :: bs) = findFrom? sign (pos + 1) bs := by
        intro pos b bs wide
        simp [findFrom?, wide_beq wide asciiSign]
      rw [pass_wide (findFrom? sign) pass ascii, ih, beq_of_wide ascii asciiSign]
      exact shifted.symm

theorem find?_eq (asciiSign : IsAscii sign) (t : Text) :
    find? sign t = (t.splitFirst sign).map fun cut => cut.1.width := by
  rw [find?, findFrom?_bytes asciiSign]
  congr 1
  funext cut
  exact Nat.zero_add _

/-- The first offset of a word among bytes from offset `pos` on. -/
def findWordFrom? (word : List UInt8) (pos : Nat) : List UInt8 → Option Nat
  | [] => none
  | b :: bs => if word.isPrefixOf (b :: bs) then some pos else findWordFrom? word (pos + 1) bs

theorem isPrefixOf_bytes (ascii : ∀ c ∈ name, IsAscii c) (t : Text) :
    name.bytes.isPrefixOf t.lower.bytes = t.beginsWith name := by
  induction name generalizing t with
  | nil => simp [bytes, beginsWith]
  | cons w name ih =>
    obtain ⟨here, later⟩ := List.forall_mem_cons.mp ascii
    rw [here.bytes_cons]
    cases t with
    | nil => rfl
    | cons c t =>
      rw [lower_cons, beginsWith]
      by_cases single : IsAscii c.toLower
      · rw [single.bytes_cons, List.isPrefixOf, ih later, Bool.beq_comm, byte_beq single here]
      · have wide := wide_of_not_isAscii single
        rw [bytes_cons, beq_of_wide single here, Bool.false_and]
        cases encoded : String.utf8EncodeChar c.toLower with
        | nil => exact absurd encoded String.utf8EncodeChar_ne_nil
        | cons b bs =>
          rw [encoded] at wide
          rw [List.cons_append, List.isPrefixOf, Bool.beq_comm,
            wide_beq (wide b List.mem_cons_self) here, Bool.false_and]

/-- The offset cuts a text that starts at offset `pos` where replacing the name comes to it first.
Without an offset there is nothing to replace. -/
def Finds (name : Text) (pos : Nat) (t : Text) : Option Nat → Prop
  | some found => ∃ before rest : Text, t = before ++ rest ∧ found = pos + before.width ∧
      rest.beginsWith name = true ∧ ∀ value inside, Expr.replace name value inside 0 t =
        before ++ Expr.replace name value (Quoted.after inside before) 0 rest
  | none => ∀ value inside, Expr.replace name value inside 0 t = t

theorem finds_name (ascii : ∀ c ∈ name, IsAscii c) (nonempty : name ≠ []) (pos : Nat) (t : Text) :
    Finds name pos t (findWordFrom? name.bytes pos t.lower.bytes) := by
  induction t generalizing pos with
  | nil => exact fun _ _ => rfl
  | cons c t ih =>
    have next (absent : beginsWith (c :: t) name = false)
        (walked : findWordFrom? name.bytes pos (lower (c :: t)).bytes =
          findWordFrom? name.bytes (pos + c.utf8Size) (lower t).bytes) :
        Finds name pos (c :: t) (findWordFrom? name.bytes pos (lower (c :: t)).bytes) := by
      have kept : ∀ value inside, Expr.replace name value inside 0 (c :: t) =
          c :: Expr.replace name value (Quoted.step inside c) 0 t := by
        intro value inside
        rw [Expr.replace, absent, Bool.and_false, if_neg Bool.false_ne_true]
      have later := ih (pos + c.utf8Size)
      rw [walked]
      cases found : findWordFrom? name.bytes (pos + c.utf8Size) (lower t).bytes with
      | none =>
        rw [found] at later
        intro value inside
        rw [kept, later]
      | some offset =>
        rw [found] at later
        obtain ⟨before, rest, rfl, rfl, begins, replaced⟩ := later
        refine ⟨c :: before, rest, rfl, Nat.add_assoc _ _ _, begins, fun value inside => ?_⟩
        rw [kept, replaced]
        rfl
    by_cases single : IsAscii c.toLower
    · have size : c.utf8Size = 1 := (utf8Size_toLower c).symm.trans single
      have walk : findWordFrom? name.bytes pos (lower (c :: t)).bytes =
          if beginsWith (c :: t) name then some pos
          else findWordFrom? name.bytes (pos + 1) (lower t).bytes := by
        rw [← isPrefixOf_bytes ascii, lower_cons, single.bytes_cons, findWordFrom?]
      cases begins : beginsWith (c :: t) name with
      | true =>
        rw [walk, begins]
        exact ⟨[], c :: t, rfl, rfl, begins, fun _ _ => rfl⟩
      | false =>
        refine next begins ?_
        rw [walk, begins, size]
        rfl
    · obtain ⟨w, name, rfl⟩ := List.exists_cons_of_ne_nil nonempty
      have here : IsAscii w := ascii w List.mem_cons_self
      refine next ?_ ?_
      · rw [beginsWith, beq_of_wide single here, Bool.false_and]
      · rw [lower_cons, ← utf8Size_toLower c]
        refine pass_wide (findWordFrom? (bytes (w :: name))) ?_ single pos (lower t)
        intro pos b bs wide
        rw [findWordFrom?, here.bytes_cons, List.isPrefixOf, Bool.beq_comm, wide_beq wide here]
        rfl

end Finding
end Encoded
end StepScript
