import StepScript.Proofs.LineCuts
import StepScript.Proofs.ConditionGuess
import StepScript.Proofs.References
import StepScript.Proofs.Resolution

/-! Expressions cut at byte offsets: around the names that are replaced, around the group that is
resolved next, between literals, and around the operands of a condition. No cut ever fails, and what
is put together from them is what the evaluator computes over characters. -/
namespace StepScript

namespace Encoded

open StepScript.Text

variable {t u before after : Text} {strings : List Span} {inside : Bool}

section Names

def findWord? (name t : Text) : Option Nat :=
  findWordFrom? name.bytes 0 t.bytes

/-- The search goes on behind what was replaced, or one byte behind a name within a literal. What is
copied next starts at offset `copied`. -/
def replaceFrom (strings : List Span) (name literal : Text) (nonempty : name ≠ []) (t : Text)
    (copied start : Nat) : Option Text :=
  match sliced : t.lower.slice? start t.lower.width with
  | none => none
  | some rest =>
    have _ : start ≤ t.lower.width := (exists_slice?_iff.mp ⟨rest, sliced⟩).1
    match findWord? name rest with
    | none => t.slice? copied t.width
    | some found =>
      let pos := start + found
      if Quoted.contains strings pos then
        replaceFrom strings name literal nonempty t copied (pos + 1)
      else do
        let kept ← t.slice? copied pos
        let more ← replaceFrom strings name literal nonempty t (pos + name.width) (pos + name.width)
        return kept ++ literal ++ more
termination_by t.lower.width + 1 - start
decreasing_by
  · omega
  · have positive : name.width ≠ 0 := fun none => nonempty (Text.eq_nil_of_width none)
    omega

/-- Replaces a name outside the literals, in any letter case. -/
def replace (name literal t : Text) : Cutting Text :=
  if nonempty : name ≠ [] then do
    let strings ← literals t
    replaceFrom strings name literal nonempty t 0 0
  else return t

def substitute : Table → Text → Cutting Text
  | [], t => return t
  | (name, value) :: more, t => do
    let replaced ← replace name value.literal t
    substitute more replaced

theorem ascii_of_isName {name : Text} (valid : isName name = true) : ∀ c ∈ name, IsAscii c := by
  intro c member
  have below := (isPlain_bounds (plain_of_isName valid c member)).2
  exact Char.utf8Size_eq_one_iff.mpr (below.trans (by decide))

/-- One turn of the search: there is no name left, or it stands within a literal, or it is
replaced. -/
theorem replaceFrom_eq {name literal rest : Text} {copied start : Nat} (nonempty : name ≠ [])
    (sliced : t.lower.slice? start t.lower.width = some rest) :
    replaceFrom strings name literal nonempty t copied start =
      match findWord? name rest with
      | none => t.slice? copied t.width
      | some found =>
        if Quoted.contains strings (start + found) then
          replaceFrom strings name literal nonempty t copied (start + found + 1)
        else do
          let kept ← t.slice? copied (start + found)
          let more ← replaceFrom strings name literal nonempty t (start + found + name.width)
            (start + found + name.width)
          return kept ++ literal ++ more := by
  rw [replaceFrom.eq_def]
  split
  · rename_i none
    cases sliced.symm.trans none
  · rename_i other found
    cases sliced.symm.trans found
    rfl

/-- Within a literal a character is passed over, whatever begins with it. -/
theorem replace_inside {c : Char} (name : Text) (value : Value) (other : c ≠ '"') (t : Text) :
    Expr.replace name value true 0 (c :: t) = c :: Expr.replace name value true 0 t := by
  rw [Expr.replace, Bool.not_true, Bool.false_and, Quoted.step_of_ne other]
  rfl

/-- What is searched is what stands at the offset, in lower case. -/
theorem slice?_lower (before t : Text) : (before ++ t).lower.slice? before.width
    (before ++ t).lower.width = some t.lower := by
  rw [lower_append, ← width_lower before]
  exact slice?_rest before.lower t.lower

/-- A name that is found is one or more characters, of which the first is one byte and no quote. -/
theorem word_of_begins {name rest : Text} (valid : isName name = true)
    (begins : rest.beginsWith name = true) : ∃ c tail behind, rest = c :: tail ++ behind ∧
      lower (c :: tail) = name ∧ '"' ∉ c :: tail ∧ c ≠ '"' ∧ c.utf8Size = 1 := by
  obtain ⟨word, behind, rfl, same⟩ := (beginsWith_iff rest name).mp begins
  have free : '"' ∉ word := Expr.quoteFree_of_lower same (quoteFree_of_isName valid)
  obtain ⟨c, tail, rfl⟩ := List.exists_cons_of_ne_nil
    (show word ≠ [] by rintro rfl; exact ne_nil_of_isName valid same.symm)
  refine ⟨c, tail, behind, rfl, same, free, fun quote => free (quote ▸ List.mem_cons_self), ?_⟩
  rw [← utf8Size_toLower]
  exact ascii_of_isName valid _ (same ▸ List.mem_cons_self)

/-- The search from offset `start` on, where `kept` is still to be copied. -/
theorem replaceFrom_bytes {name : Text} (valid : isName name = true) (value : Value)
    (before kept : Text) {whole : Text} {copied start : Nat} (split : whole = before ++ kept ++ t)
    (done : copied = before.width) (here : start = (before ++ kept).width)
    (masks : Quoted.Masks (Quoted.contains strings) start inside t) :
    replaceFrom strings name value.literal (ne_nil_of_isName valid) whole copied start =
      some (kept ++ Expr.replace name value inside 0 t) := by
  -- What is left to search gets shorter, by one character or by the whole word.
  induction size : t.length using Nat.strong_induction_on
    generalizing before kept inside t copied start with
  | _ size ih =>
    have sliced : whole.lower.slice? start whole.lower.width = some t.lower := by
      rw [split, here]
      exact slice?_lower (before ++ kept) t
    rw [replaceFrom_eq _ sliced, findWord?]
    have finds := finds_name (ascii_of_isName valid) (ne_nil_of_isName valid) 0 t
    cases found : findWordFrom? name.bytes 0 t.lower.bytes with
    | none =>
      rw [found] at finds
      rw [show Expr.replace name value inside 0 t = t from finds value inside]
      rw [List.append_assoc] at split
      rw [split, done]
      exact slice?_rest before (kept ++ t)
    | some offset =>
      rw [found] at finds
      obtain ⟨front, rest, rfl, rfl, begins, replaced⟩ := finds
      obtain ⟨c, tail, behind, rfl, same, free, unquoted, single⟩ := word_of_begins valid begins
      have later := masks.behind front
      have stop : start + front.width = (before ++ (kept ++ front)).width := by
        rw [here, ← width_append, List.append_assoc]
      rw [replaced, Nat.zero_add]
      dsimp only
      rw [later.here unquoted]
      cases literal : Quoted.after inside front with
      | true =>
        -- The search goes on behind the first character, which has one byte.
        have rest := later.tail
        rw [literal, Quoted.step_of_ne unquoted, single] at rest
        have next := ih (tail ++ behind).length (by simp [← size]; omega) before
          (kept ++ front ++ [c]) (by simp [split]) done
          (by rw [stop, ← single]; simp [width_append, width, Nat.add_assoc]) rest rfl
        rw [if_pos rfl, next, List.cons_append, replace_inside name value unquoted]
        simp
      | false =>
        have length : name.width = width (c :: tail) := by rw [← same, width_lower]
        have cut : whole.slice? copied (start + front.width) = some (kept ++ front) := by
          have middle := slice?_middle before (kept ++ front) (c :: tail ++ behind)
          rw [stop, done, split, width_append]
          simpa using middle
        have rest := later.behind (c :: tail)
        rw [literal, Quoted.after_of_free free, ← length] at rest
        have passed : start + front.width + name.width =
            (before ++ (kept ++ front) ++ (c :: tail)).width := by
          rw [stop, length, width_append _ (c :: tail)]
        have next := ih behind.length (by simp [← size]; omega)
          (before ++ (kept ++ front) ++ (c :: tail)) [] (by simp [split]) passed
          (by rw [passed, List.append_nil]) rest rfl
        rw [if_neg Bool.false_ne_true, cut, next,
          Expr.replace_here value same (List.cons_ne_nil c tail)]
        simp

theorem replace_run {name : Text} (valid : isName name = true) (value : Value) (t : Text) :
    (replace name value.literal t).run =
      some ((fun _ => Expr.replace name value false 0 t) <$> Quoted.check t) := by
  rw [replace, dif_pos (ne_nil_of_isName valid)]
  refine run_literals fun strings quoted => ?_
  exact Cutting.run_some (replaceFrom_bytes valid value [] [] rfl rfl rfl
    (Quoted.masks_contains quoted))

theorem substitute_run {table : Table} (valid : ∀ entry ∈ table, isName entry.1 = true) (t : Text) :
    (substitute table t).run = some (Expr.substitute table t) := by
  induction table generalizing t with
  | nil => rfl
  | cons entry more ih =>
    obtain ⟨here, later⟩ := List.forall_mem_cons.mp valid
    rw [substitute, Expr.substitute]
    refine (Cutting.run_bind (g := fun replaced => Expr.substitute more replaced)
      (replace_run here entry.2 t) fun replaced _ => ih later replaced).trans ?_
    cases Quoted.check t <;> rfl

end Names

section Groups

/-- The group that is resolved next, with the texts around it. No two groups open at one place, so
that it makes no difference which of two greatest ones is taken. -/
def latest? (t : Text) : Cutting (Option Group.Cut) := do
  let strings ← literals t
  let found ← groups strings t
  match found.argmax Span.opening with
  | none => return none
  | some span => do
    let inner ← t.slice? (span.opening + 1) span.closing
    let before ← t.slice? 0 span.opening
    let after ← t.slice? (span.closing + 1) t.width
    return some ⟨before, inner, after⟩

theorem argmax_spans {found : List Span} {cut : Group.Cut} (last : cut.Last t)
    (spanned : Group.spans t = .ok found) : found.argmax Span.opening = some cut.span := by
  have latest := last.latest spanned
  cases most : found.argmax Span.opening with
  | none =>
    rw [List.argmax_eq_none.mp most] at latest
    cases latest.member
  | some span =>
    obtain ⟨scanned, scan, members⟩ := Group.spansFrom_of_spans spanned
    rcases (last.spansFrom scan).2 span ((members span).mp (List.argmax_mem most)) with same | less
    · rw [same]
    · exact absurd (List.le_of_mem_argmax latest.member most) (Nat.not_le.mpr less)

/-- The three texts around the parentheses of a group. -/
theorem slices_of_cut (cut : Group.Cut) (whole : t = cut.fill ('(' :: cut.inner ++ [')'])) :
    t.slice? (cut.span.opening + 1) cut.span.closing = some cut.inner ∧
      t.slice? 0 cut.span.opening = some cut.before ∧
      t.slice? (cut.span.closing + 1) t.width = some cut.after := by
  have opening : '('.utf8Size = 1 := rfl
  have closing : ')'.utf8Size = 1 := rfl
  have behind : cut.span.closing + 1 = Text.width (cut.before ++ ('(' :: cut.inner ++ [')'])) := by
    simp only [Group.Cut.span, width_append, List.cons_append, width, opening, closing]
    omega
  refine ⟨?_, ?_, ?_⟩
  · have middle := slice?_middle (cut.before ++ ['(']) cut.inner (')' :: cut.after)
    rw [width_append] at middle
    rw [whole]
    simpa [Group.Cut.fill, Group.Cut.span, width, opening, Nat.add_assoc] using middle
  · rw [whole, Group.Cut.fill, List.append_assoc]
    exact slice?_front _ _
  · rw [behind, whole]
    exact slice?_rest _ _

theorem latest?_run (t : Text) : (latest? t).run = some (do
    Quoted.check t
    Group.check t
    return Group.last? t) := by
  refine run_literals fun strings quoted => ?_
  rw [groups_eq quoted, Group.check]
  cases spanned : Group.spans t with
  | error e => rfl
  | ok found =>
    have balanced := Expr.balanced_of_spans (Quoted.check_of_spans quoted) spanned
    rcases balanced.flat_or_last with flat | ⟨cut, last⟩
    · cases (Group.spans_flat flat).symm.trans spanned
      rw [Group.last?_noneOpen flat.none]
      rfl
    · obtain ⟨inner, before, after⟩ := slices_of_cut cut last.whole
      have most := argmax_spans last spanned
      change ExceptT.run (match found.argmax Span.opening with | none => _ | some span => _) = _
      rw [most, last.last?]
      exact (Cutting.run_bind_some inner).trans <| (Cutting.run_bind_some before).trans <|
        Cutting.run_bind_some after

end Groups

section Literals

variable {lead s rest whole : Text} {copied : Nat}

/-- The first literal of what stands at offset `copied`, with the text before it, and the offset at
which the rest goes on. -/
theorem slices_of_literal (before : Text) (leadFree : '"' ∉ lead) (free : '"' ∉ s)
    (split : whole = before ++ (lead ++ ('"' :: s ++ ['"'] ++ rest))) (here : copied = before.width)
    (done : Quoted.spansFrom copied none (lead ++ ('"' :: s ++ ['"'] ++ rest)) = .ok strings) :
    ∃ span more, strings = span :: more ∧ whole.slice? copied span.opening = some lead ∧
      whole.slice? (span.opening + 1) span.closing = some s ∧
      span.closing + 1 = width (before ++ lead ++ ('"' :: s ++ ['"'])) ∧
      Quoted.spansFrom (span.closing + 1) none rest = .ok more := by
  have size : width ('"' :: s ++ ['"']) = 1 + s.width + 1 := by
    rw [List.cons_append, width, width_append, ← Nat.add_assoc]
    rfl
  rw [Quoted.spansFrom_append_of_free leadFree, Condition.spansFrom_quoted free] at done
  obtain ⟨more, later, rfl⟩ := Error.ok_of_map done
  have closing : copied + lead.width + width ('"' :: s ++ ['"']) - 1 + 1 =
      copied + lead.width + width ('"' :: s ++ ['"']) := by omega
  refine ⟨_, more, rfl, ?_, ?_, ?_, ?_⟩
  · have parts := split.trans (List.append_assoc _ _ _).symm
    exact slice?_eq_some_iff.mpr ⟨before, _, parts, here.symm, rfl⟩
  · refine slice?_eq_some_iff.mpr ⟨before ++ lead ++ ['"'], '"' :: rest, by simp [split], ?_, ?_⟩
    · rw [width_append, width_append, here]
      rfl
    · change copied + lead.width + 1 + s.width = copied + lead.width + width ('"' :: s ++ ['"']) - 1
      omega
  · rw [closing, here, width_append (before ++ lead), width_append before]
  · rw [closing]
    exact later

/-- The text from offset `copied` on, with each literal replaced by `f` of its contents. -/
def unquoteFrom (f : Text → Text) (t : Text) (copied : Nat) : List Span → Option Text
  | [] => t.slice? copied t.width
  | s :: more => do
    let kept ← t.slice? copied s.opening
    let contents ← t.slice? (s.opening + 1) s.closing
    let rest ← unquoteFrom f t (s.closing + 1) more
    return kept ++ f contents ++ rest

def unquote (f : Text → Text) (t : Text) : Cutting Text := do
  let strings ← literals t
  unquoteFrom f t 0 strings

theorem unquoteFrom_bytes (paired : t.Paired) (f : Text → Text) (before : Text)
    (split : whole = before ++ t) (here : copied = before.width)
    (done : Quoted.spansFrom copied none t = .ok strings) :
    unquoteFrom f whole copied strings = some (Quoted.mapLiterals f t) := by
  induction paired using Text.Paired.literal_induction generalizing before copied strings with
  | free t free =>
    have none := Quoted.spansFrom_append_of_free free copied none []
    rw [List.append_nil] at none
    cases none.symm.trans done
    rw [Quoted.mapLiterals_of_free free, unquoteFrom, split, here]
    exact slice?_rest before t
  | literal lead s rest paired _ leadFree free ih =>
    obtain ⟨span, more, rfl, kept, contents, next, later⟩ :=
      slices_of_literal before leadFree free split here done
    have unquoted := ih (before ++ lead ++ ('"' :: s ++ ['"'])) (by simp [split]) next later
    rw [unquoteFrom, kept, contents, unquoted, Quoted.mapLiterals_append_of_free leadFree,
      Quoted.mapLiterals_literal free]
    simp

theorem unquote_run (f : Text → Text) (t : Text) :
    (unquote f t).run = some ((fun _ => Quoted.mapLiterals f t) <$> Quoted.check t) := by
  refine run_literals fun strings quoted => ?_
  have paired : t.Paired := Quoted.check_ok.mp (Quoted.check_of_spans quoted)
  exact Cutting.run_some (unquoteFrom_bytes paired f [] rfl rfl quoted)

/-- Between a literal and the one before it there must be one plus sign. -/
def checkGap (t : Text) (s : Span) : Option Span → Cutting Unit
  | none => return ()
  | some previous => do
    let gap ← t.slice? (previous.closing + 1) s.opening
    if gap.trim == ['+'] then return () else throw (.unsupportedStringOperator gap.trim)

/-- Joins literals, with the one before them. -/
def joinFrom (t : Text) (previous? : Option Span) : List Span → Cutting Text
  | [] => return []
  | s :: more => do
    checkGap t s previous?
    let contents ← t.slice? (s.opening + 1) s.closing
    let joined ← joinFrom t (some s) more
    return contents ++ joined

/-- Joins the literals of a text, before and behind which there are only blanks. -/
def concatenate (t : Text) : Cutting Text := do
  let strings ← literals t
  match strings.head?, strings.getLast? with
  | some first, some last => do
    let lead ← t.slice? 0 first.opening
    if lead.trim.isEmpty then do
      let trail ← t.slice? (last.closing + 1) t.width
      if trail.trim.isEmpty then joinFrom t none strings else throw (.expectedString t)
    else throw (.expectedString t)
  | _, _ => throw (.expectedString t)

/-- What joining makes of the literals behind a gap. -/
def follow (gap : Text) (more : List (Text × Text)) : Except Error Text :=
  if more.isEmpty then .ok []
  else if gap.trim == ['+'] then Concatenation.join more
  else .error (.unsupportedStringOperator gap.trim)

theorem join_cons (contents gap : Text) (more : List (Text × Text)) :
    Concatenation.join ((contents, gap) :: more) = (contents ++ ·) <$> follow gap more := by
  cases more with
  | nil =>
    rw [Concatenation.join]
    exact congrArg Except.ok (List.append_nil contents).symm
  | cons next more =>
    rw [Concatenation.join, follow]
    · split <;> rfl
    · exact List.cons_ne_nil next more

theorem joinFrom_cons {previous? : Option Span} {span : Span} {more : List Span}
    {check : Except Error Unit} {gap : Text} {literals : List (Text × Text)}
    (checked : (checkGap whole span previous?).run = some check)
    (contents : whole.slice? (span.opening + 1) span.closing = some s)
    (joined : (joinFrom whole (some span) more).run = some (follow gap literals)) :
    (joinFrom whole previous? (span :: more)).run =
      some (check >>= fun _ => Concatenation.join ((s, gap) :: literals)) := by
  refine Cutting.run_bind checked fun _ _ => ?_
  rw [Cutting.run_bind_some contents, join_cons]
  refine (Cutting.run_bind (g := fun rest => .ok (s ++ rest)) joined fun _ _ => rfl).trans ?_
  cases follow gap literals <;> rfl

/-- The literals of the text behind a literal. -/
theorem joinFrom_bytes (paired : t.Paired) (before : Text) {previous : Span}
    (split : whole = before ++ t) (here : previous.closing + 1 = before.width)
    (done : Quoted.spansFrom (previous.closing + 1) none t = .ok strings) :
    (joinFrom whole (some previous) strings).run =
      some (follow (Quoted.pieces t).1 (Quoted.pieces t).2) := by
  induction paired using Text.Paired.literal_induction generalizing before previous strings with
  | free t free =>
    have none := Quoted.spansFrom_append_of_free free (previous.closing + 1) none []
    rw [List.append_nil] at none
    cases none.symm.trans done
    rw [Quoted.pieces_of_free free]
    rfl
  | literal lead s rest paired _ leadFree free ih =>
    obtain ⟨span, more, rfl, kept, contents, next, later⟩ :=
      slices_of_literal before leadFree free split here done
    have joined := ih (before ++ lead ++ ('"' :: s ++ ['"'])) (by simp [split]) next later
    have checked : (checkGap whole span (some previous)).run = some (if lead.trim == ['+'] then
        .ok () else .error (.unsupportedStringOperator lead.trim)) := by
      rw [checkGap, Cutting.run_bind_some kept]
      split <;> rfl
    rw [joinFrom_cons checked contents joined, Quoted.pieces_append_of_free leadFree,
      Quoted.pieces_literal free, List.append_nil, follow]
    simp only [List.isEmpty_cons]
    split <;> rfl

/-- What stands behind the last literal. -/
theorem slice_of_getLast? (paired : t.Paired) (before : Text) (split : whole = before ++ t)
    (here : copied = before.width) (done : Quoted.spansFrom copied none t = .ok strings) :
    ∀ last ∈ strings.getLast?, ∃ entry ∈ (Quoted.pieces t).2.getLast?,
      whole.slice? (last.closing + 1) whole.width = some entry.2 := by
  induction paired using Text.Paired.literal_induction generalizing before copied strings with
  | free t free =>
    have none := Quoted.spansFrom_append_of_free free copied none []
    rw [List.append_nil] at none
    cases none.symm.trans done
    rintro last ⟨⟩
  | literal lead s rest paired _ leadFree free ih =>
    obtain ⟨span, more, rfl, _, _, next, later⟩ :=
      slices_of_literal before leadFree free split here done
    have behind := ih (before ++ lead ++ ('"' :: s ++ ['"'])) (by simp [split]) next later
    rw [Quoted.pieces_append_of_free leadFree, Quoted.pieces_literal free, List.getLast?_cons,
      List.getLast?_cons]
    rintro last ⟨⟩
    cases latest : more.getLast? with
    | some other =>
      obtain ⟨entry, found, cut⟩ := behind other latest
      rw [found]
      exact ⟨entry, rfl, cut⟩
    | none =>
      rw [List.getLast?_eq_none_iff] at latest
      have restFree : '"' ∉ rest := by simpa [latest] using isEmpty_spansFrom later
      have cut := slice?_rest (before ++ lead ++ ('"' :: s ++ ['"'])) rest
      rw [← next, List.append_assoc (before ++ lead), List.append_assoc before, ← split] at cut
      rw [Quoted.pieces_of_free restFree]
      exact ⟨_, rfl, cut⟩

theorem concatenate_run (t : Text) : (concatenate t).run = some (do
    Quoted.check t
    Concatenation.evaluate t) := by
  refine run_literals fun strings quoted => ?_
  have paired : t.Paired := Quoted.check_ok.mp (Quoted.check_of_spans quoted)
  induction paired using Text.Paired.literal_induction with
  | free t free =>
    have none : strings = [] := by simpa [free] using isEmpty_spansFrom quoted
    rw [none, Concatenation.evaluate, Quoted.pieces_of_free free]
    rfl
  | literal lead s rest paired both leadFree free _ =>
    obtain ⟨span, more, rfl, kept, contents, next, later⟩ :=
      slices_of_literal [] leadFree free rfl rfl quoted
    have joined := joinFrom_bytes paired ([] ++ lead ++ ('"' :: s ++ ['"']))
      (List.append_assoc lead _ rest).symm next later
    obtain ⟨⟨_, behind⟩, found, trail⟩ :=
      slice_of_getLast? both [] rfl rfl quoted _ List.getLast?_cons
    have pieces : Quoted.pieces (lead ++ ('"' :: s ++ ['"'] ++ rest)) =
        (lead, (s, (Quoted.pieces rest).1) :: (Quoted.pieces rest).2) := by
      rw [Quoted.pieces_append_of_free leadFree, Quoted.pieces_literal free, List.append_nil]
    rw [pieces] at found
    rw [List.nil_append] at kept contents trail
    rw [List.head?_cons, List.getLast?_cons, Concatenation.evaluate, pieces]
    dsimp only at found ⊢
    rw [found]
    refine (Cutting.run_bind_some kept).trans ?_
    cases lead.trim.isEmpty with
    | false => rfl
    | true =>
      rw [if_pos rfl, Cutting.run_bind_some trail]
      dsimp only
      cases behind.trim.isEmpty with
      | false => rfl
      | true =>
        have first : ∀ t, (checkGap t span none).run = some (.ok ()) := fun _ => rfl
        exact joinFrom_cons (first _) contents joined

end Literals
end Encoded
end StepScript
