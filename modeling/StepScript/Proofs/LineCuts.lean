import StepScript.Proofs.ByteScans
import StepScript.Proofs.CaselessLines
import StepScript.Proofs.GroupSpans
import StepScript.Proofs.Separators

/-! Lines and statements cut at byte offsets. A function that looks for offsets among bytes and cuts
there gives no result where a text cannot be cut. None of them is ever without a result, and each
gives what the function over characters gives. -/
namespace StepScript

/-- The result of a function that cuts texts at offsets, which may fail with an error. There is none
at all where a text cannot be cut. -/
abbrev Cutting := ExceptT Error Option

section Results

variable {α β : Type} {x : Cutting α} {r : Except Error α} {o : Option α} {a : α}
  {f : α → Cutting β} {g : α → Except Error β}

theorem Cutting.run_bind (first : x.run = some r)
    (next : ∀ a, r = .ok a → (f a).run = some (g a)) : (x >>= f).run = some (r >>= g) := by
  rw [ExceptT.run_bind, first]
  cases r with
  | error e => rfl
  | ok a => exact next a rfl

theorem Cutting.run_bind_ok (first : x.run = some (.ok a)) : (x >>= f).run = (f a).run := by
  rw [ExceptT.run_bind, first]
  rfl

theorem Cutting.run_bind_error {e : Error} (first : x.run = some (.error e)) :
    (x >>= f).run = some (.error e) := by
  rw [ExceptT.run_bind, first]
  rfl

theorem Cutting.run_map (first : x.run = some r) (f : α → β) : (f <$> x).run = some (f <$> r) := by
  rw [ExceptT.run_map, first]
  rfl

theorem Cutting.run_bind_lift (r : Except Error α)
    (next : ∀ a, r = .ok a → (f a).run = some (g a)) :
    ((liftM r : Cutting α) >>= f).run = some (r >>= g) :=
  Cutting.run_bind rfl next

theorem Cutting.run_some (cut : o = some a) : (liftM o : Cutting α).run = some (.ok a) := by
  rw [cut]
  rfl

/-- A cut that is made leaves what follows. -/
theorem Cutting.run_bind_some (cut : o = some a) :
    ((liftM o : Cutting α) >>= f).run = (f a).run := by
  rw [cut]
  rfl

theorem Cutting.of_bind_some {result : Except Error β}
    (done : ((liftM o : Cutting α) >>= f).run = some result) :
    ∃ a, o = some a ∧ (f a).run = some result := by
  cases o with
  | none => cases done
  | some a => exact ⟨a, rfl, done⟩

theorem Cutting.of_bind_lift {b : β} {r : Except Error α}
    (done : ((liftM r : Cutting α) >>= f).run = some (.ok b)) :
    ∃ a, r = .ok a ∧ (f a).run = some (.ok b) := by
  cases r with
  | error e => cases done
  | ok a => exact ⟨a, rfl, done⟩

end Results

namespace Encoded

open StepScript.Text

variable {t u before after piece : Text} {c sign sep : Char} {pos depth : Nat} {inside : Bool}

/-- The texts on both sides of a sign. -/
theorem slices_around (asciiSign : IsAscii sign) (before after : Text) :
    slice? (before ++ sign :: after) 0 before.width = some before ∧
      slice? (before ++ sign :: after) (before.width + 1) (width (before ++ sign :: after)) =
        some after := by
  have size : sign.utf8Size = 1 := asciiSign
  have behind := slice?_rest (before ++ [sign]) after
  rw [width_append, width, size, width, List.append_assoc] at behind
  exact ⟨slice?_front _ _, behind⟩

/-- Where the literals of a text are looked for, its quotes are checked. -/
theorem run_literals {α : Type} {f : List Span → Cutting α} {g : Except Error α}
    (next : ∀ strings, Quoted.spans t = .ok strings → (f strings).run = some g) :
    ((liftM (literals t) : Cutting (List Span)) >>= f).run =
      some (Quoted.check t >>= fun _ => g) := by
  rw [literals_eq, Quoted.check]
  cases quoted : Quoted.spans t with
  | error e => rfl
  | ok strings => exact next strings quoted

section Lines

/-- What a line says, cut off at the offset of its comment. -/
def clean (raw : Text) : Option Text :=
  let line := raw.trim
  match commentFrom? 0 false line.bytes with
  | some comment => trim <$> line.slice? 0 comment
  | none => some line

theorem clean_eq (raw : Text) : clean raw = some (Line.clean raw) := by
  obtain ⟨rest, whole, found⟩ := commentFrom?_bytes 0 false raw.trim
  rw [clean, Line.clean]
  split
  · rename_i comment at_
    rw [at_] at found
    have cut : raw.trim.slice? 0 comment = some (Line.beforeComment false raw.trim) := by
      rw [show comment = _ from found, Nat.zero_add]
      conv => lhs; arg 1; rw [whole]
      exact slice?_front _ rest
    rw [cut]
    rfl
  · rename_i none
    rw [none] at found
    rw [show rest = [] from found, List.append_nil] at whole
    rw [← whole, trim_trim]

/-- The text on both sides of the first sign. -/
theorem find?_cases (asciiSign : IsAscii sign) (t : Text) :
    find? sign t = none ∧ t.splitFirst sign = none ∨ ∃ before after,
      find? sign t = some before.width ∧ t.splitFirst sign = some (before, after) ∧
      t.slice? 0 before.width = some before ∧
      t.slice? (before.width + 1) t.width = some after := by
  rw [find?_eq asciiSign]
  cases cut : t.splitFirst sign with
  | none => exact .inl ⟨rfl, rfl⟩
  | some parts =>
    obtain ⟨before, after⟩ := parts
    obtain rfl := Text.splitFirst_eq cut
    exact .inr ⟨before, after, rfl, rfl, slices_around asciiSign before after⟩

def preceder (raw : Text) : Cutting Preceder := do
  let line ← clean raw
  match find? ':' line with
  | some colon =>
    let keyword ← line.slice? 0 colon
    Preceder.ofText keyword
  | none => Preceder.ofText line

theorem preceder_run (raw : Text) : (preceder raw).run = some (Line.preceder raw) := by
  rw [preceder, Cutting.run_bind_some (clean_eq raw), Line.preceder]
  rcases find?_cases (rfl : IsAscii ':') (Line.clean raw) with
    ⟨none, same⟩ | ⟨before, after, found, same, front, _⟩
  · simp only [none, same]
    rfl
  · simp only [found, same, Cutting.run_bind_some front]
    rfl

/-- What stands after the colon. -/
def body (raw : Text) : Option Text := do
  let line ← clean raw
  match find? ':' line with
  | some colon => trim <$> line.slice? (colon + 1) line.width
  | none => some []

theorem body_eq (raw : Text) : body raw = some (Line.body raw) := by
  rw [body, clean_eq, Line.body]
  rcases find?_cases (rfl : IsAscii ':') (Line.clean raw) with
    ⟨none, same⟩ | ⟨before, after, found, same, _, rest⟩
  · simp [none, same]
  · simp [found, same, rest]

end Lines

section Assignments

/-- Makes a comparison with the byte of an equals sign after it. -/
def comparesBefore (b : UInt8) : Bool :=
  b == '='.toUInt8 || b == '!'.toUInt8 || b == '<'.toUInt8 || b == '>'.toUInt8

/-- The byte before an offset. There is none at the start. -/
def byteBefore (bs : List UInt8) : Nat → Option (Option UInt8)
  | 0 => some none
  | pos + 1 => some <$> bs[pos]?

/-- The text cut at the first of these offsets at which an equals sign stands alone. -/
def cutAlone (t : Text) : List Nat → Option (Option (Text × Text))
  | [] => some none
  | pos :: more => do
    let previous? ← byteBefore t.bytes pos
    if previous?.any comparesBefore || t.bytes[pos + 1]? == some '='.toUInt8 then cutAlone t more
    else do
      let left ← t.slice? 0 pos
      let right ← t.slice? (pos + 1) t.width
      return some (left.trim, right.trim)

def splitAssignment (body : Text) : Cutting (Option (Text × Text)) := do
  let offsets ← separators '=' body
  let sides? ← cutAlone body offsets
  return sides?

theorem comparesBefore_toUInt8 (ascii : IsAscii c) :
    comparesBefore c.toUInt8 = Statement.comparesBefore c := by
  have signs : ∀ sign, IsAscii sign → (c.toUInt8 == sign.toUInt8) = (c == sign) := fun _ =>
    byte_beq ascii
  rw [comparesBefore, Statement.comparesBefore, signs '=' rfl, signs '!' rfl, signs '<' rfl,
    signs '>' rfl]

theorem comparesBefore_of_wide {b : UInt8} (wide : 128 ≤ b) : comparesBefore b = false := by
  have signs : ∀ sign, IsAscii sign → (b == sign.toUInt8) = false := fun _ => wide_beq wide
  rw [comparesBefore, signs '=' rfl, signs '!' rfl, signs '<' rfl, signs '>' rfl]
  rfl

theorem comparesBefore_of_not_isAscii (other : ¬ IsAscii c) :
    Statement.comparesBefore c = false := by
  have signs : ∀ sign, IsAscii sign → (c == sign) = false := fun _ => beq_of_wide other
  rw [Statement.comparesBefore, signs '=' rfl, signs '!' rfl, signs '<' rfl, signs '>' rfl]
  rfl

/-- The byte before a part of a text is the last one of what stands before it. -/
theorem byteBefore_bytes (before t : Text) : ∃ previous?,
    byteBefore (before ++ t).bytes before.width = some previous? ∧
      previous?.any comparesBefore = before.getLast?.any Statement.comparesBefore := by
  rcases List.eq_nil_or_concat before with rfl | ⟨front, c, rfl⟩
  · exact ⟨none, rfl, rfl⟩
  obtain ⟨size, same⟩ := Nat.exists_eq_succ_of_ne_zero c.utf8Size_pos.ne'
  have length : (String.utf8EncodeChar c).length = size + 1 :=
    (String.length_utf8EncodeChar c).trans same
  obtain ⟨b, last⟩ : ∃ b, (String.utf8EncodeChar c)[size]? = some b :=
    ⟨_, List.getElem?_eq_getElem (length ▸ size.lt_succ_self)⟩
  have found : (bytes (front ++ [c] ++ t))[width front + size]? = some b := by
    rw [List.append_assoc, bytes_append, List.singleton_append, bytes_cons, ← length_bytes,
      List.getElem?_append_right (Nat.le_add_right _ _), Nat.add_sub_cancel_left,
      List.getElem?_append_left (length ▸ size.lt_succ_self), last]
  refine ⟨some b, ?_, ?_⟩
  · rw [List.concat_eq_append, width_append, width, width, Nat.add_zero, same, Nat.add_succ,
      byteBefore, found]
    rfl
  · rw [List.concat_eq_append, List.getLast?_concat, Option.any_some, Option.any_some]
    by_cases ascii : IsAscii c
    · rw [String.utf8EncodeChar_eq_singleton ascii] at last length
      obtain rfl : size = 0 := (Nat.succ.inj length).symm
      rw [← comparesBefore_toUInt8 ascii]
      exact congrArg comparesBefore (Option.some.inj last).symm
    · rw [comparesBefore_of_wide (wide_of_not_isAscii ascii b (List.mem_of_getElem? last)),
        comparesBefore_of_not_isAscii ascii]

/-- The byte behind a sign is the first of what stands behind it. -/
theorem getElem?_behind (asciiSign : IsAscii sign) (before t : Text) :
    (before ++ sign :: t).bytes[before.width + 1]? = t.bytes.head? := by
  rw [bytes_append, asciiSign.bytes_cons, ← length_bytes,
    List.getElem?_append_right (Nat.le_add_right _ _), Nat.add_sub_cancel_left,
    List.getElem?_cons_succ, List.head?_eq_getElem?]

theorem cutAlone_bytes (before t : Text) (inside : Bool) (depth : Nat) :
    cutAlone (before ++ t) (Group.separatorsFrom '=' before.width inside depth t) =
      some ((Statement.splitEquals inside depth before.getLast? t).map fun sides =>
        ((before ++ sides.1).trim, sides.2.trim)) := by
  induction t generalizing before inside depth with
  | nil => rfl
  | cons c t ih =>
    have later := ih (before ++ [c]) (Quoted.step inside c) (Group.depthAfter inside depth c)
    rw [List.append_assoc, List.singleton_append, width_append, width, width, Nat.add_zero,
      List.getLast?_concat] at later
    have passed : cutAlone (before ++ c :: t) (Group.separatorsFrom '=' (before.width + c.utf8Size)
        (Quoted.step inside c) (Group.depthAfter inside depth c) t) =
        some (((Statement.splitEquals (Quoted.step inside c) (Group.depthAfter inside depth c)
          (some c) t).map fun sides => (c :: sides.1, sides.2)).map fun sides =>
            ((before ++ sides.1).trim, sides.2.trim)) := by
      rw [later, Option.map_map]
      congr 2
      funext sides
      simp
    rw [Group.separatorsFrom, Statement.splitEquals]
    by_cases separates : (!inside && c == '=' && depth == 0) = true
    · have sign : c = '=' := by simp_all
      obtain ⟨previous?, previous, compares⟩ := byteBefore_bytes before (c :: t)
      have next : ((before ++ c :: t).bytes[before.width + 1]? == some '='.toUInt8) =
          (t.head? == some '=') := by
        rw [sign, getElem?_behind (rfl : IsAscii '='), head?_bytes_beq (rfl : IsAscii '=')]
      rw [if_pos separates, cutAlone, previous, separates, Bool.true_and, Option.bind_eq_bind,
        Option.bind_some, compares, next]
      cases compared : before.getLast?.any Statement.comparesBefore || t.head? == some '=' with
      | true =>
        have paired : (!before.getLast?.any Statement.comparesBefore && t.head? != some '=') =
            false := by
          rw [bne, ← Bool.not_or, compared]
          rfl
        rw [paired, passed]
        rfl
      | false =>
        have alone : (!before.getLast?.any Statement.comparesBefore && t.head? != some '=') =
            true := by
          rw [bne, ← Bool.not_or, compared]
          rfl
        obtain ⟨front, behind⟩ := slices_around (rfl : IsAscii '=') before t
        rw [alone, sign, front, behind]
        simp
    · rw [if_neg separates, if_neg (by simp_all), passed]

theorem splitAssignment_run (body : Text) :
    (splitAssignment body).run = some (Statement.splitAssignment body) := by
  rw [splitAssignment, separators_eq (by decide), Statement.splitAssignment]
  cases Quoted.check body with
  | error e => rfl
  | ok => exact Cutting.run_some (cutAlone_bytes [] body false 0)

end Assignments

section Calls

/-- A call whose first parenthesis closes at its last byte. -/
def closedCall (call : Text) : Cutting Text := do
  let strings ← literals call
  let found ← groups strings call
  match found with
  | [] => throw (.malformed .noCall call)
  | first :: _ =>
    let last ← call.width.ppred
    if first.closing = last then return call else throw (.malformed .textAfterCall call)

def call (text : Text) : Cutting Text := do
  let body ← Statement.body text
  let sides? ← splitAssignment body
  match sides? with
  | some (_, right) => closedCall right
  | none => closedCall body

def methodName (text : Text) : Cutting Text := do
  let call ← call text
  let name ← show Option Text from match find? '(' call with
    | some opening => trim <$> call.slice? 0 opening
    | none => some []
  if name.isEmpty then throw (.malformed .noMethodName call) else return name

/-- The text between the first parenthesis of a call and its last byte. -/
def argumentText (call : Text) : Option Text := do
  let last ← call.width.ppred
  call.slice? ((find? '(' call).getD 0 + 1) last

/-- The pieces of a text between offsets, from `start` on. -/
def cutAll (t : Text) (start : Nat) : List Nat → Option (List Text)
  | [] => do
    let piece ← t.slice? start t.width
    return [piece.trim]
  | pos :: more => do
    let piece ← t.slice? start pos
    let pieces ← cutAll t (pos + 1) more
    return piece.trim :: pieces

def methodArgs (text : Text) : Cutting (List Text) := do
  let call ← call text
  let inner ← argumentText call
  if inner.trim.isEmpty then return []
  else do
    let commas ← separators ',' inner
    let args ← cutAll inner 0 commas
    if args.any List.isEmpty then throw (.malformed .emptyArgument call) else return args

theorem closedCall_run (call : Text) :
    (closedCall call).run = some (Statement.closedCall call) := by
  refine run_literals fun strings quoted => ?_
  rw [groups_eq quoted]
  refine Cutting.run_bind_lift _ fun found spanned => ?_
  cases found with
  | nil => rfl
  | cons first more =>
    obtain ⟨last, width⟩ : ∃ last, call.width = last + 1 := by
      refine Nat.exists_eq_succ_of_ne_zero fun none => ?_
      rw [Text.eq_nil_of_width none] at spanned
      cases spanned
    have ends : first.closing = last ↔ first.closing + 1 = call.width := by omega
    rw [Cutting.run_bind_some (show call.width.ppred = some last by rw [width]; rfl)]
    simp only [ends]
    split <;> rfl

theorem call_run (text : Text) : (call text).run = some (Statement.call text) := by
  refine Cutting.run_bind_lift _ fun body _ => ?_
  refine Cutting.run_bind (splitAssignment_run body) fun sides? _ => ?_
  cases sides? with
  | none => exact closedCall_run body
  | some sides => exact closedCall_run sides.2

/-- A call that is accepted holds a group. -/
theorem spans_of_closedCall {call found : Text} (closed : Statement.closedCall call = .ok found) :
    ∃ first more, Group.spans found = .ok (first :: more) := by
  obtain ⟨_, _, closed⟩ := Error.ok_of_bind closed
  obtain ⟨spans, spanned, closed⟩ := Error.ok_of_bind closed
  split at closed
  · cases closed
  · split at closed
    · cases closed
      exact ⟨_, _, spanned⟩
    · cases closed

theorem spans_of_call {text call : Text} (called : Statement.call text = .ok call) :
    ∃ first more, Group.spans call = .ok (first :: more) := by
  obtain ⟨body, _, called⟩ := Error.ok_of_bind called
  obtain ⟨sides?, _, called⟩ := Error.ok_of_bind called
  cases sides? with
  | none => exact spans_of_closedCall called
  | some sides => exact spans_of_closedCall called

/-- A call up to its first parenthesis, which may stand in a literal, and what stands between that
and the end. -/
theorem parts_of_call {text call : Text} (called : Statement.call text = .ok call) :
    ∃ name inner, call = name ++ '(' :: (inner ++ [')']) ∧
      call.splitFirst '(' = some (name, inner ++ [')']) := by
  obtain ⟨paired, front, ends⟩ := Statement.call_ends called
  obtain ⟨first, more, spanned⟩ := spans_of_call called
  obtain ⟨before, inner, after, whole, _⟩ :=
    ((Group.spans_eq_ok_iff paired).mp spanned).cut first List.mem_cons_self
  have opened : '(' ∈ call := by simp [whole]
  obtain ⟨name, rest, split, free⟩ := List.eq_append_cons_of_mem opened
  rcases List.eq_nil_or_concat rest with rfl | ⟨inner, last, rfl⟩
  · rw [split] at ends
    simpa using congrArg List.getLast? ends
  · have closing : last = ')' := by
      rw [split, List.concat_eq_append, ← List.cons_append, ← List.append_assoc] at ends
      simpa only [List.getLast?_concat, Option.some.injEq] using congrArg List.getLast? ends
    rw [closing, List.concat_eq_append] at split
    exact ⟨name, inner, split, split ▸ Text.splitFirst_append free _⟩

/-- The offset of the first parenthesis of a call, with the texts before and behind it. -/
theorem find?_of_call {text call : Text} (called : Statement.call text = .ok call) :
    ∃ name, call.splitFirst '(' = some (name, Statement.argumentText call ++ [')']) ∧
      find? '(' call = some name.width ∧ call.slice? 0 name.width = some name ∧
      ∃ last, call.width.ppred = some last ∧
        call.slice? (name.width + 1) last = some (Statement.argumentText call) := by
  obtain ⟨name, inner, whole, cut⟩ := parts_of_call called
  have arguments : Statement.argumentText call = inner := by
    rw [Statement.argumentText, cut]
    exact List.dropLast_concat
  have parts : call = name ++ ['('] ++ inner ++ [')'] := by simp [whole]
  have size : call.width = Text.width (name ++ ['('] ++ inner) + 1 := by
    rw [parts, width_append]
    rfl
  refine ⟨name, ?_, ?_, ?_, _, by rw [size]; rfl, ?_⟩
  · rw [arguments, cut]
  · rw [find?_eq ascii_opening, cut]
    rfl
  · rw [whole]
    exact slice?_front _ _
  · have middle := slice?_middle (name ++ ['(']) inner [')']
    rw [← width_append, width_append name, ← parts] at middle
    rw [arguments]
    exact middle

theorem methodName_run (text : Text) :
    (methodName text).run = some (Statement.methodName text) := by
  refine Cutting.run_bind (call_run text) fun call called => ?_
  obtain ⟨name, cut, found, front, _⟩ := find?_of_call called
  have named : (match find? '(' call with
      | some opening => trim <$> call.slice? 0 opening
      | none => some []) = some name.trim := by
    rw [found]
    dsimp only
    rw [front]
    rfl
  simp only [cut]
  rw [Cutting.run_bind_some named]
  split <;> rfl

theorem splitTop_ne_nil (sep : Char) (inside : Bool) (depth : Nat) (t : Text) :
    Group.splitTop sep inside depth t ≠ [] := by
  cases t with
  | nil => exact List.cons_ne_nil _ _
  | cons c t =>
    rw [Group.splitTop]
    split
    · exact List.cons_ne_nil _ _
    · split <;> exact List.cons_ne_nil _ _

theorem modifyHead_nil_append (pieces : List Text) : pieces.modifyHead ([] ++ ·) = pieces := by
  cases pieces <;> rfl

/-- The offsets of the separators cut a text into the pieces between them. What stands before the
text from offset `before.width` on belongs to its first piece. -/
theorem cutAll_bytes (separator : IsSeparator sep) (before piece t : Text) (inside : Bool)
    (depth : Nat) :
    cutAll (before ++ piece ++ t) before.width
        (Group.separatorsFrom sep (before ++ piece).width inside depth t) =
      some (((Group.splitTop sep inside depth t).modifyHead (piece ++ ·)).map Text.trim) := by
  induction t generalizing before piece inside depth with
  | nil =>
    have last := slice?_rest before piece
    simp [Group.separatorsFrom, Group.splitTop, cutAll, last]
  | cons c t ih =>
    rw [Group.separatorsFrom, Group.splitTop]
    by_cases separates : (!inside && c == sep && depth == 0) = true
    · obtain ⟨⟨rfl, rfl⟩, rfl⟩ : (inside = false ∧ c = sep) ∧ depth = 0 := by simpa using separates
      obtain ⟨ascii, unquoted, notOpening, notClosing⟩ := separator
      have size : c.utf8Size = 1 := ascii
      have middle := slice?_middle before piece (c :: t)
      have outside : Quoted.step false c = false := Quoted.step_of_ne unquoted
      have level : Group.depthAfter false 0 c = 0 := by
        simp [Group.depthAfter, notOpening, notClosing]
      have later := ih (before ++ piece ++ [c]) [] false 0
      rw [← width_append] at middle
      rw [List.append_nil, List.append_assoc (before ++ piece), List.singleton_append,
        width_append (before ++ piece) [c], width, width, size, modifyHead_nil_append] at later
      rw [outside, level, if_pos separates, if_pos separates, size, cutAll, middle,
        Option.bind_eq_bind, Option.bind_some, later]
      simp
    · have later := ih before (piece ++ [c]) (Quoted.step inside c)
        (Group.depthAfter inside depth c)
      obtain ⟨next, more, pieces⟩ := List.exists_cons_of_ne_nil
        (splitTop_ne_nil sep (Quoted.step inside c) (Group.depthAfter inside depth c) t)
      rw [← List.append_assoc, width_append (before ++ piece), width, width, Nat.add_zero,
        List.append_assoc (before ++ piece), List.singleton_append, pieces] at later
      rw [if_neg separates, if_neg separates, pieces, later]
      simp

theorem methodArgs_run (text : Text) :
    (methodArgs text).run = some (Statement.methodArgs text) := by
  refine Cutting.run_bind (call_run text) fun call called => ?_
  obtain ⟨name, _, found, _, last, width, arguments⟩ := find?_of_call called
  have inner : argumentText call = some (Statement.argumentText call) := by
    rw [argumentText, width, found]
    exact arguments
  rw [Cutting.run_bind_some inner]
  dsimp only
  split
  · rfl
  · rw [separators_eq (by decide)]
    cases Quoted.check (Statement.argumentText call) with
    | error e => rfl
    | ok =>
      have comma : IsSeparator ',' := by decide
      have args := cutAll_bytes comma [] [] (Statement.argumentText call) false 0
      rw [modifyHead_nil_append] at args
      refine (Cutting.run_bind_some args).trans ?_
      split <;> rfl

end Calls
end Encoded
end StepScript
