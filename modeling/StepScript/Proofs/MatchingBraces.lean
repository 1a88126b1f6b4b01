import StepScript.Proofs.Blocks

/-! The braces of a block. Its opening brace is the first line after the `while` line that says
anything. From there opening and closing braces are counted: the block ends at the first line at
which the counts are equal, and up to there a depth counter that the braces raise and lower is never
lowered below zero. -/
namespace StepScript.Block

variable {lines rest more : List Text} {raw : Text} {entry opening closing index : Nat}
  {inner held depth : Nat}

section Counts

/-- How many of the lines are bare opening braces. -/
def opens (lines : List Text) : Nat :=
  lines.countP fun raw => Line.clean raw == Line.openBrace

/-- How many of the lines are bare closing braces. -/
def closes (lines : List Text) : Nat :=
  lines.countP fun raw => Line.clean raw == Line.closeBrace

theorem opens_append (lines more : List Text) : opens (lines ++ more) = opens lines + opens more :=
  List.countP_append

theorem closes_append (lines more : List Text) :
    closes (lines ++ more) = closes lines + closes more :=
  List.countP_append

theorem opens_cons (raw : Text) (rest : List Text) :
    opens (raw :: rest) = opens [raw] + opens rest :=
  opens_append [raw] rest

theorem closes_cons (raw : Text) (rest : List Text) :
    closes (raw :: rest) = closes [raw] + closes rest :=
  closes_append [raw] rest

theorem counts_of_opening (brace : Line.clean raw = Line.openBrace) :
    opens [raw] = 1 ∧ closes [raw] = 0 := by
  have other : Line.openBrace ≠ Line.closeBrace := by decide
  simp [opens, closes, brace, other]

theorem counts_of_closing (brace : Line.clean raw = Line.closeBrace) :
    opens [raw] = 0 ∧ closes [raw] = 1 := by
  have other : Line.closeBrace ≠ Line.openBrace := by decide
  simp [opens, closes, brace, other]

theorem counts_of_other (opening : Line.clean raw ≠ Line.openBrace)
    (closing : Line.clean raw ≠ Line.closeBrace) : opens [raw] = 0 ∧ closes [raw] = 0 := by
  simp [opens, closes, opening, closing]

end Counts

section Scanning

/-- A line that does not end the block makes up for what it opens and closes. -/
theorem findClose?_cases (inner : Nat) (raw : Text) (rest : List Text) :
    (inner = 0 ∧ Line.clean raw = Line.closeBrace ∧ findClose? inner (raw :: rest) = some 0) ∨
      ∃ held, inner + opens [raw] = held + closes [raw] ∧
        findClose? inner (raw :: rest) = (findClose? held rest).map (· + 1) := by
  rw [findClose?.eq_def]
  dsimp only
  split
  · rename_i brace
    obtain ⟨one, none⟩ := counts_of_opening brace
    exact .inr ⟨inner + 1, by rw [one, none, Nat.add_zero], rfl⟩
  · rename_i notOpening
    split
    · rename_i brace
      obtain ⟨none, one⟩ := counts_of_closing brace
      cases inner with
      | zero => exact .inl ⟨rfl, brace, rfl⟩
      | succ inner => exact .inr ⟨inner, by rw [one, none, Nat.add_zero], rfl⟩
    · rename_i notClosing
      obtain ⟨none, zero⟩ := counts_of_other notOpening notClosing
      exact .inr ⟨inner, by rw [none, zero], rfl⟩

/-- At the end of the block one more brace is closed than were open. -/
theorem findClose?_even (found : findClose? inner rest = some closing) :
    closing < rest.length ∧
      closes (rest.take (closing + 1)) = inner + opens (rest.take (closing + 1)) + 1 := by
  induction rest generalizing inner closing with
  | nil => cases found
  | cons raw rest ih =>
    rcases findClose?_cases inner raw rest with ⟨rfl, brace, ends⟩ | ⟨held, balance, goes⟩
    · rw [ends] at found
      cases found
      obtain ⟨none, one⟩ := counts_of_closing brace
      exact ⟨Nat.succ_pos _, by simp [one, none]⟩
    · rw [goes] at found
      obtain ⟨before, later, rfl⟩ := Option.map_eq_some_iff.mp found
      obtain ⟨within, even⟩ := ih later
      refine ⟨Nat.succ_lt_succ within, ?_⟩
      rw [List.take_succ_cons, opens_cons, closes_cons, even]
      omega

/-- Up to the end of the block no more braces are closed than were open. -/
theorem closes_le (inner : Nat) (rest : List Text) (count : Nat)
    (before : ∀ closing, findClose? inner rest = some closing → count ≤ closing) :
    closes (rest.take count) ≤ inner + opens (rest.take count) := by
  induction rest generalizing inner count with
  | nil => simp [closes]
  | cons raw rest ih =>
    cases count with
    | zero => simp [closes]
    | succ count =>
      rcases findClose?_cases inner raw rest with ⟨rfl, brace, ends⟩ | ⟨held, balance, goes⟩
      · exact absurd (before 0 ends) (Nat.not_succ_le_zero count)
      · have further : closes (rest.take count) ≤ held + opens (rest.take count) := by
          refine ih held count fun closing found => ?_
          have within := before (closing + 1) (by rw [goes, found]; rfl)
          exact Nat.le_of_succ_le_succ within
        rw [List.take_succ_cons, opens_cons, closes_cons]
        omega

/-- The end of the block closes its opening brace and no other. -/
theorem closes_le_succ (count : Nat)
    (before : ∀ offset, findClose? 0 rest = some offset → count ≤ offset + 1) :
    closes (rest.take count) ≤ opens (rest.take count) + 1 := by
  by_cases ends : ∃ offset, findClose? 0 rest = some offset ∧ count = offset + 1
  · obtain ⟨offset, found, rfl⟩ := ends
    have even := (findClose?_even found).2
    omega
  · have most := closes_le 0 rest count fun offset found => by
      have within := before offset found
      have other : count ≠ offset + 1 := fun same => ends ⟨offset, found, same⟩
      omega
    omega

end Scanning

section Depth

/-- The depth after a line; there is none where it would be lowered below zero. -/
def depthAfter? (depth : Nat) (raw : Text) : Option Nat :=
  if Line.clean raw = Line.openBrace then some (depth + 1)
  else if Line.clean raw = Line.closeBrace then (if depth = 0 then none else some (depth - 1))
  else some depth

/-- The depth after the lines. -/
def depth? (lines : List Text) : Option Nat :=
  lines.foldlM depthAfter? 0

theorem depthAfter?_eq (enough : closes [raw] ≤ depth + opens [raw]) :
    ∃ next, depthAfter? depth raw = some next ∧ next + closes [raw] = depth + opens [raw] := by
  unfold depthAfter?
  split
  · rename_i brace
    obtain ⟨one, none⟩ := counts_of_opening brace
    exact ⟨depth + 1, rfl, by rw [one, none, Nat.add_zero]⟩
  · rename_i notOpening
    split
    · rename_i brace
      obtain ⟨none, one⟩ := counts_of_closing brace
      rw [one, none] at enough
      rw [if_neg (by omega)]
      exact ⟨depth - 1, rfl, by omega⟩
    · rename_i notClosing
      obtain ⟨none, zero⟩ := counts_of_other notOpening notClosing
      exact ⟨depth, rfl, by rw [none, zero]⟩

/-- The depth is what was opened and not closed, if no part closes more than was open. -/
theorem foldlM_depthAfter? (depth : Nat) (lines : List Text)
    (enough : ∀ count, closes (lines.take count) ≤ depth + opens (lines.take count)) :
    ∃ last, lines.foldlM depthAfter? depth = some last ∧
      last + closes lines = depth + opens lines := by
  induction lines generalizing depth with
  | nil => exact ⟨depth, rfl, rfl⟩
  | cons raw rest ih =>
    obtain ⟨next, first, balance⟩ := depthAfter?_eq (enough 1)
    have further : ∀ count, closes (rest.take count) ≤ next + opens (rest.take count) := by
      intro count
      have whole := enough (count + 1)
      rw [List.take_succ_cons, opens_cons, closes_cons] at whole
      omega
    obtain ⟨last, folded, rest⟩ := ih next further
    refine ⟨last, ?_, ?_⟩
    · rw [List.foldlM_cons, first]
      exact folded
    · rw [opens_cons, closes_cons]
      omega

end Depth

section Opening

/-- The first line after `entry` that says anything is an opening brace. -/
structure OpensAt (lines : List Text) (entry opening : Nat) : Prop where
  after : entry < opening
  silent : ∀ index, entry < index → index < opening → lines[index]?.map Line.clean = some []
  brace : lines[opening]?.map Line.clean = some Line.openBrace

theorem OpensAt.unique {other : Nat} (left : OpensAt lines entry opening)
    (right : OpensAt lines entry other) : opening = other := by
  have speaks : some Line.openBrace ≠ some [] := by decide
  rcases Nat.lt_trichotomy opening other with less | same | more
  · exact absurd (left.brace.symm.trans (right.silent _ left.after less)) speaks
  · exact same
  · exact absurd (right.brace.symm.trans (left.silent _ right.after more)) speaks

theorem findOpen?_eq_some_iff :
    findOpen? lines entry = some opening ↔ OpensAt lines entry opening := by
  let speaks : Text → Bool := fun raw => !(Line.clean raw).isEmpty
  have line : ∀ index, (lines.drop (entry + 1))[index]? = lines[entry + 1 + index]? := fun _ =>
    List.getElem?_drop
  constructor
  · intro found
    obtain ⟨after, brace⟩ := findOpen?_opens found
    refine ⟨after, fun index late early => ?_, brace⟩
    have offset : opening = entry + 1 + (lines.drop (entry + 1)).findIdx speaks := by
      simp only [findOpen?] at found
      split at found
      · cases found
        rfl
      · cases found
    obtain ⟨j, rfl⟩ := Nat.exists_eq_add_of_le (Nat.succ_le_of_lt late)
    have before : j < (lines.drop (entry + 1)).findIdx speaks := by omega
    have within := before.trans_le List.findIdx_le_length
    have silent := List.not_of_lt_findIdx before
    have nothing : Line.clean (lines.drop (entry + 1))[j] = [] := by
      simpa [speaks] using silent
    rw [← line j, List.getElem?_eq_getElem within, Option.map_some, nothing]
  · rintro ⟨after, silent, brace⟩
    obtain ⟨offset, rfl⟩ := Nat.exists_eq_add_of_le (Nat.succ_le_of_lt after)
    obtain ⟨raw, there, clean⟩ := Option.map_eq_some_iff.mp brace
    have here : (lines.drop (entry + 1))[offset]? = some raw := (line offset).trans there
    obtain ⟨within, same⟩ := List.getElem?_eq_some_iff.mp here
    have first : (lines.drop (entry + 1)).findIdx speaks = offset := by
      refine (List.findIdx_eq within).mpr ⟨?_, fun j early => ?_⟩
      · simp only [speaks, same, clean]
        decide
      · have nothing := silent (entry + 1 + j) (by omega) (Nat.add_lt_add_left early _)
        rw [← line j, List.getElem?_eq_getElem (early.trans within), Option.map_some] at nothing
        change (!(Line.clean (lines.drop (entry + 1))[j]).isEmpty) = false
        rw [Option.some.inj nothing]
        rfl
    simp only [findOpen?]
    rw [show (lines.drop (entry + 1)).findIdx (fun raw => !(Line.clean raw).isEmpty) = offset from
      first, here, Option.map_some, clean, if_pos rfl]

end Opening

section Closing

/-- The lines from `start` up to, but not including, `stop`. -/
def between (lines : List Text) (start stop : Nat) : List Text :=
  (lines.take stop).drop start

/-- From the opening brace to this line, as many braces are closed as are opened. -/
structure EvenAt (lines : List Text) (opening index : Nat) : Prop where
  after : opening < index
  within : index < lines.length
  even : opens (between lines opening (index + 1)) = closes (between lines opening (index + 1))

/-- The first line at which the braces from the opening one are even. -/
structure ClosesAt (lines : List Text) (opening closing : Nat) : Prop where
  even : EvenAt lines opening closing
  first : ∀ index, EvenAt lines opening index → closing ≤ index

/-- No part closes more braces than it opens, and all of them are closed. -/
structure Nested (lines : List Text) : Prop where
  parts : ∀ count, closes (lines.take count) ≤ opens (lines.take count)
  whole : opens lines = closes lines

variable (brace : lines[opening]?.map Line.clean = some Line.openBrace)

theorem between_take (lines : List Text) (start count : Nat) :
    between lines start (start + count) = (lines.drop start).take count := by
  rw [between, List.drop_take, Nat.add_sub_cancel_left]

include brace

/-- The opening brace stands before the lines behind it. -/
theorem between_opening (count : Nat) :
    ∃ raw, Line.clean raw = Line.openBrace ∧
      between lines opening (opening + 1 + count) =
        raw :: (lines.drop (opening + 1)).take count := by
  obtain ⟨raw, there, clean⟩ := Option.map_eq_some_iff.mp brace
  obtain ⟨within, same⟩ := List.getElem?_eq_some_iff.mp there
  refine ⟨raw, clean, ?_⟩
  rw [Nat.add_assoc, Nat.add_comm 1 count, between_take, List.drop_eq_getElem_cons within, same,
    List.take_succ_cons]

theorem evenAt_iff (offset : Nat) :
    EvenAt lines opening (opening + 1 + offset) ↔
      offset < (lines.drop (opening + 1)).length ∧
        closes ((lines.drop (opening + 1)).take (offset + 1)) =
          opens ((lines.drop (opening + 1)).take (offset + 1)) + 1 := by
  obtain ⟨raw, clean, split⟩ := between_opening brace (offset + 1)
  obtain ⟨one, none⟩ := counts_of_opening clean
  have counts : opens (between lines opening (opening + 1 + offset + 1)) =
      closes (between lines opening (opening + 1 + offset + 1)) ↔
        closes ((lines.drop (opening + 1)).take (offset + 1)) =
          opens ((lines.drop (opening + 1)).take (offset + 1)) + 1 := by
    rw [Nat.add_assoc (opening + 1), split, opens_cons, closes_cons, one, none]
    omega
  rw [List.length_drop]
  constructor
  · rintro ⟨_, within, even⟩
    exact ⟨by omega, counts.mp even⟩
  · rintro ⟨within, even⟩
    exact ⟨by omega, by omega, counts.mpr even⟩

theorem closesAt_of_findClose? {offset : Nat}
    (found : findClose? 0 (lines.drop (opening + 1)) = some offset) :
    ClosesAt lines opening (opening + 1 + offset) := by
  obtain ⟨within, even⟩ := findClose?_even found
  rw [Nat.zero_add] at even
  refine ⟨(evenAt_iff brace offset).mpr ⟨within, even⟩, fun index evenHere => ?_⟩
  obtain ⟨other, rfl⟩ := Nat.exists_eq_add_of_le (Nat.succ_le_of_lt evenHere.after)
  by_contra less
  have before : ∀ closing, findClose? 0 (lines.drop (opening + 1)) = some closing →
      other + 1 ≤ closing := by
    intro closing same
    cases found.symm.trans same
    omega
  have most := closes_le 0 _ (other + 1) before
  have equal := ((evenAt_iff brace other).mp evenHere).2
  omega

theorem exists_findClose? (even : EvenAt lines opening index) :
    ∃ offset, findClose? 0 (lines.drop (opening + 1)) = some offset := by
  obtain ⟨other, rfl⟩ := Nat.exists_eq_add_of_le (Nat.succ_le_of_lt even.after)
  cases found : findClose? 0 (lines.drop (opening + 1)) with
  | some offset => exact ⟨offset, rfl⟩
  | none =>
    have most := closes_le 0 (lines.drop (opening + 1)) (other + 1) (by simp [found])
    have equal := ((evenAt_iff brace other).mp even).2
    omega

theorem ClosesAt.findClose? (closes : ClosesAt lines opening closing) :
    findClose? 0 (lines.drop (opening + 1)) = some (closing - (opening + 1)) := by
  obtain ⟨offset, found⟩ := exists_findClose? brace closes.even
  have other := closesAt_of_findClose? brace found
  have same : closing = opening + 1 + offset :=
    Nat.le_antisymm (closes.first _ other.even) (other.first _ closes.even)
  rw [found, same, Nat.add_sub_cancel_left]

/-- Whatever stands between the braces of a block is nested. -/
theorem ClosesAt.nested (closesAt : ClosesAt lines opening closing) :
    Nested (between lines (opening + 1) closing) := by
  have found := closesAt.findClose? brace
  obtain ⟨offset, rfl⟩ := Nat.exists_eq_add_of_le (Nat.succ_le_of_lt closesAt.even.after)
  rw [Nat.add_sub_cancel_left] at found
  rw [between_take]
  have most : ∀ count ≤ offset, closes ((lines.drop (opening + 1)).take count) ≤
      opens ((lines.drop (opening + 1)).take count) := by
    intro count before
    have most := closes_le 0 _ count fun closing same => by
      cases found.symm.trans same
      exact before
    rwa [Nat.zero_add] at most
  constructor
  · intro count
    rw [List.take_take]
    exact most _ (Nat.min_le_right _ _)
  · obtain ⟨within, even⟩ := findClose?_even found
    obtain ⟨raw, there, clean⟩ := Option.map_eq_some_iff.mp (findClose?_closes found)
    obtain ⟨none, one⟩ := counts_of_closing clean
    rw [List.take_add_one, there, Option.toList_some, opens_append, closes_append, none, one]
      at even
    omega

/-- From the opening brace to the closing one the depth counts what is open. -/
theorem depth?_eq (within : opening ≤ index)
    (before : ∀ closing, ClosesAt lines opening closing → index ≤ closing) :
    ∃ depth, depth? (between lines opening (index + 1)) = some depth ∧
      depth + closes (between lines opening (index + 1)) =
        opens (between lines opening (index + 1)) := by
  obtain ⟨count, rfl⟩ := Nat.exists_eq_add_of_le within
  obtain ⟨raw, clean, split⟩ := between_opening brace count
  obtain ⟨one, none⟩ := counts_of_opening clean
  rw [Nat.add_right_comm, split]
  have enough : ∀ part, closes ((raw :: (lines.drop (opening + 1)).take count).take part) ≤
      0 + opens ((raw :: (lines.drop (opening + 1)).take count).take part) := by
    intro part
    cases part with
    | zero => simp [closes]
    | succ part =>
      have most : closes ((lines.drop (opening + 1)).take (min part count)) ≤
          opens ((lines.drop (opening + 1)).take (min part count)) + 1 := by
        refine closes_le_succ _ fun offset found => ?_
        have ends := before _ (closesAt_of_findClose? brace found)
        omega
      rw [List.take_succ_cons, List.take_take, opens_cons, closes_cons, one, none]
      omega
  obtain ⟨depth, counted, balance⟩ := foldlM_depthAfter? 0 _ enough
  exact ⟨depth, counted, balance.trans (Nat.zero_add _)⟩

end Closing

theorem ClosesAt.unique {other : Nat} (left : ClosesAt lines opening closing)
    (right : ClosesAt lines opening other) : closing = other :=
  Nat.le_antisymm (left.first _ right.even) (right.first _ left.even)

/-- There is no opening brace, or one without an end, or a block. -/
theorem find_outcomes (lines : List Text) (entry : Nat) :
    ((¬ ∃ opening, OpensAt lines entry opening) ∧ find lines entry = .error .missingOpenBrace) ∨
      ∃ opening, OpensAt lines entry opening ∧
        ((¬ ∃ closing, ClosesAt lines opening closing) ∧
            find lines entry = .error .unmatchedBraces ∨
          ∃ closing, ClosesAt lines opening closing ∧
            find lines entry = .ok (opening, closing)) := by
  rw [find]
  cases opened : findOpen? lines entry with
  | none =>
    refine .inl ⟨?_, rfl⟩
    rintro ⟨opening, opens⟩
    rw [findOpen?_eq_some_iff.mpr opens] at opened
    cases opened
  | some opening =>
    have opens := findOpen?_eq_some_iff.mp opened
    refine .inr ⟨opening, opens, ?_⟩
    dsimp only
    cases closed : findClose? 0 (lines.drop (opening + 1)) with
    | none =>
      refine .inl ⟨?_, rfl⟩
      rintro ⟨closing, closes⟩
      rw [closes.findClose? opens.brace] at closed
      cases closed
    | some offset => exact .inr ⟨_, closesAt_of_findClose? opens.brace closed, rfl⟩

theorem find_eq_ok_iff : find lines entry = .ok (opening, closing) ↔
    OpensAt lines entry opening ∧ ClosesAt lines opening closing := by
  rcases find_outcomes lines entry with ⟨missing, found⟩ | ⟨start, opens, unmatched | block⟩
  · exact iff_of_false (by simp [found]) fun both => missing ⟨_, both.1⟩
  · obtain ⟨endless, found⟩ := unmatched
    refine iff_of_false (by simp [found]) fun both => endless ?_
    rw [opens.unique both.1]
    exact ⟨_, both.2⟩
  · obtain ⟨stop, closes, found⟩ := block
    rw [found]
    constructor
    · rintro ⟨⟩
      exact ⟨opens, closes⟩
    · rintro ⟨opensToo, closesToo⟩
      cases opens.unique opensToo
      cases closes.unique closesToo
      rfl

theorem find_eq_missing_iff : find lines entry = .error .missingOpenBrace ↔
    ¬ ∃ opening, OpensAt lines entry opening := by
  rcases find_outcomes lines entry with ⟨missing, found⟩ | ⟨start, opens, unmatched | block⟩
  · exact iff_of_true found missing
  · exact iff_of_false (by simp [unmatched.2]) (not_not_intro ⟨start, opens⟩)
  · obtain ⟨stop, _, found⟩ := block
    exact iff_of_false (by simp [found]) (not_not_intro ⟨start, opens⟩)

theorem find_eq_unmatched_iff : find lines entry = .error .unmatchedBraces ↔
    ∃ opening, OpensAt lines entry opening ∧ ¬ ∃ closing, ClosesAt lines opening closing := by
  rcases find_outcomes lines entry with ⟨missing, found⟩ | ⟨start, opens, unmatched | block⟩
  · refine iff_of_false (by simp [found]) ?_
    rintro ⟨opening, opens, _⟩
    exact missing ⟨opening, opens⟩
  · exact iff_of_true unmatched.2 ⟨start, opens, unmatched.1⟩
  · obtain ⟨stop, closes, found⟩ := block
    refine iff_of_false (by simp [found]) ?_
    rintro ⟨opening, opensToo, endless⟩
    cases opens.unique opensToo
    exact endless ⟨stop, closes⟩

end StepScript.Block

namespace StepScript

open StepScript.Block in
/-- The block after a line, for all lines and every place among them. It is found if and only if the
first line that says anything is an opening brace and the counts of opening and closing braces from
there on are equal at some later line; it ends at the first such line, a closing brace, and the
lines between the two braces are nested. Without the opening brace that is the error, and without a
line at which the counts are equal the braces are unmatched. From the opening brace to the closing
one, or to the last line if there is none, the depth counter is never lowered below zero: it counts
the braces that are open. -/
theorem block_ends_at_matching_brace (lines : List Text) (entry : Nat) :
    (∀ opening closing, Block.find lines entry = .ok (opening, closing) ↔
      OpensAt lines entry opening ∧ ClosesAt lines opening closing) ∧
    (Block.find lines entry = .error .missingOpenBrace ↔
      ¬ ∃ opening, OpensAt lines entry opening) ∧
    (Block.find lines entry = .error .unmatchedBraces ↔
      ∃ opening, OpensAt lines entry opening ∧ ¬ ∃ closing, ClosesAt lines opening closing) ∧
    ∀ opening, OpensAt lines entry opening →
      (∀ closing, ClosesAt lines opening closing →
        lines[closing]?.map Line.clean = some Line.closeBrace ∧
          Nested (between lines (opening + 1) closing)) ∧
      ∀ index, opening ≤ index → (∀ closing, ClosesAt lines opening closing → index ≤ closing) →
        ∃ depth, depth? (between lines opening (index + 1)) = some depth ∧
          depth + closes (between lines opening (index + 1)) =
            opens (between lines opening (index + 1)) := by
  refine ⟨fun opening closing => find_eq_ok_iff, find_eq_missing_iff, find_eq_unmatched_iff, ?_⟩
  intro opening opens
  refine ⟨fun closing closes => ⟨?_, closes.nested opens.brace⟩, fun index => depth?_eq opens.brace⟩
  have brace := findClose?_closes (closes.findClose? opens.brace)
  rwa [List.getElem?_drop, Nat.add_sub_cancel' closes.even.after] at brace

open StepScript.Block in
/-- A block within a block, with blank lines and comments before, between and behind the braces. -/
theorem inner_block_is_enclosed :
    let lines := ["while: true;", "", "// body", "\x7b", "\t\x7b // inner", "break", "\x7d",
      "\x7d // end", "\x7d"].map String.toList
    ClosesAt lines 3 7 ∧ Nested (between lines 4 7) ∧ depth? (between lines 3 6) = some 2 := by
  intro lines
  obtain ⟨found, _, _, inside⟩ := block_ends_at_matching_brace lines 0
  obtain ⟨opens, closes⟩ := (found 3 7).mp (by decide)
  obtain ⟨nested, counted⟩ := inside 3 opens
  refine ⟨closes, (nested 7 closes).2, ?_⟩
  obtain ⟨depth, same, balance⟩ := counted 5 (by decide) fun closing ends => by
    rw [← closes.unique ends]
    decide
  rw [same]
  have counts : Block.closes (between lines 3 6) = 0 ∧ Block.opens (between lines 3 6) = 2 := by
    decide
  rw [counts.1, counts.2] at balance
  exact congrArg some balance

end StepScript
