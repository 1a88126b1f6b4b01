import StepScript.Proofs.Blocks

/-! Lines laid out in two ways: lines that say nothing may stand between the others, and a line may
be written in another form. The position map says where each line has gone; reading follows it, so
that the next line to execute and the braces of a block are found at the places of the old ones. -/
namespace StepScript

namespace Line

/-- Both lines are empty, an opening brace, a closing brace, or neither of these. -/
def SameShape (raw raw' : Text) : Prop :=
  ∀ text ∈ [[], openBrace, closeBrace], clean raw' = text ↔ clean raw = text

variable {raw raw' : Text}

theorem SameShape.isEmpty (same : SameShape raw raw') :
    (clean raw').isEmpty = (clean raw).isEmpty := by
  rw [Bool.eq_iff_iff, List.isEmpty_iff, List.isEmpty_iff]
  exact same [] (by simp)

theorem SameShape.isSkipped (same : SameShape raw raw') : isSkipped raw' = isSkipped raw := by
  have opens := same openBrace (by simp)
  have closes := same closeBrace (by simp)
  rw [Bool.eq_iff_iff]
  simp only [Line.isSkipped, same.isEmpty, Bool.or_eq_true, beq_iff_eq, opens, closes]

theorem isSkipped_of_empty (empty : clean raw = []) : isSkipped raw = true := by
  simp [isSkipped, empty]

end Line

theorem Block.find_within {lines : List Text} {entry opening closing : Nat}
    (found : find lines entry = .ok (opening, closing)) :
    opening < closing ∧ closing < lines.length := by
  unfold find at found
  split at found
  · cases found
  · split at found
    · cases found
    · rename_i offset closed
      cases found
      have closes := findClose?_closes closed
      rw [List.getElem?_drop] at closes
      obtain ⟨last, there, _⟩ := Option.map_eq_some_iff.mp closes
      obtain ⟨within, _⟩ := List.getElem?_eq_some_iff.mp there
      exact ⟨by omega, within⟩

/-- The second list has the lines of the first, each in a form that is `alike`, with lines that say
nothing among them; the line at `index` has gone to `place index`. -/
inductive Relaid (alike : Text → Text → Prop) : (Nat → Nat) → List Text → List Text → Prop where
  | nil {place : Nat → Nat} (first : place 0 = 0) : Relaid alike place [] []
  | line {place after : Nat → Nat} {raw raw' : Text} {lines lines' : List Text}
      (first : place 0 = 0) (next : ∀ index, place (index + 1) = after index + 1)
      (same : alike raw raw') (rest : Relaid alike after lines lines') :
      Relaid alike place (raw :: lines) (raw' :: lines')
  | blank {place after : Nat → Nat} {raw' : Text} {lines lines' : List Text}
      (next : ∀ index, place index = after index + 1) (empty : Line.clean raw' = [])
      (rest : Relaid alike after lines lines') : Relaid alike place lines (raw' :: lines')

/-- The number of the line that has taken the place of the line of this number. -/
def lineAt (place : Nat → Nat) : Nat → Nat
  | 0 => 0
  | index + 1 => place index + 1

/-- The failure at the place to which its line has gone. -/
def Failure.relaid (place : Nat → Nat) (failure : Failure) : Failure :=
  { failure with line := lineAt place failure.line }

theorem lineAt_id : lineAt id = id := by
  funext number
  cases number with
  | zero => rfl
  | succ index => rfl

theorem Failure.relaid_id : Failure.relaid id = id := by
  funext failure
  rw [relaid, lineAt_id]
  rfl

namespace Relaid

variable {alike : Text → Text → Prop} {place : Nat → Nat} {lines lines' : List Text} {index : Nat}

/-- Line by line, with nothing among the lines. -/
theorem of_forall₂ (pairwise : List.Forall₂ alike lines lines') : Relaid alike id lines lines' := by
  induction pairwise with
  | nil => exact .nil rfl
  | cons same _ ih => exact .line rfl (fun _ => rfl) same ih

theorem length (relaid : Relaid alike place lines lines') : place lines.length = lines'.length := by
  induction relaid with
  | nil first => exact first
  | line first next same rest ih => rw [List.length_cons, next, ih, List.length_cons]
  | blank next empty rest ih => rw [next, ih, List.length_cons]

/-- A line and the line that has taken its place. -/
theorem getElem? (relaid : Relaid alike place lines lines') (within : index ≤ lines.length) :
    Option.Rel alike lines[index]? lines'[place index]? := by
  induction relaid generalizing index with
  | nil first =>
    obtain rfl : index = 0 := by simpa using within
    exact .none
  | line first next same rest ih =>
    cases index with
    | zero =>
      rw [first]
      exact .some same
    | succ index =>
      rw [next]
      exact ih (by simpa using within)
  | blank next empty rest ih =>
    rw [next]
    exact ih within

theorem length_le_iff (relaid : Relaid alike place lines lines') (within : index ≤ lines.length) :
    lines'.length ≤ place index ↔ lines.length ≤ index := by
  have related := relaid.getElem? within
  rw [← List.getElem?_eq_none_iff, ← List.getElem?_eq_none_iff]
  generalize lines[index]? = old at related ⊢
  generalize lines'[place index]? = new at related ⊢
  cases related with
  | none => simp
  | some same => simp

theorem lt_length (relaid : Relaid alike place lines lines') (within : index < lines.length) :
    place index < lines'.length := by
  have beyond := relaid.length_le_iff (Nat.le_of_lt within)
  omega

/-- What is left of the lines is laid out like them. -/
theorem drop (relaid : Relaid alike place lines lines') (within : index ≤ lines.length) :
    ∃ after, Relaid alike after (lines.drop index) (lines'.drop (place index)) ∧
      ∀ offset, place (index + offset) = place index + after offset := by
  induction relaid generalizing index with
  | @nil place first =>
    obtain rfl : index = 0 := by simpa using within
    refine ⟨place, ?_, by simp [first]⟩
    rw [first]
    exact .nil first
  | @line place after raw raw' lines lines' first next same rest ih =>
    cases index with
    | zero =>
      refine ⟨place, ?_, by simp [first]⟩
      rw [first]
      exact .line first next same rest
    | succ index =>
      obtain ⟨later, dropped, offsets⟩ := ih (by simpa using within)
      refine ⟨later, ?_, ?_⟩
      · rw [next]
        exact dropped
      · intro offset
        rw [Nat.add_right_comm, next, next, offsets, Nat.add_right_comm]
  | @blank place after raw' lines lines' next empty rest ih =>
    obtain ⟨later, dropped, offsets⟩ := ih within
    refine ⟨later, ?_, ?_⟩
    · rw [next]
      exact dropped
    · intro offset
      rw [next, next, offsets, Nat.add_right_comm]

/-- The same without the line at the place itself. -/
theorem dropAfter (relaid : Relaid alike place lines lines') (within : index < lines.length) :
    ∃ after, Relaid alike after (lines.drop (index + 1)) (lines'.drop (place index + 1)) ∧
      ∀ offset, place (index + 1 + offset) = place index + 1 + after offset := by
  obtain ⟨after, dropped, offsets⟩ := relaid.drop (Nat.le_of_lt within)
  have within' := relaid.lt_length within
  have start : after 0 = 0 := by simpa using offsets 0
  rw [List.drop_eq_getElem_cons within, List.drop_eq_getElem_cons within'] at dropped
  cases dropped with
  | @line _ later _ _ _ _ first next same rest =>
    refine ⟨later, rest, ?_⟩
    intro offset
    rw [Nat.add_assoc, Nat.add_comm 1 offset, offsets, next]
    omega
  | blank next => simp [next] at start

theorem take (relaid : Relaid alike place lines lines') (within : index ≤ lines.length) :
    Relaid alike place (lines.take index) (lines'.take (place index)) := by
  induction relaid generalizing index with
  | nil first =>
    simp only [List.take_nil]
    exact .nil first
  | line first next same rest ih =>
    cases index with
    | zero =>
      rw [first]
      exact .nil first
    | succ index =>
      rw [next]
      exact .line first next same (ih (by simpa using within))
  | blank next empty rest ih =>
    rw [next]
    exact .blank next empty (ih within)

/-- The lines between two places. -/
theorem between {closing : Nat} (relaid : Relaid alike place lines lines')
    (inside : index < closing) (within : closing ≤ lines.length) :
    ∃ after, Relaid alike after ((lines.take closing).drop (index + 1))
        ((lines'.take (place closing)).drop (place index + 1)) ∧
      ∀ offset, place (index + 1 + offset) = place index + 1 + after offset :=
  (relaid.take within).dropAfter (by simp only [List.length_take]; omega)

section Shapes

variable (shapes : ∀ raw raw', alike raw raw' → Line.SameShape raw raw')

include shapes

/-- The first line of a sort that no empty line is of has gone to its place. -/
theorem findIdx {p : Text → Bool} (relaid : Relaid alike place lines lines')
    (respects : ∀ raw raw', Line.SameShape raw raw' → p raw' = p raw)
    (passes : ∀ raw, Line.clean raw = [] → p raw = false) :
    lines'.findIdx p = place (lines.findIdx p) := by
  induction relaid with
  | nil first => exact first.symm
  | line first next same rest ih =>
    rw [List.findIdx_cons, List.findIdx_cons, respects _ _ (shapes _ _ same)]
    cases p _ with
    | true => exact first.symm
    | false => exact (congrArg (· + 1) ih).trans (next _).symm
  | blank next empty rest ih =>
    rw [List.findIdx_cons, passes _ empty, next]
    exact congrArg (· + 1) ih

theorem nextMeaningful_of_drop {start start' : Nat} {after : Nat → Nat}
    (relaid : Relaid alike after (lines.drop start) (lines'.drop start'))
    (within : start ≤ lines.length) (within' : start' ≤ lines'.length)
    (offsets : ∀ offset, place (start + offset) = start' + after offset) :
    Block.nextMeaningful lines' start' = place (Block.nextMeaningful lines start) := by
  have found := relaid.findIdx shapes (p := fun raw => !Line.isSkipped raw)
    (fun raw raw' same => by rw [same.isSkipped])
    (fun raw empty => by rw [Line.isSkipped_of_empty empty]; rfl)
  have bound : start + (lines.drop start).findIdx (fun raw => !Line.isSkipped raw) ≤
      lines.length := by
    have short : (lines.drop start).findIdx (fun raw => !Line.isSkipped raw) ≤
        (lines.drop start).length := List.findIdx_le_length
    rw [List.length_drop] at short
    omega
  have bound' : start' + (lines'.drop start').findIdx (fun raw => !Line.isSkipped raw) ≤
      lines'.length := by
    have short : (lines'.drop start').findIdx (fun raw => !Line.isSkipped raw) ≤
        (lines'.drop start').length := List.findIdx_le_length
    rw [List.length_drop] at short
    omega
  rw [Block.nextMeaningful, Block.nextMeaningful, Nat.min_eq_left bound, Nat.min_eq_left bound',
    offsets, found]

/-- The next line to execute has gone to its place. -/
theorem nextMeaningful (relaid : Relaid alike place lines lines') (within : index ≤ lines.length) :
    Block.nextMeaningful lines' (place index) = place (Block.nextMeaningful lines index) := by
  obtain ⟨after, dropped, offsets⟩ := relaid.drop within
  have within' : place index ≤ lines'.length := by
    rw [← relaid.length, ← Nat.add_sub_of_le within, offsets]
    omega
  exact dropped.nextMeaningful_of_drop shapes within within' offsets

theorem nextMeaningful_start (relaid : Relaid alike place lines lines') :
    Block.nextMeaningful lines' 0 = place (Block.nextMeaningful lines 0) := by
  have whole : Relaid alike place (lines.drop 0) (lines'.drop 0) := by simpa using relaid
  exact whole.nextMeaningful_of_drop shapes (Nat.zero_le _) (Nat.zero_le _) (by simp)

theorem nextMeaningful_after (relaid : Relaid alike place lines lines')
    (within : index < lines.length) :
    Block.nextMeaningful lines' (place index + 1) = place (Block.nextMeaningful lines (index + 1)) := by
  obtain ⟨after, dropped, offsets⟩ := relaid.dropAfter within
  exact dropped.nextMeaningful_of_drop shapes within (relaid.lt_length within) offsets

theorem findClose? (relaid : Relaid alike place lines lines') (inner : Nat) :
    Block.findClose? inner lines' = (Block.findClose? inner lines).map place := by
  induction relaid generalizing inner with
  | nil first => rfl
  | @line place after raw raw' lines lines' first next same rest ih =>
    have opens := shapes _ _ same Line.openBrace (by simp)
    have closes := shapes _ _ same Line.closeBrace (by simp)
    have later : ∀ inner, (Block.findClose? inner lines').map (· + 1) =
        ((Block.findClose? inner lines).map (· + 1)).map place := by
      intro inner
      rw [ih inner]
      simp only [Option.map_map, Function.comp_def, next]
    simp only [Block.findClose?, opens, closes]
    split
    · exact later _
    · split
      · cases inner with
        | zero => rw [Option.map_some, first]
        | succ inner => exact later _
      · exact later _
  | @blank place after raw' lines lines' next empty rest ih =>
    have unbraced : Line.clean raw' ≠ Line.openBrace ∧ Line.clean raw' ≠ Line.closeBrace := by
      rw [empty]
      decide
    simp only [Block.findClose?, unbraced, if_false, ih inner, Option.map_map, Function.comp_def]
    congr 1
    funext index
    exact (next index).symm

theorem findOpen? (relaid : Relaid alike place lines lines') (within : index < lines.length) :
    Block.findOpen? lines' (place index) = (Block.findOpen? lines index).map place := by
  obtain ⟨after, dropped, offsets⟩ := relaid.dropAfter within
  have found := dropped.findIdx shapes (p := fun raw => !(Line.clean raw).isEmpty)
    (fun raw raw' same => by rw [same.isEmpty]) (fun raw empty => by simp [empty])
  have there := dropped.getElem? (List.findIdx_le_length (p := fun raw => !(Line.clean raw).isEmpty))
  have brace : ∀ {old new : Option Text}, Option.Rel alike old new →
      (new.map Line.clean = some Line.openBrace ↔ old.map Line.clean = some Line.openBrace) := by
    rintro _ _ (same | _)
    · simpa using shapes _ _ same Line.openBrace (by simp)
    · simp
  simp only [Block.findOpen?, found, brace there]
  split
  · rw [Option.map_some, offsets]
  · rfl

/-- The braces of a block have gone to their places. -/
theorem find (relaid : Relaid alike place lines lines') (within : index < lines.length) :
    Block.find lines' (place index) =
      (fun (opening, closing) => (place opening, place closing)) <$> Block.find lines index := by
  rw [Block.find, Block.find, relaid.findOpen? shapes within]
  cases opened : Block.findOpen? lines index with
  | none => rfl
  | some opening =>
    obtain ⟨_, brace⟩ := Block.findOpen?_opens opened
    obtain ⟨raw, there, _⟩ := Option.map_eq_some_iff.mp brace
    obtain ⟨inside, _⟩ := List.getElem?_eq_some_iff.mp there
    obtain ⟨after, dropped, offsets⟩ := relaid.dropAfter inside
    simp only [Option.map_some, dropped.findClose? shapes]
    cases Block.findClose? 0 (lines.drop (opening + 1)) with
    | none => rfl
    | some offset => simp only [Option.map_some, Functor.map, Except.map, offsets]

end Shapes

end Relaid
end StepScript
