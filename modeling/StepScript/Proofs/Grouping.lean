import StepScript.Proofs.ReadBack

/-! Groups of a balanced text. They are resolved one after another, the last opened first; what
comes of it is said part by part: each part of a text is resolved on its own, and a group becomes
the literal of what its resolved contents are worth. -/
namespace StepScript

namespace Group

variable {inside : Bool} {t u : Text}

/-- How many groups the text opens. -/
def opens : Bool → Text → Nat
  | _, [] => 0
  | inside, c :: t => (if !inside && c == '(' then 1 else 0) + opens (Quoted.step inside c) t

theorem opens_append (inside : Bool) (t u : Text) :
    opens inside (t ++ u) = opens inside t + opens (Quoted.after inside t) u := by
  induction t generalizing inside with
  | nil => simp [opens]
  | cons c t ih => simp only [List.cons_append, opens, ih, Quoted.after_cons, Nat.add_assoc]

theorem opens_le_count (inside : Bool) (t : Text) : opens inside t ≤ t.count '(' := by
  induction t generalizing inside with
  | nil => exact Nat.le_refl 0
  | cons c t ih =>
    have rest := ih (Quoted.step inside c)
    rw [opens, List.count_cons]
    cases inside <;> cases c == '(' <;> simp <;> omega

theorem splitLastOpen_of_opens (shut : opens inside t = 0) : splitLastOpen inside t = none := by
  induction t generalizing inside with
  | nil => rfl
  | cons c t ih =>
    rw [opens, Nat.add_eq_zero_iff] at shut
    rw [splitLastOpen, ih shut.2]
    simpa using shut.1

theorem splitLastOpen_append (outside : Quoted.after inside t = false)
    (shut : opens false u = 0) : splitLastOpen inside (t ++ '(' :: u) = some (t, u) := by
  induction t generalizing inside with
  | nil =>
    rw [Quoted.after_nil] at outside
    subst outside
    rw [List.nil_append, splitLastOpen, show Quoted.step false '(' = false from rfl,
      splitLastOpen_of_opens shut]
    rfl
  | cons c t ih =>
    rw [Quoted.after_cons] at outside
    rw [List.cons_append, splitLastOpen, ih outside]

theorem noneOpen_append :
    NoneOpen inside (t ++ u) ↔ NoneOpen inside t ∧ NoneOpen (Quoted.after inside t) u := by
  induction t generalizing inside with
  | nil => simp [NoneOpen]
  | cons c t ih => simp only [List.cons_append, NoneOpen, ih, Quoted.after_cons, and_assoc]

theorem opens_of_noneOpen (none : NoneOpen inside t) : opens inside t = 0 := by
  induction t generalizing inside with
  | nil => rfl
  | cons c t ih =>
    obtain ⟨here, rest⟩ := none
    rw [opens, ih rest]
    rcases here with rfl | ⟨opening, _⟩
    · rfl
    · simp [opening]

theorem splitFirstClose_append (none : NoneOpen inside t)
    (outside : Quoted.after inside t = false) :
    splitFirstClose inside (t ++ ')' :: u) = some (t, u) := by
  induction t generalizing inside with
  | nil =>
    rw [Quoted.after_nil] at outside
    subst outside
    rfl
  | cons c t ih =>
    obtain ⟨here, rest⟩ := none
    rw [Quoted.after_cons] at outside
    rw [List.cons_append, splitFirstClose, ih rest outside]
    rcases here with rfl | ⟨_, closing⟩
    · rfl
    · simp [closing]

/-- No parenthesis stands outside a literal, and the quotes are paired. -/
structure Flat (t : Text) : Prop where
  none : NoneOpen false t
  paired : t.Paired

theorem Flat.append (left : Flat t) (right : Flat u) : Flat (t ++ u) := by
  constructor
  · rw [noneOpen_append, show Quoted.after false t = false from left.paired]
    exact ⟨left.none, right.none⟩
  · rw [Text.Paired, Quoted.after_append, show Quoted.after false t = false from left.paired]
    exact right.paired

theorem flat_of_free (free : ∀ c ∈ t, c ≠ '(' ∧ c ≠ ')' ∧ c ≠ '"') : Flat t := by
  constructor
  · exact noneOpen_of_free (fun member => (free _ member).1 rfl) fun member =>
      (free _ member).2.1 rfl
  · exact Quoted.after_of_free fun member => (free _ member).2.2 rfl

theorem flat_quoted {s : Text} (free : '"' ∉ s) : Flat ('"' :: s ++ ['"']) :=
  ⟨noneOpen_literal free, Quoted.after_literal free false⟩

/-- Text whose groups are matched and whose quotes are paired. -/
inductive Balanced : Text → Prop where
  | flat {t : Text} (flat : Flat t) : Balanced t
  | append {t u : Text} (left : Balanced t) (right : Balanced u) : Balanced (t ++ u)
  | group {t : Text} (inner : Balanced t) : Balanced ('(' :: t ++ [')'])

/-- The text with `u` in the place of the group. -/
def Cut.fill (cut : Cut) (u : Text) : Text :=
  cut.before ++ u ++ cut.after

/-- The cut is made around the group that the text opens last. -/
structure Cut.Last (cut : Cut) (t : Text) : Prop where
  whole : t = cut.fill ('(' :: cut.inner ++ [')'])
  before : Quoted.after false cut.before = false
  inner : Flat cut.inner
  after : opens false cut.after = 0
  paired : Quoted.after false cut.after = false
  filled : ∀ u, Flat u → Balanced (cut.fill u)

namespace Cut.Last

variable {cut : Cut}

theorem last? (last : cut.Last t) : Group.last? t = some cut := by
  have opened : splitLastOpen false t = some (cut.before, cut.inner ++ ')' :: cut.after) := by
    rw [last.whole]
    have shut : opens false (cut.inner ++ ')' :: cut.after) = 0 := by
      rw [opens_append, opens_of_noneOpen last.inner.none,
        show Quoted.after false cut.inner = false from last.inner.paired]
      simpa [opens, Quoted.step] using last.after
    have split := splitLastOpen_append last.before shut
    simpa [Cut.fill] using split
  have closed := splitFirstClose_append last.inner.none last.inner.paired (u := cut.after)
  simp [Group.last?, opened, closed]

theorem opens_fill (last : cut.Last t) (flat : Flat u) :
    opens false (cut.fill u) + 1 = opens false t := by
  have inner : ∀ w : Text, Quoted.after false w = false →
      opens false (cut.fill w) =
        opens false cut.before + opens false w + opens false cut.after := by
    intro w paired
    rw [Cut.fill, opens_append, opens_append, Quoted.after_append, last.before, paired]
  have group : Quoted.after false ('(' :: cut.inner ++ [')']) = false := by
    rw [List.cons_append, Quoted.after_cons, Quoted.after_append,
      show Quoted.step false '(' = false from rfl,
      show Quoted.after false cut.inner = false from last.inner.paired]
    rfl
  have one : opens false ('(' :: cut.inner ++ [')']) = 1 := by
    rw [List.cons_append, opens, opens_append, show Quoted.step false '(' = false from rfl,
      opens_of_noneOpen last.inner.none,
      show Quoted.after false cut.inner = false from last.inner.paired]
    rfl
  conv => rhs; rw [last.whole]
  rw [inner u flat.paired, inner _ group, opens_of_noneOpen flat.none, one]
  omega

/-- A group that is all of the text. -/
theorem alone (flat : Flat t) : Last ⟨[], t, []⟩ ('(' :: t ++ [')']) where
  whole := by simp [Cut.fill]
  before := rfl
  inner := flat
  after := rfl
  paired := rfl
  filled w flatW := by simpa [Cut.fill] using Balanced.flat flatW

/-- Text behind the group that opens no other. -/
theorem append (last : cut.Last t) (flat : Flat u) :
    Last { cut with after := cut.after ++ u } (t ++ u) where
  whole := by
    conv => lhs; rw [last.whole]
    simp [Cut.fill]
  before := last.before
  inner := last.inner
  after := by
    rw [opens_append, last.after, last.paired, opens_of_noneOpen flat.none]
  paired := by
    rw [Quoted.after_append, last.paired]
    exact flat.paired
  filled w flatW := by
    have filled := (last.filled w flatW).append (.flat flat)
    simpa [Cut.fill] using filled

/-- Text before the group, whatever it opens. -/
theorem prepend (last : cut.Last u) (balanced : Balanced t) (paired : t.Paired) :
    Last { cut with before := t ++ cut.before } (t ++ u) where
  whole := by
    conv => lhs; rw [last.whole]
    simp [Cut.fill]
  before := by
    rw [Quoted.after_append, show Quoted.after false t = false from paired]
    exact last.before
  inner := last.inner
  after := last.after
  paired := last.paired
  filled w flatW := by
    have filled := balanced.append (last.filled w flatW)
    simpa [Cut.fill] using filled

/-- The group within a group around all of the text. -/
theorem enclose (last : cut.Last t) :
    Last { cut with before := '(' :: cut.before, after := cut.after ++ [')'] }
      ('(' :: t ++ [')']) where
  whole := by
    conv => lhs; rw [last.whole]
    simp [Cut.fill]
  before := last.before
  inner := last.inner
  after := by
    rw [opens_append, last.after, last.paired]
    rfl
  paired := by
    rw [Quoted.after_append, last.paired]
    rfl
  filled w flatW := by
    have filled := (last.filled w flatW).group
    simpa [Cut.fill] using filled

end Cut.Last

/-- The groups of a balanced text that starts at offset `pos`, in the order in which they are
opened. -/
inductive Groups : Nat → Text → List Span → Prop where
  | flat {pos : Nat} {t : Text} (flat : Flat t) : Groups pos t []
  | append {pos : Nat} {t u : Text} {first second : List Span} (left : Groups pos t first)
      (right : Groups (pos + t.width) u second) : Groups pos (t ++ u) (first ++ second)
  | group {pos : Nat} {t : Text} {inside : List Span}
      (inner : Groups (pos + '('.utf8Size) t inside) :
      Groups pos ('(' :: t ++ [')']) (⟨pos, pos + '('.utf8Size + t.width⟩ :: inside)

namespace Groups

variable {pos : Nat} {found : List Span}

theorem above (groups : Groups pos t found) : ∀ span ∈ found, pos ≤ span.opening := by
  induction groups with
  | flat => exact List.forall_mem_nil _
  | append _ _ left right =>
    exact List.forall_mem_append.mpr ⟨left, fun span member =>
      Nat.le_of_add_right_le (right span member)⟩
  | group _ ih =>
    exact List.forall_mem_cons.mpr ⟨Nat.le_refl _, fun span member =>
      Nat.le_of_add_right_le (ih span member)⟩

/-- The scan finds the groups in the order in which they are closed. -/
theorem spansFrom_append (groups : Groups pos t found) :
    ∃ closed, closed.Perm found ∧ ∀ stack rest,
      spansFrom pos false stack (t ++ rest) =
        (closed ++ ·) <$> spansFrom (pos + t.width) false stack rest := by
  induction groups with
  | flat flat =>
    refine ⟨[], .nil, fun stack rest => ?_⟩
    rw [spansFrom_of_noneOpen flat.none, show Quoted.after false _ = false from flat.paired]
    simp
  | append _ _ left right =>
    obtain ⟨first, perm, passed⟩ := left
    obtain ⟨second, permOn, passedOn⟩ := right
    refine ⟨first ++ second, perm.append permOn, fun stack rest => ?_⟩
    rw [List.append_assoc, passed, passedOn, Text.width_append, Nat.add_assoc]
    simp [Function.comp_def]
  | @group pos t inside _ ih =>
    obtain ⟨closed, perm, passed⟩ := ih
    refine ⟨closed ++ [⟨pos, pos + '('.utf8Size + t.width⟩], ?_, fun stack rest => ?_⟩
    · exact List.perm_append_comm.trans (perm.cons _)
    · have opened : spansFrom pos false stack ('(' :: (t ++ ')' :: rest)) =
          spansFrom (pos + '('.utf8Size) false (pos :: stack) (t ++ ')' :: rest) := rfl
      have closes : ∀ here, spansFrom here false (pos :: stack) (')' :: rest) =
          (⟨pos, here⟩ :: ·) <$> spansFrom (here + ')'.utf8Size) false stack rest := fun _ => rfl
      rw [show '(' :: t ++ [')'] ++ rest = '(' :: (t ++ ')' :: rest) by simp, opened, passed,
        closes]
      simp [Text.width, Text.width_append, Nat.add_assoc, Function.comp_def]

end Groups

namespace Balanced

theorem paired (balanced : Balanced t) : t.Paired := by
  induction balanced with
  | flat flat => exact flat.paired
  | append _ _ left right =>
    rw [Text.Paired, Quoted.after_append, show Quoted.after false _ = false from left]
    exact right
  | @group t _ inner =>
    rw [Text.Paired, List.cons_append, Quoted.after_cons, Quoted.after_append,
      show Quoted.step false '(' = false from rfl, show Quoted.after false t = false from inner]
    rfl

/-- A balanced text has no group, or one that it opens last. -/
theorem flat_or_last (balanced : Balanced t) : Flat t ∨ ∃ cut : Cut, cut.Last t := by
  induction balanced with
  | flat flat => exact .inl flat
  | append left _ ihLeft ihRight =>
    rcases ihRight with flat | ⟨cut, last⟩
    · rcases ihLeft with flatLeft | ⟨cut, last⟩
      · exact .inl (flatLeft.append flat)
      · exact .inr ⟨_, last.append flat⟩
    · exact .inr ⟨_, last.prepend left left.paired⟩
  | @group t inner ih =>
    refine .inr ?_
    rcases ih with flat | ⟨cut, last⟩
    · exact ⟨_, .alone flat⟩
    · exact ⟨_, last.enclose⟩

/-- Induction on the groups of a balanced text, from the one that is opened last. -/
theorem last_induction {motive : (t : Text) → Balanced t → Prop}
    (flat : ∀ t (isFlat : Flat t), motive t (.flat isFlat))
    (last : ∀ t (cut : Cut) (balanced : Balanced t) (isLast : cut.Last t),
      (∀ u (isFlat : Flat u), motive (cut.fill u) (isLast.filled u isFlat)) → motive t balanced)
    {t : Text} (balanced : Balanced t) : motive t balanced := by
  induction count : opens false t generalizing t with
  | zero =>
    rcases balanced.flat_or_last with isFlat | ⟨cut, isLast⟩
    · exact flat t isFlat
    · have one := isLast.opens_fill isLast.inner
      omega
  | succ count ih =>
    rcases balanced.flat_or_last with isFlat | ⟨cut, isLast⟩
    · exact flat t isFlat
    · refine last t cut balanced isLast ?_
      intro u isFlatU
      have one := isLast.opens_fill isFlatU
      exact ih (isLast.filled u isFlatU) (by omega)

/-- A balanced text has groups, wherever it stands. -/
theorem groups (balanced : Balanced t) (pos : Nat) : ∃ found, Groups pos t found := by
  induction balanced generalizing pos with
  | flat flat => exact ⟨[], .flat flat⟩
  | @append t u _ _ left right =>
    obtain ⟨first, groups⟩ := left pos
    obtain ⟨second, groupsOn⟩ := right (pos + t.width)
    exact ⟨_, groups.append groupsOn⟩
  | group _ ih =>
    obtain ⟨found, groups⟩ := ih (pos + '('.utf8Size)
    exact ⟨_, groups.group⟩

/-- The groups of a balanced text are found wherever it stands, and are opened in it. -/
theorem spansFrom_append (balanced : Balanced t) (pos : Nat) :
    ∃ found, (∀ span ∈ found, pos ≤ span.opening) ∧ ∀ stack rest,
      spansFrom pos false stack (t ++ rest) =
        (found ++ ·) <$> spansFrom (pos + t.width) false stack rest := by
  obtain ⟨found, groups⟩ := balanced.groups pos
  obtain ⟨closed, perm, passed⟩ := groups.spansFrom_append
  exact ⟨closed, fun span member => groups.above span (perm.mem_iff.mp member), passed⟩

theorem check (balanced : Balanced t) : Group.check t = .ok () := by
  obtain ⟨found, _, passed⟩ := balanced.spansFrom_append 0
  have whole := passed [] []
  rw [List.append_nil] at whole
  rw [Group.check, spans, whole]
  rfl

end Balanced
end Group

theorem Value.flat_literal {v : Value} (free : v.QuoteFree) : Group.Flat v.literal := by
  rcases v.literal_shape with ⟨s, rfl⟩ | ⟨negative, body, _, plain, written⟩
  · exact Group.flat_quoted free
  · rw [written]
    constructor
    · exact Group.noneOpen_of_free (not_mem_signed plain rfl (by decide))
        (not_mem_signed plain rfl (by decide))
    · exact Quoted.after_of_free (not_mem_signed plain rfl (by decide))

/-- Nothing but the blanks that may stand between tokens. -/
def Text.Gaps (t : Text) : Prop :=
  ∀ c ∈ t, isGap c = true

instance (t : Text) : Decidable t.Gaps :=
  decidable_of_iff (t.all isGap = true) List.all_eq_true

/-- The text begins and ends with a character that is not blank. -/
structure Text.Bare (t : Text) : Prop where
  first : ∃ c rest, t = c :: rest ∧ isBlank c = false
  last : ∃ rest c, t = rest ++ [c] ∧ isBlank c = false

namespace Text

variable {t u : Text}

theorem Gaps.nil : Gaps [] :=
  List.forall_mem_nil _

theorem Gaps.flat (gaps : t.Gaps) : Group.Flat t := by
  have differs : ∀ c ∈ t, ∀ d, isGap d = false → c ≠ d := by
    rintro c member d other rfl
    rw [gaps c member] at other
    cases other
  exact Group.flat_of_free fun c member =>
    ⟨differs c member '(' rfl, differs c member ')' rfl, differs c member '"' rfl⟩

theorem Gaps.blank (gaps : t.Gaps) : ∀ c ∈ t, isBlank c = true := fun c member =>
  isBlank_of_isGap (gaps c member)

theorem Bare.around (left : t.Bare) (right : u.Bare) (middle : Text) : Bare (t ++ middle ++ u) := by
  obtain ⟨c, rest, rfl, blank⟩ := left.first
  obtain ⟨lead, d, rfl, blankLast⟩ := right.last
  exact ⟨⟨c, rest ++ middle ++ (lead ++ [d]), by simp, blank⟩,
    ⟨c :: rest ++ middle ++ lead, d, by simp, blankLast⟩⟩

theorem Bare.trim (bare : t.Bare) : Text.trim t = t := by
  refine trim_of_ends ?_ ?_
  · obtain ⟨c, rest, rfl, blank⟩ := bare.first
    rintro d ⟨⟩
    exact blank
  · obtain ⟨rest, c, rfl, blank⟩ := bare.last
    intro d last
    rw [List.getLast?_concat] at last
    cases last
    exact blank

theorem Bare.trim_pad {before after : Text} (bare : t.Bare) (left : ∀ c ∈ before, isBlank c = true)
    (right : ∀ c ∈ after, isBlank c = true) : Text.trim (before ++ t ++ after) = t := by
  rw [Text.trim_pad left right, bare.trim]

end Text

theorem Group.Balanced.pad {t before after : Text} (balanced : Balanced t)
    (gapsBefore : before.Gaps) (gapsAfter : after.Gaps) : Balanced (before ++ t ++ after) :=
  ((Balanced.flat gapsBefore.flat).append balanced).append (.flat gapsAfter.flat)

namespace Expr

open StepScript.Group

variable {target : Kind} {t u : Text} {cut : Cut}

/-- The text with each of its groups replaced by the literal of what it is worth. -/
def flatten (target : Kind) (t : Text) : Except Error Text :=
  resolve target (opens false t) t

/-- The literal of what the text is worth as the contents of a group. -/
def groupLiteral (target : Kind) (t : Text) : Except Error Text :=
  Value.literal <$> evaluateFlat (groupKind target t) t.trim

theorem groupLiteral_flat (done : groupLiteral target t = .ok u) : Flat u := by
  obtain ⟨value, worth, rfl⟩ := Error.ok_of_map done
  exact value.flat_literal (evaluateFlat_quoteFree worth)

theorem groupLiteral_bind {f g : Text → Except Error Text} (same : ∀ u, Flat u → f u = g u) :
    groupLiteral target t >>= f = groupLiteral target t >>= g := by
  cases done : groupLiteral target t with
  | error e => rfl
  | ok u => exact same u (groupLiteral_flat done)

theorem resolve_last (last : cut.Last t) (count : Nat) :
    resolve target (count + 1) t =
      groupLiteral target cut.inner >>= fun u => resolve target count (cut.fill u) := by
  rw [resolve, last.last?, groupLiteral]
  simp [Cut.fill]

theorem resolve_eq_flatten (balanced : Balanced t) {count : Nat}
    (enough : opens false t ≤ count) : resolve target count t = flatten target t := by
  induction balanced using Balanced.last_induction generalizing count with
  | flat t flat => rw [flatten, resolve_noneOpen flat.none, resolve_noneOpen flat.none]
  | last t cut _ last ih =>
    have one : ∀ u, Flat u → opens false (cut.fill u) + 1 = opens false t := fun _ flat =>
      last.opens_fill flat
    have opened := one cut.inner last.inner
    obtain ⟨more, rfl⟩ := Nat.exists_eq_add_of_le' (show 1 ≤ count by omega)
    rw [flatten, ← opened, resolve_last last, resolve_last last]
    refine groupLiteral_bind fun u flat => ?_
    have same := one u flat
    rw [ih u flat (by omega), ih u flat (by omega)]

theorem flatten_flat (flat : Flat t) : flatten target t = .ok t :=
  resolve_noneOpen flat.none target _

theorem flatten_last (last : cut.Last t) :
    flatten target t = groupLiteral target cut.inner >>= fun u => flatten target (cut.fill u) := by
  have opened := last.opens_fill last.inner
  rw [flatten, ← opened, resolve_last last]
  refine groupLiteral_bind fun u flat => ?_
  have one := last.opens_fill flat
  exact resolve_eq_flatten (last.filled u flat) (by omega)

/-- Text without groups behind a text stays as it is. -/
theorem flatten_append_flat (balanced : Balanced t) (flat : Flat u) :
    flatten target (t ++ u) = (· ++ u) <$> flatten target t := by
  induction balanced using Balanced.last_induction with
  | flat t flatLeft => simp [flatten_flat flatLeft, flatten_flat (flatLeft.append flat)]
  | last t cut _ last ih =>
    rw [flatten_last last, flatten_last (last.append flat), map_bind]
    refine groupLiteral_bind fun w flatW => ?_
    simpa [Cut.fill] using ih w flatW

/-- Each part of a text is flattened on its own, the last part first. -/
theorem flatten_append (left : Balanced t) (right : Balanced u) :
    flatten target (t ++ u) = do
      let flatRight ← flatten target u
      let flatLeft ← flatten target t
      return flatLeft ++ flatRight := by
  induction right using Balanced.last_induction with
  | flat u flat =>
    rw [flatten_append_flat left flat, flatten_flat flat, map_eq_pure_bind]
    rfl
  | last u cut _ last ih =>
    rw [flatten_last last, flatten_last (last.prepend left left.paired), bind_assoc]
    refine groupLiteral_bind fun w flatW => ?_
    simpa [Cut.fill] using ih w flatW

/-- Parts with text between them that has no groups. -/
theorem flatten_between {middle : Text} (left : Balanced t) (flat : Flat middle)
    (right : Balanced u) :
    flatten target (t ++ middle ++ u) = do
      let flatRight ← flatten target u
      let flatLeft ← flatten target t
      return flatLeft ++ middle ++ flatRight := by
  rw [flatten_append (left.append (.flat flat)) right, flatten_append_flat left flat]
  simp

/-- Text without groups around a text stays as it is. -/
theorem flatten_pad {before after : Text} (flatBefore : Flat before) (balanced : Balanced t)
    (flatAfter : Flat after) :
    flatten target (before ++ t ++ after) = (before ++ · ++ after) <$> flatten target t := by
  rw [flatten_append_flat ((Balanced.flat flatBefore).append balanced) flatAfter,
    flatten_append (.flat flatBefore) balanced, flatten_flat flatBefore]
  cases flatten target t <;> rfl

/-- A group is worth what its flattened contents are worth. -/
theorem flatten_group (balanced : Balanced t) :
    flatten target ('(' :: t ++ [')']) = flatten target t >>= groupLiteral target := by
  induction balanced using Balanced.last_induction with
  | flat t flat =>
    rw [flatten_last (.alone flat), flatten_flat flat]
    refine (groupLiteral_bind fun w flatW => ?_).trans (bind_pure _)
    rw [show Cut.fill ⟨[], t, []⟩ w = w by simp [Cut.fill]]
    exact flatten_flat flatW
  | last t cut _ last ih =>
    rw [flatten_last last, flatten_last last.enclose, bind_assoc]
    refine groupLiteral_bind fun w flatW => ?_
    simpa [Cut.fill] using ih w flatW

theorem flatten_paddedGroup {before after : Text} (balanced : Balanced t)
    (gapsBefore : before.Gaps) (gapsAfter : after.Gaps) :
    flatten target ('(' :: (before ++ t ++ after) ++ [')']) =
      flatten target t >>= fun u => groupLiteral target (before ++ u ++ after) := by
  rw [flatten_group (balanced.pad gapsBefore gapsAfter),
    flatten_pad gapsBefore.flat balanced gapsAfter.flat, bind_map_left]

/-- A balanced text is worth what it is worth flattened, whatever blanks stand around it. -/
theorem evaluateText_padded {before after : Text} (balanced : Balanced t) (bare : t.Bare)
    (blankBefore : ∀ c ∈ before, isBlank c = true) (blankAfter : ∀ c ∈ after, isBlank c = true)
    (kind : Kind) :
    evaluateText kind (before ++ t ++ after) = flatten kind t >>= evaluateFlat kind := by
  simp only [evaluateText, bare.trim_pad blankBefore blankAfter,
    Quoted.check_ok.mpr balanced.paired, balanced.check,
    resolve_eq_flatten balanced (opens_le_count false t)]
  rfl

end Expr
end StepScript
