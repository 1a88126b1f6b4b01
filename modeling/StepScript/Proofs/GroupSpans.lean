import Mathlib.Combinatorics.Enumerative.DyckWord
import StepScript.Proofs.Offsets

/-! The spans of groups. Where quotes are paired, the parentheses outside literals have spans if and
only if they are a Dyck word. The spans are then the groups of the text in the order in which they
are opened: each pairs two parentheses, each parenthesis is in one of them, two of them are apart or
one within the other, and what a group holds is matched as well. -/
namespace StepScript

namespace Group

open DyckStep

variable {inside : Bool} {pos : Nat} {stack : List Nat} {t u before inner after : Text} {c : Char}
  {found closed strings : List Span}

section Words

/-- The parentheses outside literals. -/
def steps (inside : Bool) : Text → List DyckStep
  | [] => []
  | c :: t =>
    let next := steps (Quoted.step inside c) t
    if inside then next
    else if c = '(' then U :: next
    else if c = ')' then D :: next
    else next

/-- The parentheses outside literals are a Dyck word. -/
def Matched (t : Text) : Prop :=
  ∃ word : DyckWord, word.toList = steps false t

theorem steps_append (inside : Bool) (t u : Text) :
    steps inside (t ++ u) = steps inside t ++ steps (Quoted.after inside t) u := by
  induction t generalizing inside with
  | nil => rfl
  | cons c t ih =>
    simp only [List.cons_append, steps, ih, Quoted.after_cons]
    split
    · rfl
    · split
      · rfl
      · split
        · rfl
        · rfl

theorem steps_of_noneOpen (none : NoneOpen inside t) : steps inside t = [] := by
  induction t generalizing inside with
  | nil => rfl
  | cons c t ih =>
    obtain ⟨here, rest⟩ := none
    rw [steps, ih rest]
    rcases here with rfl | ⟨opening, closing⟩
    · rfl
    · simp [opening, closing]

theorem Balanced.matched (balanced : Balanced t) : Matched t := by
  induction balanced with
  | flat flat => exact ⟨0, (steps_of_noneOpen flat.none).symm⟩
  | @append t u left right ihLeft ihRight =>
    obtain ⟨first, same⟩ := ihLeft
    obtain ⟨second, sameOn⟩ := ihRight
    refine ⟨first + second, ?_⟩
    rw [steps_append, show Quoted.after false t = false from left.paired, ← same, ← sameOn]
    rfl
  | @group t inner ih =>
    obtain ⟨word, same⟩ := ih
    refine ⟨word.nest, ?_⟩
    have opened : steps false ('(' :: t ++ [')']) = U :: steps false (t ++ [')']) := rfl
    rw [opened, steps_append, show Quoted.after false t = false from inner.paired, ← same]
    rfl

/-- With `count` groups open, no part of the word closes more groups than are open, and at its end
all of them are closed. -/
structure Finishes (count : Nat) (word : List DyckStep) : Prop where
  parts : ∀ length, (word.take length).count D ≤ count + (word.take length).count U
  whole : word.count D = count + word.count U

theorem Finishes.tail_open {count : Nat} {word : List DyckStep}
    (finishes : Finishes count (U :: word)) : Finishes (count + 1) word := by
  constructor
  · intro length
    have next := finishes.parts (length + 1)
    rw [List.take_succ_cons, List.count_cons_of_ne (by decide), List.count_cons_self] at next
    omega
  · have whole := finishes.whole
    rw [List.count_cons_of_ne (by decide), List.count_cons_self] at whole
    omega

theorem Finishes.tail_close {count : Nat} {word : List DyckStep}
    (finishes : Finishes (count + 1) (D :: word)) : Finishes count word := by
  constructor
  · intro length
    have next := finishes.parts (length + 1)
    rw [List.take_succ_cons, List.count_cons_self, List.count_cons_of_ne (by decide)] at next
    omega
  · have whole := finishes.whole
    rw [List.count_cons_self, List.count_cons_of_ne (by decide)] at whole
    omega

theorem not_finishes_zero (word : List DyckStep) : ¬ Finishes 0 (D :: word) := fun finishes => by
  simpa using finishes.parts 1

/-- The scan succeeds on a text that closes all groups that are open. -/
theorem exists_spansFrom (finishes : Finishes stack.length (steps inside t)) (pos : Nat) :
    ∃ found, spansFrom pos inside stack t = some found := by
  induction t generalizing inside stack pos with
  | nil =>
    cases stack with
    | nil => exact ⟨[], rfl⟩
    | cons opening outer => simpa [steps] using finishes.whole
  | cons c t ih =>
    rw [steps] at finishes
    rw [spansFrom.eq_def]
    dsimp only
    by_cases literal : inside = true
    · simp only [literal, if_true] at finishes ⊢
      exact ih finishes _
    · rw [Bool.not_eq_true] at literal
      subst literal
      by_cases opening : c = '('
      · subst opening
        simp only [Bool.false_eq_true, if_false, if_true] at finishes
        exact @ih _ (pos :: stack) finishes.tail_open _
      · by_cases closing : c = ')'
        · subst closing
          simp only [Bool.false_eq_true, if_false, if_true, opening] at finishes
          cases stack with
          | nil => exact absurd finishes (not_finishes_zero _)
          | cons opened outer =>
            obtain ⟨found, scanned⟩ := ih finishes.tail_close (pos + ')'.utf8Size)
            refine ⟨⟨opened, pos⟩ :: found, ?_⟩
            change (⟨opened, pos⟩ :: ·) <$> spansFrom _ _ outer t = _
            rw [scanned]
            rfl
        · simp only [Bool.false_eq_true, if_false, opening, closing, beq_iff_eq] at finishes ⊢
          exact ih finishes _

theorem Matched.spans (matched : Matched t) : ∃ found, Group.spans t = .ok found := by
  obtain ⟨word, same⟩ := matched
  have finishes : Finishes 0 (steps false t) := by
    rw [← same]
    constructor
    · intro length
      rw [Nat.zero_add]
      exact word.count_D_le_count_U length
    · rw [Nat.zero_add, word.count_U_eq_count_D]
  obtain ⟨closed, scanned⟩ := @exists_spansFrom false [] t finishes 0
  exact ⟨_, by rw [Group.spans, scanned]⟩

end Words

section Order

theorem Groups.balanced (groups : Groups pos t found) : Balanced t := by
  induction groups with
  | flat flat => exact .flat flat
  | append _ _ left right => exact left.append right
  | group _ ih => exact ih.group

/-- A group lies within the text. -/
theorem Groups.within (groups : Groups pos t found) :
    ∀ span ∈ found, span.opening < span.closing ∧ span.closing < pos + t.width := by
  induction groups with
  | flat => exact List.forall_mem_nil _
  | @append pos t u _ _ _ _ left right =>
    rw [Text.width_append]
    refine List.forall_mem_append.mpr ⟨fun span member => ?_, fun span member => ?_⟩
    · obtain ⟨forwards, before⟩ := left span member
      exact ⟨forwards, by omega⟩
    · obtain ⟨forwards, before⟩ := right span member
      exact ⟨forwards, by omega⟩
  | @group pos t _ _ ih =>
    have first := '('.utf8Size_pos
    have last := ')'.utf8Size_pos
    have size : Text.width ('(' :: t ++ [')']) = '('.utf8Size + (t.width + ')'.utf8Size) := by
      simp [Text.width, Text.width_append]
    rw [size]
    refine List.forall_mem_cons.mpr ⟨⟨?_, ?_⟩, fun span member => ?_⟩
    · change pos < pos + '('.utf8Size + t.width
      omega
    · change pos + '('.utf8Size + t.width < _
      omega
    · obtain ⟨forwards, before⟩ := ih span member
      exact ⟨forwards, by omega⟩

theorem Groups.ascends (groups : Groups pos t found) : Ascends Span.opening found := by
  induction groups with
  | flat => exact .nil
  | append left right ihLeft ihRight =>
    refine List.pairwise_append.mpr ⟨ihLeft, ihRight, fun a memberA b memberB => ?_⟩
    obtain ⟨forwards, before⟩ := left.within a memberA
    exact (forwards.trans before).trans_le (right.above b memberB)
  | @group pos t _ inner ih =>
    refine List.pairwise_cons.mpr ⟨fun span member => ?_, ih⟩
    have positive := '('.utf8Size_pos
    have above := inner.above span member
    change pos < span.opening
    omega

/-- A group that is opened after another one is closed after it is, or within it. -/
theorem Groups.apart (groups : Groups pos t found) :
    found.Pairwise fun a b => a.closing < b.opening ∨ b.closing < a.closing := by
  induction groups with
  | flat => exact .nil
  | append left right ihLeft ihRight =>
    refine List.pairwise_append.mpr ⟨ihLeft, ihRight, fun a memberA b memberB => .inl ?_⟩
    exact (left.within a memberA).2.trans_le (right.above b memberB)
  | group inner ih =>
    exact List.pairwise_cons.mpr ⟨fun span member => .inr (inner.within span member).2, ih⟩

theorem Groups.spans (groups : Groups 0 t found) : Group.spans t = .ok found := by
  obtain ⟨closed, perm, passed⟩ := groups.spansFrom_append
  have scanned := passed [] []
  rw [List.append_nil] at scanned
  have distinct : (closed.map Span.opening).Nodup :=
    (perm.map Span.opening).nodup_iff.mpr groups.ascends.keys_nodup
  have arranged : arrange (fun a b => a.opening ≤ b.opening) closed = found :=
    (ascends_arrange distinct).eq_of_perm groups.ascends ((arrange_perm _ _).trans perm)
  rw [Group.spans, scanned]
  refine congrArg Except.ok ?_
  rw [← arranged]
  exact congrArg _ (List.append_nil closed)

/-- The spans of a text with paired quotes are its groups in the order in which they are opened. -/
theorem spans_eq_ok_iff (paired : t.Paired) : Group.spans t = .ok found ↔ Groups 0 t found := by
  constructor
  · intro done
    have matched : check t = .ok () := by rw [check, done]; rfl
    obtain ⟨others, groups⟩ := (balanced_of_check matched paired).groups 0
    cases done.symm.trans groups.spans
    exact groups
  · intro groups
    exact groups.spans

end Order

section Parts

/-- Each group is cut out around what it holds, which is balanced. -/
theorem Groups.cut (groups : Groups pos t found) :
    ∀ span ∈ found, ∃ before inner after, t = before ++ ('(' :: inner ++ [')']) ++ after ∧
      before.Paired ∧ Balanced inner ∧
        span = ⟨pos + before.width, pos + before.width + '('.utf8Size + Text.width inner⟩ := by
  induction groups with
  | flat => exact List.forall_mem_nil _
  | @append pos t u _ _ left right ihLeft ihRight =>
    refine List.forall_mem_append.mpr ⟨fun span member => ?_, fun span member => ?_⟩
    · obtain ⟨before, inner, after, rfl, paired, balanced, rfl⟩ := ihLeft span member
      exact ⟨before, inner, after ++ u, by simp, paired, balanced, rfl⟩
    · obtain ⟨before, inner, after, rfl, paired, balanced, rfl⟩ := ihRight span member
      refine ⟨t ++ before, inner, after, by simp, ?_, balanced, ?_⟩
      · rw [Text.Paired, Quoted.after_append, show Quoted.after false t = false from
          left.balanced.paired]
        exact paired
      · rw [Text.width_append, Nat.add_assoc]
  | @group pos t _ inner ih =>
    refine List.forall_mem_cons.mpr ⟨?_, fun span member => ?_⟩
    · exact ⟨[], t, [], by simp, rfl, inner.balanced, rfl⟩
    · obtain ⟨before, held, after, rfl, paired, balanced, rfl⟩ := ih span member
      refine ⟨'(' :: before, held, after ++ [')'], by simp, paired, balanced, ?_⟩
      rw [Text.width, Nat.add_assoc pos]

/-- Each parenthesis outside literals opens or closes one of the groups. -/
theorem Groups.exists_of_paren (groups : Groups pos t found) (paren : c = '(' ∨ c = ')')
    (whole : t = before ++ c :: after) (outside : before.Paired) :
    ∃ span ∈ found, pos + before.width = span.opening ∨ pos + before.width = span.closing := by
  induction groups generalizing before after with
  | flat flat =>
    have none := flat.none
    rw [whole, noneOpen_append, show Quoted.after false before = false from outside] at none
    have other := none.2.1.resolve_left Bool.false_ne_true
    rcases paren with rfl | rfl
    · exact absurd rfl other.1
    · exact absurd rfl other.2
  | @append pos t u _ _ left right ihLeft ihRight =>
    rcases Text.cut_append whole with ⟨rest, first⟩ | ⟨front, rfl, second⟩
    · obtain ⟨span, member, ends⟩ := ihLeft first outside
      exact ⟨span, List.mem_append_left _ member, ends⟩
    · rw [Text.Paired, Quoted.after_append, show Quoted.after false t = false from
        left.balanced.paired] at outside
      obtain ⟨span, member, ends⟩ := ihRight second outside
      rw [Text.width_append, ← Nat.add_assoc]
      exact ⟨span, List.mem_append_right _ member, ends⟩
  | @group pos t _ inner ih =>
    cases before with
    | nil => exact ⟨_, List.mem_cons_self, .inl rfl⟩
    | cons d before =>
      obtain ⟨rfl, rest⟩ := List.cons.inj whole
      rw [Text.width, ← Nat.add_assoc]
      rcases Text.cut_append rest with ⟨more, held⟩ | ⟨front, rfl, last⟩
      · obtain ⟨span, member, ends⟩ := ih held outside
        exact ⟨span, List.mem_cons_of_mem _ member, ends⟩
      · cases front with
        | nil => exact ⟨_, List.mem_cons_self, .inr (by simp)⟩
        | cons e front => simp at last

end Parts

/-- One of the two ends before the other begins, or lies within it. -/
def DisjointOrNested (a b : Span) : Prop :=
  a.closing < b.opening ∨ b.closing < a.opening ∨
    a.opening < b.opening ∧ b.closing < a.closing ∨ b.opening < a.opening ∧ a.closing < b.closing

instance : Std.Symm DisjointOrNested where
  symm a b apart := by
    unfold DisjointOrNested at apart ⊢
    omega

/-- A parenthesis outside the literals stands at this offset. -/
structure Stands (t : Text) (strings : List Span) (c : Char) (pos : Nat) : Prop where
  paren : c = '(' ∨ c = ')'
  here : t.At pos [c]
  outside : Quoted.covers strings pos = false

/-- The spans are the only matching of the parentheses of the text outside its literals. -/
structure Matching (t : Text) (strings found : List Span) : Prop where
  ascends : Ascends Span.opening found
  pairs : ∀ span ∈ found, span.opening < span.closing ∧
    Stands t strings '(' span.opening ∧ Stands t strings ')' span.closing
  once : ∀ c pos, Stands t strings c pos →
    ∃! span, span ∈ found ∧ (pos = span.opening ∨ pos = span.closing)
  apart : ∀ a ∈ found, ∀ b ∈ found, a ≠ b → DisjointOrNested a b
  inner : ∀ span ∈ found, ∃ inner, t.At (span.opening + 1) inner ∧
    span.closing = span.opening + 1 + inner.width ∧ inner.Paired ∧ Matched inner
  last : ∀ span ∈ found, (∀ other ∈ found, other.opening ≤ span.opening) →
    ∀ c pos, Stands t strings c pos → ¬ (span.opening < pos ∧ pos < span.closing)

section Matching

theorem stands_of_paired (quoted : Quoted.spans t = .ok strings) (paren : c = '(' ∨ c = ')')
    (whole : t = before ++ c :: after) (outside : before.Paired) :
    Stands t strings c before.width := by
  have other : c ≠ '"' := by rcases paren with rfl | rfl <;> decide
  subst whole
  refine ⟨paren, ⟨before, after, by simp, rfl⟩, ?_⟩
  rw [Quoted.covers_eq_after quoted other]
  exact outside

theorem Stands.paired (quoted : Quoted.spans t = .ok strings) (stands : Stands t strings c pos) :
    ∃ before after, t = before ++ c :: after ∧ before.width = pos ∧ before.Paired := by
  obtain ⟨paren, ⟨before, after, whole, rfl⟩, outside⟩ := stands
  have other : c ≠ '"' := by rcases paren with rfl | rfl <;> decide
  rw [List.append_assoc, List.singleton_append] at whole
  subst whole
  rw [Quoted.covers_eq_after quoted other] at outside
  exact ⟨before, after, rfl, rfl, outside⟩

variable (groups : Groups 0 t found)

include groups

theorem Groups.disjointOrNested : ∀ a ∈ found, ∀ b ∈ found, a ≠ b → DisjointOrNested a b := by
  intro a memberA b memberB differ
  refine ((groups.ascends.and groups.apart).imp ?_).forall memberA memberB differ
  rintro a b ⟨less, before | within⟩
  · exact .inl before
  · exact .inr (.inr (.inl ⟨less, within⟩))

theorem Groups.matching (quoted : Quoted.spans t = .ok strings) : Matching t strings found := by
  have within := groups.within
  have apart := groups.disjointOrNested
  have once : ∀ c pos, Stands t strings c pos →
      ∃ span ∈ found, pos = span.opening ∨ pos = span.closing := by
    intro c pos stands
    obtain ⟨before, after, whole, rfl, outside⟩ := stands.paired quoted
    simpa using groups.exists_of_paren stands.paren whole outside
  refine ⟨groups.ascends, fun span member => ⟨(within span member).1, ?_, ?_⟩, ?_, apart, ?_, ?_⟩
  · obtain ⟨before, inner, after, whole, paired, _, rfl⟩ := groups.cut span member
    rw [Nat.zero_add]
    have shape : t = before ++ '(' :: (inner ++ ')' :: after) := by simp [whole]
    exact stands_of_paired quoted (.inl rfl) shape paired
  · obtain ⟨before, inner, after, whole, paired, balanced, rfl⟩ := groups.cut span member
    have outside : Text.Paired (before ++ '(' :: inner) := by
      rw [Text.Paired, Quoted.after_append, show Quoted.after false before = false from paired]
      exact balanced.paired
    have shape : t = before ++ '(' :: inner ++ ')' :: after := by simp [whole]
    have stands := stands_of_paired quoted (.inr rfl) shape outside
    simpa [Text.width_append, Text.width, Nat.add_assoc] using stands
  · intro c pos stands
    obtain ⟨span, member, ends⟩ := once c pos stands
    refine ⟨span, ⟨member, ends⟩, ?_⟩
    rintro other ⟨memberOther, endsOther⟩
    by_contra differ
    have far := apart other memberOther span member differ
    unfold DisjointOrNested at far
    have forwards := (within span member).1
    have forwardsOther := (within other memberOther).1
    omega
  · intro span member
    obtain ⟨before, inner, after, whole, _, balanced, rfl⟩ := groups.cut span member
    refine ⟨inner, ⟨before ++ ['('], ')' :: after, by simp [whole], ?_⟩, rfl, balanced.paired,
      balanced.matched⟩
    rw [Text.width_append, Nat.zero_add]
    rfl
  · rintro span member greatest c pos stands ⟨after, before⟩
    obtain ⟨other, memberOther, ends⟩ := once c pos stands
    have differ : other ≠ span := by
      rintro rfl
      omega
    have far := apart other memberOther span member differ
    unfold DisjointOrNested at far
    have early := greatest other memberOther
    have forwards := (within other memberOther).1
    omega

end Matching

section Unique

variable {other : List Span} {held : Text}

/-- A text goes on behind a balanced one without closing a group of its own. -/
theorem Matched.not_closed (matched : Matched inner) (paired : inner.Paired) (rest : Text) :
    ¬ Matched (inner ++ ')' :: rest) := by
  obtain ⟨word, same⟩ := matched
  rintro ⟨longer, whole⟩
  have split : longer.toList = word.toList ++ D :: steps false rest := by
    rw [whole, steps_append, show Quoted.after false inner = false from paired, same]
    rfl
  have part : longer.toList.take (word.toList.length + 1) = word.toList ++ [D] := by
    rw [split, List.take_append]
    simp
  have enough := longer.count_D_le_count_U (word.toList.length + 1)
  rw [part, List.count_append, List.count_append, ← word.count_U_eq_count_D] at enough
  simp at enough

/-- What a parenthesis opens ends no later than with the first balanced text before a closing
one. -/
theorem width_le_of_matched (here : t.At pos inner) (closes : t.At (pos + inner.width) [')'])
    (matched : Matched inner) (paired : inner.Paired) (there : t.At pos held)
    (matchedHeld : Matched held) : held.width ≤ inner.width := by
  obtain ⟨before, after, whole, rfl⟩ := here
  obtain ⟨front, rest, closed, width⟩ := closes
  obtain ⟨start, behind, opened, same⟩ := there
  obtain ⟨rfl, last⟩ : before ++ inner = front ∧ after = ')' :: rest := by
    refine Text.eq_of_width ?_ (by rw [Text.width_append, width])
    rw [← whole, closed, List.append_assoc]
    rfl
  obtain ⟨rfl, parts⟩ : before = start ∧ inner ++ after = held ++ behind := by
    refine Text.eq_of_width ?_ same.symm
    rw [← List.append_assoc, ← List.append_assoc, ← whole, opened]
  rcases List.append_eq_append_iff.mp parts with ⟨more, longer, ends⟩ | ⟨more, shorter, _⟩
  · cases more with
    | nil => rw [longer, List.append_nil]
    | cons c more =>
      rw [last] at ends
      obtain ⟨rfl, _⟩ := List.cons.inj ends
      rw [longer] at matchedHeld
      exact absurd matchedHeld (matched.not_closed paired more)
  · rw [shorter, Text.width_append]
    exact Nat.le_add_right _ _

/-- What is in a matching is in any other one. -/
theorem Matching.subset (left : Matching t strings found) (right : Matching t strings other) :
    ∀ span ∈ found, span ∈ other := by
  intro span member
  obtain ⟨_, opens, closes⟩ := left.pairs span member
  obtain ⟨partner, ⟨memberOther, ends⟩, _⟩ := right.once _ _ opens
  obtain ⟨_, _, closesOther⟩ := right.pairs partner memberOther
  have opening : span.opening = partner.opening := by
    refine ends.resolve_right fun closing => ?_
    rw [← closing] at closesOther
    cases opens.here.unique closesOther.here rfl
  obtain ⟨inner, here, width, paired, matched⟩ := left.inner span member
  obtain ⟨held, there, widthHeld, pairedHeld, matchedHeld⟩ := right.inner partner memberOther
  rw [← opening] at there widthHeld
  have closesHere := closes.here
  have closesThere := closesOther.here
  rw [width] at closesHere
  rw [widthHeld] at closesThere
  have least := width_le_of_matched here closesHere matched paired there matchedHeld
  have most := width_le_of_matched there closesThere matchedHeld pairedHeld here matched
  have closing : span.closing = partner.closing := by omega
  obtain ⟨_, _⟩ := span
  obtain ⟨_, _⟩ := partner
  cases opening
  cases closing
  exact memberOther

theorem Matching.unique (left : Matching t strings found) (right : Matching t strings other) :
    found = other := by
  have distinct := left.ascends.keys_nodup.of_map
  have distinctOther := right.ascends.keys_nodup.of_map
  refine left.ascends.eq_of_perm right.ascends ?_
  refine (List.perm_ext_iff_of_nodup distinct distinctOther).mpr fun span => ?_
  exact ⟨left.subset right span, right.subset left span⟩

end Unique
end Group

open StepScript.Group in
/-- The groups of a text whose quotes are paired. Their spans are found if and only if the
parentheses outside literals are balanced, and they are then the only matching of these parentheses:
in ascending order of their openings, each from an opening parenthesis to a later closing one, every
parenthesis outside literals in exactly one of them, any two of them disjoint or nested, the text
within each of them balanced, and no parenthesis within the one that is opened last. -/
theorem group_spans_are_the_matching {t : Text} {strings : List Span}
    (quoted : Quoted.spans t = .ok strings) :
    ((∃ found, Group.spans t = .ok found) ↔ Matched t) ∧
      ∀ found, Group.spans t = .ok found →
        Matching t strings found ∧ ∀ other, Matching t strings other → other = found := by
  have paired : t.Paired := (Quoted.spansFrom_ok 0 none t).mp ⟨strings, quoted⟩
  refine ⟨⟨?_, Matched.spans⟩, fun found done => ?_⟩
  · rintro ⟨found, done⟩
    exact ((spans_eq_ok_iff paired).mp done).balanced.matched
  · have matching := ((spans_eq_ok_iff paired).mp done).matching quoted
    exact ⟨matching, fun other matchingToo => matchingToo.unique matching⟩

open StepScript.Group in
/-- A group within a group, and a parenthesis within a literal, which belongs to none. -/
theorem parenthesis_of_literal_is_skipped :
    let t := "(1 + (2)) * \"(\"".toList
    Quoted.spans t = .ok [⟨12, 14⟩] ∧ Group.spans t = .ok [⟨0, 8⟩, ⟨5, 7⟩] ∧
      Matching t [⟨12, 14⟩] [⟨0, 8⟩, ⟨5, 7⟩] := by
  intro t
  have quoted : Quoted.spans t = .ok [⟨12, 14⟩] := by decide
  have done : Group.spans t = .ok [⟨0, 8⟩, ⟨5, 7⟩] := by decide
  obtain ⟨_, matching⟩ := group_spans_are_the_matching quoted
  exact ⟨quoted, done, (matching _ done).1⟩

end StepScript
