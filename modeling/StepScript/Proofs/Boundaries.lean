import StepScript.Proofs.Offsets

/-! The encoding of a text, and where it can be cut. An offset is a boundary if it stands between
two characters of the encoded text or at one of its ends, and a slice is what stands between two
boundaries. A character of one byte stands exactly where its byte does, since the bytes of all
others are 128 or more. -/
namespace StepScript

namespace Text

variable {t u before after word : Text} {pos start stop : Nat} {c d : Char} {b : UInt8}

section Bytes

/-- The UTF-8 encoding. -/
def bytes (t : Text) : List UInt8 :=
  t.flatMap String.utf8EncodeChar

theorem bytes_cons (c : Char) (t : Text) :
    bytes (c :: t) = String.utf8EncodeChar c ++ bytes t :=
  List.flatMap_cons

theorem bytes_append (t u : Text) : bytes (t ++ u) = bytes t ++ bytes u :=
  List.flatMap_append

theorem length_bytes (t : Text) : t.bytes.length = t.width := by
  induction t with
  | nil => rfl
  | cons c t ih => rw [bytes_cons, List.length_append, String.length_utf8EncodeChar, ih, width]

/-- The character is encoded as one byte. -/
def IsAscii (c : Char) : Prop :=
  c.utf8Size = 1

instance (c : Char) : Decidable (IsAscii c) :=
  inferInstanceAs (Decidable (_ = _))

theorem IsAscii.bytes_cons (ascii : IsAscii c) (t : Text) :
    bytes (c :: t) = c.toUInt8 :: bytes t := by
  rw [Text.bytes_cons, String.utf8EncodeChar_eq_singleton ascii]
  rfl

theorem IsAscii.toNat_toUInt8 (ascii : IsAscii c) : c.toUInt8.toNat = c.val.toNat := by
  have small : c.val.toNat ≤ 127 := Char.utf8Size_eq_one_iff.mp ascii
  rw [Char.toUInt8, UInt32.toNat_toUInt8]
  omega

theorem IsAscii.toUInt8_eq_iff (asciiC : IsAscii c) (asciiD : IsAscii d) :
    c.toUInt8 = d.toUInt8 ↔ c = d := by
  refine ⟨fun same => ?_, congrArg Char.toUInt8⟩
  have values := congrArg UInt8.toNat same
  rw [asciiC.toNat_toUInt8, asciiD.toNat_toUInt8] at values
  exact Char.ext (UInt32.toNat_inj.mp values)

theorem IsAscii.ne_of_wide (ascii : IsAscii c) (wide : 128 ≤ b) : b ≠ c.toUInt8 := by
  rintro rfl
  have small : c.val.toNat ≤ 127 := Char.utf8Size_eq_one_iff.mp ascii
  rw [UInt8.le_iff_toNat_le, ascii.toNat_toUInt8] at wide
  exact absurd (wide.trans small) (by decide)

theorem wide_of_not_isAscii (other : ¬ IsAscii c) : ∀ b ∈ String.utf8EncodeChar c, 128 ≤ b := by
  have large : ¬ c.val.toNat ≤ 127 := fun small => other (Char.utf8Size_eq_one_iff.mpr small)
  intro b member
  rw [String.utf8EncodeChar] at member
  simp only [large, if_false] at member
  -- Every byte is a sum with 128 or with more.
  split at member
  · simp only [List.mem_cons, List.not_mem_nil, or_false] at member
    rcases member with rfl | rfl <;> (rw [UInt8.le_iff_toNat_le]; simp; omega)
  · split at member
    · simp only [List.mem_cons, List.not_mem_nil, or_false] at member
      rcases member with rfl | rfl | rfl <;> (rw [UInt8.le_iff_toNat_le]; simp; omega)
    · simp only [List.mem_cons, List.not_mem_nil, or_false] at member
      rcases member with rfl | rfl | rfl | rfl <;> (rw [UInt8.le_iff_toNat_le]; simp; omega)

/-- What passes over single bytes from 128 on passes over characters that are not ASCII. -/
theorem pass_wide {ρ : Type} (walk : Nat → List UInt8 → ρ)
    (pass : ∀ pos b bs, 128 ≤ b → walk pos (b :: bs) = walk (pos + 1) bs) (other : ¬ IsAscii c)
    (pos : Nat) (t : Text) : walk pos (bytes (c :: t)) = walk (pos + c.utf8Size) t.bytes := by
  have passes : ∀ wide : List UInt8, (∀ b ∈ wide, 128 ≤ b) → ∀ pos,
      walk pos (wide ++ t.bytes) = walk (pos + wide.length) t.bytes := by
    intro wide all
    induction wide with
    | nil => exact fun _ => rfl
    | cons b wide ih =>
      intro pos
      obtain ⟨here, later⟩ := List.forall_mem_cons.mp all
      rw [List.cons_append, pass pos b _ here, ih later, List.length_cons, Nat.add_assoc,
        Nat.add_comm 1]
  rw [Text.bytes_cons, passes _ (wide_of_not_isAscii other), String.length_utf8EncodeChar]

end Bytes

section Standing

theorem at_cons {e : Char} :
    At (c :: t) pos [e] ↔ pos = 0 ∧ c = e ∨ ∃ rest, pos = c.utf8Size + rest ∧ t.At rest [e] := by
  constructor
  · rintro ⟨before, after, same, rfl⟩
    rw [List.append_assoc] at same
    cases before with
    | nil => exact .inl ⟨rfl, (List.cons.inj same).1⟩
    | cons d before =>
      obtain ⟨rfl, rest⟩ := List.cons.inj same
      exact .inr ⟨width before, rfl, before, after, rest.trans (List.append_assoc _ _ _).symm, rfl⟩
  · rintro (⟨rfl, rfl⟩ | ⟨_, rfl, before, after, rfl, rfl⟩)
    · exact ⟨[], t, rfl, rfl⟩
    · exact ⟨c :: before, after, rfl, rfl⟩

end Standing

section Boundaries

/-- The offset is one at which a string with this encoding can be cut. -/
def IsBoundary (t : Text) (pos : Nat) : Prop :=
  String.Pos.Raw.IsValid (String.ofList t) ⟨pos⟩

theorem utf8ByteSize_ofList (t : Text) : (String.ofList t).utf8ByteSize = t.width := by
  rw [String.utf8ByteSize_ofList]
  induction t with
  | nil => rfl
  | cons c t ih => rw [String.utf8Len, ih, width, Nat.add_comm]

theorem isBoundary_iff :
    t.IsBoundary pos ↔ ∃ before after, t = before ++ after ∧ before.width = pos := by
  rw [IsBoundary, String.Pos.Raw.isValid_ofList]
  constructor
  · rintro ⟨count, same⟩
    rw [utf8ByteSize_ofList] at same
    exact ⟨t.take count, t.drop count, (List.take_append_drop count t).symm, same.symm⟩
  · rintro ⟨before, after, rfl, rfl⟩
    refine ⟨before.length, ?_⟩
    rw [List.take_left, utf8ByteSize_ofList]

theorem IsBoundary.le_width (boundary : t.IsBoundary pos) : pos ≤ t.width := by
  obtain ⟨before, after, rfl, rfl⟩ := isBoundary_iff.mp boundary
  rw [width_append]
  exact Nat.le_add_right _ _

/-- The text on both sides of an offset, if that is a boundary. -/
def cutAt? : Nat → Text → Option (Text × Text)
  | 0, t => some ([], t)
  | _ + 1, [] => none
  | pos + 1, c :: t =>
    if c.utf8Size ≤ pos + 1 then
      (cutAt? (pos + 1 - c.utf8Size) t).map fun (before, after) => (c :: before, after)
    else none

theorem cutAt?_eq_some_iff :
    cutAt? pos t = some (before, after) ↔ t = before ++ after ∧ before.width = pos := by
  have found : ∀ before after : Text, cutAt? before.width (before ++ after) =
      some (before, after) := by
    intro before after
    induction before with
    | nil => rw [width, List.nil_append, cutAt?]
    | cons c before ih =>
      have positive := c.utf8Size_pos
      obtain ⟨rest, same⟩ : ∃ rest, c.utf8Size + width before = rest + 1 :=
        Nat.exists_eq_succ_of_ne_zero (by omega)
      have left : rest + 1 - c.utf8Size = width before := by omega
      rw [width, same, List.cons_append, cutAt?, if_pos (by omega), left, ih]
      rfl
  constructor
  · intro cut
    induction t generalizing pos before with
    | nil =>
      cases pos with
      | zero =>
        cases cut
        exact ⟨rfl, rfl⟩
      | succ pos => cases cut
    | cons c t ih =>
      cases pos with
      | zero =>
        cases cut
        exact ⟨rfl, rfl⟩
      | succ pos =>
        rw [cutAt?] at cut
        split at cut
        · obtain ⟨⟨front, rest⟩, later, same⟩ := Option.map_eq_some_iff.mp cut
          cases same
          obtain ⟨rfl, size⟩ := ih later
          refine ⟨rfl, ?_⟩
          rw [width, size]
          omega
        · cases cut
  · rintro ⟨rfl, rfl⟩
    exact found before after

/-- The text between two offsets. There is none where one of them is no boundary, or the first of
them behind the second. -/
def slice? (t : Text) (start stop : Nat) : Option Text :=
  if start ≤ stop then
    (t.cutAt? start).bind fun cut => (cut.2.cutAt? (stop - start)).map Prod.fst
  else none

theorem slice?_eq_some_iff : t.slice? start stop = some u ↔
    ∃ before after, t = before ++ u ++ after ∧ before.width = start ∧ start + u.width = stop := by
  rw [slice?]
  constructor
  · intro cut
    split at cut
    · rename_i ordered
      obtain ⟨⟨before, rest⟩, first, cut⟩ := Option.bind_eq_some_iff.mp cut
      obtain ⟨⟨inner, after⟩, second, same⟩ := Option.map_eq_some_iff.mp cut
      cases same
      obtain ⟨rfl, rfl⟩ := cutAt?_eq_some_iff.mp first
      obtain ⟨split, size⟩ := cutAt?_eq_some_iff.mp second
      dsimp only at split size ⊢
      refine ⟨before, after, by rw [split, List.append_assoc], rfl, by omega⟩
    · cases cut
  · rintro ⟨before, after, rfl, rfl, rfl⟩
    have first : cutAt? before.width (before ++ u ++ after) = some (before, u ++ after) :=
      cutAt?_eq_some_iff.mpr ⟨List.append_assoc _ _ _, rfl⟩
    have second : cutAt? u.width (u ++ after) = some (u, after) :=
      cutAt?_eq_some_iff.mpr ⟨rfl, rfl⟩
    rw [if_pos (Nat.le_add_right _ _), Nat.add_sub_cancel_left, first, Option.bind_some, second]
    rfl

/-- There is a slice exactly between two boundaries in order. -/
theorem exists_slice?_iff : (∃ u, t.slice? start stop = some u) ↔
    start ≤ stop ∧ t.IsBoundary start ∧ t.IsBoundary stop := by
  simp only [slice?_eq_some_iff, isBoundary_iff]
  constructor
  · rintro ⟨u, before, after, rfl, rfl, rfl⟩
    exact ⟨Nat.le_add_right _ _, ⟨before, u ++ after, List.append_assoc _ _ _, rfl⟩,
      ⟨before ++ u, after, rfl, width_append _ _⟩⟩
  · rintro ⟨ordered, ⟨before, rest, rfl, rfl⟩, front, after, same, rfl⟩
    rcases List.append_eq_append_iff.mp same with ⟨u, rfl, rfl⟩ | ⟨extra, rfl, rfl⟩
    · exact ⟨u, before, after, (List.append_assoc _ _ _).symm, rfl, (width_append _ _).symm⟩
    · rw [width_append] at ordered ⊢
      exact ⟨[], front ++ extra, rest, by simp, width_append _ _, by
        rw [width]
        omega⟩

/-- The bytes of a slice are those between its ends. -/
theorem bytes_slice? (cut : t.slice? start stop = some u) :
    u.bytes = (t.bytes.drop start).take (stop - start) := by
  obtain ⟨before, after, rfl, rfl, rfl⟩ := slice?_eq_some_iff.mp cut
  rw [bytes_append, bytes_append, List.append_assoc, Nat.add_sub_cancel_left,
    ← length_bytes before, List.drop_left, ← length_bytes u, List.take_left]

theorem slice?_middle (before u after : Text) :
    slice? (before ++ u ++ after) before.width (before.width + u.width) = some u :=
  slice?_eq_some_iff.mpr ⟨before, after, rfl, rfl, rfl⟩

theorem slice?_front (u after : Text) : slice? (u ++ after) 0 u.width = some u :=
  slice?_eq_some_iff.mpr ⟨[], after, rfl, rfl, Nat.zero_add _⟩

theorem slice?_rest (before u : Text) :
    slice? (before ++ u) before.width (before ++ u).width = some u :=
  slice?_eq_some_iff.mpr ⟨before, [], (List.append_nil _).symm, rfl, (width_append _ _).symm⟩

end Boundaries
end Text
end StepScript
