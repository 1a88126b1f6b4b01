import StepScript.Proofs.Rounding

/-! Positional texts of numbers: digits with at most one point among them. What is written for a
double reads back as that double, with or without the point that its literal carries. -/
namespace StepScript

namespace Decimal

/-- Digits before and after the point; there is no point without digits after it. -/
def positional (whole fraction : Text) : Text :=
  if fraction.isEmpty then whole else whole ++ '.' :: fraction

/-- The number that such a text is worth. -/
def worth (whole fraction : Text) : Decimal :=
  ⟨Nat.ofDigitChars 10 (whole ++ fraction) 0, -fraction.length⟩

theorem ofDigitChars_append_zeros (digits : Text) (zeros : Nat) :
    Nat.ofDigitChars 10 (digits ++ List.replicate zeros '0') 0 =
      Nat.ofDigitChars 10 digits 0 * 10 ^ zeros := by
  rw [Nat.ofDigitChars_append, Nat.ofDigitChars_replicate_zero, Nat.mul_comm]

theorem takeWhile_digits {digits rest : Text} (all : ∀ c ∈ digits, c.isDigit = true)
    (stops : ∀ c ∈ rest.head?, c.isDigit = false) :
    (digits ++ rest).takeWhile Char.isDigit = digits ∧
      (digits ++ rest).dropWhile Char.isDigit = rest := by
  have ended : rest.takeWhile Char.isDigit = [] ∧ rest.dropWhile Char.isDigit = rest := by
    cases rest with
    | nil => simp
    | cons c rest => simp [stops c rfl]
  rw [List.takeWhile_append_of_pos all, List.dropWhile_append_of_pos all, ended.1, ended.2]
  simp

theorem read?_positional {whole fraction : Text} (nonempty : whole ≠ [])
    (digits : ∀ c ∈ whole ++ fraction, c.isDigit = true) :
    read? (positional whole fraction) = some (worth whole fraction) := by
  have wholeDigits : ∀ c ∈ whole, c.isDigit = true := fun c member =>
    digits c (List.mem_append_left _ member)
  have fractionDigits : ∀ c ∈ fraction, c.isDigit = true := fun c member =>
    digits c (List.mem_append_right _ member)
  have present : whole.isEmpty = false := by simpa using nonempty
  cases fraction with
  | nil =>
    have cut := takeWhile_digits wholeDigits (show ∀ c ∈ ([] : Text).head?, c.isDigit = false by simp)
    rw [List.append_nil] at cut
    simp [read?, positional, cut, present, readExponent?, worth]
  | cons digit fraction =>
    have cut := takeWhile_digits wholeDigits
      (show ∀ c ∈ ('.' :: digit :: fraction).head?, c.isDigit = false by
        rintro c ⟨⟩
        rfl)
    have rest := takeWhile_digits fractionDigits
      (show ∀ c ∈ ([] : Text).head?, c.isDigit = false by simp)
    rw [List.append_nil] at rest
    simp [read?, positional, cut, rest, present, readExponent?, worth]

theorem dropZeros_append (t : Text) :
    ∃ zeros, t = render.dropZeros t ++ List.replicate zeros '0' := by
  induction t with
  | nil => exact ⟨0, rfl⟩
  | cons c t ih =>
    obtain ⟨zeros, same⟩ := ih
    unfold render.dropZeros
    split
    · rename_i gone
      rw [gone, List.nil_append] at same
      split
      · rename_i zero
        exact ⟨zeros + 1, by rw [same, beq_iff_eq.mp zero]; rfl⟩
      · exact ⟨zeros, by rw [same]; rfl⟩
    · rename_i kept
      exact ⟨zeros, by rw [← kept, List.cons_append, ← same]⟩

theorem isDigit_toDigits {n : Nat} {c : Char} (member : c ∈ Nat.toDigits 10 n) :
    c.isDigit = true :=
  Nat.isDigit_of_mem_toDigits (by decide) (by decide) member

theorem isDigit_replicate {count : Nat} {c : Char} (member : c ∈ List.replicate count '0') :
    c.isDigit = true := by
  rw [(List.mem_replicate.mp member).2]
  rfl

/-- What is written for a decimal is positional, and if the exponent is not positive then up to
zeros at the end its digits are those of the coefficient. -/
theorem render_positional (d : Decimal) :
    ∃ whole fraction, whole ≠ [] ∧ (∀ c ∈ whole ++ fraction, c.isDigit = true) ∧
      d.render = positional whole fraction ∧
      ∀ places : Nat, d.exponent = -places → fraction.length ≤ places ∧
        (worth whole fraction).coefficient * 10 ^ (places - fraction.length) = d.coefficient := by
  obtain ⟨coefficient, exponent⟩ := d
  cases exponent with
  | ofNat zeros =>
    refine ⟨Nat.toDigits 10 coefficient ++ List.replicate zeros '0', [], ?_, ?_, rfl, ?_⟩
    · simp [Nat.toDigits_ne_nil]
    · intro c member
      rw [List.append_nil] at member
      rcases List.mem_append.mp member with digit | zero
      · exact isDigit_toDigits digit
      · exact isDigit_replicate zero
    · intro places same
      have none : zeros = 0 ∧ places = 0 := by
        simp only [Int.ofNat_eq_natCast] at same
        omega
      obtain ⟨rfl, rfl⟩ := none
      simp [worth, Nat.ofDigitChars_ten_toDigits]
  | negSucc k =>
    let digits := Nat.toDigits 10 coefficient
    let padded := List.replicate (k + 2 - digits.length) '0' ++ digits
    have long : k + 2 ≤ padded.length := by
      simp only [padded, List.length_append, List.length_replicate]
      omega
    have paddedDigits : ∀ c ∈ padded, c.isDigit = true := by
      intro c member
      rcases List.mem_append.mp member with zero | digit
      · exact isDigit_replicate zero
      · exact isDigit_toDigits digit
    have paddedWorth : Nat.ofDigitChars 10 padded 0 = coefficient := by
      simp only [padded, digits, Nat.ofDigitChars_append, Nat.ofDigitChars_replicate_zero,
        Nat.mul_zero, Nat.ofDigitChars_ten_toDigits]
    let whole := padded.take (padded.length - (k + 1))
    obtain ⟨zeros, tail⟩ := dropZeros_append (padded.drop (padded.length - (k + 1)))
    let fraction := render.dropZeros (padded.drop (padded.length - (k + 1)))
    have cut : whole ++ fraction ++ List.replicate zeros '0' = padded := by
      rw [List.append_assoc, ← tail, List.take_append_drop]
    have tailLength : fraction.length + zeros = k + 1 := by
      have lengths := congrArg List.length tail
      simp only [List.length_drop, List.length_append, List.length_replicate] at lengths
      simp only [fraction]
      omega
    refine ⟨whole, fraction, ?_, ?_, rfl, ?_⟩
    · intro empty
      have lengths := congrArg List.length empty
      simp only [whole, List.length_take, List.length_nil] at lengths
      omega
    · intro c member
      refine paddedDigits c ?_
      rw [← cut]
      exact List.mem_append_left _ member
    · intro places same
      have count : places = k + 1 := by
        simp only [Int.negSucc_eq] at same
        omega
      refine ⟨by omega, ?_⟩
      rw [show places - fraction.length = zeros by omega]
      change Nat.ofDigitChars 10 (whole ++ fraction) 0 * 10 ^ zeros = coefficient
      rw [← ofDigitChars_append_zeros, cut, paddedWorth]

/-- A decimal that is not below half a unit, and has no positive exponent, is rounded as a
fraction. -/
theorem code_eq_nearestCode {d : Decimal} {places : Nat} (exponent : d.exponent = -places)
    (large : 10 ^ places ≤ d.coefficient * Double.unitsPerOne) :
    d.code = Double.nearestCode d.coefficient (10 ^ places) := by
  obtain ⟨coefficient, _⟩ := d
  obtain rfl := exponent
  simp only at large
  have nonzero : coefficient ≠ 0 := by
    rintro rfl
    have positive : 0 < 10 ^ places := Nat.pow_pos (by decide)
    omega
  have logarithm : ¬ (coefficient.log2 : Int) + 3 * -places < -1100 := by
    obtain ⟨unitPlaces, many, units⟩ := Double.unitsPerOne_eq
    rw [units] at large
    have below : coefficient < 2 ^ (coefficient.log2 + 1) := Nat.lt_log2_self
    have chain : 2 ^ (3 * places) < 2 ^ (coefficient.log2 + 1 + unitPlaces) := by
      calc 2 ^ (3 * places) = 8 ^ places := by rw [Nat.pow_mul]
        _ ≤ 10 ^ places := Nat.pow_le_pow_left (by decide) places
        _ ≤ coefficient * 2 ^ unitPlaces := large
        _ < 2 ^ (coefficient.log2 + 1) * 2 ^ unitPlaces :=
          Nat.mul_lt_mul_of_pos_right below (Nat.two_pow_pos _)
        _ = 2 ^ (coefficient.log2 + 1 + unitPlaces) := (Nat.pow_add _ _ _).symm
    have exponents := (Nat.pow_lt_pow_iff_right (by decide : 1 < 2)).mp chain
    omega
  have small : ¬ (400 : Int) < -places := by omega
  simp only [code, if_neg nonzero, if_neg small, if_neg logarithm]
  cases places with
  | zero =>
    change Double.nearestCode (coefficient * Nat.pow 10 0) 1 = _
    rw [Nat.pow_eq, Nat.pow_zero, Nat.mul_one]
  | succ k => rfl

/-- A body with a minus sign before it if the number is negative. -/
def signed (negative : Bool) (body : Text) : Text :=
  if negative then '-' :: body else body

theorem toLower_of_isDigit {c : Char} (digit : c.isDigit = true) : c.toLower = c := by
  simp only [Char.isDigit, Bool.and_eq_true, decide_eq_true_eq] at digit
  unfold Char.toLower
  split
  · rename_i upper
    exact absurd (UInt32.le_trans upper.1 digit.2) (by decide)
  · rfl

theorem sameWord_of_isDigit {c first : Char} {rest word : Text} (digit : c.isDigit = true)
    (letter : first.toLower.isDigit = false) :
    Text.sameWord (c :: rest) (first :: word) = false := by
  have differ : c ≠ first.toLower := by
    rintro rfl
    rw [digit] at letter
    cases letter
  simp [Text.sameWord, Text.lower, toLower_of_isDigit digit, differ]

theorem unsigned_of_isDigit {c : Char} (digit : c.isDigit = true) : c ≠ '-' ∧ c ≠ '+' := by
  constructor
  · rintro rfl
    cases digit
  · rintro rfl
    cases digit

theorem mem_signed {c : Char} {body : Text} (negative : Bool) (other : c ≠ '-') :
    c ∈ signed negative body ↔ c ∈ body := by
  cases negative with
  | true => simp [signed, other]
  | false => rfl

theorem splitSign_signed {c : Char} {body : Text} (negative : Bool) (unsigned : c ≠ '-' ∧ c ≠ '+') :
    splitSign (signed negative (c :: body)) = (negative, c :: body) := by
  cases negative with
  | true => rfl
  | false => simp [signed, splitSign, unsigned]

end Decimal

namespace Double

open Decimal

variable {code : Nat} {text : Text}

/-- The text is positional and its number rounds to the code. -/
def Spells (text : Text) (code : Nat) : Prop :=
  ∃ whole fraction, whole ≠ [] ∧ (∀ c ∈ whole ++ fraction, c.isDigit = true) ∧
    text = positional whole fraction ∧ (worth whole fraction).code = code

theorem interval_worth (code : Nat) :
    (interval code).coefficient * unitsPerOne =
      unitsOfCode code * 10 ^ (1074 - shiftOfCode code) := by
  obtain ⟨places, many, units⟩ := unitsPerOne_eq
  have exponents : shiftOfCode code - places + places =
      shiftOfCode code + (places - shiftOfCode code) := by omega
  have powers : 2 ^ (shiftOfCode code - places) * 2 ^ places =
      2 ^ shiftOfCode code * 2 ^ (places - shiftOfCode code) := by
    rw [← Nat.pow_add, exponents, Nat.pow_add]
  simp only [interval, unitsOfCode, units, Nat.pow_eq, ← many]
  rw [show 10 = 2 * 5 by rfl, Nat.mul_pow]
  calc mantissaOfCode code *
        (2 ^ (shiftOfCode code - places) * 5 ^ (places - shiftOfCode code)) * 2 ^ places
      = mantissaOfCode code * (2 ^ (shiftOfCode code - places) * 2 ^ places) *
        5 ^ (places - shiftOfCode code) := by ring
    _ = mantissaOfCode code * 2 ^ shiftOfCode code *
        (2 ^ (places - shiftOfCode code) * 5 ^ (places - shiftOfCode code)) := by
      rw [powers]
      ring

theorem spells_exact (finite : code < infinityCode) : Spells (interval code).exact.render code := by
  obtain ⟨whole, fraction, nonempty, digits, text, value⟩ := render_positional (interval code).exact
  obtain ⟨short, value⟩ := value (1074 - shiftOfCode code) rfl
  refine ⟨whole, fraction, nonempty, digits, text, ?_⟩
  have total : (interval code).exact.coefficient * unitsPerOne = _ := interval_worth code
  generalize 1074 - shiftOfCode code = places at short value total
  -- The zeros that are left out at the end cancel from both sides.
  have worthUnits : (worth whole fraction).coefficient * unitsPerOne =
      unitsOfCode code * 10 ^ fraction.length := by
    have split : 10 ^ places = 10 ^ fraction.length * 10 ^ (places - fraction.length) := by
      rw [← Nat.pow_add, Nat.add_sub_of_le short]
    refine Nat.eq_of_mul_eq_mul_right
      (Nat.pow_pos (by decide) : 0 < 10 ^ (places - fraction.length)) ?_
    rw [Nat.mul_right_comm, value, total, split, Nat.mul_assoc]
  have rounded := nearestCode_exact (Nat.pow_pos (by decide)) finite worthUnits
  by_cases zero : (worth whole fraction).coefficient = 0
  · rw [zero, nearestCode_zero (Nat.pow_pos (by decide))] at rounded
    rw [Decimal.code, if_pos zero, rounded]
  · rw [← rounded]
    refine code_eq_nearestCode rfl ?_
    rw [worthUnits]
    refine Nat.le_mul_of_pos_left _ (Nat.pos_of_ne_zero ?_)
    rintro none
    rw [none, Nat.zero_mul] at worthUnits
    rcases Nat.mul_eq_zero.mp worthUnits with gone | gone
    · exact zero gone
    · exact unitsPerOne_pos.ne' gone

theorem spells_magnitude (finite : code < infinityCode) : Spells (renderMagnitude code) code := by
  unfold renderMagnitude
  dsimp only
  split
  · rename_i back
    obtain ⟨whole, fraction, nonempty, digits, text, _⟩ :=
      render_positional (interval code).shortest
    refine ⟨whole, fraction, nonempty, digits, text, ?_⟩
    simpa [readsBack, text, read?_positional nonempty digits] using back
  · exact spells_exact finite

/-- A point and a zero after digits alone change nothing. -/
theorem Spells.pointed (spells : Spells text code) (pointless : '.' ∉ text) :
    Spells (text ++ ['.', '0']) code := by
  obtain ⟨whole, fraction, nonempty, digits, rfl, rounds⟩ := spells
  have bare : fraction = [] := by
    cases fraction with
    | nil => rfl
    | cons c fraction => simp [positional] at pointless
  subst bare
  refine ⟨whole, ['0'], nonempty, ?_, rfl, ?_⟩
  · intro c member
    rcases List.mem_append.mp member with digit | zero
    · exact digits c (List.mem_append_left _ digit)
    · rw [List.mem_singleton.mp zero]
      rfl
  · have tenfold : (worth whole ['0']).coefficient = (worth whole []).coefficient * 10 := by
      have zeros := ofDigitChars_append_zeros whole 1
      simpa [worth] using zeros
    rw [← rounds]
    by_cases zero : (worth whole []).coefficient = 0
    · rw [Decimal.code, Decimal.code, if_pos zero, if_pos (by rw [tenfold, zero])]
    · have units := Nat.mul_pos (Nat.pos_of_ne_zero zero) unitsPerOne_pos
      have plain : (worth whole []).code = nearestCode (worth whole []).coefficient (10 ^ 0) :=
        code_eq_nearestCode rfl units
      have large : 10 ^ 1 ≤ (worth whole ['0']).coefficient * unitsPerOne := by
        rw [tenfold, Nat.mul_right_comm, Nat.pow_one]
        exact Nat.le_mul_of_pos_left 10 units
      have pointed : (worth whole ['0']).code =
          nearestCode (worth whole ['0']).coefficient (10 ^ 1) := code_eq_nearestCode rfl large
      rw [plain, pointed, tenfold, Nat.pow_succ, nearestCode_scale (by decide)]

theorem Spells.char {c : Char} (spells : Spells text code) (member : c ∈ text) :
    c.isDigit = true ∨ c = '.' := by
  obtain ⟨whole, fraction, _, digits, rfl, _⟩ := spells
  cases fraction with
  | nil => exact .inl (digits c (List.mem_append_left _ member))
  | cons d fraction =>
    rcases List.mem_append.mp member with digit | rest
    · exact .inl (digits c (List.mem_append_left _ digit))
    · rcases List.mem_cons.mp rest with point | digit
      · exact .inr point
      · exact .inl (digits c (List.mem_append_right _ digit))

theorem Spells.begins (spells : Spells text code) :
    ∃ c rest, text = c :: rest ∧ c.isDigit = true := by
  obtain ⟨whole, fraction, nonempty, digits, rfl, _⟩ := spells
  obtain ⟨c, whole, rfl⟩ := List.exists_cons_of_ne_nil nonempty
  refine ⟨c, ?_⟩
  have digit := digits c (by simp)
  cases fraction with
  | nil => exact ⟨whole, rfl, digit⟩
  | cons d fraction => exact ⟨whole ++ '.' :: d :: fraction, rfl, digit⟩

/-- A number that begins with a digit is neither infinite nor NaN. -/
theorem read?_of_digit {c : Char} (digit : c.isDigit = true) (negative : Bool) (rest : Text) :
    Double.read? (signed negative (c :: rest)) =
      (Decimal.read? (c :: rest)).map fun d => ofCode negative d.code := by
  have unsigned := unsigned_of_isDigit digit
  have noWord : ∀ first word, first.toLower.isDigit = false →
      Text.sameWord (c :: rest) (first :: word) = false :=
    fun _ _ letter => sameWord_of_isDigit digit letter
  simp only [Double.read?, splitSign_signed negative unsigned]
  rw [show "inf".toList = 'i' :: ['n', 'f'] from rfl,
    show "infinity".toList = 'i' :: "nfinity".toList from rfl,
    show "nan".toList = 'n' :: ['a', 'n'] from rfl]
  simp only [noWord 'i' _ rfl, noWord 'n' _ rfl, Bool.or_self, Bool.false_eq_true, if_false]

theorem Spells.read? (spells : Spells text code) (negative : Bool) :
    Double.read? (signed negative text) = some (ofCode negative code) := by
  have whole : (Decimal.read? text).map Decimal.code = some code := by
    obtain ⟨whole, fraction, nonempty, digits, rfl, rounds⟩ := spells
    rw [read?_positional nonempty digits, Option.map_some, rounds]
  obtain ⟨c, rest, rfl, digit⟩ := spells.begins
  obtain ⟨d, found, rfl⟩ := Option.map_eq_some_iff.mp whole
  rw [read?_of_digit digit, found]
  rfl

theorem read?_inf (negative : Bool) :
    Double.read? (signed negative "inf".toList) = some (ofCode negative infinityCode) := by
  cases negative with
  | true => rfl
  | false => rfl

/-- What can stand after the sign in the literal of a double. -/
inductive Body (code : Nat) : Text → Prop where
  | finite {text : Text} (spells : Spells text code) : Body code text
  | infinite (code_eq : code = infinityCode) : Body code "inf".toList

theorem Body.read? (body : Body code text) (negative : Bool) :
    Double.read? (signed negative text) = some (ofCode negative code) := by
  cases body with
  | finite spells => exact spells.read? negative
  | infinite code_eq => rw [code_eq, read?_inf]

theorem render_eq {x : Float} (number : isNaN x = false) :
    ∃ text, render x = signed (isNegative x) text ∧
      (isFinite x = true ∧ Spells text (Double.code x) ∨
        isFinite x = false ∧ text = "inf".toList ∧ Double.code x = infinityCode) := by
  simp only [render, number, Bool.false_eq_true, if_false]
  refine ⟨_, rfl, ?_⟩
  by_cases infinite : isInfinite x = true
  · have code_eq : Double.code x = infinityCode := by simpa [isInfinite] using infinite
    exact .inr ⟨by simp [isFinite, code_eq], if_pos infinite, code_eq⟩
  · have finite : Double.code x < infinityCode := by
      simp only [isNaN, decide_eq_false_iff_not, Nat.not_lt] at number
      simp only [isInfinite, beq_iff_eq] at infinite
      omega
    rw [if_neg infinite]
    exact .inl ⟨by simp [isFinite, finite], spells_magnitude finite⟩

end Double

end StepScript
