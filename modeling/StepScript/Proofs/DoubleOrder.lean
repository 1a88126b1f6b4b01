import StepScript.Proofs.Rounding

/-! The order of doubles. Unless one of them is NaN, two doubles are compared as the units that they
stand for, counted with their signs. Made a double, an integer is rounded to the nearest one with a
mantissa that fits; this keeps the order, but it can make different integers the same. -/
namespace StepScript.Double

/-- Units of the double, with its sign. Infinity counts as the power of two that no double holds. -/
def signedUnits (x : Float) : Int :=
  if isNegative x then -(unitsOfCode (code x) : Int) else unitsOfCode (code x)

section Units

theorem mantissaOfCode_lt (code : Nat) : mantissaOfCode code < 2 * fractionCount := by
  have below : code % fractionCount < fractionCount := Nat.mod_lt _ (by decide)
  unfold mantissaOfCode
  split
  · omega
  · omega

theorem le_mantissaOfCode {code : Nat} (shifted : 0 < shiftOfCode code) :
    fractionCount ≤ mantissaOfCode code := by
  have normal : ¬ code < fractionCount := by
    intro subnormal
    rw [shiftOfCode, Nat.div_eq_of_lt subnormal] at shifted
    omega
  rw [mantissaOfCode, if_neg normal]
  exact Nat.le_add_right _ _

/-- A greater code stands for a greater exponent, or for the same one and a greater mantissa. -/
theorem lt_iff_shift_mantissa (a b : Nat) : a < b ↔ shiftOfCode a < shiftOfCode b ∨
    shiftOfCode a = shiftOfCode b ∧ mantissaOfCode a < mantissaOfCode b := by
  have beyond : ∀ c d, shiftOfCode c < shiftOfCode d → c < d := by
    intro c d less
    have next : (shiftOfCode c + 1) * fractionCount ≤ shiftOfCode d * fractionCount :=
      Nat.mul_le_mul_right _ less
    have low := mantissaOfCode_lt c
    have high : fractionCount ≤ mantissaOfCode d := le_mantissaOfCode (by omega)
    have left := shift_mantissa c
    have right := shift_mantissa d
    rw [Nat.add_mul] at next
    omega
  have left := shift_mantissa a
  have right := shift_mantissa b
  rcases Nat.lt_trichotomy (shiftOfCode a) (shiftOfCode b) with less | even | greater
  · have := beyond a b less
    omega
  · rw [even] at left
    omega
  · have := beyond b a greater
    omega

theorem unitsOfCode_strictMono : StrictMono unitsOfCode := by
  intro a b less
  have positive : ∀ n, 0 < Nat.pow 2 n := Nat.two_pow_pos
  unfold unitsOfCode
  rcases (lt_iff_shift_mantissa a b).mp less with shift | ⟨same, mantissa⟩
  · obtain ⟨more, gap⟩ := Nat.exists_eq_add_of_lt shift
    calc mantissaOfCode a * Nat.pow 2 (shiftOfCode a)
        < 2 * fractionCount * Nat.pow 2 (shiftOfCode a) :=
          Nat.mul_lt_mul_of_pos_right (mantissaOfCode_lt a) (positive _)
      _ ≤ 2 * fractionCount * Nat.pow 2 (shiftOfCode a) * Nat.pow 2 more :=
          Nat.le_mul_of_pos_right _ (positive _)
      _ = fractionCount * Nat.pow 2 (shiftOfCode b) := by
          simp only [gap, Nat.pow_eq]
          ring
      _ ≤ mantissaOfCode b * Nat.pow 2 (shiftOfCode b) :=
          Nat.mul_le_mul_right _ (le_mantissaOfCode (by omega))
  · rw [same]
    exact Nat.mul_lt_mul_of_pos_right mantissa (positive _)

theorem unitsOfCode_zero : unitsOfCode 0 = 0 := by
  simp [unitsOfCode, mantissaOfCode, fractionCount]

/-- The mantissa and the shift of a code with an exponent field that is not zero. -/
theorem mantissa_shift_of_field (field : Nat) {fraction : Nat} (below : fraction < fractionCount) :
    mantissaOfCode ((field + 1) * fractionCount + fraction) = fractionCount + fraction ∧
      shiftOfCode ((field + 1) * fractionCount + fraction) = field := by
  have positive : 0 < fractionCount := by decide
  have large : ¬ (field + 1) * fractionCount + fraction < fractionCount := by
    rw [Nat.succ_mul]
    omega
  rw [mantissaOfCode, if_neg large, shiftOfCode, Nat.mul_comm, Nat.mul_add_mod,
    Nat.mul_add_div positive, Nat.mod_eq_of_lt below, Nat.div_eq_of_lt below]
  exact ⟨rfl, rfl⟩

end Units

section Comparing

open Float.Model UnpackedFloat

variable {sign sign' : Sign} {c d : Nat} {u v : UnpackedFloat}

/-- What a double with this sign and code is unpacked to. -/
inductive Unpacks (sign : Sign) (code : Nat) : UnpackedFloat → Prop
  | infinity (greatest : code = infinityCode) : Unpacks sign code (.infinity sign)
  | zero (least : code = 0) : Unpacks sign code (.zero sign)
  | finite {mantissa : Nat} {exponent : Int} {positive : 0 < mantissa} (nonzero : 0 < code)
      (finite : code < infinityCode) (digits : mantissa = mantissaOfCode code)
      (scale : exponent = shiftOfCode code - 1074) :
      Unpacks sign code (.finite sign mantissa exponent positive)

theorem compare_shift_mantissa (c d : Nat) :
    (compare ((shiftOfCode c : Int) - 1074) (shiftOfCode d - 1074)).then
      (compare (mantissaOfCode c) (mantissaOfCode d)) =
      compare (unitsOfCode c : Int) (unitsOfCode d) := by
  have less := lt_iff_shift_mantissa c d
  have greater := lt_iff_shift_mantissa d c
  rcases lt_trichotomy c d with below | rfl | above
  · have units : (unitsOfCode c : Int) < unitsOfCode d :=
      Int.ofNat_lt.mpr (unitsOfCode_strictMono below)
    rw [compare_lt_iff_lt.mpr units, Ordering.then_eq_lt, compare_lt_iff_lt, compare_eq_iff_eq,
      compare_lt_iff_lt]
    omega
  · simp
  · have units : (unitsOfCode d : Int) < unitsOfCode c :=
      Int.ofNat_lt.mpr (unitsOfCode_strictMono above)
    rw [compare_gt_iff_gt.mpr units, Ordering.then_eq_gt, compare_gt_iff_gt, compare_eq_iff_eq,
      compare_gt_iff_gt]
    omega

theorem lt_eq_compare {a b : Int} : .lt = compare a b ↔ a < b := by
  rw [eq_comm, compare_lt_iff_lt]

theorem gt_eq_compare {a b : Int} : .gt = compare a b ↔ b < a := by
  rw [eq_comm, compare_gt_iff_gt]

theorem eq_eq_compare {a b : Int} : .eq = compare a b ↔ a = b := by
  rw [eq_comm, compare_eq_iff_eq]

theorem compare_sign {units : Nat} (positive : 0 < units) (sign sign' : Sign) :
    compare sign sign' = compare (sign.apply units) (sign'.apply units) :=
  match sign, sign' with
  | .negative, .negative | .positive, .positive => eq_eq_compare.mpr rfl
  | .negative, .positive => lt_eq_compare.mpr (show -(units : Int) < units by omega)
  | .positive, .negative => gt_eq_compare.mpr (show -(units : Int) < units by omega)

theorem compare_negative (a b : Int) : (compare a b).swap = compare (-a) (-b) := by
  rcases lt_trichotomy a b with less | rfl | greater
  · rw [compare_lt_iff_lt.mpr less]
    exact gt_eq_compare.mpr (by omega)
  · simp
  · rw [compare_gt_iff_gt.mpr greater]
    exact lt_eq_compare.mpr (by omega)

/-- Of two magnitudes the sign of the greater decides. -/
def outwards : Sign → Ordering
  | .positive => .gt
  | .negative => .lt

theorem outwards_eq_compare {m n : Nat} (less : n < m) (sign sign' : Sign) :
    outwards sign = compare (sign.apply m) (sign'.apply n) := by
  cases sign with
  | positive => exact gt_eq_compare.mpr (by cases sign' <;> simp only [Sign.apply] <;> omega)
  | negative => exact lt_eq_compare.mpr (by cases sign' <;> simp only [Sign.apply] <;> omega)

theorem inwards_eq_compare {m n : Nat} (less : n < m) (sign sign' : Sign) :
    (outwards sign).swap = compare (sign'.apply n) (sign.apply m) := by
  cases sign with
  | positive => exact lt_eq_compare.mpr (by cases sign' <;> simp only [Sign.apply] <;> omega)
  | negative => exact gt_eq_compare.mpr (by cases sign' <;> simp only [Sign.apply] <;> omega)

/-- Doubles are compared as the units that their signs and codes stand for. -/
theorem Unpacks.compare (left : Unpacks sign c u) (right : Unpacks sign' d v) :
    u.compare v =
      some (Ord.compare (sign.apply (unitsOfCode c)) (sign'.apply (unitsOfCode d))) := by
  have positive : ∀ {code}, 0 < code → unitsOfCode 0 < unitsOfCode code := fun nonzero =>
    unitsOfCode_strictMono nonzero
  have infinite : 0 < infinityCode := by decide
  cases left with
  | infinity greatest =>
    subst greatest
    cases right with
    | infinity greatest =>
      subst greatest
      exact congrArg some (compare_sign (unitsOfCode_zero ▸ positive infinite) sign sign')
    | zero least =>
      subst least
      rw [← outwards_eq_compare (positive infinite) sign sign']
      cases sign <;> rfl
    | finite _ finite =>
      have less := unitsOfCode_strictMono finite
      rw [← outwards_eq_compare less sign sign']
      cases sign <;> rfl
  | zero least =>
    subst least
    cases right with
    | infinity greatest =>
      subst greatest
      rw [← inwards_eq_compare (positive infinite) sign' sign]
      cases sign' <;> rfl
    | zero least =>
      subst least
      cases sign <;> cases sign' <;>
        exact congrArg some (eq_eq_compare.mpr (by simp [Sign.apply, unitsOfCode_zero]))
    | finite nonzero =>
      rw [← inwards_eq_compare (positive nonzero) sign' sign]
      cases sign' <;> rfl
  | finite nonzero finite digits scale =>
    cases right with
    | infinity greatest =>
      subst greatest
      have less := unitsOfCode_strictMono finite
      rw [← inwards_eq_compare less sign' sign]
      cases sign' <;> rfl
    | zero least =>
      subst least
      rw [← outwards_eq_compare (positive nonzero) sign sign']
      cases sign <;> rfl
    | finite nonzero' _ digits' scale' =>
      have above := positive nonzero
      have above' := positive nonzero'
      have magnitudes := compare_shift_mantissa c d
      rw [← digits, ← digits', ← scale, ← scale'] at magnitudes
      match sign, sign' with
      | .positive, .positive => exact congrArg some magnitudes
      | .negative, .negative =>
        exact congrArg some ((congrArg Ordering.swap magnitudes).trans (compare_negative _ _))
      | .negative, .positive =>
        exact congrArg some (lt_eq_compare.mpr (by simp only [Sign.apply]; omega))
      | .positive, .negative =>
        exact congrArg some (gt_eq_compare.mpr (by simp only [Sign.apply]; omega))

end Comparing

section Words

open Float.Model UnpackedFloat

/-- The parts of a word, as parts of its number. -/
theorem parts_toNat (word : BitVec Format.binary64.numBits) :
    (unpackMantissa word).toNat = word.toNat % 2 ^ 52 ∧
      (unpackExponent word).toNat = word.toNat / 2 ^ 52 % 2 ^ 11 ∧
      (unpackSign word).toNat = word.toNat / 2 ^ 63 % 2 := by
  refine ⟨?_, ?_, ?_⟩
  · simp [unpackMantissa, BitVec.extractLsb]
  · simp [unpackExponent, BitVec.extractLsb, Nat.shiftRight_eq_div_pow]
  · simp [unpackSign, BitVec.extractLsb, Nat.shiftRight_eq_div_pow]

def signOf (negative : Bool) : Sign :=
  if negative then .negative else .positive

theorem ofBitVec_signOf {bit : BitVec 1} {negative : Bool} (set : bit.toNat = negative.toNat) :
    Sign.ofBitVec bit = signOf negative := by
  cases negative with
  | false =>
    obtain rfl : bit = 0#1 := BitVec.eq_of_toNat_eq set
    rfl
  | true =>
    obtain rfl : bit = 1#1 := BitVec.eq_of_toNat_eq set
    rfl

variable {x : Float} {word : BitVec Format.binary64.numBits}

theorem ofBitVec_unpackSign (same : x.toBits.toBitVec = word) :
    Sign.ofBitVec (unpackSign word) = signOf (isNegative x) := by
  obtain ⟨_, _, sign⟩ := parts_toNat word
  have bound : word.toNat < 2 ^ 64 := word.isLt
  refine ofBitVec_signOf ?_
  rw [sign, isNegative, show x.toBits.toNat = word.toNat from congrArg BitVec.toNat same,
    show signPlace = 2 ^ 63 from rfl]
  by_cases set : 2 ^ 63 ≤ word.toNat
  · rw [decide_eq_true set, Bool.toNat_true]
    omega
  · rw [decide_eq_false set, Bool.toNat_false]
    omega

theorem code_eq_parts (same : x.toBits.toBitVec = word) :
    code x = (unpackExponent word).toNat * fractionCount + (unpackMantissa word).toNat := by
  obtain ⟨mantissa, exponent, _⟩ := parts_toNat word
  have bound : word.toNat < 2 ^ 64 := word.isLt
  rw [code, show x.toBits.toNat = word.toNat from congrArg BitVec.toNat same,
    show signPlace = 2 ^ 63 from rfl, fractionCount_eq]
  omega

/-- A word that encodes no NaN is unpacked to its sign and its code, which has the exponent field
above the fraction. -/
theorem unpacks_word (finite : (unpackExponent word).toNat * fractionCount +
    (unpackMantissa word).toNat ≤ infinityCode) :
    Unpacks (Sign.ofBitVec (unpackSign word))
      ((unpackExponent word).toNat * fractionCount + (unpackMantissa word).toNat)
      (UnpackedFloat.unpack .binary64 word) := by
  have fraction : (unpackMantissa word).toNat < fractionCount := (unpackMantissa word).isLt
  rw [infinityCode] at finite
  rw [UnpackedFloat.unpack]
  split
  · rename_i greatest
    have field : (unpackExponent word).toNat = 2047 := congrArg BitVec.toNat greatest
    rw [field] at finite ⊢
    have none : (unpackMantissa word).toNat = 0 := by omega
    rw [if_pos (BitVec.eq_of_toNat_eq none), none]
    exact .infinity rfl
  · rename_i notGreatest
    split
    · rename_i least
      have field : (unpackExponent word).toNat = 0 := congrArg BitVec.toNat least
      rw [field, Nat.zero_mul, Nat.zero_add]
      split
      · rename_i zero
        exact .zero (congrArg BitVec.toNat zero)
      · rename_i nonzero
        have positive : 0 < (unpackMantissa word).toNat :=
          Nat.pos_of_ne_zero fun zero => nonzero (BitVec.eq_of_toNat_eq zero)
        refine .finite positive (by rw [infinityCode]; omega) ?_ ?_
        · rw [mantissaOfCode, if_pos fraction]
        · rw [shiftOfCode, Nat.div_eq_of_lt fraction]
          rfl
    · rename_i notLeast
      have range : (unpackExponent word).toNat < 2048 := (unpackExponent word).isLt
      have below : (unpackExponent word).toNat < 2047 :=
        lt_of_le_of_ne (by omega) fun field => notGreatest (BitVec.eq_of_toNat_eq field)
      obtain ⟨field, next⟩ := Nat.exists_eq_succ_of_ne_zero fun zero =>
        notLeast (BitVec.eq_of_toNat_eq zero)
      rw [Nat.succ_eq_add_one] at next
      obtain ⟨mantissa, shift⟩ := mantissa_shift_of_field field fraction
      rw [← next] at mantissa shift
      have nonzero : 0 < (unpackExponent word).toNat * fractionCount :=
        Nat.mul_pos (by omega) (by omega)
      refine .finite (by omega) ?_ ?_ ?_
      · have above := Nat.mul_le_mul_right fractionCount (Nat.succ_le_of_lt below)
        rw [Nat.succ_mul] at above
        rw [infinityCode]
        omega
      · rw [mantissa, BitVec.toNat_append, ← Nat.shiftLeft_add_eq_or_of_lt fraction]
        rfl
      · rw [shift]
        change ((unpackExponent word).toNat : Int) - (1023 + 52) = _
        omega

theorem unpacks (number : isNaN x = false) :
    Unpacks (signOf (isNegative x)) (code x) x.toModel.unpack := by
  obtain ⟨word, same⟩ : ∃ word : BitVec Format.binary64.numBits, x.toBits.toBitVec = word :=
    ⟨_, rfl⟩
  have finite : code x ≤ infinityCode := by simpa [isNaN] using number
  have model : x.toModel.unpack = UnpackedFloat.unpack .binary64 word :=
    congrArg (UnpackedFloat.unpack .binary64) same
  rw [code_eq_parts same] at finite ⊢
  rw [model, ← ofBitVec_unpackSign same]
  exact unpacks_word finite

/-- A word whose number without the sign is at most the code of infinity encodes no NaN. -/
theorem valid_of_le (finite : word.toNat % signPlace ≤ infinityCode) :
    Format.binary64.Valid word := by
  refine ⟨fun greatest nonzero => absurd ?_ nonzero⟩
  obtain ⟨mantissa, exponent, _⟩ := parts_toNat word
  have field : (unpackExponent word).toNat = 2047 := by
    rw [greatest]
    rfl
  have none : (unpackMantissa word).toNat = 0 := by
    rw [show signPlace = 2 ^ 63 from rfl, infinityCode, fractionCount_eq] at finite
    omega
  exact BitVec.eq_of_toNat_eq none

theorem toBits_ofBits {bits : UInt64} (finite : bits.toNat % signPlace ≤ infinityCode) :
    (Float.ofBits bits).toBits = bits :=
  congrArg UInt64.ofBitVec (pack_unpack (@valid_of_le bits.toBitVec finite))

/-- All doubles that are no numbers have one word. -/
theorem eq_packedNaN (same : x.toBits.toBitVec = word) (none : isNaN x = true) :
    word = packedNaN .binary64 := by
  have fraction : (unpackMantissa word).toNat < fractionCount := (unpackMantissa word).isLt
  have range : (unpackExponent word).toNat < 2048 := (unpackExponent word).isLt
  have above : infinityCode < code x := of_decide_eq_true none
  rw [code_eq_parts same, infinityCode] at above
  have greatest : (unpackExponent word).toNat = 2047 := by
    by_contra other
    have below := Nat.mul_le_mul_right fractionCount
      (show (unpackExponent word).toNat ≤ 2046 by omega)
    omega
  have valid : Format.binary64.Valid word := same ▸ x.toModel.valid
  refine valid.eq_packedNaN (BitVec.eq_of_toNat_eq greatest) fun zero => ?_
  rw [greatest, show (unpackMantissa word).toNat = 0 from congrArg BitVec.toNat zero] at above
  omega

theorem eq_nan (none : isNaN x = true) : x = nan := by
  have words : x.toBits.toBitVec = nan.toBits.toBitVec :=
    (eq_packedNaN rfl none).trans (eq_packedNaN rfl (by decide)).symm
  rw [← ofBits_toBits x, ← ofBits_toBits nan, UInt64.toBitVec_inj.mp words]

end Words

theorem toBits_ofCode {code : Nat} (finite : code ≤ infinityCode) (negative : Bool) :
    (ofCode negative code).toBits.toNat = if negative then signPlace + code else code := by
  have small : infinityCode < signPlace := by decide
  have place : signPlace = 2 ^ 63 := rfl
  have number : (UInt64.ofNat (if negative then signPlace + code else code)).toNat =
      if negative then signPlace + code else code :=
    UInt64.toNat_ofNat_of_lt' (by rw [UInt64.size]; split <;> omega)
  rw [ofCode, toBits_ofBits, number]
  rw [number]
  split
  · rwa [Nat.add_mod_left, Nat.mod_eq_of_lt (by omega)]
  · rwa [Nat.mod_eq_of_lt (by omega)]

theorem code_ofCode {code : Nat} (finite : code ≤ infinityCode) (negative : Bool) :
    Double.code (ofCode negative code) = code := by
  have small : infinityCode < signPlace := by decide
  rw [Double.code, toBits_ofCode finite]
  split
  · rw [Nat.add_mod_left, Nat.mod_eq_of_lt (by omega)]
  · rw [Nat.mod_eq_of_lt (by omega)]

theorem isNegative_ofCode {code : Nat} (finite : code ≤ infinityCode) (negative : Bool) :
    isNegative (ofCode negative code) = negative := by
  have small : infinityCode < signPlace := by decide
  rw [isNegative, toBits_ofCode finite]
  cases negative with
  | true => simp
  | false => simpa using lt_of_le_of_lt finite small

section Order

variable {x y : Float}

theorem signedUnits_eq (x : Float) :
    signedUnits x = (signOf (isNegative x)).apply (unitsOfCode (code x)) := by
  rw [signedUnits]
  cases isNegative x <;> rfl

theorem compare_signedUnits (numberX : isNaN x = false) (numberY : isNaN y = false) :
    x.toModel.unpack.compare y.toModel.unpack = some (compare (signedUnits x) (signedUnits y)) := by
  rw [signedUnits_eq, signedUnits_eq]
  exact (unpacks numberX).compare (unpacks numberY)

theorem lt_iff (numberX : isNaN x = false) (numberY : isNaN y = false) :
    x < y ↔ signedUnits x < signedUnits y := by
  change (decide ((x.toModel.unpack.compare y.toModel.unpack == some .lt) = true)) = true ↔ _
  rw [compare_signedUnits numberX numberY]
  simp [compare_lt_iff_lt]

theorem le_iff (numberX : isNaN x = false) (numberY : isNaN y = false) :
    x ≤ y ↔ signedUnits x ≤ signedUnits y := by
  change (decide (((x.toModel.unpack.compare y.toModel.unpack).any (·.isLE)) = true)) = true ↔ _
  rw [compare_signedUnits numberX numberY]
  simp [Ordering.isLE_iff_ne_gt, compare_le_iff_le]

end Order

section Integers

theorem div_le_roundEven (num den : Nat) : num / den ≤ roundEven num den := by
  simp only [roundEven]
  split_ifs <;> omega

theorem roundEven_le_succ (num den : Nat) : roundEven num den ≤ num / den + 1 := by
  simp only [roundEven]
  split_ifs <;> omega

theorem roundEven_mono {m n : Nat} (le : m ≤ n) (den : Nat) :
    roundEven m den ≤ roundEven n den := by
  rcases Nat.lt_or_eq_of_le (Nat.div_le_div_right le : m / den ≤ n / den) with less | same
  · exact (roundEven_le_succ m den).trans (Nat.le_trans less (div_le_roundEven n den))
  · have rest : m % den ≤ n % den := by
      have divM := Nat.div_add_mod m den
      have divN := Nat.div_add_mod n den
      rw [same] at divM
      omega
    simp only [roundEven, same]
    split_ifs <;> omega

/-- The nearest number with a mantissa of at most 53 bits, of two the one with the even mantissa. -/
def roundMagnitude (n : Nat) : Nat :=
  roundEven n (2 ^ (n.log2 - 52)) * 2 ^ (n.log2 - 52)

/-- The integer that a double holds in the place of this one. -/
def roundInteger (n : Int) : Int :=
  if n < 0 then -(roundMagnitude n.natAbs : Int) else roundMagnitude n.natAbs

theorem roundMagnitude_of_dvd {n : Nat} (fits : 2 ^ (n.log2 - 52) ∣ n) :
    roundMagnitude n = n := by
  obtain ⟨mantissa, whole⟩ := fits
  have exact := roundEven_exact (Nat.two_pow_pos (n.log2 - 52)) mantissa
  rw [Nat.mul_comm, ← whole] at exact
  rw [roundMagnitude, exact, Nat.mul_comm]
  exact whole.symm

/-- Up to 53 bits there is nothing to round. -/
theorem roundMagnitude_of_le {n : Nat} (small : n ≤ 2 ^ 53) : roundMagnitude n = n := by
  refine roundMagnitude_of_dvd ?_
  rcases Nat.lt_or_eq_of_le small with below | rfl
  · have none : n.log2 - 52 = 0 := by
      rcases Nat.eq_zero_or_pos n with rfl | positive
      · rfl
      · have := (Nat.log2_lt positive.ne').mpr below
        omega
    rw [none]
    exact Nat.one_dvd n
  · decide

theorem roundEven_mantissa {n more : Nat} (low : 2 ^ (52 + more) ≤ n)
    (high : n ≤ 2 ^ (53 + more)) :
    2 ^ 52 ≤ roundEven n (2 ^ more) ∧ roundEven n (2 ^ more) ≤ 2 ^ 53 := by
  have least := roundEven_exact (Nat.two_pow_pos more) (2 ^ 52)
  have greatest := roundEven_exact (Nat.two_pow_pos more) (2 ^ 53)
  rw [← Nat.pow_add] at least greatest
  exact ⟨least ▸ roundEven_mono low _, greatest ▸ roundEven_mono high _⟩

/-- Rounding stays between the powers of two around the number. -/
theorem roundMagnitude_bounds {n : Nat} (positive : 0 < n) :
    2 ^ n.log2 ≤ roundMagnitude n ∧ roundMagnitude n ≤ 2 ^ (n.log2 + 1) := by
  have low : 2 ^ n.log2 ≤ n := Nat.log2_self_le positive.ne'
  have high : n < 2 ^ (n.log2 + 1) := Nat.lt_log2_self
  by_cases small : n.log2 ≤ 52
  · have fits : n ≤ 2 ^ 53 :=
      Nat.le_trans high.le (Nat.pow_le_pow_right Nat.two_pos (by omega))
    rw [roundMagnitude_of_le fits]
    exact ⟨low, high.le⟩
  · obtain ⟨more, split⟩ := Nat.exists_eq_add_of_le (Nat.le_of_not_le small)
    have next : 52 + more + 1 = 53 + more := by omega
    rw [split, next] at high
    rw [split] at low
    obtain ⟨least, greatest⟩ := roundEven_mantissa low high.le
    rw [roundMagnitude, split, next, Nat.add_sub_cancel_left, Nat.pow_add, Nat.pow_add]
    exact ⟨Nat.mul_le_mul_right _ least, Nat.mul_le_mul_right _ greatest⟩

theorem roundMagnitude_mono {m n : Nat} (le : m ≤ n) : roundMagnitude m ≤ roundMagnitude n := by
  rcases Nat.eq_zero_or_pos m with rfl | positive
  · rw [roundMagnitude_of_le (Nat.zero_le _)]
    exact Nat.zero_le _
  · have positive' := positive.trans_le le
    have logs : m.log2 ≤ n.log2 :=
      (Nat.le_log2 positive'.ne').mpr ((Nat.log2_self_le positive.ne').trans le)
    rcases Nat.lt_or_eq_of_le logs with less | same
    · calc roundMagnitude m ≤ 2 ^ (m.log2 + 1) := (roundMagnitude_bounds positive).2
        _ ≤ 2 ^ n.log2 := Nat.pow_le_pow_right Nat.two_pos less
        _ ≤ roundMagnitude n := (roundMagnitude_bounds positive').1
    · rw [roundMagnitude, roundMagnitude, same]
      exact Nat.mul_le_mul_right _ (roundEven_mono le _)

theorem roundInteger_mono {m n : Int} (le : m ≤ n) : roundInteger m ≤ roundInteger n := by
  unfold roundInteger
  split
  · split
    · have := roundMagnitude_mono (show n.natAbs ≤ m.natAbs by omega)
      omega
    · omega
  · have := roundMagnitude_mono (show m.natAbs ≤ n.natAbs by omega)
    rw [if_neg (by omega)]
    omega

theorem roundInteger_of_le {n : Int} (small : n.natAbs ≤ 2 ^ 53) : roundInteger n = n := by
  rw [roundInteger, roundMagnitude_of_le small]
  split
  · omega
  · omega

theorem log2_scale {n : Nat} (positive : 0 < n) (places : Nat) :
    (n * 2 ^ places).log2 = n.log2 + places := by
  rw [Nat.log2_eq_iff (Nat.mul_pos positive (Nat.two_pow_pos _)).ne']
  constructor
  · rw [Nat.pow_add]
    exact Nat.mul_le_mul_right _ (Nat.log2_self_le positive.ne')
  · rw [show n.log2 + places + 1 = n.log2 + 1 + places by omega, Nat.pow_add]
    exact Nat.mul_lt_mul_of_pos_right Nat.lt_log2_self (Nat.two_pow_pos _)

/-- Rounding a number and rounding it in smaller units is the same. -/
theorem roundMagnitude_scale {n : Nat} (positive : 0 < n) (places : Nat) :
    roundMagnitude (n * 2 ^ places) = roundMagnitude n * 2 ^ places := by
  by_cases large : 52 ≤ n.log2
  · rw [roundMagnitude, log2_scale positive, Nat.sub_add_comm large, Nat.pow_add,
      roundEven_scale (Nat.two_pow_pos _), ← Nat.mul_assoc]
    rfl
  · have below : n < 2 ^ 53 :=
      Nat.lt_of_lt_of_le Nat.lt_log2_self (Nat.pow_le_pow_right Nat.two_pos (by omega))
    rw [roundMagnitude_of_le below.le]
    refine roundMagnitude_of_dvd (Nat.dvd_mul_left_of_dvd ?_ n)
    rw [log2_scale positive]
    exact Nat.pow_dvd_pow 2 (by omega)

/-- Units of a code given by its exponent and a mantissa that may carry into the next exponent. -/
theorem unitsOfCode_normal {mantissa : Nat} (least : fractionCount ≤ mantissa)
    (greatest : mantissa ≤ 2 * fractionCount) (shift : Nat) :
    unitsOfCode (shift * fractionCount + mantissa) = mantissa * 2 ^ shift := by
  obtain ⟨fraction, rfl⟩ := Nat.exists_eq_add_of_le least
  rw [unitsOfCode, Nat.pow_eq]
  rcases Nat.lt_or_eq_of_le (show fraction ≤ fractionCount by omega) with below | rfl
  · obtain ⟨mantissa, shifted⟩ := mantissa_shift_of_field shift below
    rw [Nat.succ_mul, Nat.add_assoc] at mantissa shifted
    rw [mantissa, shifted]
  · have positive : 0 < fractionCount := by decide
    obtain ⟨mantissa, shifted⟩ := mantissa_shift_of_field (shift + 1) positive
    rw [Nat.succ_mul, Nat.succ_mul, Nat.add_assoc, Nat.add_assoc, Nat.add_zero] at mantissa shifted
    rw [mantissa, shifted, Nat.pow_succ]
    ring

/-- The double nearest to a number is finite and stands for the rounded number. -/
theorem unitsOfCode_nearestCode {n : Nat} (range : n ≤ 2 ^ 63) :
    nearestCode n 1 < infinityCode ∧
      unitsOfCode (nearestCode n 1) = roundMagnitude n * unitsPerOne := by
  rcases Nat.eq_zero_or_pos n with rfl | positive
  · rw [nearestCode_zero Nat.one_pos, roundMagnitude_of_le (Nat.zero_le _), Nat.zero_mul]
    exact ⟨by decide, unitsOfCode_zero⟩
  obtain ⟨places, count, units⟩ := unitsPerOne_eq
  have scaled : 0 < n * 2 ^ places := Nat.mul_pos positive (Nat.two_pow_pos _)
  have log := log2_scale positive places
  have logs : n.log2 ≤ 63 := by
    have below : n < 2 ^ 64 := by omega
    have := (Nat.log2_lt positive.ne').mpr below
    omega
  obtain ⟨shift, split⟩ := Nat.exists_eq_add_of_le (show 52 ≤ (n * 2 ^ places).log2 by omega)
  have low : 2 ^ (52 + shift) ≤ n * 2 ^ places := split ▸ Nat.log2_self_le scaled.ne'
  have high : n * 2 ^ places < 2 ^ (52 + shift + 1) := split ▸ Nat.lt_log2_self
  rw [show 52 + shift + 1 = 53 + shift by omega] at high
  obtain ⟨least, greatest⟩ := roundEven_mantissa low high.le
  have fits : shift * fractionCount + roundEven (n * 2 ^ places) (2 ^ shift) < infinityCode := by
    have shifts : shift * fractionCount ≤ 1085 * fractionCount :=
      Nat.mul_le_mul_right _ (by omega)
    rw [infinityCode]
    rw [fractionCount_eq] at shifts ⊢
    omega
  have rounded : roundEven (n * 2 ^ places) (2 ^ shift) * 2 ^ shift =
      roundMagnitude n * 2 ^ places := by
    rw [← roundMagnitude_scale positive, roundMagnitude, split, Nat.add_sub_cancel_left]
  have code : nearestCode n 1 = shift * fractionCount + roundEven (n * 2 ^ places) (2 ^ shift) := by
    simp only [nearestCode, units, Nat.div_one, Nat.one_mul, split, Nat.add_sub_cancel_left,
      Nat.pow_eq]
    exact Nat.min_eq_left fits.le
  rw [code]
  refine ⟨fits, ?_⟩
  rw [unitsOfCode_normal least (by rw [fractionCount_eq]; omega), rounded, units]

/-- An integer becomes the double that stands for the rounded integer. -/
theorem signedUnits_ofInt {n : Int} (range : n.natAbs ≤ 2 ^ 63) :
    isNaN (ofInt n) = false ∧ signedUnits (ofInt n) = roundInteger n * unitsPerOne := by
  obtain ⟨finite, units⟩ := unitsOfCode_nearestCode range
  rw [isNaN, signedUnits, ofInt, code_ofCode finite.le, isNegative_ofCode finite.le, units,
    roundInteger]
  refine ⟨decide_eq_false (Nat.not_lt.mpr finite.le), ?_⟩
  generalize unitsPerOne = units
  by_cases negative : n < 0
  · simp [negative]
  · simp [negative]

end Integers
end StepScript.Double
