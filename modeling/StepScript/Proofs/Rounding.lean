import Mathlib
import StepScript.Decimal.Shortest

/-! Codes of doubles. A fraction that is worth exactly the units of a code rounds to that code, and
rounding does not depend on how a fraction is written. A double is its sign and its code. -/
namespace StepScript.Double

theorem fractionCount_eq : fractionCount = 2 ^ 52 := rfl

/-- The number of units in one as a power of two, with its exponent kept as a variable. -/
theorem unitsPerOne_eq : ∃ places, places = 1074 ∧ unitsPerOne = 2 ^ places := by
  unfold unitsPerOne
  generalize 1074 = places
  exact ⟨places, rfl, rfl⟩

theorem unitsPerOne_pos : 0 < unitsPerOne := by
  obtain ⟨places, _, units⟩ := unitsPerOne_eq
  rw [units]
  exact Nat.two_pow_pos places

theorem roundEven_scale {factor : Nat} (pos : 0 < factor) (num den : Nat) :
    roundEven (num * factor) (den * factor) = roundEven num den := by
  have low : num * factor / (den * factor) = num / den := Nat.mul_div_mul_right num den pos
  have rest : 2 * (num * factor % (den * factor)) = 2 * (num % den) * factor := by
    rw [Nat.mul_mod_mul_right, Nat.mul_assoc]
  simp only [roundEven, low, rest, Nat.mul_lt_mul_right pos]

theorem roundEven_exact {den : Nat} (pos : 0 < den) (n : Nat) : roundEven (n * den) den = n := by
  simp only [roundEven, Nat.mul_mod_left, Nat.mul_div_cancel n pos, Nat.mul_zero, if_pos pos]

/-- A fraction rounds the same in every form. -/
theorem nearestCode_scale {factor : Nat} (pos : 0 < factor) (num den : Nat) :
    nearestCode (num * factor) (den * factor) = nearestCode num den := by
  have scaled : num * factor * unitsPerOne = num * unitsPerOne * factor := by ring
  have quotient : num * unitsPerOne * factor / (den * factor) = num * unitsPerOne / den :=
    Nat.mul_div_mul_right _ _ pos
  have grid : ∀ power, den * factor * power = den * power * factor := fun power => by ring
  simp only [nearestCode, scaled, quotient, grid, roundEven_scale pos]

theorem nearestCode_zero {den : Nat} (pos : 0 < den) : nearestCode 0 den = 0 := by
  have low : Nat.log2 0 - 52 = 0 := by decide
  have grid : 0 < den * Nat.pow 2 0 := by simpa using pos
  have none := roundEven_exact grid 0
  rw [Nat.zero_mul] at none
  simp only [nearestCode, Nat.zero_mul, Nat.zero_div, low, none, Nat.add_zero, Nat.zero_min]

theorem shift_mantissa (code : Nat) :
    shiftOfCode code * fractionCount + mantissaOfCode code = code := by
  unfold shiftOfCode mantissaOfCode
  have division := Nat.div_add_mod code fractionCount
  split
  · rename_i subnormal
    rw [Nat.div_eq_of_lt subnormal]
    omega
  · rename_i normal
    have binade : 1 ≤ code / fractionCount := by
      rw [Nat.one_le_div_iff (by decide)]
      omega
    obtain ⟨exponent, same⟩ := Nat.exists_eq_add_of_le binade
    rw [same] at division ⊢
    rw [Nat.add_sub_cancel_left, ← Nat.add_assoc, ← Nat.succ_mul]
    rw [Nat.mul_comm, Nat.add_comm 1] at division
    exact division

/-- The shift of a code is the one that rounding takes for its units. -/
theorem log2_units (code : Nat) : (unitsOfCode code).log2 - 52 = shiftOfCode code := by
  unfold unitsOfCode
  by_cases subnormal : code < fractionCount
  · have shift : shiftOfCode code = 0 := by
      rw [shiftOfCode, Nat.div_eq_of_lt subnormal]
    have small : code.log2 < 52 ∨ code = 0 := by
      by_cases zero : code = 0
      · exact .inr zero
      · exact .inl ((Nat.log2_lt zero).mpr subnormal)
    simp only [mantissaOfCode, if_pos subnormal, shift, Nat.pow_eq, Nat.pow_zero, Nat.mul_one]
    rcases small with small | rfl
    · omega
    · decide
  · have below : code % fractionCount < fractionCount := Nat.mod_lt _ (by decide)
    simp only [mantissaOfCode, if_neg subnormal, Nat.pow_eq]
    have pos : (fractionCount + code % fractionCount) * 2 ^ shiftOfCode code ≠ 0 := by
      refine Nat.mul_ne_zero ?_ (Nat.two_pow_pos _).ne'
      have : 0 < fractionCount := by decide
      omega
    have log : ((fractionCount + code % fractionCount) * 2 ^ shiftOfCode code).log2 =
        52 + shiftOfCode code := by
      rw [Nat.log2_eq_iff pos]
      constructor
      · rw [Nat.pow_add]
        exact Nat.mul_le_mul_right _ (Nat.le_add_right _ _)
      · rw [show 52 + shiftOfCode code + 1 = 53 + shiftOfCode code by omega, Nat.pow_add]
        refine Nat.mul_lt_mul_of_pos_right ?_ (Nat.two_pow_pos _)
        rw [fractionCount_eq] at below ⊢
        omega
    omega

/-- A fraction worth the units of a finite code rounds to it. -/
theorem nearestCode_exact {num den code : Nat} (pos : 0 < den) (finite : code < infinityCode)
    (worth : num * unitsPerOne = unitsOfCode code * den) : nearestCode num den = code := by
  have grid : unitsOfCode code * den =
      mantissaOfCode code * (den * Nat.pow 2 (shiftOfCode code)) := by
    unfold unitsOfCode
    ring
  have gridPos : 0 < den * Nat.pow 2 (shiftOfCode code) := Nat.mul_pos pos (Nat.two_pow_pos _)
  simp only [nearestCode, worth, Nat.mul_div_cancel _ pos, log2_units]
  rw [grid, roundEven_exact gridPos, shift_mantissa, Nat.min_eq_left finite.le]

section Bits

open Float.Model UnpackedFloat

variable {word : BitVec Format.binary64.numBits}

/-- A word is its sign, its exponent and its mantissa. -/
theorem packComponents_parts (word : BitVec Format.binary64.numBits) :
    packComponents .binary64 (.ofBitVec (unpackSign word)) (unpackExponent word)
      (unpackMantissa word) = word := by
  have sign : (Sign.ofBitVec (unpackSign word)).toBitVec = unpackSign word := by
    generalize unpackSign word = bit
    revert bit
    decide
  simp only [packComponents, sign]
  ext place bound
  simp only [unpackSign, unpackExponent, unpackMantissa, BitVec.extractLsb]
  grind

theorem pack_of_parts {exponent : BitVec 11} {mantissa : BitVec 52}
    (exponentEq : unpackExponent word = exponent) (mantissaEq : unpackMantissa word = mantissa) :
    packComponents .binary64 (.ofBitVec (unpackSign word)) exponent mantissa = word := by
  have whole := packComponents_parts word
  rwa [exponentEq, mantissaEq] at whole

theorem pack_subnormal {sign : Sign} {mantissa : BitVec 52} {exponent : Int}
    (least : exponent + 1075 = 1) (pos : 0 < mantissa.toNat) :
    UnpackedFloat.pack .binary64 (.finite sign mantissa.toNat exponent pos) =
      packComponents .binary64 sign 0 mantissa := by
  have biased : (exponent + Format.binary64.exponentBias + (52 : Nat)).toNat = 1 := by
    change (exponent + (1023 : Nat) + (52 : Nat)).toNat = 1
    omega
  have short : ¬ mantissa.toNat.log2 + 1 = Format.binary64.mantissaBits := by
    have below : mantissa.toNat.log2 < 52 := (Nat.log2_lt pos.ne').mpr mantissa.isLt
    change ¬ mantissa.toNat.log2 + 1 = 53
    omega
  simp only [UnpackedFloat.pack, biased, if_neg short, BitVec.ofNat_toNat, BitVec.setWidth_eq]
  rfl

theorem pack_normal {sign : Sign} {exponent : BitVec 11} {mantissa : BitVec 52}
    (notGreatest : exponent ≠ -1) (pos : 0 < (1#1 ++ mantissa).toNat) :
    UnpackedFloat.pack .binary64
        (.finite sign (1#1 ++ mantissa).toNat ((exponent.toNat : Int) - 1075) pos) =
      packComponents .binary64 sign exponent mantissa := by
  have value : (1#1 ++ mantissa).toNat = 2 ^ 52 + mantissa.toNat := by
    rw [BitVec.toNat_append, ← Nat.shiftLeft_add_eq_or_of_lt mantissa.isLt]
    rfl
  have range := mantissa.isLt
  have biased : ((exponent.toNat : Int) - 1075 + Format.binary64.exponentBias + (52 : Nat)).toNat =
      exponent.toNat := by
    change ((exponent.toNat : Int) - 1075 + (1023 : Nat) + (52 : Nat)).toNat = exponent.toNat
    omega
  have full : (1#1 ++ mantissa).toNat.log2 + 1 = Format.binary64.mantissaBits := by
    have log : (1#1 ++ mantissa).toNat.log2 = 52 := by
      rw [Nat.log2_eq_iff pos.ne', value]
      omega
    rw [log]
    rfl
  have bounded : ¬ 2 ^ 11 ≤ exponent.toNat + 1 := by
    intro large
    refine notGreatest (BitVec.eq_of_toNat_eq ?_)
    have := exponent.isLt
    change exponent.toNat = 2047
    omega
  simp only [UnpackedFloat.pack, biased, if_neg bounded, if_pos full, BitVec.ofNat_toNat,
    BitVec.setWidth_eq]
  congr 1
  refine BitVec.eq_of_toNat_eq ?_
  rw [BitVec.toNat_setWidth, value]
  omega

/-- A word that is valid, as the words of doubles are, comes back from its number. -/
theorem pack_unpack (valid : Format.binary64.Valid word) :
    UnpackedFloat.pack .binary64 (UnpackedFloat.unpack .binary64 word) = word := by
  rw [UnpackedFloat.unpack]
  split
  · rename_i greatest
    split
    · rename_i zero
      exact pack_of_parts greatest zero
    · rename_i nonzero
      exact (valid.eq_packedNaN greatest nonzero).symm
  · rename_i notGreatest
    split
    · rename_i least
      split
      · rename_i zero
        exact pack_of_parts least zero
      · rename_i nonzero
        rw [pack_subnormal]
        · exact pack_of_parts least rfl
        · rw [least]
          rfl
    · exact (pack_normal notGreatest _).trans (packComponents_parts word)

theorem ofBits_toBits (x : Float) : Float.ofBits x.toBits = x := by
  obtain ⟨⟨bits, valid⟩⟩ := x
  have same : UInt64.ofBitVec (UnpackedFloat.pack .binary64
      (UnpackedFloat.unpack .binary64 bits.toBitVec)) = bits := by
    rw [pack_unpack valid]
  simp only [Float.ofBits, Float.toBits, Float.Model.ofBits, Float.Model.pack, same]

end Bits

/-- A double is its sign and its code. -/
theorem ofCode_code (x : Float) : ofCode (isNegative x) (code x) = x := by
  have bits : (if isNegative x then signPlace + code x else code x) = x.toBits.toNat := by
    have bound := x.toBits.toNat_lt
    simp only [isNegative, code, decide_eq_true_eq, show signPlace = 2 ^ 63 from rfl]
    split
    · omega
    · omega
  rw [ofCode, bits, UInt64.ofNat_toNat, ofBits_toBits]

end StepScript.Double
