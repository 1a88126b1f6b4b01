import StepScript.Expr.Arithmetic
import StepScript.Proofs.DoubleOrder

/-! Infinity. Operations on it give infinity or no number, and it is equal to no integer. -/
namespace StepScript.Double

open Float.Model UnpackedFloat

variable {x y z r : Float}

theorem beq_iff (numberX : isNaN x = false) (numberY : isNaN y = false) :
    (x == y) = true ↔ signedUnits x = signedUnits y := by
  change (x.toModel.unpack.compare y.toModel.unpack == some .eq) = true ↔ _
  rw [compare_signedUnits numberX numberY]
  simp

/-- Only numbers are equal to anything. -/
theorem number_of_beq (same : (x == y) = true) : isNaN x = false ∧ isNaN y = false := by
  change (x.toModel.unpack.compare y.toModel.unpack == some .eq) = true at same
  have unpacked : nan.toModel.unpack = .notANumber := rfl
  constructor
  · by_contra none
    rw [eq_nan (Bool.not_eq_false _ ▸ none : isNaN x = true), unpacked] at same
    cases same
  · by_contra none
    rw [eq_nan (Bool.not_eq_false _ ▸ none : isNaN y = true), unpacked] at same
    cases unpack : x.toModel.unpack <;> rw [unpack] at same <;> cases same

theorem unpack_infinite (infinite : isInfinite x = true) :
    ∃ sign, x.toModel.unpack = .infinity sign := by
  have greatest : Double.code x = infinityCode := beq_iff_eq.mp infinite
  have number : isNaN x = false := by simp [isNaN, greatest]
  have unpacked := unpacks number
  rw [greatest] at unpacked
  generalize x.toModel.unpack = u at unpacked
  cases unpacked with
  | infinity => exact ⟨_, rfl⟩
  | zero least => cases least
  | finite _ finite => exact absurd finite (Nat.lt_irrefl _)

/-- Infinity of some sign, or no number. -/
def Exceptional (u : UnpackedFloat) : Prop :=
  u = .notANumber ∨ ∃ sign, u = .infinity sign

theorem exceptional_add (sign : Sign) (u : UnpackedFloat) :
    Exceptional (UnpackedFloat.add .binary64 (.infinity sign) u) := by
  cases u with
  | infinity other =>
    rw [UnpackedFloat.add]
    split
    · exact .inr ⟨_, rfl⟩
    · exact .inl rfl
  | notANumber => exact .inl rfl
  | zero | finite => exact .inr ⟨_, rfl⟩

theorem exceptional_sub (sign : Sign) (u : UnpackedFloat) :
    Exceptional (UnpackedFloat.sub .binary64 (.infinity sign) u) := by
  cases u with
  | infinity other =>
    rw [UnpackedFloat.sub]
    split
    · exact .inr ⟨_, rfl⟩
    · exact .inl rfl
  | notANumber => exact .inl rfl
  | zero | finite => exact .inr ⟨_, rfl⟩

theorem exceptional_mul (sign : Sign) (u : UnpackedFloat) :
    Exceptional (UnpackedFloat.mul .binary64 (.infinity sign) u) := by
  cases u with
  | notANumber | zero => exact .inl rfl
  | infinity | finite => exact .inr ⟨_, rfl⟩

theorem exceptional_div (sign : Sign) (u : UnpackedFloat) :
    Exceptional (UnpackedFloat.div .binary64 (.infinity sign) u) := by
  cases u with
  | notANumber | infinity => exact .inl rfl
  | zero | finite => exact .inr ⟨_, rfl⟩

/-- An operation on infinity gives infinity if it gives a number. -/
theorem infinite_of_apply {op : Arithmetic.Operator} (infinite : isInfinite x = true)
    (done : Arithmetic.doubles.apply op x z = .ok r) (number : isNaN r = false) :
    isInfinite r = true := by
  obtain ⟨sign, unpack⟩ := unpack_infinite infinite
  have packed : ∃ u, Exceptional u ∧ r = .ofModel (.pack u) := by
    cases op with
    | add =>
      cases done
      exact ⟨_, unpack ▸ exceptional_add sign z.toModel.unpack, rfl⟩
    | sub =>
      cases done
      exact ⟨_, unpack ▸ exceptional_sub sign z.toModel.unpack, rfl⟩
    | mul =>
      cases done
      exact ⟨_, unpack ▸ exceptional_mul sign z.toModel.unpack, rfl⟩
    | div =>
      cases done
      exact ⟨_, unpack ▸ exceptional_div sign z.toModel.unpack, rfl⟩
  obtain ⟨_, rfl | ⟨sign, rfl⟩, rfl⟩ := packed
  · cases number
  · cases sign <;> rfl

section Equal

theorem isInfinite_of_not_isFinite (number : isNaN x = false) (infinite : isFinite x = false) :
    isInfinite x = true := by
  simp only [isNaN, isFinite, isInfinite, decide_eq_false_iff_not, beq_iff_eq] at *
  omega

theorem natAbs_signedUnits (x : Float) : (signedUnits x).natAbs = unitsOfCode (code x) := by
  rw [signedUnits]
  split <;> simp

/-- Doubles that are equal are infinite together. -/
theorem isInfinite_of_beq (same : (x == y) = true) : isInfinite x = isInfinite y := by
  obtain ⟨numberX, numberY⟩ := number_of_beq same
  have units := congrArg Int.natAbs ((beq_iff numberX numberY).mp same)
  rw [natAbs_signedUnits, natAbs_signedUnits] at units
  rw [isInfinite, isInfinite, unitsOfCode_strictMono.injective units]

theorem isInfinite_ofInt (n : Int64) : isInfinite (ofInt n.toInt) = false := by
  have low := n.le_toInt
  have high := n.toInt_lt
  obtain ⟨finite, _⟩ := unitsOfCode_nearestCode (show n.toInt.natAbs ≤ 2 ^ 63 by omega)
  rw [isInfinite, ofInt, code_ofCode finite.le]
  exact beq_false_of_ne finite.ne

end Equal
end StepScript.Double
