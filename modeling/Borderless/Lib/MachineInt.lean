import Mathlib.Algebra.Order.Ring.Int
import Mathlib.Tactic.Common

/-!
# Machine integers against integers

When the operations of `Int32` are those of the integers. `Fits z` says that an integer is in the
range of an `i32`. A sum, a negation or a product is the exact one precisely when the exact one fits
(`toInt_add_eq_iff`, `toInt_neg_eq_iff`, `toInt_mul_eq_iff`), which is when the operation does not
overflow. A narrowing to 16 bits keeps the sign of some integers outside of its range, too
(`sign_bmod_eq_iff`).
-/

namespace MachineInt

/-- The integer is in the range of an `i32`. -/
def Fits (z : ℤ) : Prop := -2^31 ≤ z ∧ z < 2^31

instance : DecidablePred Fits := fun _ => inferInstanceAs (Decidable (_ ∧ _))

/-- An integer is its own residue when it fits. -/
theorem bmod_eq_self_iff {z : ℤ} : z.bmod (2^32) = z ↔ Fits z := by
  unfold Fits
  rw [Int.bmod_def]
  split <;> omega

/-- The sixteen low bits of an integer, read as a signed number, have its sign: those of a positive
one are below `2^15` and not zero, and those of a negative one are at least `2^15`. -/
def KeepsSign16 (z : ℤ) : Prop :=
  (0 < z → 0 < z % 2^16 ∧ z % 2^16 < 2^15) ∧ (z < 0 → 2^15 ≤ z % 2^16)

instance : DecidablePred KeepsSign16 := fun _ => inferInstanceAs (Decidable (_ ∧ _))

/-- A narrowing to an `i16` keeps the sign exactly when the low bits have it. -/
theorem sign_bmod_eq_iff {z : ℤ} : (z.bmod (2^16)).sign = z.sign ↔ KeepsSign16 z := by
  have hrange : (z.bmod (2^16) = z % 2^16 ∧ z % 2^16 < 2^15) ∨
      (z.bmod (2^16) = z % 2^16 - 2^16 ∧ 2^15 ≤ z % 2^16) := by
    rw [Int.bmod_def]
    split <;> omega
  unfold KeepsSign16
  rcases lt_trichotomy z 0 with hneg | rfl | hpos
  · rw [Int.sign_eq_neg_one_of_neg hneg, Int.sign_eq_neg_one_iff_neg]
    omega
  · simp
  · rw [Int.sign_eq_one_of_pos hpos, Int.sign_eq_one_iff_pos]
    omega

section Operations

variable (a b : Int32)

/-- A sum is exact when it does not overflow. -/
theorem toInt_add_eq_iff : (a + b).toInt = a.toInt + b.toInt ↔ Fits (a.toInt + b.toInt) := by
  rw [Int32.toInt_add, bmod_eq_self_iff]

/-- A negation is exact when it does not overflow. -/
theorem toInt_neg_eq_iff : (-a).toInt = -a.toInt ↔ Fits (-a.toInt) := by
  rw [Int32.toInt_neg, bmod_eq_self_iff]

/-- A product is exact when it does not overflow. -/
theorem toInt_mul_eq_iff : (a * b).toInt = a.toInt * b.toInt ↔ Fits (a.toInt * b.toInt) := by
  rw [Int32.toInt_mul, bmod_eq_self_iff]

/-- The half of a nonnegative integer. -/
theorem toInt_half (h : 0 ≤ a.toInt) : (a / 2).toInt = a.toInt / 2 := by
  have htwo : (2 : Int32).toInt = 2 := by decide
  rw [Int32.toInt_div_of_ne_right _ _ (by decide), htwo, Int.tdiv_eq_ediv_of_nonneg h]

/-- An unsigned integer in the range keeps its value as a signed one. -/
theorem toInt_toInt32 {n : UInt32} (h : n.toNat < 2^31) : n.toInt32.toInt = n.toNat := by
  have hmsb : 2 * n.toBitVec.toNat < 2^32 := by
    rw [UInt32.toNat_toBitVec]
    omega
  show n.toBitVec.toInt = n.toNat
  rw [BitVec.toInt_eq_toNat_of_lt hmsb, UInt32.toNat_toBitVec]

/-- An unsigned integer out of the range is negative as a signed one. -/
theorem toInt_toInt32_neg {n : UInt32} (h : 2^31 ≤ n.toNat) : n.toInt32.toInt < 0 := by
  have hlt := n.toNat_lt
  show n.toBitVec.toInt < 0
  rw [BitVec.toInt_eq_toNat_cond, UInt32.toNat_toBitVec, if_neg (by omega)]
  omega

end Operations

end MachineInt
