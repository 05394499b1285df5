import Mathlib.Algebra.BigOperators.Group.List.Basic
import Mathlib.Algebra.Order.Floor.Ring
import Mathlib.Tactic.Common
import Mathlib.Tactic.Linarith

/-!
# Rounding toward zero

Rounding toward zero commutes with the negation, and rounding down does not: the two differ on the
negative numbers that are not whole (`floor_eq_truncate_iff`), and a number that is not whole loses
one when it and its negation are rounded down (`floor_add_floor_neg_eq_zero_iff`). The quotients of
integers that are rounded toward zero lose the remainders, and these add up (`sum_tdiv_add_tmod`).
-/

namespace Truncation

section Floor

variable {α : Type*} [Ring α] [LinearOrder α] [IsStrictOrderedRing α] [FloorRing α] {a : α}

/-- The integer next to a number on the side of zero. -/
def truncate (a : α) : ℤ := if 0 ≤ a then ⌊a⌋ else ⌈a⌉

/-- The integers above and below are the same one when the number is whole. -/
theorem floor_eq_ceil_iff : ⌊a⌋ = ⌈a⌉ ↔ Int.fract a = 0 := by
  constructor
  · intro h
    have hle : a ≤ ⌊a⌋ := h ▸ Int.le_ceil a
    rw [Int.fract, sub_eq_zero]
    exact le_antisymm hle (Int.floor_le a)
  · intro h
    obtain ⟨z, rfl⟩ := Int.fract_eq_zero_iff.1 h
    rw [Int.floor_intCast, Int.ceil_intCast]

/-- Rounding down is rounding toward zero except for the negative numbers that are not whole. -/
theorem floor_eq_truncate_iff : ⌊a⌋ = truncate a ↔ (a < 0 → Int.fract a = 0) := by
  unfold truncate
  by_cases h : 0 ≤ a
  · rw [if_pos h]
    exact iff_of_true rfl fun hneg => absurd h (not_le.2 hneg)
  · rw [if_neg h, floor_eq_ceil_iff]
    exact ⟨fun hfract _ => hfract, fun hfract => hfract (not_le.1 h)⟩

/-- Rounding a number and its negation down loses something. -/
theorem floor_add_floor_neg_nonpos (a : α) : ⌊a⌋ + ⌊-a⌋ ≤ 0 := by
  have hle := Int.floor_le_ceil a
  rw [Int.floor_neg]
  omega

/-- Nothing is lost when the number is whole. -/
theorem floor_add_floor_neg_eq_zero_iff : ⌊a⌋ + ⌊-a⌋ = 0 ↔ Int.fract a = 0 := by
  rw [Int.floor_neg, ← sub_eq_add_neg, sub_eq_zero, floor_eq_ceil_iff]

/-- A number is whole when both it and its negation, where they are negative, are. -/
theorem fract_eq_zero_iff_of_neg :
    Int.fract a = 0 ↔ (a < 0 → Int.fract a = 0) ∧ (-a < 0 → Int.fract (-a) = 0) := by
  constructor
  · intro h
    exact ⟨fun _ => h, fun _ => Int.fract_neg_eq_zero.2 h⟩
  · rintro ⟨hneg, hpos⟩
    rcases lt_trichotomy a 0 with h | rfl | h
    · exact hneg h
    · exact Int.fract_zero
    · exact Int.fract_neg_eq_zero.1 (hpos (neg_neg_of_pos h))

/-- Rounding the numbers of a list and their negations down loses something. -/
theorem sum_floor_add_sum_floor_neg_nonpos (l : List α) :
    (l.map Int.floor).sum + (l.map fun a => ⌊-a⌋).sum ≤ 0 := by
  induction l with
  | nil => simp
  | cons a l ih =>
    have ha := floor_add_floor_neg_nonpos a
    rw [List.map_cons, List.map_cons, List.sum_cons, List.sum_cons]
    omega

/-- Nothing is lost when all of the numbers are whole. -/
theorem sum_floor_add_sum_floor_neg_eq_zero_iff (l : List α) :
    (l.map Int.floor).sum + (l.map fun a => ⌊-a⌋).sum = 0 ↔ ∀ a ∈ l, Int.fract a = 0 := by
  induction l with
  | nil => simp
  | cons a l ih =>
    have ha := floor_add_floor_neg_nonpos a
    have hl := sum_floor_add_sum_floor_neg_nonpos l
    rw [List.forall_mem_cons, ← ih, ← floor_add_floor_neg_eq_zero_iff, List.map_cons,
      List.map_cons, List.sum_cons, List.sum_cons]
    omega

end Floor

section Quotient

/-- What the quotients of a list have lost are the remainders. -/
theorem sum_tdiv_add_tmod (n : ℤ) (zs : List ℤ) :
    n * (zs.map (·.tdiv n)).sum + (zs.map (·.tmod n)).sum = zs.sum := by
  induction zs with
  | nil => simp
  | cons z zs ih =>
    have hz := Int.mul_tdiv_add_tmod z n
    rw [List.map_cons, List.map_cons, List.sum_cons, List.sum_cons, List.sum_cons, mul_add]
    linarith

end Quotient

end Truncation
