import Mathlib.Algebra.BigOperators.Group.List.Basic
import Mathlib.Algebra.Order.Ring.Nat
import Mathlib.Data.Nat.Count
import Mathlib.Tactic.Common

/-!
# Rank and packed values

A bit map selects some of the indices below a bound, and the values of these indices are packed:
they stand one after the other, in the order of the indices. The value of a selected index is at its
rank, the number of selected indices below it (`Nat.count`).
-/

namespace Rank

variable {β : Type*} {p : ℕ → Bool} {n i a : ℕ}

/-- The selected indices below a bound. -/
def selected (p : ℕ → Bool) (n : ℕ) : List ℕ := (List.range n).filter p

/-- The numbers that are selected below the next one. -/
theorem selected_succ (p : ℕ → Bool) (n : ℕ) :
    selected p (n + 1) = selected p n ++ if p n then [n] else [] := by
  unfold selected
  rw [List.range_succ, List.filter_append]
  cases h : p n <;> simp [h]

/-- So many numbers are selected. -/
@[simp] theorem length_selected (p : ℕ → Bool) (n : ℕ) :
    (selected p n).length = Nat.count (p ·) n := by
  rw [selected, Nat.count, List.countP_eq_length_filter]
  simp

/-- The selected indices are in increasing order. -/
theorem pairwise_selected (p : ℕ → Bool) (n : ℕ) : (selected p n).Pairwise (· < ·) :=
  List.pairwise_lt_range.filter p

/-- A larger bound leaves the indices below a smaller one in front. -/
theorem selected_prefix {m : ℕ} (h : m ≤ n) : selected p m <+: selected p n := by
  have hrange : List.range m <+: List.range n := by
    rw [← Nat.min_eq_left h, ← List.take_range]
    exact List.take_prefix ..
  exact hrange.filter p

/-- A selected index is at the position of its rank. -/
theorem getElem?_selected_count (hlt : a < n) (hp : p a) :
    (selected p n)[Nat.count (p ·) a]? = some a := by
  have hpre : selected p a ++ [a] <+: selected p n := by
    have h := selected_prefix (p := p) (Nat.succ_le_of_lt hlt)
    rwa [selected_succ, if_pos hp] at h
  obtain ⟨rest, hrest⟩ := hpre
  rw [← hrest, List.append_assoc, ← length_selected, List.getElem?_append_right le_rfl,
    Nat.sub_self]
  rfl

/-- At the position `i` is the selected index of rank `i`. -/
theorem getElem?_selected : (selected p n)[i]? = some a ↔ a < n ∧ p a ∧ Nat.count (p ·) a = i := by
  constructor
  · intro h
    obtain ⟨hlt, hp⟩ := List.mem_filter.1 (List.mem_of_getElem? h)
    rw [List.mem_range] at hlt
    refine ⟨hlt, hp, ?_⟩
    -- no index is selected twice
    have hnodup : (selected p n).Nodup := (pairwise_selected p n).imp ne_of_lt
    have hi := (List.getElem?_eq_some_iff.1 h).1
    exact ((List.getElem?_inj hi hnodup).1 (h.trans (getElem?_selected_count hlt hp).symm)).symm
  · rintro ⟨hlt, hp, rfl⟩
    exact getElem?_selected_count hlt hp

/-- The pairs of the selected indices and their packed values are in increasing order. -/
theorem pairwise_zip (p : ℕ → Bool) (n : ℕ) (values : List β) :
    ((selected p n).zip values).Pairwise fun x y => x.1 < y.1 := by
  rw [List.pairwise_iff_getElem]
  intro i j hi hj hij
  rw [List.getElem_zip, List.getElem_zip]
  exact List.pairwise_iff_getElem.1 (pairwise_selected p n) i j _ _ hij

/-- A selected index is paired with the value at its rank, if there is one. -/
theorem mem_zip_iff {values : List β} {v : β} :
    (a, v) ∈ (selected p n).zip values ↔ a < n ∧ p a ∧ values[Nat.count (p ·) a]? = some v := by
  rw [List.mem_iff_getElem?]
  constructor
  · rintro ⟨i, hi⟩
    obtain ⟨hindex, hvalue⟩ := List.getElem?_zip_eq_some.1 hi
    obtain ⟨hlt, hp, rfl⟩ := getElem?_selected.1 hindex
    exact ⟨hlt, hp, hvalue⟩
  · rintro ⟨hlt, hp, hvalue⟩
    exact ⟨_, List.getElem?_zip_eq_some.2 ⟨getElem?_selected.2 ⟨hlt, hp, rfl⟩, hvalue⟩⟩

/-- The rank of an index in the block `w` of `k` indices: what is selected in the blocks before, and
below it in its own block. -/
theorem count_blocks (p : ℕ → Bool) (k w b : ℕ) :
    Nat.count (p ·) (k * w + b) =
      ((List.range w).map fun i => Nat.count (fun j => p (k * i + j)) k).sum +
        Nat.count (fun j => p (k * w + j)) b := by
  rw [Nat.count_add, Nat.add_right_cancel_iff]
  induction w with
  | zero => simp
  | succ w ih =>
    rw [Nat.mul_succ, Nat.count_add, ih, List.range_succ, List.map_append, List.sum_append,
      List.map_singleton, List.sum_singleton]

end Rank
