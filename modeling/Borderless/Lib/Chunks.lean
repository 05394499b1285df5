import Mathlib.Data.List.Defs
import Mathlib.Data.Nat.Init
import Mathlib.Tactic.Common

/-!
# Chunks of a list

What `List.toChunks` computes: chunks that are the list when they are put together again
(`flatten_toChunks`), as many as the length divided by the size of a chunk, rounded up
(`length_toChunks`), none of them empty or over the size (`mem_toChunks`).
-/

namespace List

variable {α : Type*}

/-- The loop of `toChunks` keeps what it has collected and appends the rest. -/
theorem flatten_toChunks_go (n : ℕ) (xs : List α) (chunk : Array α) (chunks : Array (List α)) :
    (toChunks.go n xs chunk chunks).flatten = chunks.toList.flatten ++ chunk.toList ++ xs := by
  induction xs generalizing chunk chunks with
  | nil => simp [toChunks.go]
  | cons x xs ih =>
    unfold toChunks.go
    split_ifs
    · rw [ih]
      simp
    · rw [ih]
      simp

/-- The chunks put together are the list. -/
theorem flatten_toChunks (n : ℕ) (xs : List α) : (xs.toChunks n).flatten = xs := by
  cases xs with
  | nil =>
    unfold toChunks
    rfl
  | cons x xs =>
    cases n with
    | zero => simp [toChunks]
    | succ n =>
      show (toChunks.go (n + 1) xs #[x] #[]).flatten = x :: xs
      rw [flatten_toChunks_go]
      rfl

/-- The loop of `toChunks` fills every chunk but the last. -/
theorem length_toChunks_go {n : ℕ} (xs : List α) (chunk : Array α) (chunks : Array (List α))
    (hpos : 0 < chunk.size) (hle : chunk.size ≤ n) :
    (toChunks.go n xs chunk chunks).length =
      chunks.size + (chunk.size + xs.length + n - 1) / n := by
  induction xs generalizing chunk chunks with
  | nil =>
    have hone : (chunk.size + n - 1) / n = 1 := Nat.div_eq_of_lt_le (by omega) (by omega)
    simp [toChunks.go, hone]
  | cons x xs ih =>
    unfold toChunks.go
    split_ifs with hfull
    · -- a full chunk takes `n` elements away
      have hsize : chunk.size = n := by simpa using hfull
      rw [ih _ _ (by simp) (by simp; omega)]
      have hdiv : (chunk.size + (x :: xs).length + n - 1) / n = (1 + xs.length + n - 1) / n + 1 := by
        rw [← Nat.add_div_right _ (by omega)]
        congr 1
        simp only [List.length_cons]
        omega
      rw [hdiv]
      simp
      omega
    · have hroom : chunk.size ≠ n := by simpa using hfull
      rw [ih _ _ (by simp) (by simp; omega)]
      simp only [Array.size_push, List.length_cons]
      congr 2
      omega

/-- There are as many chunks as the length divided by the size, rounded up. -/
theorem length_toChunks {n : ℕ} (hn : 0 < n) (xs : List α) :
    (xs.toChunks n).length = (xs.length + n - 1) / n := by
  cases xs with
  | nil =>
    have hzero : (0 + n - 1) / n = 0 := Nat.div_eq_of_lt (by omega)
    simp only [List.length_nil, hzero]
    unfold toChunks
    rfl
  | cons x xs =>
    cases n with
    | zero => omega
    | succ n =>
      show (toChunks.go (n + 1) xs #[x] #[]).length = _
      rw [length_toChunks_go _ _ _ (by simp) (by simp)]
      simp only [List.size_toArray, List.length_cons, List.length_nil]
      rw [Nat.zero_add]
      congr 2
      omega

/-- The loop of `toChunks` adds no chunk that is empty or over the size. -/
theorem mem_toChunks_go {n : ℕ} (xs : List α) (chunk : Array α) (chunks : Array (List α))
    (hpos : 0 < chunk.size) (hle : chunk.size ≤ n)
    (hchunks : ∀ c ∈ chunks.toList, c ≠ [] ∧ c.length ≤ n) :
    ∀ c ∈ toChunks.go n xs chunk chunks, c ≠ [] ∧ c.length ≤ n := by
  have hchunk : chunk.toList ≠ [] ∧ chunk.toList.length ≤ n := by
    rw [← length_pos_iff, Array.length_toList]
    exact ⟨hpos, hle⟩
  have hpush : ∀ c ∈ (chunks.push chunk.toList).toList, c ≠ [] ∧ c.length ≤ n := by
    rw [Array.toList_push, forall_mem_append, forall_mem_singleton]
    exact ⟨hchunks, hchunk⟩
  induction xs generalizing chunk chunks with
  | nil =>
    unfold toChunks.go
    exact hpush
  | cons x xs ih =>
    unfold toChunks.go
    split_ifs with hfull
    · -- the full chunk goes to the others, and the next one starts with one element
      have hone : (#[x] : Array α).toList ≠ [] ∧ (#[x] : Array α).toList.length ≤ n := by
        simp
        omega
      refine ih _ _ (by simp) (by simp; omega) hpush hone ?_
      rw [Array.toList_push, forall_mem_append, forall_mem_singleton]
      exact ⟨hpush, hone⟩
    · have hroom : chunk.size ≠ n := by simpa using hfull
      have hmore : (chunk.push x).toList ≠ [] ∧ (chunk.push x).toList.length ≤ n := by
        simp
        omega
      refine ih _ _ (by simp) (by simp; omega) hchunks hmore ?_
      rw [Array.toList_push, forall_mem_append, forall_mem_singleton]
      exact ⟨hchunks, hmore⟩

/-- No chunk is empty or over the size. -/
theorem mem_toChunks {n : ℕ} (hn : 0 < n) {xs c : List α} (h : c ∈ xs.toChunks n) :
    c ≠ [] ∧ c.length ≤ n := by
  cases xs with
  | nil => simp [toChunks] at h
  | cons x xs =>
    cases n with
    | zero => omega
    | succ n => exact mem_toChunks_go xs #[x] #[] (by simp) (by simp) (by simp) c h

end List
