import Mathlib.Data.Finmap
import Mathlib.Tactic.Common

/-!
# The last write to a key

A list of writes `(k, v)`, oldest first, and what it leaves at a key: the value of the last write to
it. A map that is built by inserting the writes in order looks up exactly this, and where no key is
written twice it is membership in the list.
-/

namespace LastWrite

/-- What a table of pairs has for a key is one of its pairs. -/
theorem mem_of_lookup_eq_some {κ ν : Type*} [BEq κ] [LawfulBEq κ] {l : List (κ × ν)} {k : κ} {v : ν}
    (h : l.lookup k = some v) : (k, v) ∈ l := by
  obtain ⟨l₁, l₂, heq, -⟩ := List.lookup_eq_some_iff.1 h
  rw [heq]
  exact List.mem_append_right l₁ List.mem_cons_self

/-- A write under another name of its key, where the key has one. -/
def rename {κ κ' ν : Type*} (f : κ → Option κ') (p : κ × ν) : Option (κ' × ν) :=
  (f p.1).map fun k => (k, p.2)

/-- Two names one after the other. -/
theorem rename_bind_rename {κ κ' κ'' ν : Type*} (f : κ → Option κ') (g : κ' → Option κ'')
    (p : κ × ν) : (rename f p).bind (rename g) = rename (fun k => (f k).bind g) p := by
  unfold rename
  dsimp only
  cases f p.1 <;> rfl

variable {κ ν : Type*} [DecidableEq κ] {k : κ} {v : ν} {l l' : List (κ × ν)}

/-- An element of a list with one more at its end is in the list, or it is the last one. -/
theorem append_singleton_eq_split {α : Type*} {l before after : List α} {a b : α}
    (h : l ++ [a] = before ++ b :: after) :
    (∃ after', l = before ++ b :: after') ∨ (l = before ∧ a = b) := by
  induction after using List.reverseRecOn with
  | nil =>
    obtain ⟨rfl, hlast⟩ := List.append_inj' h rfl
    exact .inr ⟨rfl, List.singleton_inj.1 hlast⟩
  | append_singleton after c _ =>
    have hassoc : before ++ b :: (after ++ [c]) = (before ++ b :: after) ++ [c] := by simp
    rw [hassoc] at h
    exact .inl ⟨after, (List.append_inj' h rfl).1⟩

/-- The value of the last write to `k`. -/
def lastWrite (k : κ) : List (κ × ν) → Option ν
  | [] => none
  | (k', v) :: l => (lastWrite k l).or (if k' = k then some v else none)

/-- Nothing has been written. -/
@[simp] theorem lastWrite_nil : lastWrite k ([] : List (κ × ν)) = none := rfl

/-- Later writes win. -/
theorem lastWrite_append : lastWrite k (l ++ l') = (lastWrite k l').or (lastWrite k l) := by
  induction l with
  | nil => simp
  | cons p l ih =>
    obtain ⟨k', v'⟩ := p
    rw [List.cons_append, lastWrite, ih, Option.or_assoc, lastWrite]

/-- What one more write leaves. -/
theorem lastWrite_concat (k' : κ) (v : ν) :
    lastWrite k (l ++ [(k', v)]) = if k' = k then some v else lastWrite k l := by
  rw [lastWrite_append]
  by_cases h : k' = k
  · simp [lastWrite, h]
  · simp [lastWrite, h]

/-- A change of the values changes the last one. -/
theorem lastWrite_map {ω : Type*} (f : ν → ω) :
    lastWrite k (l.map fun p => (p.1, f p.2)) = (lastWrite k l).map f := by
  induction l with
  | nil => rfl
  | cons p l ih =>
    obtain ⟨k', v'⟩ := p
    rw [List.map_cons, lastWrite, lastWrite, ih, Option.map_or]
    split_ifs <;> rfl

/-- A key has no value when it is never written. -/
theorem lastWrite_eq_none_iff : lastWrite k l = none ↔ ∀ p ∈ l, p.1 ≠ k := by
  induction l with
  | nil => simp
  | cons p l ih =>
    obtain ⟨k', v'⟩ := p
    rw [lastWrite, Option.or_eq_none_iff, ih, List.forall_mem_cons, and_comm]
    simp

/-- A key has a value when some write to it is not followed by another one. -/
theorem lastWrite_eq_some_iff :
    lastWrite k l = some v ↔ ∃ pre post, l = pre ++ (k, v) :: post ∧ ∀ p ∈ post, p.1 ≠ k := by
  constructor
  · intro h
    induction l with
    | nil => cases h
    | cons p l ih =>
      obtain ⟨k', v'⟩ := p
      rw [lastWrite] at h
      cases hl : lastWrite k l with
      | some w =>
        rw [hl, Option.some_or] at h
        obtain rfl := Option.some.inj h
        obtain ⟨pre, post, rfl, hpost⟩ := ih hl
        exact ⟨(k', v') :: pre, post, rfl, hpost⟩
      | none =>
        rw [hl, Option.none_or] at h
        split_ifs at h with hk
        obtain rfl := Option.some.inj h
        exact ⟨[], l, by rw [hk, List.nil_append], lastWrite_eq_none_iff.1 hl⟩
  · rintro ⟨pre, post, rfl, hpost⟩
    rw [lastWrite_append, lastWrite, lastWrite_eq_none_iff.2 hpost]
    simp

/-- Where no key is written twice, the last write is the write. -/
theorem lastWrite_eq_some_iff_mem (h : (l.map Prod.fst).Nodup) :
    lastWrite k l = some v ↔ (k, v) ∈ l := by
  rw [lastWrite_eq_some_iff]
  constructor
  · rintro ⟨pre, post, rfl, -⟩
    simp
  · intro hmem
    obtain ⟨pre, post, rfl⟩ := List.append_of_mem hmem
    refine ⟨pre, post, rfl, fun p hp hk => ?_⟩
    rw [List.map_append, List.map_cons, List.nodup_middle, List.nodup_cons] at h
    have hkey : p.1 ∈ post.map Prod.fst := List.mem_map_of_mem hp
    rw [hk] at hkey
    exact h.1 (List.mem_append_right _ hkey)

/-- The last write under a new name is the last write of one of the keys with that name. -/
theorem lastWrite_rename {κ' : Type*} [DecidableEq κ'] {f : κ → Option κ'} {k' : κ'}
    (h : lastWrite k' (l.filterMap (rename f)) = some v) :
    ∃ k, f k = some k' ∧ lastWrite k l = some v := by
  induction l with
  | nil => cases h
  | cons p l ih =>
    obtain ⟨k, w⟩ := p
    by_cases hlater : ∃ v', lastWrite k' (l.filterMap (rename f)) = some v'
    · -- a later write decides
      obtain ⟨v', hv'⟩ := hlater
      have hsame : v' = v := by
        cases hname : f k <;> simpa [rename, hname, lastWrite, hv'] using h
      obtain ⟨k₀, hk₀, hlast⟩ := ih (hsame ▸ hv')
      exact ⟨k₀, hk₀, by rw [lastWrite, hlast, Option.some_or]⟩
    · have hnone : lastWrite k' (l.filterMap (rename f)) = none := by
        rw [Option.eq_none_iff_forall_ne_some]
        exact fun v' hv' => hlater ⟨v', hv'⟩
      cases hname : f k with
      | none => simp [rename, hname, hnone] at h
      | some k₁ =>
        obtain ⟨rfl, rfl⟩ : k₁ = k' ∧ w = v := by
          simpa [rename, hname, lastWrite, hnone] using h
        refine ⟨k, hname, ?_⟩
        -- nothing is written to the key later: it would be under the new name
        have hkey : lastWrite k l = none := by
          rw [lastWrite_eq_none_iff] at hnone ⊢
          rintro ⟨k₂, w₂⟩ hmem rfl
          exact hnone (k₁, w₂) (List.mem_filterMap.2 ⟨_, hmem, by simp [rename, hname]⟩) rfl
        rw [lastWrite, hkey, Option.none_or, if_pos rfl]

/-- The map that is built by inserting the writes in order. -/
def build (l : List (κ × ν)) : Finmap fun _ : κ => ν := l.foldl (fun m p => m.insert p.1 p.2) ∅

/-- It holds the last write to each key. -/
theorem lookup_build (k : κ) (l : List (κ × ν)) : (build l).lookup k = lastWrite k l := by
  have hfold : ∀ m : Finmap fun _ : κ => ν,
      (l.foldl (fun m p => m.insert p.1 p.2) m).lookup k = (lastWrite k l).or (m.lookup k) := by
    induction l with
    | nil => simp
    | cons p l ih =>
      intro m
      obtain ⟨k', v'⟩ := p
      rw [List.foldl_cons, ih, lastWrite, Option.or_assoc]
      by_cases hk : k' = k
      · subst hk
        simp
      · rw [if_neg hk, Option.none_or, Finmap.lookup_insert_of_ne _ (Ne.symm hk)]
  rw [build, hfold, Finmap.lookup_empty, Option.or_none]

end LastWrite
