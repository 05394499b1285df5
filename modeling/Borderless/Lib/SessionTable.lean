import Mathlib.Logic.Function.Basic
import Mathlib.Tactic.Common

/-!
# Tables of the current session of each peer

Sessions of peers are numbered in the order in which they are installed, and a table holds for each
peer the number of its current session. A new session of a peer replaces the entry of the peer. An
operation `remove` takes a peer's entry out, whichever session it names.

The table is `Registered` when the newest session of each peer, as long as it is open, is the
current one. Installing a session and closing one keep this; removing a peer keeps it exactly when
the newest session of the peer is closed (`registered_remove_iff`).
-/

/-- A table of the current session of each peer. -/
structure SessionTable (κ : Type*) where
  /-- The current session of a peer. -/
  current : κ → Option ℕ
  /-- The sessions in the order of their numbers: the peer, and whether the session is open. -/
  sessions : List (κ × Bool)

namespace SessionTable

variable {κ : Type*}

/-- The session `i` is the newest of the peer `p`. -/
def IsNewest (T : SessionTable κ) (i : ℕ) (p : κ) : Prop :=
  ∀ j x, i < j → T.sessions[j]? = some x → x.1 ≠ p

/-- The newest session of a peer, if it is open, is its current session. -/
def Registered (T : SessionTable κ) : Prop :=
  ∀ i p, T.sessions[i]? = some (p, true) → T.IsNewest i p → T.current p = some i

/-- Close the session `i`. -/
def close (T : SessionTable κ) (i : ℕ) : SessionTable κ :=
  { T with sessions := T.sessions.modify i fun x => (x.1, false) }

variable [DecidableEq κ]

/-- Install a session of `p`. -/
def install (T : SessionTable κ) (p : κ) : SessionTable κ where
  current := Function.update T.current p (some T.sessions.length)
  sessions := T.sessions ++ [(p, true)]

/-- Remove the entry of `p`. -/
def remove (T : SessionTable κ) (p : κ) : SessionTable κ :=
  { T with current := Function.update T.current p none }

/-- A new session is registered, and so are those of the other peers. -/
theorem registered_install {T : SessionTable κ} (h : T.Registered) (p : κ) :
    (T.install p).Registered := by
  intro i q hi hnewest
  have hlen : i < T.sessions.length ∨ i = T.sessions.length := by
    have hlt := (List.getElem?_eq_some_iff.1 hi).1
    simp only [install, List.length_append, List.length_singleton] at hlt
    omega
  rcases hlen with hlt | rfl
  · -- an older session that is still the newest of its peer is of another peer
    have hold : T.sessions[i]? = some (q, true) := by
      rw [← hi]
      exact (List.getElem?_append_left hlt).symm
    have hne : q ≠ p := fun hq =>
      hnewest T.sessions.length (p, true) hlt List.getElem?_concat_length hq.symm
    have hnewest' : T.IsNewest i q := by
      intro j x hij hj
      refine hnewest j x hij ?_
      have hjlt := (List.getElem?_eq_some_iff.1 hj).1
      exact (List.getElem?_append_left hjlt).trans hj
    have hcurrent := h i q hold hnewest'
    simp only [install, Function.update_of_ne hne]
    exact hcurrent
  · have hq : (p, true) = (q, true) := by
      have hlast : (T.install p).sessions[T.sessions.length]? = some (p, true) :=
        List.getElem?_concat_length
      exact Option.some.inj (hlast.symm.trans hi)
    obtain rfl := (Prod.mk.inj hq).1
    exact Function.update_self ..

omit [DecidableEq κ] in
/-- A session that is open after closing one was so before. -/
theorem getElem?_close {T : SessionTable κ} {i j : ℕ} {p : κ}
    (h : (T.close i).sessions[j]? = some (p, true)) : T.sessions[j]? = some (p, true) := by
  simp only [close, List.getElem?_modify, Option.map_eq_map, Option.map_eq_some_iff] at h
  obtain ⟨x, hx, hxp⟩ := h
  split_ifs at hxp
  · cases hxp
  · rw [hx, hxp]

omit [DecidableEq κ] in
/-- Closing a session changes the peer of none. -/
theorem isNewest_close {T : SessionTable κ} {i j : ℕ} {p : κ} (h : (T.close i).IsNewest j p) :
    T.IsNewest j p := by
  intro k x hjk hk
  have hmodify : (T.close i).sessions[k]? = some (if i = k then (x.1, false) else x) := by
    simp only [close, List.getElem?_modify, hk, Option.map_eq_map, Option.map_some]
  have hne := h k _ hjk hmodify
  split_ifs at hne <;> exact hne

omit [DecidableEq κ] in
/-- Closing a session keeps the open ones registered. -/
theorem registered_close {T : SessionTable κ} (h : T.Registered) (i : ℕ) :
    (T.close i).Registered :=
  fun j p hj hnewest => h j p (getElem?_close hj) (isNewest_close hnewest)

/-- Removing a peer keeps the table registered if and only if the newest session of the peer is not
open. -/
theorem registered_remove_iff {T : SessionTable κ} (h : T.Registered) (p : κ) :
    (T.remove p).Registered ↔ ¬ ∃ i, T.sessions[i]? = some (p, true) ∧ T.IsNewest i p := by
  constructor
  · rintro hremove ⟨i, hi, hnewest⟩
    have hcurrent := hremove i p hi hnewest
    simp [remove] at hcurrent
  · intro hclosed i q hi hnewest
    have hne : q ≠ p := by
      rintro rfl
      exact hclosed ⟨i, hi, hnewest⟩
    simp only [remove, Function.update_of_ne hne]
    exact h i q hi hnewest

/-! ## The entries name sessions of their peers -/

/-- Every entry is a session of its peer. -/
def Owned (T : SessionTable κ) : Prop :=
  ∀ p i, T.current p = some i → ∃ isOpen, T.sessions[i]? = some (p, isOpen)

/-- A new session is of its peer. -/
theorem owned_install {T : SessionTable κ} (h : T.Owned) (p : κ) : (T.install p).Owned := by
  intro q i hq
  by_cases hpeer : q = p
  · subst hpeer
    simp only [install, Function.update_self] at hq
    obtain rfl := Option.some.inj hq
    exact ⟨true, List.getElem?_concat_length⟩
  · simp only [install, Function.update_of_ne hpeer] at hq
    obtain ⟨isOpen, hi⟩ := h q i hq
    have hlt := (List.getElem?_eq_some_iff.1 hi).1
    exact ⟨isOpen, (List.getElem?_append_left hlt).trans hi⟩

omit [DecidableEq κ] in
/-- A session that is closed stays of its peer. -/
theorem owned_close {T : SessionTable κ} (h : T.Owned) (i : ℕ) : (T.close i).Owned := by
  intro p j hj
  obtain ⟨isOpen, hsession⟩ := h p j hj
  refine ⟨if i = j then false else isOpen, ?_⟩
  simp only [close, List.getElem?_modify, hsession, Option.map_eq_map, Option.map_some]
  split_ifs <;> rfl

/-- Removing an entry leaves the others. -/
theorem owned_remove {T : SessionTable κ} (h : T.Owned) (p : κ) : (T.remove p).Owned := by
  intro q i hq
  by_cases hpeer : q = p
  · subst hpeer
    simp [remove] at hq
  · simp only [remove, Function.update_of_ne hpeer] at hq
    exact h q i hq

end SessionTable
