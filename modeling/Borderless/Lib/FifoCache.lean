import Mathlib.Algebra.Order.Ring.Nat
import Mathlib.Data.List.Sigma
import Mathlib.Data.Nat.Find
import Mathlib.Tactic.Common

/-!
# FIFO caches with a weight budget

The reference model of a cache that evicts its oldest entries. A `FifoCache` is the list of its
entries, the oldest first, with no key twice. A new entry goes to the end, after the shortest prefix
of the list has gone whose removal makes room for it under the budget (`FifoCache.dropCount`).

`makeRoom_cons` gives the eviction as a loop that pops one entry at a time, which is how an
implementation does it. `weight_insert_le` and `weight_insert_of_lt` are the two cases of the budget:
an entry within the budget keeps the cache within it, and an entry over the budget empties the cache
and then breaks the budget by itself.
-/

/-- An entry of a cache: its key, and its value. -/
abbrev FifoEntry (κ ν : Type*) := Σ _ : κ, ν

/-- A cache as the list of its entries, the oldest first. -/
structure FifoCache (κ ν : Type*) where
  /-- The entries. -/
  entries : List (FifoEntry κ ν)
  /-- No key occurs twice. -/
  nodupKeys : entries.NodupKeys

namespace FifoCache

variable {κ ν : Type*} (w : ν → ℕ)

/-- The sum of the weights of some entries. -/
def weight (l : List (FifoEntry κ ν)) : ℕ := (l.map fun e => w e.2).sum

/-- No entries weigh nothing. -/
@[simp] theorem weight_nil : weight w ([] : List (FifoEntry κ ν)) = 0 := rfl

/-- The weight of one more entry. -/
@[simp] theorem weight_cons (e : FifoEntry κ ν) (l : List (FifoEntry κ ν)) :
    weight w (e :: l) = w e.2 + weight w l := by simp [weight]

/-- The weight of two sequences of entries. -/
@[simp] theorem weight_append (l l' : List (FifoEntry κ ν)) :
    weight w (l ++ l') = weight w l + weight w l' := by simp [weight]

/-- The length of the shortest prefix whose removal makes room for `need` more, and the length of the
whole list if no prefix does. -/
def dropCount (cap need : ℕ) (l : List (FifoEntry κ ν)) : ℕ :=
  Nat.find (p := fun k => k = l.length ∨ weight w (l.drop k) + need ≤ cap) ⟨_, .inl rfl⟩

/-- The entries that are left when there is room for `need` more. -/
def makeRoom (cap need : ℕ) (l : List (FifoEntry κ ν)) : List (FifoEntry κ ν) :=
  l.drop (dropCount w cap need l)

variable {w} {cap need : ℕ} {l : List (FifoEntry κ ν)}

/-- Where there is room nothing goes. -/
theorem makeRoom_of_le (h : weight w l + need ≤ cap) : makeRoom w cap need l = l := by
  have hzero : dropCount w cap need l = 0 := (Nat.find_eq_zero _).2 (.inr h)
  unfold makeRoom
  rw [hzero, List.drop_zero]

/-- There is nothing to evict. -/
@[simp] theorem makeRoom_nil : makeRoom w cap need ([] : List (FifoEntry κ ν)) = [] := List.drop_nil

/-- Where there is no room the oldest entry goes first. -/
theorem makeRoom_cons_of_lt {e : FifoEntry κ ν} (h : cap < weight w (e :: l) + need) :
    makeRoom w cap need (e :: l) = makeRoom w cap need l := by
  have hcount : dropCount w cap need (e :: l) = dropCount w cap need l + 1 := by
    unfold dropCount
    rw [Nat.find_comp_succ _ ⟨l.length, .inl rfl⟩]
    · simp
    · simp only [List.length_cons, List.drop_zero]
      omega
  unfold makeRoom
  rw [hcount, List.drop_succ_cons]

/-- The eviction as a loop. -/
theorem makeRoom_cons (e : FifoEntry κ ν) :
    makeRoom w cap need (e :: l) =
      if cap < weight w (e :: l) + need then makeRoom w cap need l else e :: l := by
  split_ifs with h
  · exact makeRoom_cons_of_lt h
  · exact makeRoom_of_le (not_lt.1 h)

/-- What is left is the end of the list. -/
theorem makeRoom_suffix : makeRoom w cap need l <:+ l := List.drop_suffix _ _

variable (w cap need l) in
/-- Afterwards there is room, or nothing is left. -/
theorem weight_makeRoom :
    makeRoom w cap need l = [] ∨ weight w (makeRoom w cap need l) + need ≤ cap := by
  have hspec := Nat.find_spec (p := fun k => k = l.length ∨ weight w (l.drop k) + need ≤ cap)
    ⟨_, .inl rfl⟩
  rcases hspec with hlength | hroom
  · left
    unfold makeRoom dropCount
    rw [hlength, List.drop_length]
  · exact .inr hroom

/-- What does not fit into an empty cache empties it. -/
theorem makeRoom_of_need_lt (h : cap < need) : makeRoom w cap need l = [] := by
  rcases weight_makeRoom w cap need l with hnil | hroom
  · exact hnil
  · omega

/-- An entry with a new key goes to the end once there is room for it. -/
theorem nodupKeys_append {l l' : List (FifoEntry κ ν)} {k : κ} {v : ν} (hl : l.NodupKeys)
    (hsub : l'.Sublist l) (hk : k ∉ l.keys) : (l' ++ [(⟨k, v⟩ : FifoEntry κ ν)]).NodupKeys := by
  have hperm : (l' ++ [(⟨k, v⟩ : FifoEntry κ ν)]).Perm (⟨k, v⟩ :: l') :=
    List.perm_append_singleton _ _
  rw [List.perm_nodupKeys hperm, List.nodupKeys_cons]
  exact ⟨fun hmem => hk ((hsub.map _).subset hmem), hl.sublist hsub⟩

variable [DecidableEq κ]

/-- The cache that holds nothing. -/
def empty : FifoCache κ ν := ⟨[], List.nodupKeys_nil⟩

/-- The number of entries. -/
def len (q : FifoCache κ ν) : ℕ := q.entries.length

/-- The value at a key. -/
def get (q : FifoCache κ ν) (k : κ) : Option ν := q.entries.dlookup k

/-- Delete the entry at a key; the others keep their order. -/
def remove (q : FifoCache κ ν) (k : κ) : FifoCache κ ν :=
  ⟨q.entries.kerase k, q.nodupKeys.kerase k⟩

variable (w) in
/-- Insert an entry under a budget. A key that is there already changes nothing. -/
def insert (cap : ℕ) (q : FifoCache κ ν) (k : κ) (v : ν) : FifoCache κ ν :=
  if hk : k ∈ q.entries.keys then q
  else ⟨makeRoom w cap (w v) q.entries ++ [⟨k, v⟩],
    nodupKeys_append q.nodupKeys makeRoom_suffix.sublist hk⟩

variable (w) in
/-- The weight of a cache. -/
def total (q : FifoCache κ ν) : ℕ := weight w q.entries

/-- Deleting an entry takes its weight away. -/
theorem weight_kerase {k : κ} {v : ν} (h : v ∈ l.dlookup k) :
    weight w (l.kerase k) + w v = weight w l := by
  induction l with
  | nil => cases h
  | cons e l ih =>
    rcases e with ⟨k', v'⟩
    by_cases hk : k = k'
    · subst hk
      obtain rfl : v' = v := by simpa using h
      rw [List.kerase_cons_eq (s := (⟨k, v'⟩ : FifoEntry κ ν)) rfl, weight_cons, Nat.add_comm]
    · rw [List.dlookup_cons_ne _ _ hk] at h
      rw [List.kerase_cons_ne hk, weight_cons, weight_cons, Nat.add_assoc, ih h]

/-- An entry within the budget keeps the cache within it. -/
theorem total_insert_le {q : FifoCache κ ν} {k : κ} {v : ν} (hq : q.total w ≤ cap)
    (hv : w v ≤ cap) : (q.insert w cap k v).total w ≤ cap := by
  unfold insert
  split_ifs with hk
  · exact hq
  · unfold total
    rw [weight_append, weight_cons, weight_nil, Nat.add_zero]
    rcases weight_makeRoom w cap (w v) q.entries with hnil | hroom
    · rw [hnil, weight_nil, Nat.zero_add]
      exact hv
    · exact hroom

/-- A new entry over the budget is all that is left. -/
theorem entries_insert_of_lt {q : FifoCache κ ν} {k : κ} {v : ν} (hk : k ∉ q.entries.keys)
    (hv : cap < w v) : (q.insert w cap k v).entries = [⟨k, v⟩] := by
  unfold insert
  rw [dif_neg hk]
  show makeRoom w cap (w v) q.entries ++ [⟨k, v⟩] = _
  rw [makeRoom_of_need_lt hv, List.nil_append]

/-- Deleting an entry keeps the cache within its budget. -/
theorem total_remove_le {q : FifoCache κ ν} (k : κ) : (q.remove k).total w ≤ q.total w := by
  show weight w (q.entries.kerase k) ≤ weight w q.entries
  cases h : q.entries.dlookup k with
  | none => rw [List.kerase_of_notMem_keys (List.dlookup_eq_none.1 h)]
  | some v =>
    have hweight := weight_kerase (w := w) (Option.mem_def.2 h)
    omega

end FifoCache
