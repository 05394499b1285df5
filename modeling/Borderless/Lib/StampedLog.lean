import Mathlib.Data.Fintype.Card
import Mathlib.Data.List.ProdSigma
import Mathlib.Data.List.Perm.Subperm
import Mathlib.Logic.Relation
import Mathlib.Order.Basic
import Mathlib.Tactic.Common

/-!
# Stamped logs

The history of a distributed run as one list, oldest entry first: a node produces an item, or
adopts an item that some node produced. Items carry a stamp, and a log is `Increasing` when the
stamps that each single node records strictly increase. This is all that a logical clock has to
provide. From it alone follow the two facts that clocks are used for:

- an item is recorded at most once at each node (`Increasing.count_le_one`), so flooding it reaches
  each node once (`Increasing.adoptions_le`, `Increasing.adoptions_total_le`); and
- stamps respect causality (`HappensBefore.stamp_lt`).

Nothing is assumed about how the nodes communicate.
-/

namespace StampedLog

/-- How a node came to record an item. -/
inductive Kind
  /-- The node made the item. -/
  | produced
  /-- The node took over an item that it was sent. -/
  | applied
deriving DecidableEq

/-- One entry of the log. -/
structure Entry (ι μ : Type*) where
  /-- The node that records the item. -/
  node : ι
  /-- The item. -/
  item : μ
  /-- How the node came to record it. -/
  kind : Kind
deriving DecidableEq

variable {ι μ V : Type*} [Preorder V] {stamp : μ → V} {log : List (Entry ι μ)}

/-- The stamps that each node records increase along the log. -/
def Increasing (stamp : μ → V) (log : List (Entry ι μ)) : Prop :=
  log.Pairwise fun e f => e.node = f.node → stamp e.item < stamp f.item

/-- The empty log is increasing. -/
@[simp]
theorem increasing_nil : Increasing stamp ([] : List (Entry ι μ)) := List.Pairwise.nil

/-- A new entry keeps the log increasing when its stamp is above all that its node has recorded. -/
theorem Increasing.append {e : Entry ι μ} (h : Increasing stamp log)
    (he : ∀ f ∈ log, f.node = e.node → stamp f.item < stamp e.item) :
    Increasing stamp (log ++ [e]) := by
  refine List.pairwise_append.2 ⟨h, List.pairwise_singleton _ _, fun f hf g hg => ?_⟩
  obtain rfl := List.mem_singleton.1 hg
  exact he f hf

/-- Of two entries of one node, the later has the greater stamp. -/
theorem Increasing.stamp_lt (h : Increasing stamp log) {e f : Entry ι μ}
    (hef : List.Sublist [e, f] log) (hnode : e.node = f.node) : stamp e.item < stamp f.item :=
  List.pairwise_iff_forall_sublist.1 h hef hnode

/-! ## Each node records an item once -/

/-- The pairs of item and node do not repeat. -/
theorem Increasing.nodup_item_node (h : Increasing stamp log) :
    (log.map fun e => (e.item, e.node)).Nodup := by
  refine List.pairwise_map.2 (h.imp fun {e f} hlt heq => ?_)
  obtain ⟨hitem, hnode⟩ := Prod.mk.inj heq
  have := hlt hnode
  rw [hitem] at this
  exact lt_irrefl _ this

/-- An entry occurs at most once. -/
theorem Increasing.count_le_one [DecidableEq ι] [DecidableEq μ] (h : Increasing stamp log)
    (e : Entry ι μ) : log.count e ≤ 1 :=
  List.nodup_iff_count_le_one.1 h.nodup_item_node.of_map e

/-- A node that produced an item does not adopt it. -/
theorem Increasing.kind_unique (h : Increasing stamp log) {i : ι} {m : μ}
    (hp : ⟨i, m, .produced⟩ ∈ log) : ⟨i, m, .applied⟩ ∉ log := by
  intro ha
  have heq := List.inj_on_of_nodup_map h.nodup_item_node hp ha rfl
  cases heq

/-- The entries of a log that adopt the item `m`. -/
def adoptions [DecidableEq μ] (log : List (Entry ι μ)) (m : μ) : List (Entry ι μ) :=
  log.filter fun e => e.item = m ∧ e.kind = .applied

/-- The items that a log produces. -/
def produced (log : List (Entry ι μ)) : List μ :=
  (log.filter fun e => e.kind = .produced).map Entry.item

/-- The number of entries that adopt an item, whichever. -/
def adoptionCount (log : List (Entry ι μ)) : ℕ :=
  (log.filter fun e => e.kind = .applied).length

/-- Every entry of the log records an item that the log produces. -/
def Sourced (log : List (Entry ι μ)) : Prop := ∀ e ∈ log, e.item ∈ produced log

/-- An item is produced where an entry says so. -/
theorem mem_produced {m : μ} : m ∈ produced log ↔ ∃ i, ⟨i, m, .produced⟩ ∈ log := by
  simp only [produced, List.mem_map, List.mem_filter, decide_eq_true_eq]
  constructor
  · rintro ⟨⟨i, m', k⟩, ⟨hmem, rfl⟩, rfl⟩
    exact ⟨i, hmem⟩
  · rintro ⟨i, hmem⟩
    exact ⟨⟨i, m, .produced⟩, ⟨hmem, rfl⟩, rfl⟩

/-- Every entry either produces or adopts. -/
theorem length_eq (log : List (Entry ι μ)) :
    log.length = (produced log).length + adoptionCount log := by
  induction log with
  | nil => rfl
  | cons e log ih =>
    simp only [produced, adoptionCount, List.length_map] at ih ⊢
    obtain ⟨i, m, k⟩ := e
    cases k <;> simp [ih] <;> omega

section Bounds

variable [Fintype ι]

/-- An item that some node produced is adopted at most once at each of the other nodes. -/
theorem Increasing.adoptions_le [DecidableEq μ] (h : Increasing stamp log) (hs : Sourced log)
    (m : μ) : (adoptions log m).length ≤ Fintype.card ι - 1 := by
  classical
  rcases (adoptions log m).eq_nil_or_concat with hnil | ⟨_, e, he⟩
  · simp [hnil]
  -- the producer's node is not among the nodes that adopt `m`
  have hmem : e ∈ adoptions log m := by rw [he]; simp
  simp only [adoptions, List.mem_filter, decide_eq_true_eq] at hmem
  obtain ⟨i, hi⟩ := mem_produced.1 (hmem.2.1 ▸ hs e hmem.1)
  have hsub : (adoptions log m).map Entry.node ⊆ (Finset.univ.erase i).toList := by
    intro j hj
    obtain ⟨⟨j', m', k⟩, hf, rfl⟩ := List.mem_map.1 hj
    simp only [adoptions, List.mem_filter, decide_eq_true_eq] at hf
    obtain ⟨hlog, rfl, rfl⟩ := hf
    simp only [Finset.mem_toList, Finset.mem_erase, Finset.mem_univ, and_true]
    rintro rfl
    exact h.kind_unique hi hlog
  have hnodup : ((adoptions log m).map Entry.node).Nodup := by
    have hpairs : ((adoptions log m).map fun e => (e.item, e.node)).Nodup :=
      h.nodup_item_node.sublist (List.filter_sublist.map _)
    refine List.pairwise_map.2 ((List.pairwise_map.1 hpairs).imp_of_mem ?_)
    intro f g hf hg hne hnode
    simp only [adoptions, List.mem_filter, decide_eq_true_eq] at hf hg
    exact hne (by rw [hf.2.1, hg.2.1, hnode])
  calc (adoptions log m).length = ((adoptions log m).map Entry.node).length := by simp
    _ ≤ (Finset.univ.erase i).toList.length := (List.subperm_of_subset hnodup hsub).length_le
    _ = Fintype.card ι - 1 := by simp [Finset.card_erase_of_mem, Finset.card_univ]

/-- All items together are adopted at most once at each node other than their producer. -/
theorem Increasing.adoptions_total_le (h : Increasing stamp log) (hs : Sourced log) :
    adoptionCount log ≤ (produced log).length * (Fintype.card ι - 1) := by
  -- with the productions the pairs of item and node are at most those of a produced item and a node
  have hsub : (log.map fun e => (e.item, e.node)) ⊆
      produced log ×ˢ (Finset.univ : Finset ι).toList := by
    intro p hp
    obtain ⟨e, he, rfl⟩ := List.mem_map.1 hp
    exact List.mem_product.2 ⟨hs e he, by simp⟩
  have hle := (List.subperm_of_subset h.nodup_item_node hsub).length_le
  rw [List.length_map, List.length_product, Finset.length_toList, Finset.card_univ,
    length_eq] at hle
  rw [Nat.mul_sub_one]
  omega

end Bounds

/-! ## Causality -/

/-- Some node produced `m₂` after it had recorded `m₁`. -/
def Direct (log : List (Entry ι μ)) (m₁ m₂ : μ) : Prop :=
  ∃ i k, List.Sublist [⟨i, m₁, k⟩, ⟨i, m₂, .produced⟩] log

/-- A chain of direct causes. -/
def HappensBefore (log : List (Entry ι μ)) : μ → μ → Prop := Relation.TransGen (Direct log)

/-- A cause has a smaller stamp than its effect. -/
theorem HappensBefore.stamp_lt (h : Increasing stamp log) {m₁ m₂ : μ}
    (hb : HappensBefore log m₁ m₂) : stamp m₁ < stamp m₂ := by
  induction hb with
  | single hd =>
    obtain ⟨i, k, hsub⟩ := hd
    exact h.stamp_lt hsub rfl
  | tail _ hd ih =>
    obtain ⟨i, k, hsub⟩ := hd
    exact ih.trans (h.stamp_lt hsub rfl)

end StampedLog
