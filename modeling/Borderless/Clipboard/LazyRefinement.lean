import Borderless.Clipboard.Lazy
import Borderless.Lib.FifoCache
import Borderless.Lib.Refinement
import Borderless.Lib.Transition

/-!
# The lazy store is a FIFO cache

`LazyStore` keeps three redundant fields: a map, a queue and a byte counter. `Represents` says that
they show one `FifoCache`, whose weight is the number of bytes. Each method keeps this
(`lazyStore_simulates`), so a store that starts empty answers every sequence of calls as the
reference cache does (`lazyStore_refines_fifo`).

The budget is another matter. The loop of `insert` ends when the queue runs dry, and the payload goes
in all the same. `lazyStore_within_budget` says which runs stay within the budget: those in which no
payload by itself is over it.
-/

namespace Borderless.Clipboard

open Refinement Transition

/-- The methods of the store. -/
inductive LazyCall
  /-- `insert`. -/
  | insert (bytes : List UInt8)
  /-- `remove`. -/
  | remove (hash : Bytes 32)
  /-- `get`. -/
  | get (hash : Bytes 32)
  /-- `len`. -/
  | len

/-- What the methods return. -/
inductive LazyReturn
  /-- `insert` returns the hash. -/
  | hash (hash : Bytes 32)
  /-- `remove` returns nothing. -/
  | unit
  /-- `get` returns the bytes. -/
  | bytes (bytes : Option (List UInt8))
  /-- `len` returns the number of entries. -/
  | count (n : ℕ)

/-- The reference cache of the store: payloads by their hashes, the weight of a payload being its
length. -/
abbrev LazyFifo := FifoCache (Bytes 32) (List UInt8)

section Calls

variable (blake3 : List UInt8 → Bytes 32)

/-- A method of the store. -/
def LazyStore.call (s : LazyStore) : LazyCall → LazyReturn × LazyStore
  | .insert bytes => (.hash (s.insert blake3 bytes).1, (s.insert blake3 bytes).2)
  | .remove hash => (.unit, s.remove hash)
  | .get hash => (.bytes (s.get hash), s)
  | .len => (.count s.len, s)

/-- The same method of the reference cache. -/
def LazyFifo.call (cap : ℕ) (q : LazyFifo) : LazyCall → LazyReturn × LazyFifo
  | .insert bytes => (.hash (blake3 bytes), q.insert List.length cap (blake3 bytes) bytes)
  | .remove hash => (.unit, q.remove hash)
  | .get hash => (.bytes (q.get hash), q)
  | .len => (.count q.len, q)

end Calls

namespace LazyStore

/-- The store shows the reference cache `q`, and its budget is `cap`. -/
structure Represents (blake3 : List UInt8 → Bytes 32) (cap : ℕ) (s : LazyStore) (q : LazyFifo) :
    Prop where
  /-- The map holds the entries. -/
  byHash : s.byHash = q.entries.toFinmap
  /-- The queue holds their hashes in order. -/
  order : s.order = q.entries.keys
  /-- The counter holds the sum of their lengths. -/
  totalBytes : s.totalBytes = q.total List.length
  /-- The budget. -/
  cap : s.cap = cap
  /-- Every payload is under its hash. -/
  hashed : ∀ e ∈ q.entries, blake3 e.2 = e.1

/-- The sum of the lengths of the payloads in the map. -/
def storedBytes (s : LazyStore) : ℕ := (s.byHash.entries.map fun e => e.2.length).sum

/-- In every round of the eviction loop the map has the popped hash, and the counter is no less than
what is taken from it. -/
def EvictionHits (cap need : ℕ) : List (Bytes 32) → PayloadMap → ℕ → Prop
  | [], _, _ => True
  | oldest :: order, byHash, total =>
    cap < total + need → ∃ removed, byHash.lookup oldest = some removed ∧ removed.length ≤ total ∧
      EvictionHits cap need order (byHash.erase oldest) (total - removed.length)

/-- The three fields are in step. -/
structure InStep (s : LazyStore) : Prop where
  /-- The queue has no duplicates. -/
  nodup : s.order.Nodup
  /-- The queue lists exactly the keys of the map. -/
  mem_order : ∀ hash, hash ∈ s.order ↔ hash ∈ s.byHash
  /-- The counter is the sum of the stored lengths. -/
  totalBytes : s.totalBytes = s.storedBytes
  /-- The eviction loop never misses or saturates, however much room it is to make. -/
  evictionHits : ∀ need, EvictionHits s.cap need s.order s.byHash s.totalBytes
  /-- The subtraction of `remove` does not saturate. -/
  length_le : ∀ hash bytes, s.get hash = some bytes → bytes.length ≤ s.totalBytes

/-! ## Finite maps of lists of entries -/

variable {l : List (FifoEntry (Bytes 32) (List UInt8))}

/-- The oldest entry of a list is in its map. -/
theorem lookup_toFinmap_cons (e : FifoEntry (Bytes 32) (List UInt8)) :
    (e :: l).toFinmap.lookup e.1 = some e.2 := by
  rw [Finmap.dlookup_list_toFinmap, List.dlookup_cons_eq]

/-- Erasing a key from the map of a list deletes it from the list. -/
theorem erase_toFinmap (hash : Bytes 32) (h : l.NodupKeys) :
    l.toFinmap.erase hash = (l.kerase hash).toFinmap := by
  refine Finmap.ext_lookup fun k => ?_
  by_cases hk : k = hash
  · subst hk
    rw [Finmap.lookup_erase, Finmap.dlookup_list_toFinmap, List.dlookup_kerase _ h]
  · rw [Finmap.lookup_erase_ne hk, Finmap.dlookup_list_toFinmap, Finmap.dlookup_list_toFinmap,
      List.dlookup_kerase_ne hk]

/-- Erasing the oldest key leaves the rest. -/
theorem erase_toFinmap_cons {e : FifoEntry (Bytes 32) (List UInt8)} (h : (e :: l).NodupKeys) :
    (e :: l).toFinmap.erase e.1 = l.toFinmap := by
  rw [erase_toFinmap _ h, List.kerase_cons_eq rfl]

/-- A new entry at the end of the list is a new entry of the map. -/
theorem insert_toFinmap {hash : Bytes 32} (bytes : List UInt8) (h : hash ∉ l.keys) :
    l.toFinmap.insert hash bytes =
      (l ++ [(⟨hash, bytes⟩ : FifoEntry (Bytes 32) (List UInt8))]).toFinmap := by
  refine Finmap.ext_lookup fun k => ?_
  rw [Finmap.dlookup_list_toFinmap, List.dlookup_append]
  by_cases hk : k = hash
  · subst hk
    rw [Finmap.lookup_insert, List.dlookup_eq_none.2 h, List.dlookup_cons_eq, Option.none_or]
  · rw [Finmap.lookup_insert_of_ne _ hk, Finmap.dlookup_list_toFinmap, List.dlookup_cons_ne _ _ hk,
      List.dlookup_nil, Option.or_none]

/-- The entries of the map of a list are the list. -/
theorem entries_toFinmap (h : l.NodupKeys) : l.toFinmap.entries = (l : Multiset _) := by
  induction l with
  | nil => rfl
  | cons e l ih =>
    have hnew : e.1 ∉ l.toFinmap := by
      rw [Finmap.mem_list_toFinmap]
      rintro ⟨bytes, hmem⟩
      exact (List.nodupKeys_cons.1 h).1 (List.mem_keys.2 ⟨bytes, hmem⟩)
    rcases e with ⟨hash, bytes⟩
    rw [Finmap.toFinmap_cons, Finmap.entries_insert_of_notMem hnew,
      ih (List.nodupKeys_of_nodupKeys_cons h)]
    rfl

/-! ## The eviction loop -/

/-- The loop makes room as the reference does. -/
theorem evict_eq (cap need : ℕ) (h : l.NodupKeys) :
    evict cap need l.keys l.toFinmap (FifoCache.weight List.length l) =
      ((FifoCache.makeRoom List.length cap need l).keys,
        (FifoCache.makeRoom List.length cap need l).toFinmap,
        FifoCache.weight List.length (FifoCache.makeRoom List.length cap need l)) := by
  induction l with
  | nil =>
    rw [FifoCache.makeRoom_nil]
    rfl
  | cons e l ih =>
    rw [FifoCache.makeRoom_cons, List.keys_cons]
    unfold evict
    split_ifs with hroom
    · -- the popped hash is in the map, and the counter loses exactly its length
      have hcounter : FifoCache.weight List.length (e :: l) - e.2.length =
          FifoCache.weight List.length l := by
        rw [FifoCache.weight_cons]
        omega
      rw [lookup_toFinmap_cons, erase_toFinmap_cons h]
      show evict cap need l.keys l.toFinmap (_ - e.2.length) = _
      rw [hcounter, ih (List.nodupKeys_of_nodupKeys_cons h)]
    · rfl

/-- No round of the loop misses. -/
theorem evictionHits (cap need : ℕ) (h : l.NodupKeys) :
    EvictionHits cap need l.keys l.toFinmap (FifoCache.weight List.length l) := by
  induction l with
  | nil => trivial
  | cons e l ih =>
    rw [List.keys_cons]
    intro _
    have hcounter : FifoCache.weight List.length (e :: l) - e.2.length =
        FifoCache.weight List.length l := by
      rw [FifoCache.weight_cons]
      omega
    refine ⟨e.2, lookup_toFinmap_cons e, ?_, ?_⟩
    · rw [FifoCache.weight_cons]
      omega
    · rw [erase_toFinmap_cons h, hcounter]
      exact ih (List.nodupKeys_of_nodupKeys_cons h)

/-! ## The methods -/

variable {blake3 : List UInt8 → Bytes 32} {cap : ℕ} {s : LazyStore} {q : LazyFifo}

namespace Represents

/-- The map has the keys of the reference. -/
theorem mem_byHash (h : Represents blake3 cap s q) (hash : Bytes 32) :
    hash ∈ s.byHash ↔ hash ∈ q.entries.keys := by
  rw [h.byHash, Finmap.mem_list_toFinmap, List.mem_keys]

/-- The map has the values of the reference. -/
theorem get_eq (h : Represents blake3 cap s q) (hash : Bytes 32) : s.get hash = q.get hash := by
  unfold get FifoCache.get
  rw [h.byHash, Finmap.dlookup_list_toFinmap]

/-- The map is as large as the reference. -/
theorem len_eq (h : Represents blake3 cap s q) : s.len = q.len := by
  have hkeys : s.byHash.keys.val = (q.entries.keys : Multiset (Bytes 32)) := by
    show s.byHash.entries.keys = _
    rw [h.byHash, entries_toFinmap q.nodupKeys, Multiset.coe_keys]
  unfold len FifoCache.len
  rw [Finset.card_def, hkeys, Multiset.coe_card]
  exact List.length_map _

/-- Without a collision among the stored payloads and this one, a payload's hash is there exactly
when the payload is. -/
theorem mem_keys_iff (h : Represents blake3 cap s q) {bytes : List UInt8}
    (hcollision : ∀ e ∈ q.entries, blake3 e.2 = blake3 bytes → e.2 = bytes) :
    blake3 bytes ∈ q.entries.keys ↔ ∃ e ∈ q.entries, e.2 = bytes := by
  rw [List.mem_keys]
  constructor
  · rintro ⟨held, hmem⟩
    exact ⟨_, hmem, hcollision _ hmem (h.hashed _ hmem)⟩
  · rintro ⟨e, hmem, rfl⟩
    refine ⟨e.2, ?_⟩
    rw [h.hashed e hmem]
    exact hmem

/-- The sum of the stored lengths is the weight of the reference. -/
theorem storedBytes_eq (h : Represents blake3 cap s q) : s.storedBytes = q.total List.length := by
  unfold storedBytes
  rw [h.byHash, entries_toFinmap q.nodupKeys]
  rfl

/-- The store and the reference insert alike. -/
theorem insert (h : Represents blake3 cap s q) (bytes : List UInt8) :
    Represents blake3 cap (s.insert blake3 bytes).2 (q.insert List.length cap (blake3 bytes) bytes) := by
  unfold LazyStore.insert FifoCache.insert
  by_cases hmem : blake3 bytes ∈ q.entries.keys
  · rw [dif_pos hmem, if_pos ((h.mem_byHash _).2 hmem)]
    exact h
  · rw [dif_neg hmem, if_neg (mt (h.mem_byHash _).1 hmem)]
    have hroom := evict_eq cap bytes.length q.nodupKeys
    -- the hash stays new after the eviction
    have hnew : blake3 bytes ∉ (FifoCache.makeRoom List.length cap bytes.length q.entries).keys :=
      fun hleft => hmem ((FifoCache.makeRoom_suffix.sublist.map _).subset hleft)
    simp only [h.order, h.byHash, h.totalBytes, h.cap, FifoCache.total, hroom]
    constructor
    · exact insert_toFinmap bytes hnew
    · rw [List.keys_append]
      rfl
    · show _ = FifoCache.weight List.length (_ ++ _)
      rw [FifoCache.weight_append, FifoCache.weight_cons, FifoCache.weight_nil, Nat.add_zero]
    · rfl
    · intro e he
      rcases List.mem_append.1 he with hleft | hlast
      · exact h.hashed e (FifoCache.makeRoom_suffix.subset hleft)
      · rw [List.mem_singleton.1 hlast]

/-- The store and the reference remove alike. -/
theorem remove (h : Represents blake3 cap s q) (hash : Bytes 32) :
    Represents blake3 cap (s.remove hash) (q.remove hash) := by
  have hget := h.get_eq hash
  unfold LazyStore.get FifoCache.get at hget
  unfold LazyStore.remove
  cases hlookup : q.entries.dlookup hash with
  | none =>
    have hnone : q.remove hash = q := by
      unfold FifoCache.remove
      congr 1
      exact List.kerase_of_notMem_keys (List.dlookup_eq_none.1 hlookup)
    rw [hget, hlookup, hnone]
    exact h
  | some bytes =>
    rw [hget, hlookup]
    constructor
    · show s.byHash.erase hash = (q.entries.kerase hash).toFinmap
      rw [h.byHash, erase_toFinmap hash q.nodupKeys]
    · show s.order.filter (· ≠ hash) = (q.entries.kerase hash).keys
      rw [h.order, List.keys_kerase, List.Nodup.erase_eq_filter q.nodupKeys]
      exact List.filter_congr fun k _ => by by_cases hk : k = hash <;> simp [hk]
    · show s.totalBytes - bytes.length = FifoCache.weight List.length (q.entries.kerase hash)
      have hweight := FifoCache.weight_kerase (w := List.length) (Option.mem_def.2 hlookup)
      have htotal := h.totalBytes
      unfold FifoCache.total at htotal
      omega
    · exact h.cap
    · exact fun e he => h.hashed e ((List.kerase_sublist hash _).subset he)

/-- The fields of a store that shows a reference are in step. -/
theorem inStep (h : Represents blake3 cap s q) : s.InStep := by
  constructor
  · rw [h.order]
    exact q.nodupKeys
  · intro hash
    rw [h.order, h.mem_byHash]
  · rw [h.totalBytes, h.storedBytes_eq]
  · intro need
    rw [h.cap, h.order, h.byHash, h.totalBytes]
    exact LazyStore.evictionHits cap need q.nodupKeys
  · intro hash bytes hget
    rw [h.get_eq] at hget
    have hweight := FifoCache.weight_kerase (w := List.length) (Option.mem_def.2 hget)
    have htotal := h.totalBytes
    unfold FifoCache.total at htotal
    omega

end Represents

/-- A store that holds nothing shows the empty reference. -/
theorem represents_withCap (blake3 : List UInt8 → Bytes 32) (cap : ℕ) :
    Represents blake3 cap (withCap cap) FifoCache.empty :=
  ⟨rfl, rfl, rfl, rfl, by simp [FifoCache.empty]⟩

/-- The store refines the reference: every call is answered alike. -/
theorem lazyStore_simulates (blake3 : List UInt8 → Bytes 32) (cap : ℕ) :
    Simulates (Represents blake3 cap) (LazyStore.call blake3) (LazyFifo.call blake3 cap) := by
  intro s q c h
  cases c with
  | insert bytes =>
    refine ⟨?_, h.insert bytes⟩
    have hhash : (s.insert blake3 bytes).1 = blake3 bytes := by
      unfold LazyStore.insert
      dsimp only
      split_ifs <;> rfl
    exact congrArg LazyReturn.hash hhash
  | remove hash => exact ⟨rfl, h.remove hash⟩
  | get hash => exact ⟨congrArg LazyReturn.bytes (h.get_eq hash), h⟩
  | len => exact ⟨congrArg LazyReturn.count h.len_eq, h⟩

end LazyStore

open LazyStore

/-- A store that starts empty answers every list of calls as the reference cache does. After it the
store shows the reference cache, its three fields are in step, and a payload whose hash collides
with none of those held counts as a duplicate exactly when it is held itself. -/
theorem lazyStore_refines_fifo (blake3 : List UInt8 → Bytes 32) (cap : ℕ) (cs : List LazyCall) :
    (calls (LazyStore.call blake3) (withCap cap) cs).1 =
        (calls (LazyFifo.call blake3 cap) FifoCache.empty cs).1 ∧
      Represents blake3 cap (calls (LazyStore.call blake3) (withCap cap) cs).2
        (calls (LazyFifo.call blake3 cap) FifoCache.empty cs).2 ∧
      (calls (LazyStore.call blake3) (withCap cap) cs).2.InStep ∧
      ∀ bytes, (∀ e ∈ (calls (LazyFifo.call blake3 cap) FifoCache.empty cs).2.entries,
          blake3 e.2 = blake3 bytes → e.2 = bytes) →
        (blake3 bytes ∈ (calls (LazyFifo.call blake3 cap) FifoCache.empty cs).2.entries.keys ↔
          ∃ e ∈ (calls (LazyFifo.call blake3 cap) FifoCache.empty cs).2.entries, e.2 = bytes) := by
  obtain ⟨hanswers, h⟩ := (lazyStore_simulates blake3 cap).calls (represents_withCap blake3 cap) cs
  exact ⟨hanswers, h, h.inStep, fun bytes hcollision => h.mem_keys_iff hcollision⟩

/-! ## The budget -/

/-- The runs of a store that starts empty. -/
def lazyStore (blake3 : List UInt8 → Bytes 32) (cap : ℕ) : System LazyStore LazyCall where
  init s := s = withCap cap
  step s c := some (s.call blake3 c).2

namespace LazyStore

variable {blake3 : List UInt8 → Bytes 32} {cap : ℕ} {s : LazyStore}

/-- The stored payloads are within the budget. -/
def WithinBudget (s : LazyStore) : Prop := s.storedBytes ≤ s.cap

/-- A call that inserts a payload over the budget keeps the payloads that the store holds. -/
def KeepsHeld (s : LazyStore) (c : LazyCall) (t : LazyStore) : Prop :=
  match c with
  | .insert bytes => s.cap < bytes.length →
    ∀ hash held, s.get hash = some held → t.get hash = some held
  | _ => True

/-- A call does not insert a new payload that is over the budget by itself. -/
def Storable (blake3 : List UInt8 → Bytes 32) (s : LazyStore) : LazyCall → Prop
  | .insert bytes => blake3 bytes ∈ s.byHash ∨ bytes.length ≤ s.cap
  | _ => True

/-- The store shows a reference cache within the budget. -/
def Bounded (blake3 : List UInt8 → Bytes 32) (cap : ℕ) (s : LazyStore) : Prop :=
  ∃ q, Represents blake3 cap s q ∧ q.total List.length ≤ cap

/-- A storable call keeps the store within its budget. -/
theorem bounded_call {c : LazyCall} (hs : Bounded blake3 cap s) (hc : s.Storable blake3 c) :
    Bounded blake3 cap (s.call blake3 c).2 := by
  obtain ⟨q, h, hq⟩ := hs
  cases c with
  | insert bytes =>
    refine ⟨_, h.insert bytes, ?_⟩
    rcases hc with hmem | hle
    · -- a duplicate changes nothing
      unfold FifoCache.insert
      rw [dif_pos ((h.mem_byHash _).1 hmem)]
      exact hq
    · rw [h.cap] at hle
      exact FifoCache.total_insert_le hq hle
  | remove hash => exact ⟨_, h.remove hash, (FifoCache.total_remove_le hash).trans hq⟩
  | get hash => exact ⟨q, h, hq⟩
  | len => exact ⟨q, h, hq⟩

/-- A store within its budget is so by the sum of the stored lengths. -/
theorem Bounded.within (hs : Bounded blake3 cap s) : s.WithinBudget := by
  obtain ⟨q, h, hq⟩ := hs
  unfold WithinBudget
  rw [h.storedBytes_eq, h.cap]
  exact hq

/-- From a store within its budget, a call keeps the budget and what is held exactly when it is
storable. -/
theorem withinBudget_call_iff {c : LazyCall} (hs : Bounded blake3 cap s) :
    (s.call blake3 c).2.WithinBudget ∧ s.KeepsHeld c (s.call blake3 c).2 ↔
      s.Storable blake3 c := by
  constructor
  · rintro ⟨hwithin, -⟩
    cases c with
    | insert bytes =>
      by_contra hnot
      unfold Storable at hnot
      push Not at hnot
      obtain ⟨q, h, -⟩ := hs
      -- the new payload is all that is left, and over the budget
      have hnew := mt (h.mem_byHash _).2 hnot.1
      rw [h.cap] at hnot
      have hentries := FifoCache.entries_insert_of_lt (w := List.length) hnew hnot.2
      have hlast := h.insert bytes
      unfold WithinBudget at hwithin
      change (s.insert blake3 bytes).2.storedBytes ≤ (s.insert blake3 bytes).2.cap at hwithin
      rw [hlast.storedBytes_eq, hlast.cap, FifoCache.total, hentries, FifoCache.weight_cons,
        FifoCache.weight_nil, Nat.add_zero] at hwithin
      exact absurd hwithin (not_le.2 hnot.2)
    | remove hash => trivial
    | get hash => trivial
    | len => trivial
  · intro hc
    refine ⟨(bounded_call hs hc).within, ?_⟩
    cases c with
    | insert bytes =>
      intro hlt hash held hget
      rcases hc with hmem | hle
      · -- a duplicate changes nothing
        have hsame : (s.call blake3 (.insert bytes)).2 = s := by
          unfold call insert
          dsimp only
          rw [if_pos hmem]
        rw [hsame]
        exact hget
      · omega
    | remove hash => trivial
    | get hash => trivial
    | len => trivial

end LazyStore

/-- A run of calls from the empty store stays within the budget, and never drops what it holds for a
payload that is over the budget, exactly when it inserts no new payload that is over the budget by
itself. -/
theorem lazyStore_within_budget (blake3 : List UInt8 → Bytes 32) (cap : ℕ) (cs : List LazyCall) :
    (∀ p ∈ (lazyStore blake3 cap).steps (withCap cap) cs,
        p.2.2.WithinBudget ∧ p.1.KeepsHeld p.2.1 p.2.2) ↔
      ∀ p ∈ (lazyStore blake3 cap).steps (withCap cap) cs, p.1.Storable blake3 p.2.1 := by
  refine System.steps_forall_iff (I := Bounded blake3 cap)
    (Q := fun s c t => t.WithinBudget ∧ s.KeepsHeld c t) (fun c _ s t hs hstep => ?_)
    (fun c _ s t hs hstep hc => ?_) ⟨_, represents_withCap blake3 cap, Nat.zero_le _⟩
  · obtain rfl := Option.some.inj hstep
    exact withinBudget_call_iff hs
  · obtain rfl := Option.some.inj hstep
    exact bounded_call hs hc

instance (s : LazyStore) : Decidable s.WithinBudget := inferInstanceAs (Decidable (_ ≤ _))

/-- A hash that tells payloads apart by their first byte. -/
def firstByteHash (bytes : List UInt8) : Bytes 32 := List.Vector.replicate 32 (bytes.headD 0)

/-- Two payloads, the second over a budget of four bytes. -/
def overBudgetCalls : List LazyCall := [.insert [1, 1], .insert [2, 2, 2, 2, 2]]

/-- With a budget of four bytes, the store holds five after `overBudgetCalls`. -/
theorem lazyStore_exceeds_budget :
    ¬ ∀ (blake3 : List UInt8 → Bytes 32) (cap : ℕ) (cs : List LazyCall),
      ∀ p ∈ (lazyStore blake3 cap).steps (withCap cap) cs,
        p.2.2.WithinBudget ∧ p.1.KeepsHeld p.2.1 p.2.2 := by
  intro h
  have hover : ¬ ∀ p ∈ (lazyStore firstByteHash 4).steps (withCap 4) overBudgetCalls,
      p.2.2.WithinBudget := by decide +kernel
  exact hover fun p hp => (h firstByteHash 4 overBudgetCalls p hp).1

end Borderless.Clipboard
