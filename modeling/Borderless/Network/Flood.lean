import Borderless.Clipboard.Engine
import Borderless.Lib.StampedLog
import Borderless.Lib.Transition
import Mathlib.Logic.Function.Basic

/-!
# Flooding over an arbitrary network

Engines that forward snapshots to each other over any topology. A node that produces a snapshot, or
that is answered `Apply` for one, sends it to any list of nodes; messages are delivered in any
order, and a delivered message may stay in flight, so that it is delivered again. The label of a
step carries these choices. `Net.log` is the history of the run: which node produced or applied
which snapshot, oldest first. No engine reads it.

The engines' counters are the stamps of the log. Each engine produces one above its counter and
applies only above its counter, so the versions that it records increase (`net_invariant`), as long
as no counter wraps. The rest is the theory of stamped logs.
-/

namespace Borderless.Network

open Borderless.Clipboard StampedLog Transition

/-- The engines, their image stores, the messages in flight, and the history. -/
structure Net (ι : Type*) where
  /-- The engine of each node. -/
  engines : ι → Engine
  /-- The lazy store of each node. -/
  stores : ι → LazyStore
  /-- The messages in flight, each with its destination. -/
  inflight : List (ι × ClipboardSnapshot)
  /-- What each node has produced and applied, oldest first. -/
  log : List (Entry ι ClipboardSnapshot)

/-- The steps of the network. `targets` is where the node forwards the snapshot. -/
inductive NetLabel (ι : Type*)
  /-- A user copies text at `i`. -/
  | copyText (i : ι) (now : UInt64) (text : String) (targets : List ι)
  /-- A user copies an image at `i`. -/
  | copyImage (i : ι) (now : UInt64) (bytes : List UInt8) (format : ImageFormat) (targets : List ι)
  /-- A message reaches `i`; with `keep` a duplicate of it stays in flight. -/
  | deliver (i : ι) (snap : ClipboardSnapshot) (keep : Bool) (targets : List ι)

/-- Whether a step is a local copy. -/
def NetLabel.isCopy {ι : Type*} : NetLabel ι → Bool
  | .deliver .. => false
  | _ => true

/-- The version that stamps a snapshot. -/
def version (snap : ClipboardSnapshot) : ℕ := snap.version.toNat

variable {ι : Type*} [DecidableEq ι]

namespace Net

/-- The node `i` records `snap`, having advanced to the engine `e`, and forwards it. -/
def record (s : Net ι) (i : ι) (e : Engine) (snap : ClipboardSnapshot) (kind : Kind)
    (targets : List ι) : Net ι :=
  { s with
    engines := Function.update s.engines i e
    inflight := s.inflight ++ targets.map fun j => (j, snap)
    log := s.log ++ [⟨i, snap, kind⟩] }

/-- The message `p` is delivered: it leaves the network, unless a duplicate of it is kept. -/
def consume (s : Net ι) (p : ι × ClipboardSnapshot) (keep : Bool) : Net ι :=
  { s with inflight := if keep then s.inflight else s.inflight.erase p }

/-- Delivering a message puts none in flight. -/
theorem consume_inflight_subset (s : Net ι) (p : ι × ClipboardSnapshot) (keep : Bool) :
    (s.consume p keep).inflight ⊆ s.inflight := by
  cases keep
  · exact List.erase_subset
  · exact List.Subset.refl _

/-- One step. -/
def step (blake3 : List UInt8 → Bytes 32) (s : Net ι) : NetLabel ι → Option (Net ι)
  | .copyText i now text targets =>
    let (snap, e) := (s.engines i).produceText now text
    some (s.record i e snap .produced targets)
  | .copyImage i now bytes format targets =>
    let (snap, e, store) := (s.engines i).produceImageSnapshot blake3 now (s.stores i) bytes format
    some { s.record i e snap .produced targets with stores := Function.update s.stores i store }
  | .deliver i snap keep targets =>
    if (i, snap) ∈ s.inflight then
      match (s.engines i).observeRemote snap with
      | (.apply snap', e) =>
        some ((s.consume (i, snap) keep).record i e snap' .applied targets)
      | (.ignore, e) =>
        some { s.consume (i, snap) keep with engines := Function.update s.engines i e }
    else none

end Net

/-- The network. A run starts with any engines and stores, nothing in flight, and no history. -/
def net (ι : Type*) [DecidableEq ι] (blake3 : List UInt8 → Bytes 32) :
    System (Net ι) (NetLabel ι) where
  init s := s.inflight = [] ∧ s.log = []
  step := Net.step blake3

/-- No counter is at `u64::MAX` before the step. -/
def BelowMax (s : Net ι) (_ : NetLabel ι) : Prop := ∀ i, (s.engines i).clock < 2^64 - 1

instance [Fintype ι] (s : Net ι) (a : NetLabel ι) : Decidable (BelowMax s a) :=
  inferInstanceAs (Decidable (∀ _, _))

/-- What a step does. A copy records a new snapshot one above the node's counter. A delivery of an
accepted snapshot records it; any other delivery leaves the engines and the history alone. -/
theorem step_cases {blake3 : List UInt8 → Bytes 32} {s t : Net ι} {a : NetLabel ι}
    (h : Net.step blake3 s a = some t) :
    (∃ i now items, a.isCopy ∧
      t.log = s.log ++ [⟨i, ((s.engines i).produce now items).1, .produced⟩] ∧
      t.engines = Function.update s.engines i ((s.engines i).produce now items).2 ∧
      ∀ p ∈ t.inflight, p ∈ s.inflight ∨ p.2 = ((s.engines i).produce now items).1) ∨
    (∃ i snap, ¬ a.isCopy ∧ (i, snap) ∈ s.inflight ∧ (s.engines i).Accepts snap ∧
      t.log = s.log ++ [⟨i, snap, .applied⟩] ∧
      t.engines = Function.update s.engines i ((s.engines i).advance snap) ∧
      ∀ p ∈ t.inflight, p ∈ s.inflight ∨ p.2 = snap) ∨
    (¬ a.isCopy ∧ t.log = s.log ∧ t.engines = s.engines ∧ t.inflight ⊆ s.inflight) := by
  cases a with
  | copyText i now text targets =>
    obtain rfl := Option.some.inj h
    refine .inl ⟨i, now, [.text text], rfl, rfl, rfl, fun p hp => ?_⟩
    simp only [Net.record, List.mem_append, List.mem_map] at hp
    exact hp.imp_right fun ⟨j, _, hj⟩ => hj ▸ rfl
  | copyImage i now bytes format targets =>
    obtain rfl := Option.some.inj h
    refine .inl ⟨i, now, [(produceImage blake3 (s.stores i) bytes format).1], rfl, rfl, rfl,
      fun p hp => ?_⟩
    simp only [Net.record, List.mem_append, List.mem_map] at hp
    exact hp.imp_right fun ⟨j, _, hj⟩ => hj ▸ rfl
  | deliver i snap keep targets =>
    simp only [Net.step, Engine.observeRemote_eq] at h
    split_ifs at h with hmem hacc
    · obtain rfl := Option.some.inj h
      refine .inr (.inl ⟨i, snap, by simp [NetLabel.isCopy], hmem, hacc, rfl, rfl, fun p hp => ?_⟩)
      simp only [Net.record, List.mem_append, List.mem_map] at hp
      exact hp.imp (fun hp => Net.consume_inflight_subset s _ keep hp) fun ⟨j, _, hj⟩ => hj ▸ rfl
    · obtain rfl := Option.some.inj h
      exact .inr (.inr ⟨by simp [NetLabel.isCopy], rfl, Function.update_eq_self _ _,
        Net.consume_inflight_subset s _ keep⟩)

/-- A duplicate that is delivered to an engine which does not accept it changes nothing. -/
theorem step_deliver_ignored (blake3 : List UInt8 → Bytes 32) {s : Net ι} {i : ι}
    {snap : ClipboardSnapshot} (hmem : (i, snap) ∈ s.inflight)
    (hacc : ¬ (s.engines i).Accepts snap) (targets : List ι) :
    Net.step blake3 s (.deliver i snap true targets) = some s := by
  simp only [Net.step, if_pos hmem, Engine.observeRemote_eq, if_neg hacc, Function.update_eq_self,
    Net.consume, if_true]

/-- What holds throughout a run in which no counter wraps: the log is increasing, no engine is
behind what it has recorded, and every snapshot that is in flight or recorded was produced. -/
structure NetInvariant (s : Net ι) : Prop where
  /-- Each node's recorded versions increase. -/
  increasing : Increasing version s.log
  /-- A node's counter is at least every version that it has recorded. -/
  clock : ∀ e ∈ s.log, version e.item ≤ (s.engines e.node).clock
  /-- What is in flight was produced. -/
  inflight : ∀ p ∈ s.inflight, p.2 ∈ produced s.log
  /-- What is recorded was produced. -/
  sourced : Sourced s.log

/-- Recording `snap` at `i` keeps the invariant when `snap` is ahead of the counter of `i`, that
counter advances to it, and it is a new production or was produced before. -/
theorem NetInvariant.record {s t : Net ι} (h : NetInvariant s) {i : ι} {e : Engine}
    {snap : ClipboardSnapshot} {kind : Kind} (hlt : (s.engines i).clock < version snap)
    (he : e.clock = version snap) (hlog : t.log = s.log ++ [⟨i, snap, kind⟩])
    (heng : t.engines = Function.update s.engines i e)
    (hin : ∀ p ∈ t.inflight, p ∈ s.inflight ∨ p.2 = snap)
    (hsrc : kind = .produced ∨ snap ∈ produced s.log) : NetInvariant t := by
  have hold : ∀ {m}, m ∈ produced s.log → m ∈ produced t.log := fun hm => by
    obtain ⟨j, hj⟩ := mem_produced.1 hm
    exact mem_produced.2 ⟨j, by rw [hlog]; exact List.mem_append_left _ hj⟩
  have hnew : snap ∈ produced t.log := by
    rcases hsrc with rfl | hsrc
    · exact mem_produced.2 ⟨i, by rw [hlog]; simp⟩
    · exact hold hsrc
  refine ⟨?_, ?_, ?_, ?_⟩
  · rw [hlog]
    refine h.increasing.append fun f hf hnode => ?_
    have hle := h.clock f hf
    rw [hnode] at hle
    exact lt_of_le_of_lt hle hlt
  · intro f hf
    rw [hlog] at hf
    rcases List.mem_append.1 hf with hf | hf
    · -- the counter of `i` has grown, and the others are as before
      have hle := h.clock f hf
      rw [heng]
      by_cases hnode : f.node = i
      · rw [hnode] at hle ⊢
        rw [Function.update_self, he]
        exact hle.trans hlt.le
      · rwa [Function.update_of_ne hnode]
    · obtain rfl := List.mem_singleton.1 hf
      rw [heng, Function.update_self, he]
  · intro p hp
    rcases hin p hp with hp | rfl
    · exact hold (h.inflight p hp)
    · exact hnew
  · intro f hf
    rw [hlog] at hf
    rcases List.mem_append.1 hf with hf | hf
    · exact hold (h.sourced f hf)
    · obtain rfl := List.mem_singleton.1 hf
      exact hnew

/-- A step from a state in which no counter is at its maximum keeps the invariant. -/
theorem NetInvariant.step {blake3 : List UInt8 → Bytes 32} {s t : Net ι} {a : NetLabel ι}
    (h : NetInvariant s) (hmax : BelowMax s a) (hstep : Net.step blake3 s a = some t) :
    NetInvariant t := by
  rcases step_cases hstep with ⟨i, now, items, -, hlog, heng, hin⟩ |
    ⟨i, snap, -, hmem, hacc, hlog, heng, hin⟩ | ⟨-, hlog, heng, hin⟩
  · have hver : version ((s.engines i).produce now items).1 = (s.engines i).clock + 1 :=
      Engine.produce_version _ _ _ (hmax i)
    exact h.record (by omega) rfl hlog heng hin (.inl rfl)
  · exact h.record hacc.2 rfl hlog heng hin (.inr (h.inflight _ hmem))
  · exact ⟨hlog ▸ h.increasing, hlog ▸ heng ▸ h.clock, fun p hp => hlog ▸ h.inflight p (hin hp),
      hlog ▸ h.sourced⟩

/-- The invariant holds of every state that a run reaches before a counter wraps. -/
theorem net_invariant {blake3 : List UInt8 → Bytes 32} {s : Net ι}
    (h : (net ι blake3).Reach BelowMax s) : NetInvariant s := by
  refine h.invariant (fun s hs => ?_) fun s a t hs hmax hstep => hs.step hmax hstep
  obtain ⟨hin, hlog⟩ := hs
  refine ⟨?_, ?_, ?_, ?_⟩ <;> simp [hin, hlog, Sourced]

/-! ## Flooding is loop-free -/

/-- Along an infinite run without a counter at its maximum, once no more copies are made the history
stops growing, and from then on no step puts a message in flight. -/
theorem forwarding_stops [Fintype ι] {blake3 : List UInt8 → Bytes 32}
    (e : (net ι blake3).Execution) (hmax : ∀ n, BelowMax (e.state n) (e.label n)) {N : ℕ}
    (hquiet : ∀ n, N ≤ n → ¬ (e.label n).isCopy) :
    ∃ M, ∀ n, M ≤ n → (e.state (n + 1)).log = (e.state n).log ∧
      (e.state (n + 1)).inflight ⊆ (e.state n).inflight := by
  have hinv : ∀ n, NetInvariant (e.state n) := fun n => net_invariant (e.reach hmax n)
  -- after `N` nothing is produced, so the adoptions are bounded by what was produced up to `N`
  have hprod : ∀ n, N ≤ n → produced (e.state (n + 1)).log = produced (e.state n).log := by
    intro n hn
    rcases step_cases (e.next n) with ⟨_, _, _, hcopy, _⟩ | ⟨_, _, _, _, _, hlog, _⟩ |
      ⟨_, hlog, _⟩
    · exact absurd hcopy (hquiet n hn)
    · simp [hlog, produced]
    · rw [hlog]
  have hconst : ∀ k, produced (e.state (N + k)).log = produced (e.state N).log := by
    intro k
    induction k with
    | zero => rfl
    | succ k ih => rw [← ih, ← hprod (N + k) (Nat.le_add_right N k)]; rfl
  have hmono : ∀ k, (e.state (N + k)).log.length ≤ (e.state (N + (k + 1))).log.length := by
    intro k
    rcases step_cases (e.next (N + k)) with ⟨_, _, _, _, hlog, _⟩ | ⟨_, _, _, _, _, hlog, _⟩ |
      ⟨_, hlog, _⟩
    · rw [← Nat.add_assoc, hlog]; simp
    · rw [← Nat.add_assoc, hlog]; simp
    · rw [← Nat.add_assoc, hlog]
  have hbound : ∀ k, (e.state (N + k)).log.length ≤ (produced (e.state N).log).length +
      (produced (e.state N).log).length * (Fintype.card ι - 1) := by
    intro k
    have hle := (hinv (N + k)).increasing.adoptions_total_le (hinv (N + k)).sourced
    rw [hconst k] at hle
    rw [length_eq, hconst k]
    omega
  obtain ⟨M, hM⟩ := eventually_constant hmono hbound
  refine ⟨N + M, fun n hn => ?_⟩
  obtain ⟨k, rfl⟩ := Nat.exists_eq_add_of_le (Nat.le_of_add_right_le hn)
  have hk : M ≤ k := by omega
  have hlen : (e.state (N + k + 1)).log.length = (e.state (N + k)).log.length :=
    (hM (k + 1) (by omega)).trans (hM k hk).symm
  -- a step that leaves the length of the history alone records nothing
  rcases step_cases (e.next (N + k)) with ⟨_, _, _, _, hlog, _⟩ | ⟨_, _, _, _, _, hlog, _⟩ |
    ⟨_, hlog, _, hin⟩
  · rw [hlog] at hlen; simp at hlen
  · rw [hlog] at hlen; simp at hlen
  · exact ⟨hlog, hin⟩

/-- Snapshot flooding is loop-free. In every state of every run in which no counter reaches its
maximum, each engine has answered `Apply` at most once for a snapshot and never for one that it
produced, and a snapshot has caused at most one `Apply` for each node other than its producer. Once
users stop copying, forwarding stops. -/
theorem flooding_loop_free [Fintype ι] (blake3 : List UInt8 → Bytes 32) :
    (∀ s : Net ι, (net ι blake3).Reach BelowMax s →
      (∀ i snap, s.log.count ⟨i, snap, .applied⟩ ≤ 1) ∧
      (∀ i snap, ⟨i, snap, .produced⟩ ∈ s.log → ⟨i, snap, .applied⟩ ∉ s.log) ∧
      (∀ snap, (adoptions s.log snap).length ≤ Fintype.card ι - 1)) ∧
    (∀ e : (net ι blake3).Execution, (∀ n, BelowMax (e.state n) (e.label n)) →
      (∃ N, ∀ n, N ≤ n → ¬ (e.label n).isCopy) →
      ∃ M, ∀ n, M ≤ n → (e.state (n + 1)).log = (e.state n).log ∧
        (e.state (n + 1)).inflight ⊆ (e.state n).inflight) := by
  refine ⟨fun s hs => ?_, fun e hmax ⟨N, hquiet⟩ => forwarding_stops e hmax hquiet⟩
  have hinv := net_invariant hs
  exact ⟨fun i snap => hinv.increasing.count_le_one _,
    fun i snap hp => hinv.increasing.kind_unique hp,
    fun snap => hinv.increasing.adoptions_le hinv.sourced snap⟩

section Example

/-- Two fresh engines, at the nodes `false` and `true`. -/
def pair : Net Bool where
  engines i := Engine.new ⟨.replicate 16 (if i then 2 else 1)⟩ 8
  stores _ := LazyStore.new
  inflight := []
  log := []

/-- A hash function that nothing depends on. -/
def pairHash (_ : List UInt8) : Bytes 32 := .replicate 32 0

/-- The first snapshot of the node `false`. -/
def hiSnap : ClipboardSnapshot := ((pair.engines false).produceText 0 "hi").1

/-- The node `false` has copied, and its message is in flight. -/
def pairSent : Net Bool :=
  pair.record false ((pair.engines false).advance hiSnap) hiSnap .produced [true]

/-- The node `true` has applied the message, sent it back, and left a duplicate in flight. -/
def pairApplied : Net Bool :=
  (pairSent.consume (true, hiSnap) true).record true ((pair.engines true).advance hiSnap) hiSnap
    .applied [false]

/-- The run in which `false` copies, and then the message reaches `true` over and over. -/
def pairRun : (net Bool pairHash).Execution where
  state
    | 0 => pair
    | 1 => pairSent
    | _ + 2 => pairApplied
  label
    | 0 => .copyText false 0 "hi" [true]
    | _ + 1 => .deliver true hiSnap true [false]
  init := ⟨rfl, rfl⟩
  next
    | 0 => rfl
    | 1 => rfl
    | _ + 2 => by
      show Net.step pairHash pairApplied (.deliver true hiSnap true [false]) = some pairApplied
      exact step_deliver_ignored _ (by decide +kernel) (by decide +kernel) _

/-- No counter of `pairRun` is at its maximum. -/
theorem pairRun_belowMax (n : ℕ) : BelowMax (pairRun.state n) (pairRun.label n) := by
  have hpair : ∀ s ∈ [pair, pairSent, pairApplied], ∀ i, (s.engines i).clock < 2^64 - 1 := by
    decide +kernel
  match n with
  | 0 => exact hpair pair (by simp)
  | 1 => exact hpair pairSent (by simp)
  | _ + 2 => exact hpair pairApplied (by simp)

/-- Both parts at the run in which a snapshot is delivered over and over: it is applied once, and
the history stops growing. -/
theorem flooding_loop_free_pair :
    (pairRun.state 2).log.count ⟨true, hiSnap, .applied⟩ ≤ 1 ∧
      ∃ M, ∀ n, M ≤ n → (pairRun.state (n + 1)).log = (pairRun.state n).log ∧
        (pairRun.state (n + 1)).inflight ⊆ (pairRun.state n).inflight :=
  ⟨((flooding_loop_free pairHash).1 _ (pairRun.reach pairRun_belowMax 2)).1 true hiSnap,
    (flooding_loop_free pairHash).2 pairRun pairRun_belowMax ⟨1, fun
      | _ + 1, _ => Bool.false_ne_true⟩⟩

end Example

/-! ## Updates are causally ordered -/

omit [DecidableEq ι] in
/-- The engine of a node that has recorded a snapshot no newer than its counter's ignores every
snapshot with a smaller or equal version. -/
theorem NetInvariant.ignores {s : Net ι} (h : NetInvariant s) {i : ι} {kind : Kind}
    {recorded snap : ClipboardSnapshot} (hrec : ⟨i, recorded, kind⟩ ∈ s.log)
    (hle : version snap ≤ version recorded) : ((s.engines i).observeRemote snap).1 = .ignore := by
  have hclock := h.clock _ hrec
  have hstale : ¬ (s.engines i).Accepts snap := fun hacc =>
    absurd hacc.2 (not_lt.2 (hle.trans hclock))
  rw [Engine.observeRemote_eq, if_neg hstale]

/-- Clipboard updates are causally ordered. In every state of every run in which no counter reaches
its maximum, if `snap₂` was produced after `snap₁` had been produced or applied there, directly or
through a chain of such steps, then `snap₁` has the smaller version, and every node that has
produced or applied `snap₂` answers `Ignore` for `snap₁`. -/
theorem updates_causally_ordered (blake3 : List UInt8 → Bytes 32) (s : Net ι)
    (hs : (net ι blake3).Reach BelowMax s) (snap₁ snap₂ : ClipboardSnapshot)
    (hb : HappensBefore s.log snap₁ snap₂) :
    snap₁.version < snap₂.version ∧
      ∀ i kind, ⟨i, snap₂, kind⟩ ∈ s.log → ((s.engines i).observeRemote snap₁).1 = .ignore := by
  have hinv := net_invariant hs
  have hlt : version snap₁ < version snap₂ := hb.stamp_lt hinv.increasing
  exact ⟨UInt64.lt_iff_toNat_lt.2 hlt, fun i kind hrec => hinv.ignores hrec hlt.le⟩

/-- The answer that the node `true` copies after it has applied the first snapshot. -/
def replySnap : ClipboardSnapshot := ((pairApplied.engines true).produceText 0 "re").1

/-- The node `true` has answered. -/
def pairReplied : Net Bool :=
  pairApplied.record true ((pairApplied.engines true).advance replySnap) replySnap .produced [false]

/-- The answer is ordered after the snapshot that it answers. -/
theorem updates_causally_ordered_pair : hiSnap.version < replySnap.version ∧
    ((pairReplied.engines true).observeRemote hiSnap).1 = .ignore := by
  have hreach : (net Bool pairHash).Reach BelowMax pairReplied :=
    (pairRun.reach pairRun_belowMax 2).step (a := .copyText true 0 "re" [false])
      (pairRun_belowMax 2) rfl
  have hb : HappensBefore pairReplied.log hiSnap replySnap :=
    .single ⟨true, .applied, .cons _ (.refl _)⟩
  obtain ⟨hlt, hignore⟩ := updates_causally_ordered pairHash pairReplied hreach _ _ hb
  exact ⟨hlt, hignore true .produced (List.mem_append_right _ (List.mem_singleton.2 rfl))⟩

end Borderless.Network
