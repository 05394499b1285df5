import Borderless.Clipboard.Engine
import Borderless.Lib.Transition
import Mathlib.Data.List.DropRight

/-!
# Runs of the engine

Sequences of calls of `produce_text`, `produce_image_snapshot` and `observe_remote` on a fresh
engine. Next to the engine a state records all snapshots that were produced or applied so far
(`EngineRun.emitted`), of which the history is to be the end.

Everything rests on one invariant, `EngineRun.InOrder`: the recorded versions strictly increase, and
the history is the end of the record. An accepted snapshot always keeps it. A produced one keeps it
unless `u64::MAX` is among the recorded versions, where the counter's addition overflows
(`inOrder_call`).
-/

namespace Borderless.Clipboard

open Transition

/-- `u64::MAX`, the largest version. -/
def maxVersion : UInt64 := .ofNat (2^64 - 1)

/-- The methods of the engine that may change it. -/
inductive EngineCall
  /-- `produce_text`, at the wall clock `now`. -/
  | produceText (now : UInt64) (text : String)
  /-- `produce_image_snapshot`, at the wall clock `now`. -/
  | produceImage (now : UInt64) (bytes : List UInt8) (format : ImageFormat)
  /-- `observe_remote`. -/
  | observe (snap : ClipboardSnapshot)

/-- The call is of one of the two producers. -/
def EngineCall.Produces : EngineCall → Prop
  | .produceText .. | .produceImage .. => True
  | .observe _ => False

/-- A call: the snapshot that it produces or applies, if any, the engine and the store after it. -/
def Engine.call (blake3 : List UInt8 → Bytes 32) (e : Engine) (store : LazyStore) :
    EngineCall → Option ClipboardSnapshot × Engine × LazyStore
  | .produceText now text =>
    let (snap, e') := e.produceText now text
    (some snap, e', store)
  | .produceImage now bytes format =>
    let (snap, e', store') := e.produceImageSnapshot blake3 now store bytes format
    (some snap, e', store')
  | .observe snap =>
    match e.observeRemote snap with
    | (.apply snap', e') => (some snap', e', store)
    | (.ignore, e') => (none, e', store)

/-- What a call does. A producer stamps its items with the next version; `observe_remote` applies
what it accepts, and nothing else. -/
theorem Engine.call_cases (blake3 : List UInt8 → Bytes 32) (e : Engine) (store : LazyStore)
    (c : EngineCall) :
    (c.Produces ∧ ∃ now items store', e.call blake3 store c =
      (some (e.produce now items).1, e.advance (e.produce now items).1, store')) ∨
    (∃ snap, c = .observe snap ∧ e.Accepts snap ∧
      e.call blake3 store c = (some snap, e.advance snap, store)) ∨
    (∃ snap, c = .observe snap ∧ ¬ e.Accepts snap ∧
      e.call blake3 store c = (none, e, store)) := by
  cases c with
  | produceText now text => exact .inl ⟨trivial, now, [.text text], store, rfl⟩
  | produceImage now bytes format =>
    exact .inl ⟨trivial, now, [(produceImage blake3 store bytes format).1],
      (produceImage blake3 store bytes format).2, rfl⟩
  | observe snap =>
    have hobserve := e.observeRemote_eq snap
    by_cases haccepts : e.Accepts snap
    · rw [if_pos haccepts] at hobserve
      exact .inr (.inl ⟨snap, rfl, haccepts, by simp only [Engine.call, hobserve]⟩)
    · rw [if_neg haccepts] at hobserve
      exact .inr (.inr ⟨snap, rfl, haccepts, by simp only [Engine.call, hobserve]⟩)

/-- An engine with its store, and the record of its run. -/
structure EngineRun where
  /-- The engine. -/
  engine : Engine
  /-- The store of the payloads that it produces. -/
  store : LazyStore
  /-- All snapshots that were produced or applied so far, oldest first. -/
  emitted : List ClipboardSnapshot

/-- The state after a call with the result `out`. -/
def EngineRun.record (s : EngineRun) (out : Option ClipboardSnapshot × Engine × LazyStore) :
    EngineRun :=
  ⟨out.2.1, out.2.2, s.emitted ++ out.1.toList⟩

/-- The runs of a fresh engine. -/
def engineRuns (blake3 : List UInt8 → Bytes 32) (selfId : NodeId) (historyLimit : ℕ) :
    System EngineRun EngineCall where
  init s := ∃ store, s = ⟨Engine.new selfId historyLimit, store, []⟩
  step s c := some (s.record (s.engine.call blake3 s.store c))

/-! ## The end of a list -/

/-- The newest of the last entries is the newest entry. -/
theorem getLast?_rtake {α : Type*} {l : List α} {n : ℕ} (hn : 0 < n) :
    (l.rtake n).getLast? = l.getLast? := by
  unfold List.rtake
  rw [List.getLast?_drop]
  split_ifs with h
  · obtain rfl : l = [] := List.eq_nil_of_length_eq_zero (by omega)
    rfl
  · rfl

/-- A bounded history that holds the end of a list holds the end of it after a push. -/
theorem pushHistory_rtake {l : List ClipboardSnapshot} {n : ℕ} (hn : 0 < n)
    (snap : ClipboardSnapshot) : pushHistory (l.rtake n) n snap = (l ++ [snap]).rtake n := by
  obtain ⟨m, rfl⟩ : ∃ m, n = m + 1 := ⟨n - 1, by omega⟩
  rw [List.rtake_concat_succ]
  unfold pushHistory List.rtake
  congr 1
  rw [List.length_drop, List.drop_drop]
  split_ifs with hfull
  · congr 1
    omega
  · congr 1
    omega

namespace EngineRun

/-- The invariant of a run: the recorded versions increase, and the history is the end of the
record. -/
structure InOrder (selfId : NodeId) (historyLimit : ℕ) (s : EngineRun) : Prop where
  /-- The engine is of its node. -/
  selfId : s.engine.selfId = selfId
  /-- The bound of the history. -/
  limit : s.engine.historyLimit = max historyLimit 1
  /-- The history is the end of the record. -/
  history : s.engine.history = s.emitted.rtake (max historyLimit 1)
  /-- The recorded versions increase. -/
  increasing : s.emitted.Pairwise fun snap snap' => snap.version < snap'.version

/-- The addition to the counter overflows. -/
def Overflows (s : EngineRun) (c : EngineCall) : Prop :=
  c.Produces ∧ 2^64 ≤ s.engine.clock + 1

instance : DecidablePred EngineCall.Produces
  | .produceText .. | .produceImage .. => .isTrue trivial
  | .observe _ => .isFalse id

instance (s : EngineRun) (c : EngineCall) : Decidable (s.Overflows c) :=
  inferInstanceAs (Decidable (_ ∧ _))

/-- A producer is not called when `u64::MAX` is among the versions produced or applied before. -/
def BelowMax (s : EngineRun) (c : EngineCall) : Prop :=
  c.Produces → ∀ snap ∈ s.emitted, snap.version ≠ maxVersion

variable {blake3 : List UInt8 → Bytes 32} {selfId : NodeId} {historyLimit : ℕ} {s t : EngineRun}

/-- The counter is the last recorded version, or zero. -/
theorem InOrder.version_eq (h : InOrder selfId historyLimit s) :
    s.engine.localVersion = (s.emitted.getLast?.map ClipboardSnapshot.version).getD 0 := by
  rw [s.engine.version_newest, h.history, getLast?_rtake (by omega)]

/-- Where something is recorded, the counter is the version of a recorded snapshot, and no recorded
version is above it. -/
theorem InOrder.version_last (h : InOrder selfId historyLimit s) {snap : ClipboardSnapshot}
    (hsnap : snap ∈ s.emitted) : snap.version ≤ s.engine.localVersion ∧
      ∃ last ∈ s.emitted, s.engine.localVersion = last.version := by
  have hversion := h.version_eq
  have hincreasing := h.increasing
  obtain ⟨older, last, hemitted⟩ : ∃ older last, s.emitted = older ++ [last] :=
    ⟨_, _, (List.dropLast_concat_getLast (List.ne_nil_of_mem hsnap)).symm⟩
  rw [hemitted] at hversion hincreasing hsnap
  rw [List.getLast?_concat] at hversion
  have hlast : s.engine.localVersion = last.version := hversion
  refine ⟨?_, last, by simp [hemitted], hlast⟩
  rw [hlast]
  rcases List.mem_append.1 hsnap with holder | hnewest
  · exact UInt64.le_of_lt ((List.pairwise_append.1 hincreasing).2.2 _ holder _ (by simp))
  · rw [List.mem_singleton.1 hnewest]
    exact UInt64.le_refl _

/-- A counter at the top is the version of a recorded snapshot. -/
theorem InOrder.clock_lt (h : InOrder selfId historyLimit s)
    (hmax : ∀ snap ∈ s.emitted, snap.version ≠ maxVersion) : s.engine.clock < 2^64 - 1 := by
  by_contra hnot
  have hbound : s.engine.clock < 2^64 := s.engine.localVersion.toNat_lt
  have htop : s.engine.localVersion = maxVersion := by
    apply UInt64.toNat_inj.1
    show s.engine.clock = 2^64 - 1
    omega
  cases hemitted : s.emitted with
  | nil =>
    have hzero := h.version_eq
    rw [hemitted, htop] at hzero
    cases hzero
  | cons snap rest =>
    obtain ⟨-, last, hlast, hversion⟩ := h.version_last (hemitted ▸ List.mem_cons_self)
    exact hmax last hlast (hversion.symm.trans htop)

/-- A snapshot above the counter keeps the run in order. -/
theorem InOrder.advance (h : InOrder selfId historyLimit s) {snap : ClipboardSnapshot}
    (hnew : s.engine.clock < snap.version.toNat) (store : LazyStore) :
    InOrder selfId historyLimit ⟨s.engine.advance snap, store, s.emitted ++ [snap]⟩ := by
  constructor
  · exact h.selfId
  · exact h.limit
  · show pushHistory s.engine.history s.engine.historyLimit snap = _
    rw [h.history, h.limit, pushHistory_rtake (by omega)]
  · refine List.pairwise_append.2 ⟨h.increasing, List.pairwise_singleton _ _, fun old hold new hn => ?_⟩
    obtain rfl := List.mem_singleton.1 hn
    have hle := UInt64.le_iff_toNat_le.1 (h.version_last hold).1
    exact UInt64.lt_iff_toNat_lt.2 (lt_of_le_of_lt hle hnew)

/-- A call keeps the run in order unless a producer is called at the top. -/
theorem inOrder_call (h : InOrder selfId historyLimit s) {c : EngineCall} (hc : s.BelowMax c)
    (hstep : (engineRuns blake3 selfId historyLimit).step s c = some t) :
    InOrder selfId historyLimit t := by
  obtain rfl := Option.some.inj hstep
  rcases s.engine.call_cases blake3 s.store c with ⟨hproduces, now, items, store, hcall⟩ |
    ⟨snap, -, haccepts, hcall⟩ | ⟨snap, -, -, hcall⟩
  · show InOrder selfId historyLimit (s.record (s.engine.call blake3 s.store c))
    rw [hcall]
    refine h.advance ?_ store
    rw [Engine.produce_version _ _ _ (h.clock_lt (hc hproduces))]
    omega
  · show InOrder selfId historyLimit (s.record (s.engine.call blake3 s.store c))
    rw [hcall]
    exact h.advance haccepts.2 s.store
  · show InOrder selfId historyLimit (s.record (s.engine.call blake3 s.store c))
    rw [hcall]
    simpa [record] using h

/-- A fresh engine is in order. -/
theorem inOrder_init (hinit : (engineRuns blake3 selfId historyLimit).init s) :
    InOrder selfId historyLimit s := by
  obtain ⟨store, rfl⟩ := hinit
  exact ⟨rfl, rfl, (List.rtake_nil _).symm, List.Pairwise.nil⟩

/-- What is recorded stays recorded. -/
theorem emitted_step {c : EngineCall}
    (hstep : (engineRuns blake3 selfId historyLimit).step s c = some t) :
    s.emitted ⊆ t.emitted := by
  obtain rfl := Option.some.inj hstep
  exact List.subset_append_left _ _

/-- As long as `u64::MAX` is not among the recorded versions, a run is in order. -/
theorem inOrder_of_reachable (hs : (engineRuns blake3 selfId historyLimit).Reachable s) :
    (∀ snap ∈ s.emitted, snap.version ≠ maxVersion) → InOrder selfId historyLimit s := by
  refine hs.invariant (I := fun s => (∀ snap ∈ s.emitted, snap.version ≠ maxVersion) →
    InOrder selfId historyLimit s) (fun s hinit _ => inOrder_init hinit) ?_
  intro s c t ih _ hstep hmax
  have hbefore : ∀ snap ∈ s.emitted, snap.version ≠ maxVersion :=
    fun snap hsnap => hmax snap (emitted_step hstep hsnap)
  exact inOrder_call (ih hbefore) (fun _ => hbefore) hstep

/-- The calls that produce a snapshot above all recorded ones, without an overflow. -/
def Advances (blake3 : List UInt8 → Bytes 32) (s : EngineRun) (c : EngineCall) : Prop :=
  ¬ s.Overflows c ∧ (c.Produces → ∀ snap, (s.engine.call blake3 s.store c).1 = some snap →
    ∀ old ∈ s.emitted, old.version < snap.version)

/-- A call in a run in order advances exactly when no producer is called at the top. -/
theorem advances_iff (h : InOrder selfId historyLimit s) (c : EngineCall) :
    s.Advances blake3 c ↔ s.BelowMax c := by
  constructor
  · rintro ⟨hnot, -⟩ hproduces old hold rfl_max
    have hle := UInt64.le_iff_toNat_le.1 (h.version_last hold).1
    rw [rfl_max] at hle
    have htop : 2^64 - 1 ≤ s.engine.clock := hle
    exact hnot ⟨hproduces, by omega⟩
  · intro hc
    refine ⟨fun ⟨hproduces, htop⟩ => ?_, fun hproduces snap hsnap old hold => ?_⟩
    · have hclock := h.clock_lt (hc hproduces)
      omega
    · rcases s.engine.call_cases blake3 s.store c with ⟨-, now, items, store, hcall⟩ |
        ⟨_, rfl, -⟩ | ⟨_, rfl, -⟩
      · rw [hcall] at hsnap
        obtain rfl := Option.some.inj hsnap
        have hle := UInt64.le_iff_toNat_le.1 (h.version_last hold).1
        have hversion := s.engine.produce_version now items (h.clock_lt (hc hproduces))
        apply UInt64.lt_iff_toNat_lt.2
        rw [hversion]
        exact Nat.lt_succ_of_le hle
      · exact hproduces.elim
      · exact hproduces.elim

end EngineRun

open EngineRun

/-- The clock and the history. In every run of a fresh engine in which no version reaches `u64::MAX`,
the history is the last snapshots of those produced or applied, as many as its bound allows, oldest
first; their versions increase; the counter is the version of the newest, or zero; and
`observe_remote` applies exactly the foreign snapshots above the counter, and changes nothing when
it ignores one. -/
theorem engine_clock_history (blake3 : List UInt8 → Bytes 32) (selfId : NodeId) (historyLimit : ℕ)
    (s : EngineRun) (hs : (engineRuns blake3 selfId historyLimit).Reachable s)
    (hmax : ∀ snap ∈ s.emitted, snap.version ≠ maxVersion) :
    s.engine.history = s.emitted.rtake (min (max historyLimit 1) s.emitted.length) ∧
      s.emitted.Pairwise (fun snap snap' => snap.version < snap'.version) ∧
      s.engine.localVersion = (s.engine.history.getLast?.map ClipboardSnapshot.version).getD 0 ∧
      s.engine.history.getLast? = s.emitted.getLast? ∧
      ∀ snap,
        ((s.engine.observeRemote snap).1 = .apply snap ↔
          snap.origin ≠ selfId ∧ s.engine.localVersion < snap.version) ∧
        ((s.engine.observeRemote snap).1 ≠ .apply snap →
          s.engine.observeRemote snap = (.ignore, s.engine)) := by
  have h := inOrder_of_reachable hs hmax
  refine ⟨?_, h.increasing, s.engine.version_newest, ?_, fun snap => ⟨?_, fun hnot => ?_⟩⟩
  · rw [h.history]
    unfold List.rtake
    congr 1
    omega
  · rw [h.history, getLast?_rtake (by omega)]
  · rw [Engine.observeRemote_apply_iff, ← h.selfId]
    exact and_congr_right fun _ => UInt64.lt_iff_toNat_lt.symm
  · rw [ne_eq, Engine.observeRemote_apply_iff] at hnot
    rw [Engine.observeRemote_eq, if_neg hnot]

section Example

/-- The engine's node. -/
def ownId : NodeId := ⟨.replicate 16 0⟩

/-- Another node. -/
def otherId : NodeId := ⟨.replicate 16 1⟩

/-- A hash for a small example. -/
def zeroHash (_ : List UInt8) : Bytes 32 := .replicate 32 0

/-- A fresh engine that keeps one snapshot, with an empty store. -/
def freshRun : EngineRun := ⟨Engine.new ownId 0, LazyStore.new, []⟩

/-- `freshRun` is the start of a run. -/
theorem freshRun_init : (engineRuns zeroHash ownId 0).init freshRun := ⟨_, rfl⟩

/-- A local copy, a foreign snapshot that makes the clock jump, and an image. -/
def jumpCalls : List EngineCall :=
  [.produceText 0 "a", .observe ⟨7, otherId, 0, [.text "b"]⟩, .produceImage 0 [1, 2] .png]

/-- After `jumpCalls` three snapshots are recorded, and the history holds the last of them. -/
theorem engine_clock_history_jumpCalls : ∃ s : EngineRun,
    s.emitted.length = 3 ∧ s.engine.history = s.emitted.rtake 1 := by
  obtain ⟨s, hs, hlength, hmax⟩ := System.exists_reach_of_run (M := engineRuns zeroHash ownId 0)
    (P := fun _ _ => True)
    (p := fun s => s.emitted.length = 3 ∧ ∀ snap ∈ s.emitted, snap.version ≠ maxVersion)
    freshRun_init jumpCalls (fun _ _ => trivial) (by decide +kernel)
  refine ⟨s, hlength, ?_⟩
  rw [(engine_clock_history zeroHash ownId 0 s hs hmax).1, hlength]
  rfl

end Example

/-- The counter. A run of calls on a fresh engine never overflows the counter, and produces only
snapshots above all that it has produced or accepted before, exactly when no producer is called
after a snapshot with the version `u64::MAX`. -/
theorem engine_clock_never_overflows (blake3 : List UInt8 → Bytes 32) (selfId : NodeId)
    (historyLimit : ℕ) (s : EngineRun) (hs : (engineRuns blake3 selfId historyLimit).init s)
    (cs : List EngineCall) :
    (∀ p ∈ (engineRuns blake3 selfId historyLimit).steps s cs, p.1.Advances blake3 p.2.1) ↔
      ∀ p ∈ (engineRuns blake3 selfId historyLimit).steps s cs, p.1.BelowMax p.2.1 :=
  System.steps_forall_iff (I := InOrder selfId historyLimit)
    (Q := fun s c _ => s.Advances blake3 c) (fun c _ _ _ h _ => advances_iff h c)
    (fun _ _ _ _ h hstep hc => inOrder_call h hc hstep) (inOrder_init hs)

section Example

/-- A foreign snapshot with the version `u64::MAX`, and a local copy. -/
def topCalls : List EngineCall :=
  [.observe ⟨maxVersion, otherId, 0, [.text "b"]⟩, .produceText 0 "a"]

/-- All of `jumpCalls` return, and every call advances. -/
theorem engine_clock_never_overflows_jumpCalls :
    ((engineRuns zeroHash ownId 0).steps freshRun jumpCalls).length = jumpCalls.length ∧
      ∀ p ∈ (engineRuns zeroHash ownId 0).steps freshRun jumpCalls, p.1.Advances zeroHash p.2.1 := by
  refine ⟨by decide +kernel,
    (engine_clock_never_overflows zeroHash ownId 0 freshRun freshRun_init jumpCalls).2 ?_⟩
  intro p hp _
  revert p
  decide +kernel

/-- The local copy of `topCalls` overflows the counter. -/
theorem engine_clock_overflows :
    ¬ ∀ (blake3 : List UInt8 → Bytes 32) (selfId : NodeId) (historyLimit : ℕ) (s : EngineRun),
      (engineRuns blake3 selfId historyLimit).init s → ∀ cs,
        ∀ p ∈ (engineRuns blake3 selfId historyLimit).steps s cs, p.1.Advances blake3 p.2.1 := by
  intro h
  have hover : ∃ p ∈ (engineRuns zeroHash ownId 0).steps freshRun topCalls, p.1.Overflows p.2.1 := by
    decide +kernel
  obtain ⟨p, hp, hoverflows⟩ := hover
  exact (h zeroHash ownId 0 freshRun freshRun_init topCalls p hp).1 hoverflows

end Example

end Borderless.Clipboard
