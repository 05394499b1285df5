import Borderless.Clipboard.Lazy
import Mathlib.Tactic.Common

/-!
# The clipboard sync engine

`crates/clipboard/src/lib.rs`: a Lamport counter, the origin filter, and a bounded history. Each
method runs under the engine's mutex, so a method is a function from the state inside the mutex to
the result and the next state. The counter is a `u64`; its addition wraps, as it does in a release
build.

The state carries what every method keeps: the history is within its limit, and the counter is the
version of the newest snapshot in the history, or zero when there is none.
-/

namespace Borderless.Clipboard

/-- What `observe_remote` decides. -/
inductive Decision
  /-- Apply the snapshot to the local clipboard. -/
  | apply (snap : ClipboardSnapshot)
  /-- Drop it: an echo, stale, or of our own origin. -/
  | ignore
deriving DecidableEq

/-- `Inner::push_history`: at the limit the oldest snapshot goes first. -/
def pushHistory (history : List ClipboardSnapshot) (limit : ℕ) (snap : ClipboardSnapshot) :
    List ClipboardSnapshot :=
  (if history.length = limit then history.drop 1 else history) ++ [snap]

/-- The pushed snapshot is the newest. -/
@[simp]
theorem getLast?_pushHistory (history : List ClipboardSnapshot) (limit : ℕ)
    (snap : ClipboardSnapshot) : (pushHistory history limit snap).getLast? = some snap := by
  simp [pushHistory]

/-- A history within a positive limit stays within it. -/
theorem length_pushHistory_le {history : List ClipboardSnapshot} {limit : ℕ} (hpos : 0 < limit)
    (hle : history.length ≤ limit) (snap : ClipboardSnapshot) :
    (pushHistory history limit snap).length ≤ limit := by
  unfold pushHistory
  split_ifs with h
  · simp only [List.length_append, List.length_drop, List.length_singleton]
    omega
  · simp only [List.length_append, List.length_singleton]
    omega

/-- `Engine`, the contents of its mutex. -/
structure Engine where
  /-- The node that the engine runs on. -/
  selfId : NodeId
  /-- The Lamport counter. -/
  localVersion : UInt64
  /-- The last snapshots produced or applied, the newest last. -/
  history : List ClipboardSnapshot
  /-- The bound of the history. -/
  historyLimit : ℕ
  /-- `Engine::new` raises the bound to at least one. -/
  limit_pos : 0 < historyLimit
  /-- The history is within its bound. -/
  history_le : history.length ≤ historyLimit
  /-- The counter is the version of the newest snapshot. -/
  version_newest : localVersion = (history.getLast?.map ClipboardSnapshot.version).getD 0

namespace Engine

/-- `Engine::new`: nothing has been counted, and the history keeps at least one snapshot. -/
def new (selfId : NodeId) (historyLimit : ℕ) : Engine where
  selfId := selfId
  localVersion := 0
  history := []
  historyLimit := max historyLimit 1
  limit_pos := by omega
  history_le := by simp
  version_newest := rfl

/-- The last entry of `history()`. -/
def newest (e : Engine) : Option ClipboardSnapshot := e.history.getLast?

/-- The counter as a natural number. -/
def clock (e : Engine) : ℕ := e.localVersion.toNat

/-- What `produce_text`, `produce_image_snapshot` and an applying `observe_remote` do to the state:
the counter takes the snapshot's version, and the snapshot goes into the history. -/
def advance (e : Engine) (snap : ClipboardSnapshot) : Engine where
  selfId := e.selfId
  localVersion := snap.version
  history := pushHistory e.history e.historyLimit snap
  historyLimit := e.historyLimit
  limit_pos := e.limit_pos
  history_le := length_pushHistory_le e.limit_pos e.history_le snap
  version_newest := by simp

/-- The body that the two producers share: bump the counter, stamp the items with it, and record
the snapshot. `now` is the wall clock of `now_ms`. -/
def produce (e : Engine) (now : UInt64) (items : List ClipItem) : ClipboardSnapshot × Engine :=
  let snap : ClipboardSnapshot := ⟨e.localVersion + 1, e.selfId, now, items⟩
  (snap, e.advance snap)

/-- `Engine::produce_text`: the next snapshot has the text as its only item. -/
def produceText (e : Engine) (now : UInt64) (text : String) : ClipboardSnapshot × Engine :=
  e.produce now [.text text]

/-- `Engine::produce_image_snapshot`: the next snapshot has the image as its only item, which
`produce_image` may have put into the store. -/
def produceImageSnapshot (blake3 : List UInt8 → Bytes 32) (e : Engine) (now : UInt64)
    (store : LazyStore) (bytes : List UInt8) (format : ImageFormat) :
    ClipboardSnapshot × Engine × LazyStore :=
  let (item, store') := produceImage blake3 store bytes format
  let (snap, e') := e.produce now [item]
  (snap, e', store')

/-- `Engine::observe_remote`: a snapshot of another node that is ahead of the counter is applied,
and any other is ignored. -/
def observeRemote (e : Engine) (snap : ClipboardSnapshot) : Decision × Engine :=
  if snap.origin = e.selfId then (.ignore, e)
  else if snap.version ≤ e.localVersion then (.ignore, e)
  else (.apply snap, e.advance snap)

/-! ## What the methods do to the clock -/

/-- A new engine has no snapshot. -/
@[simp] theorem newest_new (selfId : NodeId) (limit : ℕ) : (new selfId limit).newest = none := rfl

/-- A new engine counts from zero. -/
@[simp] theorem clock_new (selfId : NodeId) (limit : ℕ) : (new selfId limit).clock = 0 := rfl

/-- A new engine is the one of its node. -/
@[simp] theorem selfId_new (selfId : NodeId) (limit : ℕ) : (new selfId limit).selfId = selfId := rfl

/-- An engine that advances keeps its node. -/
@[simp] theorem selfId_advance (e : Engine) (snap : ClipboardSnapshot) :
    (e.advance snap).selfId = e.selfId := rfl

/-- An engine advances to the version of the snapshot. -/
@[simp] theorem clock_advance (e : Engine) (snap : ClipboardSnapshot) :
    (e.advance snap).clock = snap.version.toNat := rfl

/-- An engine advances to the snapshot. -/
@[simp] theorem newest_advance (e : Engine) (snap : ClipboardSnapshot) :
    (e.advance snap).newest = some snap := getLast?_pushHistory _ _ _

/-- What an engine produces has its node as the origin. -/
@[simp] theorem produce_origin (e : Engine) (now : UInt64) (items : List ClipItem) :
    (e.produce now items).1.origin = e.selfId := rfl

/-- An engine advances to what it produces. -/
@[simp] theorem produce_snd (e : Engine) (now : UInt64) (items : List ClipItem) :
    (e.produce now items).2 = e.advance (e.produce now items).1 := rfl

/-- Below `u64::MAX` a produced snapshot is one ahead of the counter. -/
theorem produce_version (e : Engine) (now : UInt64) (items : List ClipItem)
    (h : e.clock < 2^64 - 1) : (e.produce now items).1.version.toNat = e.clock + 1 := by
  have hadd : (e.produce now items).1.version.toNat = (e.clock + 1) % 2^64 := by
    simp only [produce, clock, UInt64.toNat_add]
    rfl
  rw [hadd, Nat.mod_eq_of_lt (by omega)]

/-- The counter is the version of the newest snapshot, or zero. -/
theorem clock_eq_newest (e : Engine) :
    e.clock = (e.newest.map fun snap => snap.version.toNat).getD 0 := by
  have h := e.version_newest
  unfold clock newest
  rw [h]
  cases e.history.getLast? <;> rfl

/-- The snapshots that `observe_remote` applies: of another origin, and ahead of the counter. -/
def Accepts (e : Engine) (snap : ClipboardSnapshot) : Prop :=
  snap.origin ≠ e.selfId ∧ e.clock < snap.version.toNat

instance (e : Engine) (snap : ClipboardSnapshot) : Decidable (e.Accepts snap) :=
  inferInstanceAs (Decidable (_ ∧ _))

/-- `observe_remote` applies what it accepts, and ignores everything else without a change. -/
theorem observeRemote_eq (e : Engine) (snap : ClipboardSnapshot) :
    e.observeRemote snap = if e.Accepts snap then (.apply snap, e.advance snap)
      else (.ignore, e) := by
  unfold observeRemote Accepts clock
  by_cases horigin : snap.origin = e.selfId
  · simp [horigin]
  · by_cases hstale : snap.version ≤ e.localVersion
    · have hnot := not_lt.2 (UInt64.le_iff_toNat_le.1 hstale)
      simp [horigin, hstale, hnot]
    · have hlt : e.localVersion.toNat < snap.version.toNat :=
        not_le.1 fun hle => hstale (UInt64.le_iff_toNat_le.2 hle)
      simp [horigin, hstale, hlt]

/-- The decision is `Apply` exactly for an accepted snapshot. -/
theorem observeRemote_apply_iff (e : Engine) (snap : ClipboardSnapshot) :
    (e.observeRemote snap).1 = .apply snap ↔ e.Accepts snap := by
  rw [observeRemote_eq]
  split_ifs with h <;> simp [h]

end Engine

end Borderless.Clipboard
