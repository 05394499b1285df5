import Borderless.Clipboard.Engine
import Borderless.Lib.Transition
import Mathlib.Data.Fintype.Option

/-!
# The clipboard traffic of a hub and its spokes

The network of `docs/architecture.md`: every spoke has at most one session with the hub, a pair of
FIFO pipes. Nodes are `Option κ`, where `none` is the hub and `some k` a spoke.

- A local copy (`watch_to_frame`) produces a snapshot. The hub broadcasts it to every live session
  (`ServerRuntime::run`); a spoke sends it to the hub if it has a session (`run_session`).
- The hub's reader of spoke `k` (`spawn_spoke_session`) calls `observe_remote`, and for `Apply`
  broadcasts the snapshot to every session but that of `k`. The two are separate steps, since the
  reader waits for the local clipboard in between: `relaying` holds the snapshots in between.
- A spoke's reader (`reader_loop`) calls `observe_remote` and sends nothing.
- Sessions begin and end at any time, and frames in the pipes of an ended session are lost. A
  restarted process keeps its identity and starts with a fresh engine.

A delivery is one step, which is always possible: the tasks that read and write a connection, and
its lock, are those of `Runtime.Duplex`, where a frame may wait for good. So what is proved about
runs of this network is about what it does, and not that it goes on. `Deployment` is the network of
the hub's and the spokes' tasks and channels, whose steps are steps of this one.

`copies` counts the snapshots produced; no node reads it.
-/

namespace Borderless.Network

open Borderless.Clipboard Transition

/-- A hub, its spokes, and what is in flight between them. -/
structure HubSpoke (κ : Type*) where
  /-- The engine of each node. -/
  engine : Option κ → Engine
  /-- Whether a spoke has a session with the hub. -/
  live : κ → Bool
  /-- The frames from a spoke to the hub, oldest first. -/
  up : κ → List ClipboardSnapshot
  /-- The frames from the hub to a spoke, oldest first. -/
  down : κ → List ClipboardSnapshot
  /-- The snapshots that the hub's readers have applied and not yet broadcast, each with the spoke
  that it came from. -/
  relaying : List (κ × ClipboardSnapshot)
  /-- The number of snapshots produced. -/
  copies : ℕ

/-- The steps of the network. -/
inductive HubSpokeLabel (κ : Type*)
  /-- The user of `n` copies text. -/
  | copy (n : Option κ) (now : UInt64) (text : String)
  /-- The hub's reader of `k` handles its next frame. -/
  | deliverUp (k : κ)
  /-- The reader of `k` handles its next frame. -/
  | deliverDown (k : κ)
  /-- A reader of the hub broadcasts what it has applied. -/
  | relay (p : κ × ClipboardSnapshot)
  /-- A session of `k` begins. -/
  | join (k : κ)
  /-- The session of `k` ends. -/
  | leave (k : κ)
  /-- The process of `n` restarts, with this history limit. -/
  | restart (n : Option κ) (historyLimit : ℕ)

/-- The steps of a network in which every session lasts: copies, deliveries and broadcasts. -/
def HubSpokeLabel.isTraffic {κ : Type*} : HubSpokeLabel κ → Bool
  | .copy .. | .deliverUp _ | .deliverDown _ | .relay _ => true
  | .join _ | .leave _ | .restart .. => false

variable {κ : Type*} [DecidableEq κ]

namespace HubSpoke

/-- The counter of a node. -/
def clock (s : HubSpoke κ) (n : Option κ) : ℕ := (s.engine n).clock

/-- `broadcast_to_all`: the frame goes to every live session but the excluded one. -/
def broadcast (s : HubSpoke κ) (snap : ClipboardSnapshot) (exclude : Option κ) : HubSpoke κ :=
  { s with
    down := fun k => if s.live k ∧ some k ≠ exclude then s.down k ++ [snap] else s.down k }

/-- The frames in the pipes of `k` are lost, and its session is over. -/
def drop (s : HubSpoke κ) (k : κ) : HubSpoke κ :=
  { s with
    live := Function.update s.live k false
    up := Function.update s.up k []
    down := Function.update s.down k [] }

/-- `send`: the frame of a spoke goes to the hub if the spoke has a session. -/
def send (s : HubSpoke κ) (k : κ) (snap : ClipboardSnapshot) : HubSpoke κ :=
  { s with up := Function.update s.up k (if s.live k then s.up k ++ [snap] else s.up k) }

/-- A local copy at the node `n`. -/
def copy (s : HubSpoke κ) (n : Option κ) (now : UInt64) (text : String) : HubSpoke κ :=
  let (snap, e) := (s.engine n).produceText now text
  let s' := { s with engine := Function.update s.engine n e, copies := s.copies + 1 }
  match n with
  | none => s'.broadcast snap none
  | some k => s'.send k snap

/-- The snapshot of the next copy at `n`. -/
def nextCopy (s : HubSpoke κ) (n : Option κ) (now : UInt64) (text : String) : ClipboardSnapshot :=
  ((s.engine n).produceText now text).1

/-- The hub's reader of `k` has received `snap`. -/
def receiveUp (s : HubSpoke κ) (k : κ) (snap : ClipboardSnapshot) : HubSpoke κ :=
  match (s.engine none).observeRemote snap with
  | (.apply snap', e) =>
    -- the reader now waits for the local clipboard, and broadcasts in a later step
    { s with
      engine := Function.update s.engine none e
      relaying := s.relaying ++ [(k, snap')] }
  | (.ignore, e) => { s with engine := Function.update s.engine none e }

/-- The reader of the spoke `k` has received `snap`. -/
def receiveDown (s : HubSpoke κ) (k : κ) (snap : ClipboardSnapshot) : HubSpoke κ :=
  { s with
    engine := Function.update s.engine (some k) ((s.engine (some k)).observeRemote snap).2 }

/-- One step. -/
def step (s : HubSpoke κ) : HubSpokeLabel κ → Option (HubSpoke κ)
  | .copy n now text => some (s.copy n now text)
  | .deliverUp k =>
    match s.up k with
    | [] => none
    | snap :: rest => some ({ s with up := Function.update s.up k rest }.receiveUp k snap)
  | .deliverDown k =>
    match s.down k with
    | [] => none
    | snap :: rest => some ({ s with down := Function.update s.down k rest }.receiveDown k snap)
  | .relay p =>
    if p ∈ s.relaying then
      some ({ s with relaying := s.relaying.erase p }.broadcast p.2 (some p.1))
    else none
  | .join k => if s.live k then none else some { s with live := Function.update s.live k true }
  | .leave k => if s.live k then some (s.drop k) else none
  | .restart none limit =>
    -- the sessions end with the hub's process, and what is in their pipes is lost
    some { s with
      engine := Function.update s.engine none (Engine.new (s.engine none).selfId limit)
      live := fun _ => false
      up := fun _ => []
      down := fun _ => []
      relaying := [] }
  | .restart (some k) limit =>
    let e := Engine.new (s.engine (some k)).selfId limit
    some { s.drop k with engine := Function.update s.engine (some k) e }

/-- Fresh engines of nodes with distinct identifiers, and nothing in flight. -/
structure Fresh (s : HubSpoke κ) : Prop where
  /-- Every engine is fresh. -/
  engine : ∀ n, ∃ selfId limit, s.engine n = Engine.new selfId limit
  /-- The identifiers are distinct. -/
  ids : Function.Injective fun n => (s.engine n).selfId
  /-- Nothing is on the way to the hub. -/
  up : ∀ k, s.up k = []
  /-- Nothing is on the way to the spokes. -/
  down : ∀ k, s.down k = []
  /-- The hub has nothing to broadcast. -/
  relaying : s.relaying = []
  /-- Nothing has been produced. -/
  copies : s.copies = 0

/-- No frame is in flight. -/
structure Quiescent (s : HubSpoke κ) : Prop where
  /-- Nothing is on the way to the hub. -/
  up : ∀ k, s.up k = []
  /-- Nothing is on the way to the spokes. -/
  down : ∀ k, s.down k = []
  /-- The hub has nothing to broadcast. -/
  relaying : s.relaying = []

omit [DecidableEq κ] in
/-- Quiescence, field by field. -/
theorem quiescent_iff (s : HubSpoke κ) :
    s.Quiescent ↔ (∀ k, s.up k = []) ∧ (∀ k, s.down k = []) ∧ s.relaying = [] :=
  ⟨fun h => ⟨h.up, h.down, h.relaying⟩, fun h => ⟨h.1, h.2.1, h.2.2⟩⟩

instance [Fintype κ] (s : HubSpoke κ) : Decidable s.Quiescent :=
  decidable_of_iff _ s.quiescent_iff.symm

omit [DecidableEq κ] in
/-- At quiescence nothing is on the way to the hub. -/
theorem Quiescent.not_mem_up {s : HubSpoke κ} (h : s.Quiescent) {k : κ} {snap : ClipboardSnapshot} :
    snap ∉ s.up k := by
  rw [h.up]
  exact List.not_mem_nil

omit [DecidableEq κ] in
/-- At quiescence nothing is on the way to a spoke. -/
theorem Quiescent.not_mem_down {s : HubSpoke κ} (h : s.Quiescent) {k : κ}
    {snap : ClipboardSnapshot} : snap ∉ s.down k := by
  rw [h.down]
  exact List.not_mem_nil

omit [DecidableEq κ] in
/-- At quiescence the hub has nothing to broadcast. -/
theorem Quiescent.not_mem_relaying {s : HubSpoke κ} (h : s.Quiescent)
    {p : κ × ClipboardSnapshot} : p ∉ s.relaying := by
  rw [h.relaying]
  exact List.not_mem_nil

omit [DecidableEq κ] in
/-- A fresh network is quiescent. -/
theorem Fresh.quiescent {s : HubSpoke κ} (h : s.Fresh) : s.Quiescent := ⟨h.up, h.down, h.relaying⟩

/-! ## What a step does -/

/-- What a step does, case by case. -/
inductive Move (s : HubSpoke κ) : HubSpokeLabel κ → HubSpoke κ → Prop
  /-- The hub copies: the snapshot goes to every live session. -/
  | copyHub (now : UInt64) (text : String) :
    Move s (.copy none now text) ({ s with
      engine := Function.update s.engine none ((s.engine none).advance (s.nextCopy none now text))
      copies := s.copies + 1 }.broadcast (s.nextCopy none now text) none)
  /-- A spoke copies: the snapshot goes to the hub. -/
  | copySpoke (k : κ) (now : UInt64) (text : String) :
    Move s (.copy (some k) now text) ({ s with
      engine := Function.update s.engine (some k)
        ((s.engine (some k)).advance (s.nextCopy (some k) now text))
      copies := s.copies + 1 }.send k (s.nextCopy (some k) now text))
  /-- The hub applies the oldest frame from `k`, and is to broadcast it. -/
  | applyUp {k : κ} {snap : ClipboardSnapshot} {rest : List ClipboardSnapshot} :
    s.up k = snap :: rest → (s.engine none).Accepts snap →
    Move s (.deliverUp k) { s with
      engine := Function.update s.engine none ((s.engine none).advance snap)
      up := Function.update s.up k rest
      relaying := s.relaying ++ [(k, snap)] }
  /-- The hub ignores the oldest frame from `k`. -/
  | ignoreUp {k : κ} {snap : ClipboardSnapshot} {rest : List ClipboardSnapshot} :
    s.up k = snap :: rest → ¬ (s.engine none).Accepts snap →
    Move s (.deliverUp k) { s with up := Function.update s.up k rest }
  /-- The spoke `k` applies the oldest frame from the hub. -/
  | applyDown {k : κ} {snap : ClipboardSnapshot} {rest : List ClipboardSnapshot} :
    s.down k = snap :: rest → (s.engine (some k)).Accepts snap →
    Move s (.deliverDown k) { s with
      engine := Function.update s.engine (some k) ((s.engine (some k)).advance snap)
      down := Function.update s.down k rest }
  /-- The spoke `k` ignores the oldest frame from the hub. -/
  | ignoreDown {k : κ} {snap : ClipboardSnapshot} {rest : List ClipboardSnapshot} :
    s.down k = snap :: rest → ¬ (s.engine (some k)).Accepts snap →
    Move s (.deliverDown k) { s with down := Function.update s.down k rest }
  /-- The hub broadcasts what it has applied, except to where it came from. -/
  | relay {p : κ × ClipboardSnapshot} : p ∈ s.relaying →
    Move s (.relay p) ({ s with relaying := s.relaying.erase p }.broadcast p.2 (some p.1))
  /-- A session begins. -/
  | join {k : κ} : s.live k = false →
    Move s (.join k) { s with live := Function.update s.live k true }
  /-- A session ends. -/
  | leave {k : κ} : s.live k = true → Move s (.leave k) (s.drop k)
  /-- The hub restarts, and every session is over. -/
  | restartHub (limit : ℕ) :
    Move s (.restart none limit) { s with
      engine := Function.update s.engine none (Engine.new (s.engine none).selfId limit)
      live := fun _ => false
      up := fun _ => []
      down := fun _ => []
      relaying := [] }
  /-- A spoke restarts, and its session is over. -/
  | restartSpoke (k : κ) (limit : ℕ) :
    Move s (.restart (some k) limit) { s.drop k with
      engine := Function.update s.engine (some k) (Engine.new (s.engine (some k)).selfId limit) }

/-- Every step is one of these cases. -/
theorem Move.of_step {s t : HubSpoke κ} {a : HubSpokeLabel κ} (h : s.step a = some t) :
    s.Move a t := by
  cases a with
  | copy n now text =>
    obtain rfl := Option.some.inj h
    cases n with
    | none => exact .copyHub now text
    | some k => exact .copySpoke k now text
  | deliverUp k =>
    simp only [step] at h
    split at h
    · cases h
    · next snap rest hup =>
      simp only [receiveUp, Engine.observeRemote_eq] at h
      -- an accepted snapshot is applied, and another one only taken
      split_ifs at h with hacc
      · obtain rfl := Option.some.inj h
        exact .applyUp hup hacc
      · obtain rfl := Option.some.inj h
        simp only [Function.update_eq_self]
        exact .ignoreUp hup hacc
  | deliverDown k =>
    simp only [step] at h
    split at h
    · cases h
    · next snap rest hdown =>
      simp only [receiveDown, Engine.observeRemote_eq] at h
      split_ifs at h with hacc
      · obtain rfl := Option.some.inj h
        exact .applyDown hdown hacc
      · obtain rfl := Option.some.inj h
        simp only [Function.update_eq_self]
        exact .ignoreDown hdown hacc
  | relay p =>
    simp only [step] at h
    split_ifs at h with hmem
    obtain rfl := Option.some.inj h
    exact .relay hmem
  | join k =>
    simp only [step] at h
    split_ifs at h with hlive
    obtain rfl := Option.some.inj h
    exact .join (by simpa using hlive)
  | leave k =>
    simp only [step] at h
    split_ifs at h with hlive
    obtain rfl := Option.some.inj h
    exact .leave hlive
  | restart n limit =>
    cases n with
    | none =>
      obtain rfl := Option.some.inj h
      exact .restartHub limit
    | some k =>
      obtain rfl := Option.some.inj h
      exact .restartSpoke k limit

/-- Each of these cases is a step. -/
theorem Move.step {s t : HubSpoke κ} {a : HubSpokeLabel κ} (h : s.Move a t) : s.step a = some t := by
  cases h with
  | copyHub now text => rfl
  | copySpoke k now text => rfl
  | applyUp hup hacc =>
    simp only [HubSpoke.step, hup, receiveUp, Engine.observeRemote_eq, if_pos hacc]
  | ignoreUp hup hacc =>
    simp only [HubSpoke.step, hup, receiveUp, Engine.observeRemote_eq, if_neg hacc,
      Function.update_eq_self]
  | applyDown hdown hacc =>
    simp only [HubSpoke.step, hdown, receiveDown, Engine.observeRemote_eq, if_pos hacc]
  | ignoreDown hdown hacc =>
    simp only [HubSpoke.step, hdown, receiveDown, Engine.observeRemote_eq, if_neg hacc,
      Function.update_eq_self]
  | relay hmem => simp only [HubSpoke.step, if_pos hmem]
  | join hlive => simp [HubSpoke.step, hlive]
  | leave hlive => simp [HubSpoke.step, hlive]
  | restartHub limit => rfl
  | restartSpoke k limit => rfl

/-- A node keeps its identity. -/
theorem Move.selfId {s t : HubSpoke κ} {a : HubSpokeLabel κ} (h : s.Move a t) (n : Option κ) :
    (t.engine n).selfId = (s.engine n).selfId := by
  cases h <;> simp only [broadcast, send, drop, Function.update_apply] <;> split_ifs <;>
    simp_all

end HubSpoke

/-- The network in which sessions come and go. -/
def hubSpoke (κ : Type*) [DecidableEq κ] : System (HubSpoke κ) (HubSpokeLabel κ) where
  init s := s.Fresh
  step := HubSpoke.step

/-- The network in which every spoke is connected from the start. -/
def connectedHubSpoke (κ : Type*) [DecidableEq κ] : System (HubSpoke κ) (HubSpokeLabel κ) where
  init s := s.Fresh ∧ ∀ k, s.live k
  step := HubSpoke.step

namespace HubSpoke

variable {s t : HubSpoke κ} {a : HubSpokeLabel κ}

/-! ## Where frames come from -/

/-- The frames to a spoke after a broadcast. -/
theorem mem_broadcast_down {snap m : ClipboardSnapshot} {exclude : Option κ} {k : κ} :
    m ∈ (s.broadcast snap exclude).down k ↔
      m ∈ s.down k ∨ s.live k ∧ some k ≠ exclude ∧ m = snap := by
  simp only [broadcast]
  split_ifs with h
  · rw [List.mem_append, List.mem_singleton]
    tauto
  · tauto

/-- A pipe after a step that takes frames from one of the pipes held its frames before. -/
theorem mem_of_mem_update {pipe : κ → List ClipboardSnapshot} {j k : κ}
    {rest : List ClipboardSnapshot} {snap : ClipboardSnapshot} (hrest : rest ⊆ pipe j)
    (hm : snap ∈ Function.update pipe j rest k) : snap ∈ pipe k := by
  rw [Function.update_apply] at hm
  split_ifs at hm with hk
  · rw [hk]
    exact hrest hm
  · exact hm

/-- A frame to the hub was there before, or it is a copy of its spoke. -/
theorem Move.mem_up (h : s.Move a t) {k : κ} {snap : ClipboardSnapshot} (hm : snap ∈ t.up k) :
    snap ∈ s.up k ∨
      ∃ now text, a = .copy (some k) now text ∧ snap = s.nextCopy (some k) now text := by
  have hpop : ∀ {j m rest}, s.up j = m :: rest → rest ⊆ s.up j :=
    fun hj => hj ▸ List.subset_cons_self _ _
  cases h with
  | copySpoke j now text =>
    simp only [send, Function.update_apply] at hm
    split_ifs at hm with hk hlive
    · rw [← hk, List.mem_append, List.mem_singleton] at hm
      exact hm.imp_right fun he => ⟨now, text, by rw [hk], by rw [he, hk]⟩
    · exact .inl (hk ▸ hm)
    · exact .inl hm
  | applyUp hup _ => exact .inl (mem_of_mem_update (hpop hup) hm)
  | ignoreUp hup _ => exact .inl (mem_of_mem_update (hpop hup) hm)
  | leave _ => exact .inl (mem_of_mem_update (List.nil_subset _) hm)
  | restartHub _ => cases hm
  | restartSpoke _ _ => exact .inl (mem_of_mem_update (List.nil_subset _) hm)
  | _ => exact .inl hm

/-- What the hub is to broadcast was there before, or it has just been applied. -/
theorem Move.mem_relaying (h : s.Move a t) {p : κ × ClipboardSnapshot} (hp : p ∈ t.relaying) :
    p ∈ s.relaying ∨ p.2 ∈ s.up p.1 ∧ p.2.version.toNat = t.clock none := by
  cases h with
  | applyUp hup _ =>
    rw [List.mem_append, List.mem_singleton] at hp
    refine hp.imp_right fun he => ?_
    subst he
    refine ⟨by rw [hup]; exact List.mem_cons_self, ?_⟩
    simp [clock]
  | relay _ => exact .inl (List.mem_of_mem_erase hp)
  | restartHub _ => cases hp
  | _ => exact .inl hp

/-- A frame to a spoke was there before, or it is a copy of the hub, or the hub has applied it from
another spoke. -/
theorem Move.mem_down (h : s.Move a t) {k : κ} {snap : ClipboardSnapshot} (hm : snap ∈ t.down k) :
    snap ∈ s.down k ∨ (∃ now text, a = .copy none now text ∧ snap = s.nextCopy none now text) ∨
      ∃ j, j ≠ k ∧ (j, snap) ∈ s.relaying := by
  have hpop : ∀ {j m rest}, s.down j = m :: rest → rest ⊆ s.down j :=
    fun hj => hj ▸ List.subset_cons_self _ _
  cases h with
  | copyHub now text =>
    rw [mem_broadcast_down] at hm
    exact hm.imp_right fun ⟨_, _, he⟩ => .inl ⟨now, text, rfl, he⟩
  | applyDown hdown _ => exact .inl (mem_of_mem_update (hpop hdown) hm)
  | ignoreDown hdown _ => exact .inl (mem_of_mem_update (hpop hdown) hm)
  | @relay p hmem =>
    rw [mem_broadcast_down] at hm
    refine hm.imp_right fun ⟨_, hne, he⟩ => .inr ⟨p.1, fun hk => hne (hk ▸ rfl), ?_⟩
    rw [he]
    exact hmem
  | leave _ => exact .inl (mem_of_mem_update (List.nil_subset _) hm)
  | restartHub _ => cases hm
  | restartSpoke _ _ => exact .inl (mem_of_mem_update (List.nil_subset _) hm)
  | _ => exact .inl hm

/-- The identifiers are distinct, and every frame is on a path that starts at its origin and does
not lead back to it. -/
structure Routed (s : HubSpoke κ) : Prop where
  /-- The identifiers are distinct. -/
  ids : Function.Injective fun n => (s.engine n).selfId
  /-- A spoke sends its own snapshots. -/
  up : ∀ k, ∀ snap ∈ s.up k, snap.origin = (s.engine (some k)).selfId
  /-- The hub broadcasts a snapshot of the spoke that it came from. -/
  relaying : ∀ p ∈ s.relaying, p.2.origin = (s.engine (some p.1)).selfId
  /-- A spoke is not sent its own snapshots. -/
  down : ∀ k, ∀ snap ∈ s.down k, snap.origin ≠ (s.engine (some k)).selfId

omit [DecidableEq κ] in
/-- A fresh network is routed. -/
theorem Fresh.routed (h : s.Fresh) : s.Routed := by
  have hq := h.quiescent
  exact ⟨h.ids, fun k snap hm => absurd hm hq.not_mem_up, fun p hp => absurd hp hq.not_mem_relaying,
    fun k snap hm => absurd hm hq.not_mem_down⟩

/-- Every step keeps the routes. -/
theorem Routed.move (h : s.Routed) (hmove : s.Move a t) : t.Routed := by
  have hid := hmove.selfId
  refine ⟨?_, ?_, ?_, ?_⟩
  · intro m n hmn
    simp only [hid] at hmn
    exact h.ids hmn
  · intro k snap hm
    rw [hid]
    rcases hmove.mem_up hm with hm | ⟨now, text, -, rfl⟩
    · exact h.up k snap hm
    · rfl
  · intro p hp
    rw [hid]
    rcases hmove.mem_relaying hp with hp | ⟨hp, -⟩
    · exact h.relaying p hp
    · exact h.up _ _ hp
  · intro k snap hm
    rw [hid]
    -- a copy of the hub, or one that it relays to the other spokes
    rcases hmove.mem_down hm with hm | ⟨now, text, -, rfl⟩ | ⟨j, hj, hp⟩
    · exact h.down k snap hm
    · exact fun he => Option.some_ne_none k (h.ids he).symm
    · rw [h.relaying _ hp]
      exact fun he => hj (Option.some.inj (h.ids he))

/-! ## Frames are behind their sender -/

/-- The guard of a copy: its node's counter is not at its maximum. -/
def CopyBelowMax (s : HubSpoke κ) : HubSpokeLabel κ → Prop
  | .copy n _ _ => s.clock n < 2^64 - 1
  | _ => True

omit [DecidableEq κ] in
/-- Below the maximum the next copy is one ahead of its node's counter. -/
theorem nextCopy_version {n : Option κ} (h : s.clock n < 2^64 - 1) (now : UInt64) (text : String) :
    (s.nextCopy n now text).version.toNat = s.clock n + 1 :=
  Engine.produce_version _ _ _ h

/-- A counter only grows, unless its node restarts. -/
theorem Move.clock_le (h : s.Move a t) (hmax : s.CopyBelowMax a) (n : Option κ)
    (hrestart : ∀ limit, a ≠ .restart n limit) : s.clock n ≤ t.clock n := by
  -- a step that sets one engine sets it to one with a later clock
  have hset : ∀ {m : Option κ} {e : Engine}, (s.engine m).clock ≤ e.clock →
      s.clock n ≤ (Function.update s.engine m e n).clock := by
    intro m e hle
    rw [Function.update_apply]
    split_ifs with hn
    · rw [hn]
      exact hle
    · exact le_rfl
  cases h with
  | copyHub now text =>
    refine hset ?_
    rw [Engine.clock_advance, nextCopy_version hmax]
    exact Nat.le_succ _
  | copySpoke k now text =>
    refine hset ?_
    rw [Engine.clock_advance, nextCopy_version hmax]
    exact Nat.le_succ _
  | applyUp _ hacc => exact hset hacc.2.le
  | applyDown _ hacc => exact hset hacc.2.le
  | restartHub limit =>
    cases n with
    | none => exact absurd rfl (hrestart limit)
    | some k => exact le_rfl
  | restartSpoke k limit =>
    -- the restarted spoke is another node
    have hn : n ≠ some k := fun hn => hrestart limit (hn ▸ rfl)
    simp only [clock, Function.update_of_ne hn]
    exact le_rfl
  | _ => exact le_rfl

/-- A node that copies advances to its copy. -/
theorem Move.clock_copy {n : Option κ} {now : UInt64} {text : String}
    (h : s.Move (.copy n now text) t) : t.clock n = (s.nextCopy n now text).version.toNat := by
  cases h <;> simp [clock, broadcast, send]

/-- No frame is ahead of the counter of the node that sent it. -/
structure Bounded (s : HubSpoke κ) : Prop where
  /-- What a spoke has sent is not ahead of it. -/
  up : ∀ k, ∀ snap ∈ s.up k, snap.version.toNat ≤ s.clock (some k)
  /-- What the hub is to broadcast is not ahead of it. -/
  relaying : ∀ p ∈ s.relaying, p.2.version.toNat ≤ s.clock none
  /-- What the hub has sent is not ahead of it. -/
  down : ∀ k, ∀ snap ∈ s.down k, snap.version.toNat ≤ s.clock none

/-- A step in which no counter wraps keeps the bounds. -/
theorem Bounded.move (h : s.Bounded) (hmax : s.CopyBelowMax a) (hmove : s.Move a t) :
    t.Bounded := by
  refine ⟨?_, ?_, ?_⟩
  · intro k snap hm
    by_cases hre : ∃ limit, a = .restart (some k) limit
    · -- a restarted spoke counts from zero again, but the frames it has sent are lost
      obtain ⟨limit, rfl⟩ := hre
      cases hmove
      simp [drop] at hm
    · have hle := hmove.clock_le hmax (some k) fun limit he => hre ⟨limit, he⟩
      rcases hmove.mem_up hm with hm | ⟨now, text, rfl, rfl⟩
      · exact (h.up k snap hm).trans hle
      · exact hmove.clock_copy.ge
  · intro p hp
    by_cases hre : ∃ limit, a = .restart none limit
    · -- so does a restarted hub, and its readers are gone
      obtain ⟨limit, rfl⟩ := hre
      cases hmove
      cases hp
    · have hle := hmove.clock_le hmax none fun limit he => hre ⟨limit, he⟩
      rcases hmove.mem_relaying hp with hp | ⟨-, hp⟩
      · exact (h.relaying p hp).trans hle
      · exact hp.le
  · intro k snap hm
    by_cases hre : ∃ limit, a = .restart none limit
    · obtain ⟨limit, rfl⟩ := hre
      cases hmove
      cases hm
    · have hle := hmove.clock_le hmax none fun limit he => hre ⟨limit, he⟩
      rcases hmove.mem_down hm with hm | ⟨now, text, rfl, rfl⟩ | ⟨j, -, hp⟩
      · exact (h.down k snap hm).trans hle
      · exact hmove.clock_copy.ge
      · exact (h.relaying _ hp).trans hle

omit [DecidableEq κ] in
/-- A fresh network has no frame that is ahead. -/
theorem Fresh.bounded (h : s.Fresh) : s.Bounded := by
  have hq := h.quiescent
  exact ⟨fun k snap hm => absurd hm hq.not_mem_up, fun p hp => absurd hp hq.not_mem_relaying,
    fun k snap hm => absurd hm hq.not_mem_down⟩

omit [DecidableEq κ] in
/-- Every counter of a fresh network is zero. -/
theorem Fresh.clock (h : s.Fresh) (n : Option κ) : s.clock n = 0 := by
  obtain ⟨selfId, limit, he⟩ := h.engine n
  rw [HubSpoke.clock, he, Engine.clock_new]

end HubSpoke

end Borderless.Network
