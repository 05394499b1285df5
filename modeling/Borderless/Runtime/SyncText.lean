import Borderless.Runtime.Config
import Borderless.Runtime.HubRouting
import Borderless.Runtime.SpokeSession

/-!
# The `sync_text` switch

The `[clipboard]` section of the configuration (`crates/cli/src/config.rs`), and what the hub and the
spokes do with it: both `bootstrap`s take the size of the history from it, and neither they nor a
`run` reads `sync_text`. A text therefore takes its two ways through a node, from the watcher of the
OS clipboard to the channels and from a reader to the OS clipboard, whatever the switch says.

`Hub.QuietStep` and `Spoke.QuietStep` exclude the steps at which a text enters a node: the watcher
sees a change, or the engine accepts a snapshot with a text. `sync_text_quiet` shows that without
these steps the switch is honoured, and that each of them can lead to a step at which it is not.
-/

namespace Borderless

/-- The text that a frame carries. -/
def WireFrame.plainText : WireFrame → Option String
  | .clipboard snap => snap.plainText
  | _ => none

/-- A frame with a text that was copied on the node. -/
def WireFrame.IsLocalText (id : NodeId) : WireFrame → Prop
  | .clipboard snap => snap.origin = id ∧ snap.plainText.isSome
  | _ => False

/-- A frame without a text is not of this kind. -/
theorem WireFrame.not_isLocalText {frame : WireFrame} (h : frame.plainText = none) (id : NodeId) :
    ¬ frame.IsLocalText id := by
  cases frame with
  | clipboard snap =>
    rintro ⟨-, hsome⟩
    have hnone : snap.plainText = none := h
    rw [hnone] at hsome
    cases hsome
  | _ => exact not_false

namespace Runtime

open Borderless.Clipboard Transition

/-- The engine that `ServerRuntime::bootstrap` and `ClientRuntime::bootstrap` build. -/
def ClipboardConfig.engine (cfg : ClipboardConfig) (id : NodeId) : Engine :=
  Engine.new id (max cfg.historySize 1)

/-- A hub that has just started with this configuration. -/
def Hub.bootstrap (cfg : ClipboardConfig) (id : NodeId) (clipboard : Option String) : Hub :=
  Hub.start (cfg.engine id) LazyStore.new clipboard

/-- A spoke that has just started with this configuration. -/
def Spoke.bootstrap (cfg : ClipboardConfig) (id : NodeId) (clipboard : Option String) : Spoke :=
  Spoke.start (cfg.engine id) clipboard

/-! ## The hub -/

/-- A session of the hub without a text: there is none in its channel, and none that its reader has
accepted. -/
structure Session.Textless (x : Session) : Prop where
  /-- The frames in the channel. -/
  queue : ∀ frame ∈ x.queue, frame.plainText = none
  /-- The accepted snapshot. -/
  reader : ∀ snap, x.reader = .writing snap ∨ x.reader = .relaying snap → snap.plainText = none

namespace Hub

variable {s t : Hub} {a : HubLabel}

/-- What `sync_text = false` asks of a step: no channel to a spoke holds a text that was copied on
the hub, and no reader writes a text to the OS clipboard. -/
structure KeepsText (s : Hub) (a : HubLabel) (t : Hub) : Prop where
  /-- The channels. -/
  queued : ∀ x ∈ t.sessions, ∀ frame ∈ x.queue, ¬ frame.IsLocalText t.engine.selfId
  /-- The OS clipboard. -/
  written : ∀ i x snap, a = .write i true → s.sessions[i]? = some x → x.reader = .writing snap →
    snap.plainText = none

/-- The watcher sees no change, and no snapshot with a text is accepted. -/
def QuietStep (s : Hub) : HubLabel → Prop
  | .produce _ _ => False
  | .recv _ (.clipboard snap) => s.engine.Accepts snap → snap.plainText = none
  | _ => True

/-- No text is on its way. -/
structure Textless (s : Hub) : Prop where
  /-- The watcher has not produced a frame. -/
  localFrames : s.localFrames = []
  /-- The sessions. -/
  sessions : ∀ x ∈ s.sessions, x.Textless

/-- A change of one session that adds no text. -/
theorem textless_modify {sessions : List Session} (hs : ∀ x ∈ sessions, x.Textless) {i : ℕ}
    {f : Session → Session} (hf : ∀ x, sessions[i]? = some x → x.Textless → (f x).Textless) :
    ∀ x ∈ sessions.modify i f, x.Textless := by
  intro y hy
  obtain ⟨j, hj⟩ := List.mem_iff_getElem?.1 hy
  rw [List.getElem?_modify] at hj
  obtain ⟨x, hx, rfl⟩ := Option.map_eq_some_iff.1 hj
  have hold := hs x (List.mem_of_getElem? hx)
  split_ifs with hij
  · subst hij
    exact hf x hx hold
  · exact hold

/-- A message without a text. -/
theorem textless_send (hs : s.Textless) (i : ℕ) {frame : WireFrame} (hframe : frame.plainText = none) :
    (s.send i frame).Textless := by
  refine ⟨hs.localFrames, textless_modify hs.sessions fun x _ hx => ?_⟩
  split_ifs
  · refine ⟨fun f hf => ?_, hx.reader⟩
    rcases List.mem_append.1 hf with hold | hnew
    · exact hx.queue f hold
    · rw [List.mem_singleton.1 hnew]
      exact hframe
  · exact hx

/-- A broadcast without a text. -/
theorem textless_broadcastToAll (hs : s.Textless) {frame : WireFrame}
    (hframe : frame.plainText = none) (exclude : Option NodeId) :
    (s.broadcastToAll frame exclude).Textless := by
  unfold broadcastToAll
  refine List.foldlRecOn _ _ hs fun s hs entry _ => ?_
  split_ifs
  · exact hs
  · exact textless_send hs entry.2 hframe

/-- A reply without a text. -/
theorem textless_reply (hs : s.Textless) (peer : NodeId) {frames : List WireFrame}
    (hframes : ∀ frame ∈ frames, frame.plainText = none) : (s.reply peer frames).Textless := by
  unfold reply
  split
  · next i _ =>
    exact List.foldlRecOn _ _ hs fun s hs frame hframe => textless_send hs i (hframes frame hframe)
  · exact hs

/-- The chunks of a payload are not texts. -/
theorem plainText_chunkFetchResponse (hash : Bytes 32) (bytes : List UInt8) :
    ∀ frame ∈ chunkFetchResponse hash bytes, frame.plainText = none := by
  obtain ⟨chunks, -, hchunks⟩ := isReply_chunkFetchResponse hash bytes
  rw [hchunks]
  intro frame hframe
  obtain ⟨⟨chunk, k⟩, -, rfl⟩ := List.mem_map.1 hframe
  rfl

/-- A reader that moves on to a snapshot without a text, or to none. -/
theorem textless_setReader (hs : s.Textless) (i : ℕ) {reader : Reader}
    (hreader : ∀ snap, reader = .writing snap ∨ reader = .relaying snap → snap.plainText = none) :
    (s.setReader i reader).Textless :=
  ⟨hs.localFrames, textless_modify hs.sessions fun _ _ hx => ⟨hx.queue, hreader⟩⟩

/-- A reader that handles a frame enqueues no text, and accepts none if the step is quiet. -/
theorem textless_handleFrame (hs : s.Textless) (i : ℕ) (peer : NodeId) {frame : WireFrame}
    (hquiet : s.QuietStep (.recv i frame)) : (s.handleFrame i peer frame).Textless := by
  unfold handleFrame
  cases frame with
  | clipboard snap =>
    simp only [Engine.observeRemote_eq]
    by_cases haccepts : s.engine.Accepts snap
    · rw [if_pos haccepts]
      have hs' : { s with engine := s.engine.advance snap : Hub }.Textless := ⟨hs.1, hs.2⟩
      refine textless_setReader hs' i fun snap' hsnap' => ?_
      rcases hsnap' with hsnap' | hsnap'
      · cases hsnap'
        exact hquiet haccepts
      · cases hsnap'
    · rw [if_neg haccepts]
      exact hs
  | fetchRequest hash =>
    simp only
    split
    · exact textless_reply hs peer (plainText_chunkFetchResponse hash _)
    · exact textless_reply hs peer (by simp [WireFrame.plainText])
  | _ => exact hs

/-- A quiet step brings no text. -/
theorem textless_step (hs : s.Textless) (hquiet : s.QuietStep a) (h : s.step a = some t) :
    t.Textless := by
  cases a with
  | accept peer =>
    obtain rfl := Option.some.inj h
    refine ⟨hs.localFrames, fun x hx => ?_⟩
    -- the new session has sent nothing
    rcases List.mem_append.1 hx with hold | hnew
    · exact hs.sessions x hold
    · obtain rfl := List.mem_singleton.1 hnew
      exact ⟨by simp, by simp⟩
  | recv i frame =>
    obtain ⟨x, -, -, rfl⟩ := step_recv h
    exact textless_handleFrame hs i x.peer hquiet
  | write i ok =>
    obtain ⟨x, snap, hx, hreader, rfl⟩ := step_write h
    have hnone := (hs.sessions x (List.mem_of_getElem? hx)).reader snap (.inl hreader)
    have hs' : { s with
        clipboard := if ok then snap.plainText <|> s.clipboard else s.clipboard : Hub }.Textless :=
      ⟨hs.1, hs.2⟩
    refine textless_setReader hs' i fun snap' hsnap' => ?_
    rcases hsnap' with hsnap' | hsnap'
    · cases hsnap'
    · cases hsnap'
      exact hnone
  | relay i =>
    obtain ⟨x, snap, hx, hreader, rfl⟩ := step_relay h
    have hnone := (hs.sessions x (List.mem_of_getElem? hx)).reader snap (.inr hreader)
    have hframe : (WireFrame.clipboard snap).plainText = none := hnone
    exact textless_setReader (textless_broadcastToAll hs hframe _) i (by simp)
  | readError i =>
    obtain ⟨x, -, -, rfl⟩ := step_readError h
    exact textless_setReader hs i (by simp)
  | cleanup i =>
    obtain ⟨x, -, -, rfl⟩ := step_cleanup h
    have hs' : { s with writers := s.writers.erase x.peer : Hub }.Textless := ⟨hs.1, hs.2⟩
    exact textless_setReader hs' i (by simp)
  | writerSend i =>
    obtain ⟨x, frame, rest, hx, hqueue, rfl⟩ := step_writerSend h
    -- what is left was there before
    have hmem : ∀ f ∈ rest, f.plainText = none := by
      intro f hf
      refine (hs.sessions x (List.mem_of_getElem? hx)).queue f ?_
      rw [hqueue]
      exact List.mem_cons_of_mem _ hf
    exact ⟨hs.localFrames, textless_modify hs.sessions fun _ _ hold => ⟨hmem, hold.reader⟩⟩
  | writerFail i =>
    obtain ⟨x, -, rfl⟩ := step_writerFail h
    exact ⟨hs.localFrames, textless_modify hs.sessions fun _ _ hold => ⟨by simp, hold.reader⟩⟩
  | writerEnd i =>
    obtain rfl := step_writerEnd h
    exact ⟨hs.localFrames,
      textless_modify hs.sessions fun _ _ hold => ⟨hold.queue, hold.reader⟩⟩
  | produce now text => exact hquiet.elim
  | broadcastLocal =>
    obtain ⟨frame, rest, hlocal, -⟩ := step_broadcastLocal h
    -- there is no local frame
    rw [hs.localFrames] at hlocal
    cases hlocal
  | capture event =>
    obtain rfl := Option.some.inj h
    exact ⟨hs.localFrames, hs.sessions⟩
  | broadcastInput =>
    obtain ⟨event, rest, -, rfl⟩ := step_broadcastInput h
    have hs' : { s with captured := rest : Hub }.Textless := ⟨hs.1, hs.2⟩
    exact textless_broadcastToAll hs' rfl none

/-- A step without a text keeps to the switch. -/
theorem keepsText_step (hs : s.Textless) (ht : t.Textless) : s.KeepsText a t := by
  constructor
  · intro x hx frame hframe
    exact WireFrame.not_isLocalText ((ht.sessions x hx).queue frame hframe) _
  · rintro i x snap - hx hreader
    exact (hs.sessions x (List.mem_of_getElem? hx)).reader snap (.inl hreader)

/-- A frame in a channel is a frame of its session. -/
theorem mem_queue {i : ℕ} {frame : WireFrame} (h : frame ∈ s.queue i) :
    ∃ x ∈ s.sessions, frame ∈ x.queue := by
  unfold queue at h
  cases hx : s.sessions[i]? with
  | none =>
    rw [hx] at h
    cases h
  | some x =>
    rw [hx] at h
    exact ⟨x, List.mem_of_getElem? hx, h⟩

/-- A local text is enqueued to a connected spoke. -/
theorem broadcastLocal_leaks {peer : NodeId} {i : ℕ} {frame : WireFrame} {rest : List WireFrame}
    (howned : s.Owned) (hholds : s.Holds peer i) (hlocal : s.localFrames = frame :: rest)
    (hframe : frame.IsLocalText s.engine.selfId) :
    ∃ t, s.step .broadcastLocal = some t ∧ ¬ s.KeepsText .broadcastLocal t := by
  let t : Hub := { s with localFrames := rest }.broadcastToAll frame none
  refine ⟨t, by simp only [step, hlocal, t], fun hkeeps => ?_⟩
  have hqueue : t.queue i = s.queue i ++ [frame] := by
    have h := queue_broadcastToAll (s := { s with localFrames := rest }) howned hholds frame none
    rw [if_neg (by simp)] at h
    exact h
  have hsend : ∀ (s : Hub) (i : ℕ) (frame : WireFrame), (send s i frame).engine = s.engine :=
    fun _ _ _ => rfl
  have hengine : t.engine = s.engine := broadcastToAll_proj hsend _ frame none
  have hsent : frame ∈ t.queue i := by simp [hqueue]
  obtain ⟨x, hx, hmem⟩ := mem_queue hsent
  rw [← hengine] at hframe
  exact hkeeps.queued x hx frame hmem hframe

/-- A change that the watcher sees is broadcast to the next spoke. -/
theorem produce_leaks (hreach : hub.Reachable s) (hs : s.Textless) {now : UInt64} {text : String}
    (h : hub.step s (.produce now text) = some t) :
    ∃ bs, ∃ p ∈ hub.steps s (.produce now text :: bs), ¬ p.1.KeepsText p.2.1 p.2.2 := by
  have hlocal : t.localFrames = [.clipboard (s.engine.produceText now text).1] ∧
      t.engine = (s.engine.produceText now text).2 := by
    obtain rfl := Option.some.inj h
    exact ⟨by rw [hs.localFrames]; rfl, rfl⟩
  let u : Hub := { t with
    writers := t.writers.insert spokeId t.sessions.length
    sessions := t.sessions ++ [⟨spokeId, [], true, .reading⟩] }
  have hu : hub.step t (.accept spokeId) = some u := rfl
  have howned : u.Owned := owned_of_reachable ((hreach.step trivial h).step trivial hu)
  have hholds : u.Holds spokeId t.sessions.length :=
    ⟨AList.lookup_insert _, ⟨spokeId, [], true, .reading⟩, by simp [u], rfl⟩
  have hframe : (WireFrame.clipboard (s.engine.produceText now text).1).IsLocalText
      u.engine.selfId := by
    have hengine : u.engine = (s.engine.produceText now text).2 := hlocal.2
    rw [hengine]
    exact ⟨rfl, rfl⟩
  obtain ⟨v, hv, hleaks⟩ := broadcastLocal_leaks howned hholds hlocal.1 hframe
  have hrun : hub.run s [.produce now text, .accept spokeId] = some u := by
    simp only [System.run, h, hu, Option.bind_some]
  exact ⟨[.accept spokeId, .broadcastLocal], _, System.mem_steps_of_run hrun hv, hleaks⟩

/-- An accepted text is written to the OS clipboard. -/
theorem recv_leaks {i : ℕ} {snap : ClipboardSnapshot} (haccepts : s.engine.Accepts snap)
    (htext : snap.plainText ≠ none) (h : hub.step s (.recv i (.clipboard snap)) = some t) :
    ∃ bs, ∃ p ∈ hub.steps s (.recv i (.clipboard snap) :: bs), ¬ p.1.KeepsText p.2.1 p.2.2 := by
  obtain ⟨x, hx, -, ht⟩ := step_recv h
  have ht : t = { s with engine := s.engine.advance snap }.setReader i (.writing snap) := by
    rw [ht]
    simp [handleFrame, Engine.observeRemote_eq, haccepts]
  have hi : t.sessions[i]? = some { x with reader := .writing snap } := by
    rw [ht]
    simp [setReader, hx]
  obtain ⟨u, hu⟩ : ∃ u, hub.step t (.write i true) = some u := by
    show ∃ u, t.step (.write i true) = some u
    simp only [step, readerStep, hi]
    exact ⟨_, rfl⟩
  have hrun : hub.run s [.recv i (.clipboard snap)] = some t := by
    simp only [System.run, h, Option.bind_some]
  refine ⟨[.write i true], _, System.mem_steps_of_run hrun hu, fun hkeeps => ?_⟩
  exact htext (hkeeps.written i _ snap rfl hi rfl)

/-- A step that is not quiet brings a text to a spoke or to the OS clipboard. -/
theorem leaks_of_not_quietStep (hreach : hub.Reachable s) (hs : s.Textless)
    (h : hub.step s a = some t) (hquiet : ¬ s.QuietStep a) :
    ∃ bs, ∃ p ∈ hub.steps s (a :: bs), ¬ p.1.KeepsText p.2.1 p.2.2 := by
  cases a with
  | produce now text => exact produce_leaks hreach hs h
  | recv i frame =>
    cases frame with
    | clipboard snap =>
      obtain ⟨haccepts, htext⟩ := Classical.not_imp.1 hquiet
      exact recv_leaks haccepts htext h
    | _ => exact absurd trivial hquiet
  | _ => exact absurd trivial hquiet

/-- On the hub the guard is sharp. -/
theorem sharpGuard_quietStep (h₀ : hub.init s) : hub.SharpGuard s QuietStep KeepsText := by
  have hinit : s.Textless := by
    obtain ⟨engine, lazy, clipboard, rfl⟩ := h₀
    exact ⟨rfl, List.forall_mem_nil _⟩
  refine System.sharpGuard_of_invariant (I := fun s => hub.Reachable s ∧ s.Textless)
    ⟨.init h₀, hinit⟩ (fun s a t hs hquiet h => ?_) (fun s a t hs hquiet h => ?_)
    fun s a t hs h hquiet => ?_
  · exact ⟨hs.1.step trivial h, textless_step hs.2 hquiet h⟩
  · exact keepsText_step hs.2 (textless_step hs.2 hquiet h)
  · exact leaks_of_not_quietStep hs.1 hs.2 h hquiet

end Hub

/-! ## The spokes -/

/-- A session of a spoke without a text: its tasks run, and there is nothing in its channels, with
its writer or with its reader. -/
structure SpokeSession.Textless (x : SpokeSession) : Prop where
  /-- The tasks behind the write channel run. -/
  upstream : x.Upstream
  /-- The channels are empty, and the writer waits. -/
  idle : ¬ x.Pending
  /-- The accepted snapshot. -/
  main : ∀ snap, x.main = .writing snap → snap.plainText = none

namespace SpokeSession

variable {x y : SpokeSession} {e e' : Engine} {c c' : Option String} {label : TaskLabel}

/-- The watcher's look at an OS clipboard that has not changed. -/
theorem poll_eq_self (h : c = none ∨ c = x.last) : x.poll c = x := by
  unfold poll
  split
  · next text =>
    rcases h with h | h
    · cases h
    · rw [if_pos h]
  · rfl

/-- With nothing pending the tasks behind the write channel wait for the watcher. -/
theorem idle_step (hup : x.Upstream) (hidle : ¬ x.Pending)
    (hpoll : label = .poll → c = none ∨ c = x.last) (h : x.step e c label = some (e', c', y)) :
    ¬ y.Pending := by
  have hidle' := hidle
  unfold Pending at hidle'
  push Not at hidle'
  obtain ⟨htexts, hframes, hqueue, hwriter⟩ := hidle'
  cases label with
  | poll =>
    simp only [step, poll_eq_self (hpoll rfl)] at h
    grind
  | produce now =>
    obtain ⟨text, texts, -, htexts', -⟩ := produce_step h
    rw [htexts] at htexts'
    cases htexts'
  | forward =>
    obtain ⟨frame, frames, -, hframes', -⟩ := forward_step h
    rw [hframes] at hframes'
    cases hframes'
  | take | sent | sendFail | close =>
    simp [step, hwriter, hqueue] at h
  | writerEnd =>
    -- the forwarding task runs, so the writer does not find its channel closed
    obtain ⟨-, -, hforwarding⟩ := hup (by simp [hwriter])
    simp [step, hforwarding] at h
  | producerEnd | forwardEnd | recv frame | write ok | readError lost | drop | join =>
    simp only [step] at h
    unfold Pending at hidle ⊢
    grind

/-- A main task that is about to write a snapshot was so before, or has just accepted it. -/
theorem writing_of_step {snap : ClipboardSnapshot} (h : x.step e c label = some (e', c', y))
    (hmain : y.main = .writing snap) :
    x.main = .writing snap ∨ (label = .recv (.clipboard snap) ∧ e.Accepts snap) := by
  by_cases hother : label.isMain = false
  · exact .inl ((main_of_step hother h).1 ▸ hmain)
  · cases label with
    | recv frame =>
      simp only [step] at h
      split at h
      · cases frame with
        | clipboard snap' =>
          simp only [Engine.observeRemote_eq] at h
          by_cases haccepts : e.Accepts snap'
          · simp only [if_pos haccepts, Option.some.injEq, Prod.mk.injEq] at h
            obtain ⟨-, -, rfl⟩ := h
            cases hmain
            exact .inr ⟨rfl, haccepts⟩
          · simp only [if_neg haccepts, Option.some.injEq, Prod.mk.injEq] at h
            obtain ⟨-, -, rfl⟩ := h
            exact .inl hmain
        | _ =>
          cases h
          exact .inl hmain
      · cases h
    | write ok | readError lost | drop | join =>
      simp only [step] at h
      grind
    | _ => exact absurd rfl hother

/-- A step of a session without a text brings none, if it is quiet. -/
theorem textless_step (hx : x.Textless) (hpoll : label = .poll → c = none ∨ c = x.last)
    (hrecv : ∀ snap, label = .recv (.clipboard snap) → e.Accepts snap → snap.plainText = none)
    (h : x.step e c label = some (e', c', y)) : y.Textless := by
  refine ⟨upstream_step hx.upstream h, idle_step hx.upstream hx.idle hpoll h, fun snap hmain => ?_⟩
  rcases writing_of_step h hmain with hold | ⟨hlabel, haccepts⟩
  · exact hx.main snap hold
  · exact hrecv snap hlabel haccepts

end SpokeSession

namespace Spoke

variable {s t : Spoke} {a : SpokeLabel}

/-- What `sync_text = false` asks of a step: no write channel holds a text that was copied on the
spoke, and no session writes a text to the OS clipboard. -/
structure KeepsText (s : Spoke) (a : SpokeLabel) (t : Spoke) : Prop where
  /-- The channels. -/
  queued : ∀ x ∈ t.sessions, ∀ frame ∈ x.queue, ¬ frame.IsLocalText t.engine.selfId
  /-- The OS clipboard. -/
  written : ∀ i x snap, a = .task i (.write true) → s.sessions[i]? = some x →
    x.main = .writing snap → snap.plainText = none

/-- No watcher sees a change, and no snapshot with a text is accepted. -/
def QuietStep (s : Spoke) : SpokeLabel → Prop
  | .task i .poll => ∀ x, s.sessions[i]? = some x → s.clipboard = none ∨ s.clipboard = x.last
  | .task _ (.recv (.clipboard snap)) => s.engine.Accepts snap → snap.plainText = none
  | _ => True

/-- A quiet step brings no text. -/
theorem textless_step (hs : ∀ x ∈ s.sessions, x.Textless) (hquiet : s.QuietStep a)
    (h : s.step a = some t) : ∀ x ∈ t.sessions, x.Textless := by
  refine forall_sessions_step (fun clipboard => ⟨(SpokeSession.flowing_start clipboard).1, ?_, nofun⟩)
    hs ?_ h
  · simp [SpokeSession.Pending, SpokeSession.start]
  · rintro i label x engine clipboard y rfl hx htextless hy
    refine SpokeSession.textless_step htextless ?_ ?_ hy
    · rintro rfl
      exact hquiet x hx
    · rintro snap rfl
      exact hquiet

/-- A step without a text keeps to the switch. -/
theorem keepsText_step (hs : ∀ x ∈ s.sessions, x.Textless) (ht : ∀ x ∈ t.sessions, x.Textless) :
    s.KeepsText a t := by
  constructor
  · intro x hx frame hframe
    exact absurd (.inr (.inr (.inl (List.ne_nil_of_mem hframe)))) (ht x hx).idle
  · rintro i x snap - hx hmain
    exact (hs x (List.mem_of_getElem? hx)).main snap hmain

/-- A change that a watcher sees is queued for the hub. -/
theorem poll_leaks {i : ℕ} {x : SpokeSession} (hx : s.sessions[i]? = some x) (htextless : x.Textless)
    {text : String} (htext : s.clipboard = some text) (hlast : s.clipboard ≠ x.last) :
    ∃ bs, ∃ p ∈ spoke.steps s (.task i .poll :: bs), ¬ p.1.KeepsText p.2.1 p.2.2 := by
  have hidle := htextless.idle
  unfold SpokeSession.Pending at hidle
  push Not at hidle
  obtain ⟨htexts, hframes, hqueue, hwriter⟩ := hidle
  obtain ⟨hwatching, hproducing, hforwarding⟩ := htextless.upstream (by simp [hwriter])
  -- the watcher, the producer and the forwarding task pass the text on
  let snap : ClipboardSnapshot := (s.engine.produceText 0 text).1
  let seen : SpokeSession := { x with texts := [text], last := s.clipboard }
  let made : SpokeSession := { seen with texts := [], frames := [.clipboard snap] }
  let sent : SpokeSession := { made with frames := [], queue := [.clipboard snap] }
  have hpoll : x.step s.engine s.clipboard .poll = some (s.engine, s.clipboard, seen) := by
    have hseen : x.poll s.clipboard = seen := by
      rw [htext] at hlast
      simp [SpokeSession.poll, seen, htext, hlast, hproducing, htexts]
    simp only [SpokeSession.step, if_pos hwatching, hseen]
  obtain ⟨hpoll, hi⟩ := step_task hx hpoll
  have hproduce : seen.step s.engine s.clipboard (.produce 0) =
      some ((s.engine.produceText 0 text).2, s.clipboard, made) := by
    simp [SpokeSession.step, seen, made, snap, hproducing, hforwarding, hframes]
  obtain ⟨hproduce, hi'⟩ := step_task
    (s := ⟨s.engine, s.clipboard, s.sessions.set i seen⟩) hi hproduce
  have hforward : made.step (s.engine.produceText 0 text).2 s.clipboard .forward =
      some ((s.engine.produceText 0 text).2, s.clipboard, sent) := by
    simp [SpokeSession.step, seen, made, sent, hforwarding, hwriter, hqueue]
  obtain ⟨hforward, hi''⟩ := step_task
    (s := ⟨_, s.clipboard, (s.sessions.set i seen).set i made⟩) hi' hforward
  have hrun : spoke.run s [.task i .poll, .task i (.produce 0)] =
      some ⟨(s.engine.produceText 0 text).2, s.clipboard, (s.sessions.set i seen).set i made⟩ := by
    simp only [System.run, hpoll, hproduce, Option.bind_some]
  refine ⟨[.task i (.produce 0), .task i .forward], _, System.mem_steps_of_run hrun hforward,
    fun hkeeps => ?_⟩
  exact hkeeps.queued sent (List.mem_of_getElem? hi'') (.clipboard snap) (List.mem_singleton_self _)
    ⟨rfl, rfl⟩

/-- An accepted text is written to the OS clipboard. -/
theorem recv_leaks {i : ℕ} {snap : ClipboardSnapshot} (haccepts : s.engine.Accepts snap)
    (htext : snap.plainText ≠ none) (h : spoke.step s (.task i (.recv (.clipboard snap))) = some t) :
    ∃ bs, ∃ p ∈ spoke.steps s (.task i (.recv (.clipboard snap)) :: bs),
      ¬ p.1.KeepsText p.2.1 p.2.2 := by
  obtain ⟨x, engine, clipboard, y, hx, hy, rfl⟩ := task_step h
  have hmain : y.main = .writing snap := by
    simp only [SpokeSession.step, Engine.observeRemote_eq, if_pos haccepts] at hy
    split at hy
    · cases hy
      rfl
    · cases hy
  have hi := (step_task hx hy).2
  have hwrite : y.step engine clipboard (.write true) =
      some (engine, snap.plainText <|> clipboard, { y with main := .reading }) := by
    simp [SpokeSession.step, hmain]
  obtain ⟨hwrite, -⟩ := step_task (s := ⟨engine, clipboard, s.sessions.set i y⟩) hi hwrite
  have hrun : spoke.run s [.task i (.recv (.clipboard snap))] =
      some ⟨engine, clipboard, s.sessions.set i y⟩ := by
    simp only [System.run, h, Option.bind_some]
  refine ⟨[.task i (.write true)], _, System.mem_steps_of_run hrun hwrite, fun hkeeps => ?_⟩
  exact htext (hkeeps.written i y snap rfl hi hmain)

/-- A step that is not quiet brings a text to the hub or to the OS clipboard. -/
theorem leaks_of_not_quietStep (hs : ∀ x ∈ s.sessions, x.Textless) (h : spoke.step s a = some t)
    (hquiet : ¬ s.QuietStep a) :
    ∃ bs, ∃ p ∈ spoke.steps s (a :: bs), ¬ p.1.KeepsText p.2.1 p.2.2 := by
  cases a with
  | copy text => exact absurd trivial hquiet
  | connect => exact absurd trivial hquiet
  | task i label =>
    cases label with
    | poll =>
      obtain ⟨x, hx, hchange⟩ : ∃ x, s.sessions[i]? = some x ∧
          ¬ (s.clipboard = none ∨ s.clipboard = x.last) := by
        by_contra hnone
        refine hquiet fun x hx => ?_
        by_contra hchange
        exact hnone ⟨x, hx, hchange⟩
      obtain ⟨hsome, hlast⟩ := not_or.1 hchange
      obtain ⟨text, htext⟩ := Option.ne_none_iff_exists'.1 hsome
      exact poll_leaks hx (hs x (List.mem_of_getElem? hx)) htext hlast
    | recv frame =>
      cases frame with
      | clipboard snap =>
        obtain ⟨haccepts, htext⟩ := Classical.not_imp.1 hquiet
        exact recv_leaks haccepts htext h
      | _ => exact absurd trivial hquiet
    | _ => exact absurd trivial hquiet

/-- On a spoke the guard is sharp. -/
theorem sharpGuard_quietStep (h₀ : spoke.init s) : spoke.SharpGuard s QuietStep KeepsText := by
  have hinit : ∀ x ∈ s.sessions, x.Textless := by
    obtain ⟨engine, clipboard, rfl⟩ := h₀
    exact List.forall_mem_nil _
  refine System.sharpGuard_of_invariant (I := fun s => ∀ x ∈ s.sessions, x.Textless) hinit
    (fun s a t hs hquiet h => textless_step hs hquiet h) (fun s a t hs hquiet h => ?_)
    fun s a t hs h hquiet => ?_
  · exact keepsText_step hs (textless_step hs hquiet h)
  · exact leaks_of_not_quietStep hs h hquiet

end Spoke

/-- The switch `sync_text`, for every configuration. In a run of a hub or of a spoke in which, with
the switch off, no watcher sees a change of the OS clipboard and no snapshot with a text is accepted,
no channel to the network gets a text that was copied on the node, and no text from a snapshot is
written to the OS clipboard. With the switch off, any step that breaks this condition can be followed
by steps at which the node sends or writes the text. -/
theorem sync_text_quiet (cfg : ClipboardConfig) (id : NodeId) (clipboard : Option String) :
    hub.SharpGuard (Hub.bootstrap cfg id clipboard) (fun s a => cfg.syncText = false → s.QuietStep a)
      (fun s a t => cfg.syncText = false → s.KeepsText a t) ∧
    spoke.SharpGuard (Spoke.bootstrap cfg id clipboard)
      (fun s a => cfg.syncText = false → s.QuietStep a)
      (fun s a t => cfg.syncText = false → s.KeepsText a t) :=
  ⟨(Hub.sharpGuard_quietStep ⟨_, _, _, rfl⟩).imp _, (Spoke.sharpGuard_quietStep ⟨_, _, rfl⟩).imp _⟩

section Example

instance (id : NodeId) : DecidablePred (WireFrame.IsLocalText id)
  | .clipboard snap => inferInstanceAs (Decidable (snap.origin = id ∧ snap.plainText.isSome = true))
  | .control _ | .input _ | .fetchRequest _ | .fetchResponse .. | .fetchMiss _ => .isFalse not_false

/-- A spoke connects, and the user of the hub copies a text. -/
def copiedRun : List HubLabel := [.accept spokeId, .produce 0 "secret", .broadcastLocal]

/-- With the switch off, the text that is copied in `copiedRun` goes to the spoke. -/
theorem sync_text_ignored : ¬ ∀ cfg : ClipboardConfig, cfg.syncText = false → ∀ id clipboard,
    (∀ as, ∀ p ∈ hub.steps (Hub.bootstrap cfg id clipboard) as, p.1.KeepsText p.2.1 p.2.2) ∧
    ∀ as, ∀ p ∈ spoke.steps (Spoke.bootstrap cfg id clipboard) as, p.1.KeepsText p.2.1 p.2.2 := by
  intro h
  let cfg : ClipboardConfig := { (default : ClipboardConfig) with syncText := false }
  have hleak : ∃ p ∈ hub.steps (Hub.bootstrap cfg ⟨.replicate 16 0⟩ none) copiedRun,
      ∃ x ∈ p.2.2.sessions, ∃ frame ∈ x.queue, frame.IsLocalText p.2.2.engine.selfId := by
    decide +kernel
  obtain ⟨p, hp, x, hx, frame, hframe, hlocal⟩ := hleak
  exact ((h _ rfl _ _).1 _ p hp).queued x hx frame hframe hlocal

end Example

end Runtime

end Borderless
