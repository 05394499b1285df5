import Borderless.Runtime.HubClipboard
import Borderless.Runtime.HubRouting
import Borderless.Runtime.SpokeSession

/-!
# Processes while their sessions last

What the tasks of the hub and of a spoke do to the engine, to what the readers have accepted, and to
the frames on their way, as long as no session begins or ends. The hub is followed through its
`Hub.core`, which the messages to its channels leave alone; `HubRouting` follows the channels. A
spoke is followed through `Spoke.outgoing`, the frames of its one session that are in a channel or
with the writer.
-/

namespace Borderless

/-- The snapshot in a frame. -/
def WireFrame.snapshot : WireFrame → Option ClipboardSnapshot
  | .clipboard snap => some snap
  | .input _ | .fetchRequest _ | .fetchResponse .. | .fetchMiss _ | .control _ => none

/-- The snapshots in some frames. -/
def snapshots (frames : List WireFrame) : List ClipboardSnapshot :=
  frames.filterMap WireFrame.snapshot

/-- The snapshots in two lists of frames. -/
@[simp] theorem snapshots_append (fs gs : List WireFrame) :
    snapshots (fs ++ gs) = snapshots fs ++ snapshots gs := List.filterMap_append

/-- The snapshot of one frame. -/
@[simp] theorem snapshots_singleton (frame : WireFrame) :
    snapshots [frame] = frame.snapshot.toList := by
  cases frame <;> rfl

/-- The snapshots from the first frame on. -/
theorem snapshots_cons (frame : WireFrame) (frames : List WireFrame) :
    snapshots (frame :: frames) = frame.snapshot.toList ++ snapshots frames := by
  rw [← snapshots_singleton, ← snapshots_append, List.singleton_append]

namespace Runtime

open Borderless.Clipboard Transition

/-! ## The hub while its sessions last -/

/-- The snapshot that a reader has accepted and is still to broadcast. -/
def Reader.applied : Reader → Option ClipboardSnapshot
  | writing snap | relaying snap => some snap
  | reading | ended | closed => none

/-- The steps by which no session begins or ends. -/
def HubLabel.isLasting : HubLabel → Bool
  | .recv .. | .write .. | .relay _ | .writerSend _ | .produce .. | .broadcastLocal | .capture _
  | .broadcastInput => true
  | .accept _ | .readError _ | .cleanup _ | .writerFail _ | .writerEnd _ => false

/-- The lasting steps of the hub that need no connection, and are no broadcast of a reader. -/
def HubLabel.isLocal : HubLabel → Bool
  | .write .. | .produce .. | .broadcastLocal | .capture _ | .broadcastInput => true
  | .accept _ | .recv .. | .relay _ | .readError _ | .cleanup _ | .writerSend _ | .writerFail _
  | .writerEnd _ => false

namespace Hub

variable {s t : Hub} {a : HubLabel} {i : ℕ}

/-- Which writer tasks hold their receiver. -/
def receivers (s : Hub) : List Bool := s.sessions.map Session.receiver

/-- A session receives if its entry says so. -/
theorem receives_iff : s.Receives i ↔ s.receivers[i]? = some true := by
  unfold Receives receivers
  rw [List.getElem?_map, Option.map_eq_some_iff]

/-- Changing a session without its receiver. -/
theorem receivers_modify (s : Hub) (i : ℕ) {f : Session → Session}
    (h : ∀ x, (f x).receiver = x.receiver) :
    ({ s with sessions := s.sessions.modify i f } : Hub).receivers = s.receivers := by
  unfold receivers
  refine List.ext_getElem? fun j => ?_
  simp only [List.getElem?_map, List.getElem?_modify, Option.map_eq_map, Option.map_map]
  refine Option.map_congr fun x _ => ?_
  simp only [Function.comp_apply]
  split_ifs
  · exact h x
  · rfl

/-- The part of the hub that the messages to channels leave alone. -/
structure Core where
  /-- Clipboard sync engine. -/
  engine : Engine
  /-- How far the readers are. -/
  readers : List Reader
  /-- Which writer tasks hold their receiver. -/
  receivers : List Bool
  /-- The frames of the local clipboard that are to be broadcast. -/
  localFrames : List WireFrame

/-- The core of a hub. -/
def core (s : Hub) : Core := ⟨s.engine, s.readers, s.receivers, s.localFrames⟩

/-- A change of one session that leaves its reader and its receiver alone leaves the core alone. -/
theorem core_modify (s : Hub) (i : ℕ) {f : Session → Session}
    (hreader : ∀ x, (f x).reader = x.reader) (hreceiver : ∀ x, (f x).receiver = x.receiver) :
    ({ s with sessions := s.sessions.modify i f } : Hub).core = s.core := by
  have hview := s.view_modify i hreader
  have hreaders := (Prod.mk.inj (Prod.mk.inj hview).2).2
  unfold core
  rw [hreaders, s.receivers_modify i hreceiver]

/-- A message leaves the core alone. -/
theorem core_send (s : Hub) (i : ℕ) (frame : WireFrame) : (s.send i frame).core = s.core := by
  refine s.core_modify i (fun x => ?_) fun x => ?_
  · split_ifs <;> rfl
  · split_ifs <;> rfl

/-- A broadcast leaves the core alone. -/
theorem core_broadcastToAll (s : Hub) (frame : WireFrame) (exclude : Option NodeId) :
    (s.broadcastToAll frame exclude).core = s.core := broadcastToAll_proj core_send s frame exclude

/-- A reader that moves on shows in the core. -/
theorem core_setReader (s : Hub) (i : ℕ) (reader : Reader) :
    (s.setReader i reader).core = { s.core with readers := s.readers.set i reader } := by
  have hreceivers : (s.setReader i reader).receivers = s.receivers :=
    s.receivers_modify i fun _ => rfl
  unfold core
  rw [readers_setReader, hreceivers]
  rfl

/-- A writer that sends a frame leaves the core alone. -/
theorem core_writerSend (h : s.step (.writerSend i) = some t) : t.core = s.core := by
  obtain ⟨x, frame, queue, -, -, rfl⟩ := step_writerSend h
  exact s.core_modify i (fun _ => rfl) fun _ => rfl

/-- A reader that handles a frame which is no snapshot leaves the core alone. -/
theorem core_recv {frame : WireFrame} (hframe : frame.snapshot = none)
    (h : s.step (.recv i frame) = some t) : t.core = s.core := by
  obtain ⟨x, -, -, rfl⟩ := step_recv h
  unfold handleFrame
  cases frame with
  | clipboard snap => cases hframe
  | fetchRequest hash =>
    simp only
    split
    · exact reply_proj core_send s _ _
    · exact reply_proj core_send s _ _
  | _ => rfl

/-- A reader that handles a snapshot is to write it if the engine accepts it. -/
theorem core_recv_clipboard {snap : ClipboardSnapshot}
    (h : s.step (.recv i (.clipboard snap)) = some t) : s.readers[i]? = some .reading ∧
      t.core = if s.engine.Accepts snap then
          { s.core with
            engine := s.engine.advance snap
            readers := s.readers.set i (.writing snap) }
        else s.core := by
  obtain ⟨x, hx, hreader, rfl⟩ := step_recv h
  refine ⟨readers_getElem? hx hreader, ?_⟩
  unfold handleFrame
  simp only [Engine.observeRemote_eq]
  by_cases haccepts : s.engine.Accepts snap
  · simp only [if_pos haccepts]
    exact core_setReader { s with engine := s.engine.advance snap } i (.writing snap)
  · simp only [if_neg haccepts]

/-- A reader that writes its snapshot is to broadcast it. -/
theorem core_write {ok : Bool} (h : s.step (.write i ok) = some t) :
    ∃ snap, s.readers[i]? = some (.writing snap) ∧
      t.core = { s.core with readers := s.readers.set i (.relaying snap) } := by
  obtain ⟨x, snap, hx, hreader, rfl⟩ := step_write h
  exact ⟨snap, readers_getElem? hx hreader, core_setReader _ _ _⟩

/-- A reader that broadcasts its snapshot reads on. -/
theorem core_relay (h : s.step (.relay i) = some t) :
    ∃ x snap, s.sessions[i]? = some x ∧ x.reader = .relaying snap ∧
      t.core = { s.core with readers := s.readers.set i .reading } := by
  obtain ⟨x, snap, hx, hreader, rfl⟩ := step_relay h
  have hcore := core_broadcastToAll s (.clipboard snap) (some x.peer)
  have hreaders : (s.broadcastToAll (.clipboard snap) (some x.peer)).readers = s.readers :=
    congrArg Core.readers hcore
  refine ⟨x, snap, hx, hreader, ?_⟩
  rw [core_setReader, hcore, hreaders]

/-- A text of the local clipboard is produced. -/
theorem core_produce {now : UInt64} {text : String} (h : s.step (.produce now text) = some t) :
    t.core = { s.core with
      engine := (s.engine.produceText now text).2
      localFrames := s.localFrames ++ [.clipboard (s.engine.produceText now text).1] } := by
  obtain rfl := Option.some.inj h
  rfl

/-- The next frame of the local clipboard is broadcast. -/
theorem core_broadcastLocal (h : s.step .broadcastLocal = some t) :
    ∃ frame, s.localFrames = frame :: t.localFrames ∧
      t.core = { s.core with localFrames := t.localFrames } := by
  obtain ⟨frame, rest, hlocal, rfl⟩ := step_broadcastLocal h
  have hcore := core_broadcastToAll { s with localFrames := rest } frame none
  have hrest : ({ s with localFrames := rest }.broadcastToAll frame none).localFrames = rest :=
    congrArg Core.localFrames hcore
  refine ⟨frame, by rw [hlocal, hrest], ?_⟩
  rw [hcore, hrest]
  rfl

/-- The next captured event is broadcast. -/
theorem core_broadcastInput (h : s.step .broadcastInput = some t) : t.core = s.core := by
  obtain ⟨event, rest, -, rfl⟩ := step_broadcastInput h
  exact core_broadcastToAll { s with captured := rest } (.input event) none

/-- By a lasting step no receiver is dropped. -/
theorem receivers_lasting (ha : a.isLasting) (h : s.step a = some t) :
    t.receivers = s.receivers := by
  have hcore : ∀ {c : Core}, t.core = c → t.receivers = c.receivers := fun hc =>
    congrArg Core.receivers hc
  cases a with
  | recv i frame =>
    cases hframe : frame.snapshot with
    | none => exact hcore (core_recv hframe h)
    | some snap =>
      obtain rfl : frame = .clipboard snap := by
        cases frame <;> first | cases hframe; rfl | cases hframe
      rw [hcore (core_recv_clipboard h).2]
      split_ifs <;> rfl
  | write i ok =>
    obtain ⟨snap, -, hc⟩ := core_write h
    exact hcore hc
  | relay i =>
    obtain ⟨x, snap, -, -, hc⟩ := core_relay h
    exact hcore hc
  | writerSend i => exact hcore (core_writerSend h)
  | produce now text => exact hcore (core_produce h)
  | broadcastLocal =>
    obtain ⟨frame, -, hc⟩ := core_broadcastLocal h
    exact hcore hc
  | capture event =>
    obtain rfl := Option.some.inj h
    rfl
  | broadcastInput => exact hcore (core_broadcastInput h)
  | _ => cases ha

/-- By a lasting step the sessions stay as they are: the senders, the peers, and whose reader is
alive. -/
theorem table_lasting (ha : a.isLasting) (h : s.step a = some t) : t.table = s.table := by
  rcases table_step h with ⟨peer, rfl, -⟩ | ⟨i, rfl, -⟩ | ⟨i, x, rfl, -, -⟩ | ⟨-, ht⟩
  · cases ha
  · cases ha
  · cases ha
  · exact ht

/-- By a lasting step a channel stays in the hands of its two ends. -/
theorem holds_lasting {peer : NodeId} (ha : a.isLasting) (h : s.step a = some t)
    (hs : s.Holds peer i) : t.Holds peer i := by
  obtain ⟨hlookup, hreceives⟩ := hs
  have hcurrent : t.table.current peer = s.table.current peer := by rw [table_lasting ha h]
  refine ⟨hcurrent.trans hlookup, ?_⟩
  rw [receives_iff, receivers_lasting ha h]
  exact receives_iff.1 hreceives

/-- The reply to a fetch request holds no snapshot. -/
theorem snapshots_fetchReply (s : Hub) (hash : Bytes 32) : snapshots (s.fetchReply hash) = [] := by
  unfold fetchReply
  split
  · unfold chunkFetchResponse
    split_ifs
    · rfl
    · refine List.filterMap_eq_nil_iff.2 fun frame hframe => ?_
      obtain ⟨p, -, rfl⟩ := List.mem_map.1 hframe
      rfl
  · rfl

end Hub

/-! ## A spoke while its session lasts -/

/-- The frame that a writer is sending. -/
def SpokeWriter.inHand : SpokeWriter → Option WireFrame
  | sending frame => some frame
  | waiting | closing | ended => none

/-- The steps of a task that leave the engine alone, and the order of the frames on their way. -/
def TaskLabel.isQuiet : TaskLabel → Bool
  | .poll | .forward | .take | .write _ => true
  | .produce _ | .producerEnd | .forwardEnd | .sent | .sendFail | .close | .writerEnd | .recv _
  | .readError _ | .drop | .join => false

/-- The steps of a spoke that need no connection, and by which its one session lasts. -/
def SpokeLabel.isLocal : SpokeLabel → Bool
  | .copy _ | .task 0 (.produce _) => true
  | .task 0 label => label.isQuiet
  | .connect | .task (_ + 1) _ => false

namespace SpokeSession

variable {x y : SpokeSession} {e e' : Engine} {c c' : Option String} {label : TaskLabel}

/-- The frames on their way to the connection, oldest first. -/
def outgoing (x : SpokeSession) : List WireFrame :=
  x.writer.inHand.toList ++ x.queue ++ x.frames

/-- The session lasts: its tasks go on, and the connection is not lost. -/
structure Lasting (x : SpokeSession) : Prop where
  /-- The forwarding task runs. -/
  forwarding : x.forwarding = true
  /-- The writer waits for a frame, or sends one. -/
  writer : x.writer = .waiting ∨ ∃ frame, x.writer = .sending frame
  /-- The main task reads, or writes what it has applied. -/
  main : x.main = .reading ∨ ∃ snap, x.main = .writing snap
  /-- The connection is not lost. -/
  lost : x.lost = false

/-- A session that starts lasts. -/
theorem lasting_start (clipboard : Option String) : (start clipboard).Lasting :=
  ⟨rfl, .inl rfl, .inl rfl, rfl⟩

/-- The producer's frame is the last one on its way. -/
theorem outgoing_produce (hx : x.Lasting) {now : UInt64}
    (h : x.step e c (.produce now) = some (e', c', y)) : ∃ text texts, x.texts = text :: texts ∧
      e' = (e.produceText now text).2 ∧
      y.outgoing = x.outgoing ++ [.clipboard (e.produceText now text).1] ∧ y.Lasting := by
  obtain ⟨text, texts, -, htexts, rfl, -, rfl⟩ := produce_step h
  obtain ⟨hforwarding, hwriter, hmain, hlost⟩ := hx
  rw [if_pos hforwarding]
  refine ⟨text, texts, htexts, rfl, ?_, hforwarding, hwriter, hmain, hlost⟩
  exact (List.append_assoc _ _ _).symm

/-- The writer has sent the first frame on its way. -/
theorem outgoing_sent (hx : x.Lasting) (h : x.step e c .sent = some (e', c', y)) :
    ∃ frame, x.writer.inHand = some frame ∧ e' = e ∧ x.outgoing = frame :: y.outgoing ∧
      y.Lasting := by
  obtain ⟨hforwarding, -, hmain, hlost⟩ := hx
  simp only [step] at h
  split at h
  · next frame hsending _ =>
    simp only [Option.some.injEq, Prod.mk.injEq] at h
    obtain ⟨rfl, rfl, rfl⟩ := h
    refine ⟨frame, by rw [hsending]; rfl, rfl, ?_, hforwarding, .inl rfl, hmain, hlost⟩
    unfold outgoing
    rw [hsending]
    rfl
  · cases h

/-- The main task handles a frame, and what is on its way stays. -/
theorem outgoing_recv (hx : x.Lasting) {frame : WireFrame}
    (h : x.step e c (.recv frame) = some (e', c', y)) :
    (e' = match frame.snapshot with
      | some snap => (e.observeRemote snap).2
      | none => e) ∧ y.outgoing = x.outgoing ∧ y.Lasting := by
  obtain ⟨hforwarding, hwriter, hmain, hlost⟩ := hx
  simp only [step] at h
  split at h
  · cases frame with
    | clipboard snap =>
      simp only [Engine.observeRemote_eq] at h
      by_cases haccepts : e.Accepts snap
      · -- an accepted snapshot is to be written
        simp only [if_pos haccepts, Option.some.injEq, Prod.mk.injEq] at h
        obtain ⟨rfl, rfl, rfl⟩ := h
        simp only [WireFrame.snapshot, Engine.observeRemote_eq, if_pos haccepts]
        exact ⟨trivial, rfl, hforwarding, hwriter, .inr ⟨snap, rfl⟩, hlost⟩
      · simp only [if_neg haccepts, Option.some.injEq, Prod.mk.injEq] at h
        obtain ⟨rfl, rfl, rfl⟩ := h
        simp only [WireFrame.snapshot, Engine.observeRemote_eq, if_neg haccepts]
        exact ⟨trivial, trivial, hforwarding, hwriter, hmain, hlost⟩
    | _ =>
      simp only [Option.some.injEq, Prod.mk.injEq] at h
      obtain ⟨rfl, rfl, rfl⟩ := h
      exact ⟨rfl, rfl, hforwarding, hwriter, hmain, hlost⟩
  · cases h

/-- The quiet steps leave the engine alone, and the order of what is on its way. -/
theorem outgoing_quiet (hx : x.Lasting) (hlabel : label.isQuiet)
    (h : x.step e c label = some (e', c', y)) :
    e' = e ∧ y.outgoing = x.outgoing ∧ y.Lasting := by
  obtain ⟨hforwarding, hwriter, hmain, hlost⟩ := hx
  cases label with
  | poll =>
    simp only [step] at h
    split_ifs at h
    simp only [Option.some.injEq, Prod.mk.injEq] at h
    obtain ⟨rfl, rfl, rfl⟩ := h
    obtain ⟨last, texts, watching, hpoll, -, -⟩ := x.poll_eq c
    rw [hpoll]
    exact ⟨rfl, rfl, hforwarding, hwriter, hmain, hlost⟩
  | forward =>
    obtain ⟨frame, frames, -, hframes, rfl, -, rfl⟩ := forward_step h
    have hrunning : x.writer ≠ .ended := by
      rcases hwriter with hw | ⟨f, hw⟩
      · simp [hw]
      · simp [hw]
    rw [if_neg hrunning]
    refine ⟨rfl, ?_, hforwarding, hwriter, hmain, hlost⟩
    unfold outgoing
    rw [hframes, List.append_assoc, List.append_assoc, List.append_assoc]
    rfl
  | take =>
    simp only [step] at h
    split at h
    · next frame queue hwaiting hqueue =>
      simp only [Option.some.injEq, Prod.mk.injEq] at h
      obtain ⟨rfl, rfl, rfl⟩ := h
      refine ⟨rfl, ?_, hforwarding, .inr ⟨frame, rfl⟩, hmain, hlost⟩
      unfold outgoing
      rw [hwaiting, hqueue]
      rfl
    · cases h
  | write ok =>
    simp only [step] at h
    split at h
    · simp only [Option.some.injEq, Prod.mk.injEq] at h
      obtain ⟨rfl, rfl, rfl⟩ := h
      exact ⟨rfl, rfl, hforwarding, hwriter, .inl rfl, hlost⟩
    · cases h
  | _ => cases hlabel

end SpokeSession

namespace Spoke

variable {s t : Spoke}

/-- The frame that the writer of the first session is sending. -/
def inHand (s : Spoke) : Option WireFrame := s.sessions.head?.bind fun x => x.writer.inHand

/-- The next text of the first session's producer. -/
def nextText (s : Spoke) : Option String := s.sessions.head?.bind fun x => x.texts.head?

/-- The frames on their way to a connection. -/
def outgoing (s : Spoke) : List WireFrame := s.sessions.flatMap SpokeSession.outgoing

/-- The spoke has one session, which lasts. -/
def Lasting (s : Spoke) : Prop := ∃ x, s.sessions = [x] ∧ x.Lasting

/-- A step of the one session. -/
theorem task_one {x : SpokeSession} {label : TaskLabel} (hs : s.sessions = [x])
    (h : s.step (.task 0 label) = some t) :
    ∃ y, x.step s.engine s.clipboard label = some (t.engine, t.clipboard, y) ∧
      t.sessions = [y] := by
  obtain ⟨x', engine, clipboard, y, hx', hstep, rfl⟩ := task_step h
  rw [hs] at hx'
  obtain rfl : x = x' := Option.some.inj hx'
  exact ⟨y, hstep, by rw [hs]; rfl⟩

/-- The frames of the one session. -/
theorem outgoing_one {x : SpokeSession} (hs : s.sessions = [x]) : s.outgoing = x.outgoing := by
  unfold outgoing
  rw [hs]
  exact List.append_nil _

/-- The producer's frame is the last one on its way. -/
theorem outgoing_produce (hs : s.Lasting) {now : UInt64}
    (h : s.step (.task 0 (.produce now)) = some t) : ∃ text, s.nextText = some text ∧
      t.engine = (s.engine.produceText now text).2 ∧
      t.outgoing = s.outgoing ++ [.clipboard (s.engine.produceText now text).1] ∧ t.Lasting := by
  obtain ⟨x, hx, hlasting⟩ := hs
  obtain ⟨y, hstep, hy⟩ := task_one hx h
  obtain ⟨text, texts, htexts, hengine, hout, hlasting'⟩ :=
    SpokeSession.outgoing_produce hlasting hstep
  refine ⟨text, ?_, hengine, ?_, y, hy, hlasting'⟩
  · unfold nextText
    rw [hx]
    show x.texts.head? = some text
    rw [htexts]
    rfl
  · rw [outgoing_one hy, outgoing_one hx, hout]

/-- The writer has sent the first frame on its way. -/
theorem outgoing_sent (hs : s.Lasting) (h : s.step (.task 0 .sent) = some t) :
    ∃ frame, s.inHand = some frame ∧ t.engine = s.engine ∧ s.outgoing = frame :: t.outgoing ∧
      t.Lasting := by
  obtain ⟨x, hx, hlasting⟩ := hs
  obtain ⟨y, hstep, hy⟩ := task_one hx h
  obtain ⟨frame, hframe, hengine, hout, hlasting'⟩ := SpokeSession.outgoing_sent hlasting hstep
  refine ⟨frame, ?_, hengine, ?_, y, hy, hlasting'⟩
  · unfold inHand
    rw [hx]
    exact hframe
  · rw [outgoing_one hy, outgoing_one hx, hout]

/-- The main task handles a frame, and what is on its way stays. -/
theorem outgoing_recv (hs : s.Lasting) {frame : WireFrame}
    (h : s.step (.task 0 (.recv frame)) = some t) :
    (t.engine = match frame.snapshot with
      | some snap => (s.engine.observeRemote snap).2
      | none => s.engine) ∧ t.outgoing = s.outgoing ∧ t.Lasting := by
  obtain ⟨x, hx, hlasting⟩ := hs
  obtain ⟨y, hstep, hy⟩ := task_one hx h
  obtain ⟨hengine, hout, hlasting'⟩ := SpokeSession.outgoing_recv hlasting hstep
  refine ⟨hengine, ?_, y, hy, hlasting'⟩
  rw [outgoing_one hy, outgoing_one hx, hout]

/-- The quiet steps leave the engine alone, and the order of what is on its way. -/
theorem outgoing_quiet (hs : s.Lasting) {label : TaskLabel} (hlabel : label.isQuiet)
    (h : s.step (.task 0 label) = some t) :
    t.engine = s.engine ∧ t.outgoing = s.outgoing ∧ t.Lasting := by
  obtain ⟨x, hx, hlasting⟩ := hs
  obtain ⟨y, hstep, hy⟩ := task_one hx h
  obtain ⟨hengine, hout, hlasting'⟩ := SpokeSession.outgoing_quiet hlasting hlabel hstep
  refine ⟨hengine, ?_, y, hy, hlasting'⟩
  rw [outgoing_one hy, outgoing_one hx, hout]

/-- A spoke that connects for the first time has a session that lasts, with nothing on its way. -/
theorem lasting_connect {engine : Engine} {clipboard : Option String}
    (h : Runtime.spoke.run (start engine clipboard) [.connect] = some t) :
    t.Lasting ∧ t.engine = engine ∧ t.outgoing = [] := by
  obtain rfl := Option.some.inj h
  exact ⟨⟨_, rfl, SpokeSession.lasting_start clipboard⟩, rfl, rfl⟩

end Spoke

end Runtime

end Borderless
