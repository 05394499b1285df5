import Borderless.Clipboard.Engine
import Borderless.Lib.SessionTable
import Borderless.Lib.Transition
import Mathlib.Data.List.AList

/-!
# The hub

`crates/cli/src/runtime/server.rs`: a step relation over the map of writers, the sessions, the
clipboard engine and the lazy store. Every session has a channel, a writer task that holds the
receiver of the channel, and a reader task; the map holds the sender of one session for each peer.
Each step is what one task does under one lock, or between two of its awaits:

- the accept loop installs a session (`spawn_spoke_session`);
- a reader handles a frame that the spoke has sent. A snapshot that it applies it then writes to
  the OS clipboard, and then broadcasts;
- a reader fails, and then removes its peer from the map;
- a writer takes a frame from its channel and sends it, or fails and drops the receiver, or ends
  when the channel is empty and its sender is gone;
- the tasks of the local clipboard and of the input capture broadcast what they have produced.
-/

namespace Borderless.Runtime

open Borderless.Clipboard Transition

/-- How far the reader task of a session is. -/
inductive Reader
  /-- It waits for the next frame. -/
  | reading
  /-- It has applied a snapshot, and is to write it to the OS clipboard. -/
  | writing (snap : ClipboardSnapshot)
  /-- It has written the snapshot, and is to broadcast it. -/
  | relaying (snap : ClipboardSnapshot)
  /-- It has failed, and is to remove its peer from the map. -/
  | ended
  /-- It has returned. -/
  | closed
deriving DecidableEq

/-- The reader has not ended. -/
def Reader.isLive : Reader → Bool
  | reading | writing _ | relaying _ => true
  | ended | closed => false

/-- A session of a spoke. -/
structure Session where
  /-- `peer_id`. -/
  peer : NodeId
  /-- The frames in the channel, oldest first. -/
  queue : List WireFrame
  /-- Whether the writer task still holds the receiver. -/
  receiver : Bool
  /-- The reader task. -/
  reader : Reader
deriving DecidableEq

/-- The state of the hub. Sessions are numbered in the order in which they were accepted, and the
sender of a session's channel is the number of the session. -/
structure Hub where
  /-- `WriterMap`. -/
  writers : AList fun _ : NodeId => ℕ
  /-- All sessions so far. -/
  sessions : List Session
  /-- Clipboard sync engine. -/
  engine : Engine
  /-- Lazy payload store. -/
  lazy : LazyStore
  /-- The text on the OS clipboard. -/
  clipboard : Option String
  /-- The frames that the local clipboard watcher has produced, not yet broadcast. -/
  localFrames : List WireFrame
  /-- The captured input events, not yet broadcast. -/
  captured : List InputEvent

/-- The steps of the hub. -/
inductive HubLabel
  /-- A spoke is accepted. -/
  | accept (peer : NodeId)
  /-- The reader of the session `i` handles a frame. -/
  | recv (i : ℕ) (frame : WireFrame)
  /-- The reader of the session `i` writes an applied snapshot; the backend may fail. -/
  | write (i : ℕ) (ok : Bool)
  /-- The reader of the session `i` broadcasts an applied snapshot. -/
  | relay (i : ℕ)
  /-- The reader of the session `i` fails. -/
  | readError (i : ℕ)
  /-- The reader of the session `i` removes its peer from the map and returns. -/
  | cleanup (i : ℕ)
  /-- The writer of the session `i` sends the next frame. -/
  | writerSend (i : ℕ)
  /-- The writer of the session `i` fails to send the next frame, and returns. -/
  | writerFail (i : ℕ)
  /-- The writer of the session `i` finds its channel closed, and returns. -/
  | writerEnd (i : ℕ)
  /-- The local clipboard watcher produces a snapshot. -/
  | produce (now : UInt64) (text : String)
  /-- The next local frame is broadcast. -/
  | broadcastLocal
  /-- An input event is captured. -/
  | capture (event : InputEvent)
  /-- The next input event is broadcast. -/
  | broadcastInput

/-- `FETCH_CHUNK_SIZE`: the largest part of a payload in one frame. -/
def fetchChunkSize : ℕ := 256 * 1024

/-- `chunk_fetch_response`: the parts of a payload, each with its index and their number. An empty
payload has one part. -/
def chunkFetchResponse (hash : Bytes 32) (bytes : List UInt8) : List WireFrame :=
  if bytes = [] then [.fetchResponse hash 0 1 []]
  else
    let total := UInt32.ofNat ((bytes.length + fetchChunkSize - 1) / fetchChunkSize)
    (bytes.toChunks fetchChunkSize).zipIdx.map fun (chunk, i) =>
      .fetchResponse hash (UInt32.ofNat i) total chunk

namespace Hub

/-- A hub that has just started. -/
def start (engine : Engine) (lazy : LazyStore) (clipboard : Option String) : Hub :=
  ⟨∅, [], engine, lazy, clipboard, [], []⟩

/-- `tx.send`: the frame goes into the channel unless the receiver is dropped. -/
def send (s : Hub) (i : ℕ) (frame : WireFrame) : Hub :=
  { s with
    sessions := s.sessions.modify i fun x =>
      if x.receiver then { x with queue := x.queue ++ [frame] } else x }

/-- `broadcast_to_all`: the frame goes into the channel of every peer in the map but the excluded
one. -/
def broadcastToAll (s : Hub) (frame : WireFrame) (exclude : Option NodeId) : Hub :=
  s.writers.entries.foldl
    (fun s entry => if some entry.1 = exclude then s else s.send entry.2 frame) s

/-- The reply to a fetch goes to the current sender of the peer. -/
def reply (s : Hub) (peer : NodeId) (frames : List WireFrame) : Hub :=
  match s.writers.lookup peer with
  | some i => frames.foldl (fun s frame => s.send i frame) s
  | none => s

/-- The reader task of the session `i` is at `reader`. -/
def setReader (s : Hub) (i : ℕ) (reader : Reader) : Hub :=
  { s with sessions := s.sessions.modify i fun x => { x with reader := reader } }

/-- The reader's match on a frame from `peer`, up to its first await. -/
def handleFrame (s : Hub) (i : ℕ) (peer : NodeId) : WireFrame → Hub
  | .clipboard snap =>
    match s.engine.observeRemote snap with
    -- the write to the OS clipboard and the broadcast are steps of their own
    | (.apply snap', e) => { s with engine := e }.setReader i (.writing snap')
    | (.ignore, e) => { s with engine := e }
  -- only the hub is active
  | .input _ => s
  | .fetchRequest hash =>
    match s.lazy.get hash with
    | some bytes => s.reply peer (chunkFetchResponse hash bytes)
    | none => s.reply peer [.fetchMiss hash]
  | .fetchResponse .. | .fetchMiss _ => s
  | .control _ => s

/-- The reader task of the session `i` takes a step from where it is. -/
def readerStep (s : Hub) (i : ℕ) (f : Session → Option Hub) : Option Hub :=
  match s.sessions[i]? with
  | some x => f x
  | none => none

/-- One step. -/
def step (s : Hub) : HubLabel → Option Hub
  | .accept peer =>
    some { s with
      writers := s.writers.insert peer s.sessions.length
      sessions := s.sessions ++ [⟨peer, [], true, .reading⟩] }
  | .recv i frame => s.readerStep i fun x =>
    match x.reader with
    | .reading => some (s.handleFrame i x.peer frame)
    | _ => none
  | .write i ok => s.readerStep i fun x =>
    match x.reader with
    | .writing snap =>
      let written := if ok then snap.plainText <|> s.clipboard else s.clipboard
      some ({ s with clipboard := written }.setReader i (.relaying snap))
    | _ => none
  | .relay i => s.readerStep i fun x =>
    match x.reader with
    | .relaying snap =>
      some ((s.broadcastToAll (.clipboard snap) (some x.peer)).setReader i .reading)
    | _ => none
  | .readError i => s.readerStep i fun x =>
    match x.reader with
    | .reading => some (s.setReader i .ended)
    | _ => none
  | .cleanup i => s.readerStep i fun x =>
    match x.reader with
    -- whichever session of the peer the map holds
    | .ended => some ({ s with writers := s.writers.erase x.peer }.setReader i .closed)
    | _ => none
  | .writerSend i => s.readerStep i fun x =>
    match x.receiver, x.queue with
    | true, _ :: queue =>
      some { s with sessions := s.sessions.modify i fun x => { x with queue := queue } }
    | _, _ => none
  | .writerFail i => s.readerStep i fun x =>
    match x.receiver, x.queue with
    | true, _ :: _ =>
      some { s with
        sessions := s.sessions.modify i fun x => { x with queue := [], receiver := false } }
    | _, _ => none
  | .writerEnd i => s.readerStep i fun x =>
    -- the sender of a session is dropped when the map no longer holds it
    if x.receiver ∧ x.queue = [] ∧ s.writers.lookup x.peer ≠ some i then
      some { s with sessions := s.sessions.modify i fun x => { x with receiver := false } }
    else none
  | .produce now text =>
    let (snap, e) := s.engine.produceText now text
    some { s with engine := e, localFrames := s.localFrames ++ [.clipboard snap] }
  | .broadcastLocal =>
    match s.localFrames with
    | frame :: rest => some ({ s with localFrames := rest }.broadcastToAll frame none)
    | [] => none
  | .capture event => some { s with captured := s.captured ++ [event] }
  | .broadcastInput =>
    match s.captured with
    | event :: rest => some ({ s with captured := rest }.broadcastToAll (.input event) none)
    | [] => none

end Hub

/-- The hub. A run starts with no session. -/
def hub : System Hub HubLabel where
  init s := ∃ engine lazy clipboard, s = Hub.start engine lazy clipboard
  step := Hub.step

/-! ## The table of sessions -/

/-- What the table of sessions shows of a session. -/
def Session.row (x : Session) : NodeId × Bool := (x.peer, x.reader.isLive)

namespace Hub

/-- The map of writers and the sessions as a table: a session is open as long as its reader has not
ended. -/
def table (s : Hub) : SessionTable NodeId where
  current := s.writers.lookup
  sessions := s.sessions.map Session.row

/-- A change of one session that the table does not show leaves the table alone. -/
theorem table_modify (s : Hub) (i : ℕ) {f : Session → Session} (h : ∀ x, (f x).row = x.row) :
    { s with sessions := s.sessions.modify i f }.table = s.table := by
  unfold table
  congr 1
  refine List.ext_getElem? fun j => ?_
  simp only [List.getElem?_map, List.getElem?_modify, Option.map_eq_map, Option.map_map]
  refine Option.map_congr fun x _ => ?_
  simp only [Function.comp_apply]
  split_ifs
  · exact h x
  · rfl

/-- A message to a channel leaves the table alone. -/
@[simp] theorem table_send (s : Hub) (i : ℕ) (frame : WireFrame) :
    (s.send i frame).table = s.table := by
  refine s.table_modify i fun x => ?_
  split_ifs <;> rfl

/-- What messages leave alone may be sent again and again. -/
theorem foldl_proj {α β : Type*} {π : Hub → β} {f : Hub → α → Hub} (h : ∀ s a, π (f s a) = π s)
    (s : Hub) (l : List α) : π (l.foldl f s) = π s := by
  induction l generalizing s with
  | nil => rfl
  | cons a l ih => rw [List.foldl_cons, ih, h]

section Projection

variable {β : Type*} {π : Hub → β} (h : ∀ s i frame, π (send s i frame) = π s)
include h

/-- A broadcast leaves alone what messages leave alone. -/
theorem broadcastToAll_proj (s : Hub) (frame : WireFrame) (exclude : Option NodeId) :
    π (s.broadcastToAll frame exclude) = π s := by
  refine foldl_proj (fun s entry => ?_) s _
  split_ifs
  · rfl
  · exact h s _ _

/-- A reply leaves alone what messages leave alone. -/
theorem reply_proj (s : Hub) (peer : NodeId) (frames : List WireFrame) :
    π (s.reply peer frames) = π s := by
  unfold reply
  split
  · exact foldl_proj (fun s frame => h s _ frame) s _
  · rfl

end Projection

/-- A broadcast leaves the table alone. -/
@[simp] theorem table_broadcastToAll (s : Hub) (frame : WireFrame) (exclude : Option NodeId) :
    (s.broadcastToAll frame exclude).table = s.table :=
  broadcastToAll_proj table_send s frame exclude

/-- A reply leaves the table alone. -/
@[simp] theorem table_reply (s : Hub) (peer : NodeId) (frames : List WireFrame) :
    (s.reply peer frames).table = s.table :=
  reply_proj table_send s peer frames

/-- A reader that moves on without ending leaves the table alone, and so does one that has ended. -/
theorem table_setReader {s : Hub} {i : ℕ} {p : NodeId} (reader : Reader)
    (h : s.table.sessions[i]? = some (p, reader.isLive)) :
    (s.setReader i reader).table = s.table := by
  unfold setReader table at *
  congr 1
  refine List.ext_getElem? fun j => ?_
  simp only [List.getElem?_map, List.getElem?_modify, Option.map_eq_map, Option.map_map] at h ⊢
  refine Option.map_congr fun x hx => ?_
  simp only [Function.comp_apply]
  split_ifs with hij
  · subst hij
    rw [hx, Option.map_some] at h
    obtain ⟨-, hlive⟩ := Prod.mk.inj (Option.some.inj h)
    exact Prod.ext rfl hlive.symm
  · rfl

/-- A reader that ends closes its session. -/
theorem table_setReader_ended (s : Hub) (i : ℕ) :
    (s.setReader i .ended).table = s.table.close i := by
  unfold setReader table SessionTable.close
  congr 1
  refine List.ext_getElem? fun j => ?_
  simp only [List.getElem?_map, List.getElem?_modify, Option.map_eq_map, Option.map_map]
  refine Option.map_congr fun x _ => ?_
  simp only [Function.comp_apply]
  split_ifs <;> rfl

/-- Accepting a spoke installs a session. -/
theorem table_accept (s : Hub) (peer : NodeId) :
    { s with
      writers := s.writers.insert peer s.sessions.length
      sessions := s.sessions ++ [⟨peer, [], true, .reading⟩] : Hub }.table =
      s.table.install peer := by
  unfold table SessionTable.install
  congr 1
  · funext q
    rw [Function.update_apply]
    split_ifs with hq
    · rw [hq, AList.lookup_insert, List.length_map]
    · exact AList.lookup_insert_ne hq
  · rw [List.map_append]
    rfl

/-- Erasing a peer from the map removes it from the table. -/
theorem table_erase (s : Hub) (peer : NodeId) :
    { s with writers := s.writers.erase peer : Hub }.table = s.table.remove peer := by
  unfold table SessionTable.remove
  congr 1
  funext q
  rw [Function.update_apply]
  split_ifs with hq
  · rw [hq, AList.lookup_erase]
  · exact AList.lookup_erase_ne hq

/-- The row of a session is in the table. -/
theorem table_sessions {s : Hub} {i : ℕ} {x : Session} (h : s.sessions[i]? = some x) :
    s.table.sessions[i]? = some x.row := by
  unfold table
  rw [List.getElem?_map, h]
  rfl

/-- The row of a session whose reader is known. -/
theorem table_row {s : Hub} {i : ℕ} {x : Session} {reader : Reader} (h : s.sessions[i]? = some x)
    (hreader : x.reader = reader) : s.table.sessions[i]? = some (x.peer, reader.isLive) := by
  rw [table_sessions h, Session.row, hreader]

/-- A reader's step is by a session. -/
theorem readerStep_eq_some {s t : Hub} {i : ℕ} {f : Session → Option Hub}
    (h : s.readerStep i f = some t) : ∃ x, s.sessions[i]? = some x ∧ f x = some t := by
  unfold readerStep at h
  split at h
  · next x hx => exact ⟨x, hx, h⟩
  · cases h

/-! ## The steps of the tasks -/

section Steps

variable {s t : Hub} {i : ℕ}

/-- A reader handles a frame. -/
theorem step_recv {frame : WireFrame} (h : s.step (.recv i frame) = some t) :
    ∃ x, s.sessions[i]? = some x ∧ x.reader = .reading ∧ t = s.handleFrame i x.peer frame := by
  obtain ⟨x, hx, h⟩ := readerStep_eq_some h
  split at h
  · next hreader => exact ⟨x, hx, hreader, (Option.some.inj h).symm⟩
  · cases h

/-- A reader writes its snapshot. -/
theorem step_write {ok : Bool} (h : s.step (.write i ok) = some t) :
    ∃ x snap, s.sessions[i]? = some x ∧ x.reader = .writing snap ∧
      t = { s with
        clipboard := if ok then snap.plainText <|> s.clipboard else s.clipboard : Hub }.setReader i
          (.relaying snap) := by
  obtain ⟨x, hx, h⟩ := readerStep_eq_some h
  split at h
  · next snap hreader => exact ⟨x, snap, hx, hreader, (Option.some.inj h).symm⟩
  · cases h

/-- A reader broadcasts its snapshot. -/
theorem step_relay (h : s.step (.relay i) = some t) :
    ∃ x snap, s.sessions[i]? = some x ∧ x.reader = .relaying snap ∧
      t = (s.broadcastToAll (.clipboard snap) (some x.peer)).setReader i .reading := by
  obtain ⟨x, hx, h⟩ := readerStep_eq_some h
  split at h
  · next snap hreader => exact ⟨x, snap, hx, hreader, (Option.some.inj h).symm⟩
  · cases h

/-- A reader fails. -/
theorem step_readError (h : s.step (.readError i) = some t) :
    ∃ x, s.sessions[i]? = some x ∧ x.reader = .reading ∧ t = s.setReader i .ended := by
  obtain ⟨x, hx, h⟩ := readerStep_eq_some h
  split at h
  · next hreader => exact ⟨x, hx, hreader, (Option.some.inj h).symm⟩
  · cases h

/-- A reader removes its peer from the map. -/
theorem step_cleanup (h : s.step (.cleanup i) = some t) :
    ∃ x, s.sessions[i]? = some x ∧ x.reader = .ended ∧
      t = { s with writers := s.writers.erase x.peer : Hub }.setReader i .closed := by
  obtain ⟨x, hx, h⟩ := readerStep_eq_some h
  split at h
  · next hreader => exact ⟨x, hx, hreader, (Option.some.inj h).symm⟩
  · cases h

/-- A writer takes a frame. -/
theorem step_writerSend (h : s.step (.writerSend i) = some t) :
    ∃ x frame queue, s.sessions[i]? = some x ∧ x.queue = frame :: queue ∧
      t = { s with sessions := s.sessions.modify i fun x => { x with queue := queue } } := by
  obtain ⟨x, hx, h⟩ := readerStep_eq_some h
  split at h
  · next frame queue _ hqueue => exact ⟨x, frame, queue, hx, hqueue, (Option.some.inj h).symm⟩
  · cases h

/-- A writer fails. -/
theorem step_writerFail (h : s.step (.writerFail i) = some t) :
    ∃ x, s.sessions[i]? = some x ∧
      t = { s with
        sessions := s.sessions.modify i fun x => { x with queue := [], receiver := false } } := by
  obtain ⟨x, hx, h⟩ := readerStep_eq_some h
  split at h
  · exact ⟨x, hx, (Option.some.inj h).symm⟩
  · cases h

/-- A writer ends. -/
theorem step_writerEnd (h : s.step (.writerEnd i) = some t) :
    t = { s with sessions := s.sessions.modify i fun x => { x with receiver := false } } := by
  obtain ⟨x, -, h⟩ := readerStep_eq_some h
  split_ifs at h
  exact (Option.some.inj h).symm

/-- A local frame is broadcast. -/
theorem step_broadcastLocal (h : s.step .broadcastLocal = some t) :
    ∃ frame rest, s.localFrames = frame :: rest ∧
      t = { s with localFrames := rest }.broadcastToAll frame none := by
  simp only [step] at h
  split at h
  · next frame rest hlocal => exact ⟨frame, rest, hlocal, (Option.some.inj h).symm⟩
  · cases h

/-- A captured input event is broadcast. -/
theorem step_broadcastInput (h : s.step .broadcastInput = some t) :
    ∃ event rest, s.captured = event :: rest ∧
      t = { s with captured := rest }.broadcastToAll (.input event) none := by
  simp only [step] at h
  split at h
  · next event rest hcaptured => exact ⟨event, rest, hcaptured, (Option.some.inj h).symm⟩
  · cases h

end Steps

/-- What a step does to the table: accepting installs a session, a reader that fails closes its
session and then removes its peer, and every other step leaves the table alone. -/
theorem table_step {s t : Hub} {a : HubLabel} (h : s.step a = some t) :
    (∃ peer, a = .accept peer ∧ t.table = s.table.install peer) ∨
    (∃ i, a = .readError i ∧ t.table = s.table.close i) ∨
    (∃ i x, a = .cleanup i ∧ s.sessions[i]? = some x ∧ t.table = s.table.remove x.peer) ∨
    ((∀ i, a ≠ .cleanup i) ∧ t.table = s.table) := by
  cases a with
  | accept peer =>
    obtain rfl := Option.some.inj h
    exact .inl ⟨peer, rfl, s.table_accept peer⟩
  | recv i frame =>
    refine .inr (.inr (.inr ⟨by simp, ?_⟩))
    obtain ⟨x, hx, hreader, rfl⟩ := step_recv h
    have hrow := table_row hx hreader
    -- the reader stays alive whatever the frame
    unfold handleFrame
    split
    · split
      · next snap' e _ =>
        exact table_setReader (s := { s with engine := e }) (.writing snap') hrow
      · rfl
    · rfl
    · split
      · exact s.table_reply _ _
      · exact s.table_reply _ _
    · rfl
    · rfl
    · rfl
  | write i ok =>
    refine .inr (.inr (.inr ⟨by simp, ?_⟩))
    obtain ⟨x, snap, hx, hreader, rfl⟩ := step_write h
    have hrow := table_row hx hreader
    exact table_setReader (s := { s with clipboard := if ok then _ else _ }) (.relaying snap) hrow
  | relay i =>
    refine .inr (.inr (.inr ⟨by simp, ?_⟩))
    obtain ⟨x, snap, hx, hreader, rfl⟩ := step_relay h
    have hrow := table_row hx hreader
    -- the broadcast only fills channels
    rw [← s.table_broadcastToAll (.clipboard snap) (some x.peer)] at hrow
    rw [table_setReader .reading hrow, table_broadcastToAll]
  | readError i =>
    obtain ⟨x, -, -, rfl⟩ := step_readError h
    exact .inr (.inl ⟨i, rfl, s.table_setReader_ended i⟩)
  | cleanup i =>
    obtain ⟨x, hx, hreader, rfl⟩ := step_cleanup h
    refine .inr (.inr (.inl ⟨i, x, rfl, hx, ?_⟩))
    have hrow := table_row hx hreader
    -- the session has ended already
    rw [← s.table_erase x.peer]
    exact table_setReader (s := { s with writers := s.writers.erase x.peer }) .closed hrow
  | writerSend i =>
    refine .inr (.inr (.inr ⟨by simp, ?_⟩))
    -- the writers change no row
    obtain ⟨x, frame, queue, -, -, rfl⟩ := step_writerSend h
    exact s.table_modify i fun _ => rfl
  | writerFail i =>
    refine .inr (.inr (.inr ⟨by simp, ?_⟩))
    obtain ⟨x, -, rfl⟩ := step_writerFail h
    exact s.table_modify i fun _ => rfl
  | writerEnd i =>
    refine .inr (.inr (.inr ⟨by simp, ?_⟩))
    obtain rfl := step_writerEnd h
    exact s.table_modify i fun _ => rfl
  | produce now text =>
    obtain rfl := Option.some.inj h
    exact .inr (.inr (.inr ⟨by simp, rfl⟩))
  | broadcastLocal =>
    refine .inr (.inr (.inr ⟨by simp, ?_⟩))
    obtain ⟨frame, rest, -, rfl⟩ := step_broadcastLocal h
    exact ({ s with localFrames := rest }.table_broadcastToAll frame none).trans rfl
  | capture event =>
    obtain rfl := Option.some.inj h
    exact .inr (.inr (.inr ⟨by simp, rfl⟩))
  | broadcastInput =>
    refine .inr (.inr (.inr ⟨by simp, ?_⟩))
    obtain ⟨event, rest, -, rfl⟩ := step_broadcastInput h
    exact ({ s with captured := rest }.table_broadcastToAll (.input event) none).trans rfl

/-! ## The newest session of a peer stays installed -/

/-- The session `i` is `x`, its reader has not ended, and no later session is of its peer. -/
structure NewestLive (s : Hub) (i : ℕ) (x : Session) : Prop where
  /-- It is a session. -/
  session : s.sessions[i]? = some x
  /-- Its reader has not ended. -/
  live : x.reader.isLive
  /-- It is the newest of its peer. -/
  newest : ∀ j y, i < j → s.sessions[j]? = some y → y.peer ≠ x.peer

/-- The newest session of each peer, as long as its reader has not ended, is the one whose sender
the map holds. -/
def Installed (s : Hub) : Prop := ∀ i x, s.NewestLive i x → s.writers.lookup x.peer = some i

/-- The newest live sessions are the newest open ones of the table. -/
theorem newestLive_iff {s : Hub} {i : ℕ} {p : NodeId} :
    (∃ x, s.NewestLive i x ∧ x.peer = p) ↔
      s.table.sessions[i]? = some (p, true) ∧ s.table.IsNewest i p := by
  constructor
  · rintro ⟨x, hx, rfl⟩
    have hrow := table_sessions hx.session
    unfold Session.row at hrow
    rw [hx.live] at hrow
    refine ⟨hrow, fun j y hij hj => ?_⟩
    simp only [table, List.getElem?_map, Option.map_eq_some_iff] at hj
    obtain ⟨z, hz, rfl⟩ := hj
    exact hx.newest j z hij hz
  · rintro ⟨hi, hnewest⟩
    simp only [table, List.getElem?_map, Option.map_eq_some_iff] at hi
    obtain ⟨x, hx, hrow⟩ := hi
    obtain ⟨rfl, hlive⟩ := Prod.mk.inj hrow
    exact ⟨x, ⟨hx, hlive, fun j y hij hj => hnewest j y.row hij (table_sessions hj)⟩, rfl⟩

/-- `Installed` is a property of the table. -/
theorem installed_iff {s : Hub} : s.Installed ↔ s.table.Registered := by
  constructor
  · intro h i p hi hnewest
    obtain ⟨x, hx, rfl⟩ := newestLive_iff.2 ⟨hi, hnewest⟩
    exact h i x hx
  · intro h i x hx
    obtain ⟨hi, hnewest⟩ := newestLive_iff.1 ⟨x, hx, rfl⟩
    exact h i x.peer hi hnewest

/-- The guard of a cleanup: the newest session of the peer has no live reader. -/
def CleansLast (s : Hub) : HubLabel → Prop
  | .cleanup i => ∀ x, s.sessions[i]? = some x → ∀ j y, s.NewestLive j y → y.peer ≠ x.peer
  | _ => True

instance (s : Hub) (i : ℕ) (x : Session) : Decidable (s.NewestLive i x) :=
  decidable_of_iff
    (s.sessions[i]? = some x ∧ x.reader.isLive ∧ ∀ y ∈ s.sessions.drop (i + 1), y.peer ≠ x.peer)
    ⟨fun ⟨hx, hlive, hdrop⟩ => ⟨hx, hlive, fun j y hij hj => hdrop y (List.mem_iff_getElem?.2
        ⟨j - (i + 1), by rwa [List.getElem?_drop, Nat.add_sub_cancel' hij]⟩)⟩,
      fun h => ⟨h.session, h.live, fun y hy => by
        obtain ⟨k, hk⟩ := List.mem_iff_getElem?.1 hy
        rw [List.getElem?_drop] at hk
        exact h.newest (i + 1 + k) y (by omega) hk⟩⟩

instance (s : Hub) : DecidablePred s.CleansLast
  | .cleanup i =>
    decidable_of_iff (∀ x ∈ s.sessions[i]?, ∀ j < s.sessions.length, ∀ y ∈ s.sessions[j]?,
        s.NewestLive j y → y.peer ≠ x.peer)
      ⟨fun h x hx j y hy => h x hx j (List.getElem?_eq_some_iff.1 hy.session).1 y hy.session hy,
        fun h x hx j _ y _ hy => h x hx j y hy⟩
  | .accept _ | .recv .. | .write .. | .relay _ | .readError _ | .writerSend _ | .writerFail _
  | .writerEnd _ | .produce .. | .broadcastLocal | .capture _ | .broadcastInput => .isTrue trivial

/-- A step keeps the newest sessions installed if and only if it meets the guard. -/
theorem installed_step_iff {s t : Hub} {a : HubLabel} (h : s.Installed)
    (hstep : s.step a = some t) : t.Installed ↔ s.CleansLast a := by
  rw [installed_iff] at h ⊢
  rcases table_step hstep with ⟨peer, rfl, ht⟩ | ⟨i, rfl, ht⟩ | ⟨i, x, rfl, hx, ht⟩ | ⟨hne, ht⟩
  · rw [ht]
    exact iff_of_true (SessionTable.registered_install h peer) trivial
  · rw [ht]
    exact iff_of_true (SessionTable.registered_close h i) trivial
  · -- the cleanup removes the peer, whichever session of it the map holds
    rw [ht, SessionTable.registered_remove_iff h]
    constructor
    · rintro hnone x' hx' j y hy hpeer
      obtain rfl : x = x' := Option.some.inj (hx.symm.trans hx')
      exact hnone ⟨j, newestLive_iff.1 ⟨y, hy, hpeer⟩⟩
    · rintro hguard ⟨j, hj⟩
      obtain ⟨y, hy, hpeer⟩ := newestLive_iff.2 hj
      exact hguard x hx j y hy hpeer
  · rw [ht]
    refine iff_of_true h ?_
    cases a with
    | cleanup i => exact absurd rfl (hne i)
    | _ => exact trivial

/-- In a hub that has just started there is no session. -/
theorem installed_start (engine : Engine) (lazy : LazyStore) (clipboard : Option String) :
    (start engine lazy clipboard).Installed := by
  rintro i x ⟨hx, -, -⟩
  simp [start] at hx

end Hub

open Hub

/-- The session table of the hub. In every state of every run in which no reader cleans up while a
newer session of its peer has a live reader: the most recently accepted session of a peer, as long
as its reader has not ended, is the one whose sender the map holds. A run keeps to this exactly
when all its cleanups are such. -/
theorem newest_session_installed (s : Hub) :
    (hub.Reach CleansLast s → s.Installed) ∧
    (hub.init s → ∀ as, (∀ p ∈ hub.steps s as, p.2.2.Installed) ↔
      ∀ p ∈ hub.steps s as, p.1.CleansLast p.2.1) := by
  refine ⟨fun hs => ?_, fun hs as => ?_⟩
  · refine hs.invariant (I := Installed) (fun s hs => ?_) fun s a t hs hguard hstep => ?_
    · obtain ⟨engine, lazy, clipboard, rfl⟩ := hs
      exact installed_start engine lazy clipboard
    · exact (installed_step_iff hs hstep).2 hguard
  · obtain ⟨engine, lazy, clipboard, rfl⟩ := hs
    refine System.steps_invariant_iff (I := Installed) (P := CleansLast) ?_
      (installed_start engine lazy clipboard) as
    exact fun s a t hs hstep => installed_step_iff hs hstep

section Example

/-- A spoke. -/
def spokeId : NodeId := ⟨.replicate 16 1⟩

/-- A fresh hub. -/
def freshHub : Hub := Hub.start (Engine.new ⟨.replicate 16 0⟩ 50) LazyStore.new none

/-- `freshHub` is the start of a run. -/
theorem freshHub_init : hub.init freshHub := ⟨_, _, _, rfl⟩

/-- The old session of a spoke is cleaned up before the spoke reconnects. -/
def reconnectRun : List HubLabel :=
  [.accept spokeId, .readError 0, .cleanup 0, .accept spokeId]

/-- After `reconnectRun` the map holds the sender of the new session. -/
theorem newest_session_installed_reconnectRun : ∃ s : Hub, s.Installed ∧
    s.writers.lookup spokeId = some 1 := by
  obtain ⟨s, hs, hlookup⟩ := System.exists_reach_of_run (P := CleansLast)
    (p := fun s => s.writers.lookup spokeId = some 1) freshHub_init reconnectRun
    (by decide +kernel) (by decide +kernel)
  exact ⟨s, (newest_session_installed s).1 hs, hlookup⟩

/-- The spoke reconnects first, and then its old session is cleaned up. -/
def replacedRun : List HubLabel :=
  [.accept spokeId, .accept spokeId, .readError 0, .cleanup 0]

/-- The old session takes the new one out of the map: after `replacedRun` the reader of the new
session is alive, and the map does not hold the spoke. -/
theorem replaced_session_removed : ¬ ∀ s : Hub, hub.Reachable s → s.Installed := by
  intro h
  obtain ⟨s, hs, hnewest, hlookup⟩ := System.exists_reach_of_run (P := fun _ _ => True)
    (p := fun s => s.NewestLive 1 ⟨spokeId, [], true, .reading⟩ ∧ s.writers.lookup spokeId = none)
    freshHub_init replacedRun (fun _ _ => trivial) (by decide +kernel)
  have hinstalled := h s hs 1 _ hnewest
  rw [hlookup] at hinstalled
  cases hinstalled

end Example

end Borderless.Runtime
