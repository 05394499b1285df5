import Borderless.Lib.Transition
import Borderless.Runtime.Server
import Borderless.Transport.Connection

/-!
# A session of a hub and a spoke

The tasks on both sides of a session: `spawn_spoke_session` of `crates/cli/src/runtime/server.rs`,
and `run_session` with `reader_loop` of `crates/cli/src/runtime/client.rs`. On each side a reader
task loops on `recv_frame` and a writer task sends the frames of its channel, both on the one
connection of that side. What one side writes arrives at the other, and the streams do not fail.

A reader that waits for a byte holds the mutex that its writer needs. Once both readers wait in this
way (`Pair.BothParked`), nobody can send the byte that one of them waits for. Readers that take the
lock for bytes that have arrived never keep a frame waiting (`Pair.moves_of_queued`).
-/

namespace Borderless.Runtime

open Borderless.Transport FrameStream Transition

/-- The sides of a session. -/
inductive Side
  /-- The hub. -/
  | hub
  /-- The spoke. -/
  | spoke
deriving DecidableEq

/-- The other side. -/
def Side.other : Side → Side
  | hub => spoke
  | spoke => hub

/-- The other side of the other side is the side. -/
@[simp] theorem Side.other_other (X : Side) : X.other.other = X := by cases X <;> rfl

/-- The other side is another one. -/
theorem Side.other_ne (X : Side) : X.other ≠ X := by cases X <;> decide

/-- There are two sides. -/
theorem Side.eq_or_eq_other (X Y : Side) : Y = X ∨ Y = X.other := by cases X <;> cases Y <;> decide

/-- The writer task. -/
inductive WriterTask (c : FrameCodec)
  /-- It waits for a frame of its channel. -/
  | idle
  /-- It is in `send_frame` of this payload. -/
  | sending (payload : Payload c)
  /-- A `send_frame` has failed, and it is in `close`. -/
  | closing
  /-- It has returned. -/
  | ended
deriving DecidableEq

/-- The reader task. -/
inductive ReaderTask (c : FrameCodec)
  /-- It is in `recv_frame`. -/
  | receiving
  /-- It is in `send_frame` of this reply. -/
  | replying (payload : Payload c)
  /-- A `recv_frame` has failed with this error. -/
  | ended (e : Error)
deriving DecidableEq

/-- One side of a session. -/
structure Half (c : FrameCodec) where
  /-- The connection. -/
  inner : Inner
  /-- The frames in the channel of the writer, oldest first. -/
  queue : List WireFrame
  /-- Whether the channel has a sender. -/
  sender : Bool
  /-- The writer task. -/
  writer : WriterTask c
  /-- The reader task. -/
  reader : ReaderTask c
  /-- Whether the writer has shut the stream down. -/
  closed : Bool

/-- What happens on one side. -/
inductive Act
  /-- A frame is sent into the channel. -/
  | enqueue (frame : WireFrame)
  /-- The last sender of the channel is dropped. -/
  | dropSender
  /-- The writer takes a frame from its channel. -/
  | pop
  /-- The writer finds its channel closed, and returns. -/
  | writerEnd
  /-- The writer takes the lock in `write_framed`. -/
  | writerLock
  /-- The writer takes the lock in `close`, shuts the stream down and returns. -/
  | close
  /-- The reader takes the lock in `write_framed`. -/
  | replyLock
  /-- `write_framed` writes `k` bytes. -/
  | write (k : ℕ)
  /-- `write_framed` returns. -/
  | unlock
  /-- The reader takes the lock in `read_framed`. -/
  | readLock
  /-- `read_framed` reads `k` bytes. -/
  | read (k : ℕ)
  /-- `recv_frame` returns, and the reader handles the frame; `found` is what the lazy store has for
  a fetch. -/
  | received (found : Option (List UInt8))
  /-- `read_framed` finds the stream at its end. -/
  | readEof (e : String)

/-- Whether it is a step of a task, and not an event from outside. -/
def Act.isTask : Act → Bool
  | enqueue _ | dropSender => false
  | pop | writerEnd | writerLock | close | replyLock | write _ | unlock | readLock | read _
  | received _ | readEof _ => true

/-- Whether a `read_framed` takes the lock. -/
def Act.isReadLock : Act → Bool
  | readLock => true
  | enqueue _ | dropSender | pop | writerEnd | writerLock | close | replyLock | write _ | unlock
  | read _ | received _ | readEof _ => false

namespace Half

variable {c : FrameCodec}

/-- One side of a session that has just been authenticated. -/
def start (c : FrameCodec) : Half c := ⟨⟨.free, []⟩, [], true, .idle, .receiving, false⟩

/-- The mutex is `lock`. -/
def setLock (h : Half c) (lock : Lock) : Half c := { h with inner := { h.inner with lock := lock } }

/-- Bytes arrive. -/
def arrive (h : Half c) (bytes : List UInt8) : Half c :=
  { h with inner := { h.inner with inbox := h.inner.inbox ++ bytes } }

/-- `tx.send` of frames: they are lost once the writer has dropped the receiver. -/
def push (h : Half c) (frames : List WireFrame) : Half c :=
  if h.writer = .ended then h else { h with queue := h.queue ++ frames }

/-- The reader's match on a frame. The hub answers a fetch through its channel, and the spoke
answers it itself. -/
def handleFrame (h : Half c) (side : Side) (found : Option (List UInt8)) : WireFrame → Half c
  | .fetchRequest hash =>
    match side with
    | .hub =>
      let reply := match found with
        | some bytes => chunkFetchResponse hash bytes
        | none => [.fetchMiss hash]
      if h.sender then h.push reply else h
    | .spoke =>
      match c.payload (.fetchMiss hash) with
      | .ok payload => { h with reader := .replying payload }
      -- the result of the reply's `send_frame` is ignored
      | .error _ => h
  | .clipboard _ | .input _ | .fetchResponse .. | .fetchMiss _ | .control _ => h

/-- `recv_frame` returns after it has read `buf`, with the lock released. -/
def recvFrame (h : Half c) (side : Side) (found : Option (List UInt8)) (buf : List UInt8) :
    Half c :=
  match c.received buf with
  | .ok frame => h.handleFrame side found frame
  | .error e => { h with reader := .ended e }

/-- What one side does, and the bytes that it writes. -/
def act (h : Half c) (side : Side) (peerClosed : Bool) : Act → Option (Half c × List UInt8)
  | .enqueue frame => if h.sender then some (h.push [frame], []) else none
  | .dropSender => some ({ h with sender := false }, [])
  -- the frame is encoded, and refused if it is too large, before the lock
  | .pop =>
    match h.writer, h.queue with
    | .idle, frame :: queue =>
      match c.payload frame with
      | .ok payload => some ({ h with queue := queue, writer := .sending payload }, [])
      | .error _ => some ({ h with queue := queue, writer := .closing }, [])
    | _, _ => none
  | .writerEnd =>
    if h.writer = .idle ∧ h.queue = [] ∧ h.sender = false then
      some ({ h with writer := .ended }, [])
    else none
  | .writerLock =>
    match h.inner.lock, h.writer with
    | .free, .sending payload => some (h.setLock (.writing .writer (framed payload.bytes)), [])
    | _, _ => none
  | .close =>
    match h.inner.lock, h.writer with
    | .free, .closing => some ({ h with queue := [], writer := .ended, closed := true }, [])
    | _, _ => none
  | .replyLock =>
    match h.inner.lock, h.reader with
    | .free, .replying payload =>
      -- after the shutdown the write fails, and the reader ignores the error
      if h.closed then some ({ h with reader := .receiving }, [])
      else some (h.setLock (.writing .reader (framed payload.bytes)), [])
    | _, _ => none
  | .write k =>
    match h.inner.lock with
    | .writing caller rest =>
      if 0 < k ∧ rest ≠ [] then some (h.setLock (.writing caller (rest.drop k)), rest.take k)
      else none
    | _ => none
  | .unlock =>
    match h.inner.lock with
    | .writing .writer [] => some ({ h.setLock .free with writer := .idle }, [])
    | .writing .reader [] => some ({ h.setLock .free with reader := .receiving }, [])
    | _ => none
  | .readLock =>
    match h.inner.lock, h.reader with
    | .free, .receiving => some (h.setLock (.reading []), [])
    | _, _ => none
  | .read k =>
    match h.inner.lock with
    | .reading buf =>
      match missing buf with
      | .ok n =>
        if 0 < k ∧ k ≤ n ∧ k ≤ h.inner.inbox.length then
          some ({ h with
            inner := ⟨.reading (buf ++ h.inner.inbox.take k), h.inner.inbox.drop k⟩ }, [])
        else none
      | .error _ => none
    | _ => none
  | .received found =>
    match h.inner.lock with
    | .reading buf =>
      match missing buf with
      -- `read_framed` returns and releases the lock, and then the payload is decoded
      | .ok 0 => some ((h.setLock .free).recvFrame side found buf, [])
      | .ok (_ + 1) => none
      | .error e => some ({ h.setLock .free with reader := .ended e }, [])
    | _ => none
  | .readEof e =>
    match h.inner.lock with
    | .reading buf =>
      match missing buf with
      | .ok (_ + 1) =>
        if h.inner.inbox = [] ∧ peerClosed then
          some ({ h.setLock .free with reader := .ended (.io e) }, [])
        else none
      | _ => none
    | _ => none

end Half

/-- Both sides of a session. -/
structure Pair (c : FrameCodec) where
  /-- The side. -/
  half : Side → Half c

/-- A step of the pair: the side, and what happens there. -/
structure PairLabel where
  /-- The side. -/
  side : Side
  /-- What happens. -/
  act : Act

/-- One step: what the side writes arrives at the other. -/
def Pair.step {c : FrameCodec} (s : Pair c) (a : PairLabel) : Option (Pair c) :=
  ((s.half a.side).act a.side (s.half a.side.other).closed a.act).map fun (h, bytes) =>
    ⟨fun X => if X = a.side then h else (s.half X).arrive bytes⟩

/-- The session of a hub and a spoke. -/
def duplex (c : FrameCodec) : System (Pair c) PairLabel where
  init s := s = ⟨fun _ => Half.start c⟩
  step := Pair.step

/-! ## What a step does to a connection -/

namespace Half

variable {c : FrameCodec} {h h' : Half c} {side : Side} {peerClosed : Bool} {a : Act}
  {bytes : List UInt8}

/-- The next result of the reader's `read_framed` is an error: the length is refused, the payload is
not decoded, or the stream is at its end within a frame. -/
def ReadFails (h : Half c) (peerClosed : Bool) : Prop :=
  ∃ buf, h.inner.lock = .reading buf ∧
    ((∃ e, missing buf = .error e) ∨ (missing buf = .ok 0 ∧ ∃ e, c.received buf = .error e) ∨
      peerClosed)

/-- A message to the channel leaves the connection as it is. -/
@[simp] theorem inner_push (h : Half c) (frames : List WireFrame) :
    (h.push frames).inner = h.inner := by
  unfold push
  split_ifs <;> rfl

/-- A message to the channel leaves the reader as it is. -/
@[simp] theorem reader_push (h : Half c) (frames : List WireFrame) :
    (h.push frames).reader = h.reader := by
  unfold push
  split_ifs <;> rfl

/-- A message to the channel leaves the connection open or closed. -/
@[simp] theorem closed_push (h : Half c) (frames : List WireFrame) :
    (h.push frames).closed = h.closed := by
  unfold push
  split_ifs <;> rfl

/-- Handling a frame leaves the connection alone. -/
@[simp] theorem inner_handleFrame (h : Half c) (side : Side) (found : Option (List UInt8))
    (frame : WireFrame) : (h.handleFrame side found frame).inner = h.inner := by
  unfold handleFrame
  split
  · split
    · dsimp only
      split_ifs
      · exact inner_push _ _
      · rfl
    · split <;> rfl
  all_goals rfl

/-- Handling a frame shuts nothing down. -/
@[simp] theorem closed_handleFrame (h : Half c) (side : Side) (found : Option (List UInt8))
    (frame : WireFrame) : (h.handleFrame side found frame).closed = h.closed := by
  unfold handleFrame
  split
  · split
    · dsimp only
      split_ifs
      · exact closed_push _ _
      · rfl
    · split <;> rfl
  all_goals rfl

/-- Handling a frame does not end the reader. -/
theorem reader_handleFrame (hr : ∀ e, h.reader ≠ .ended e) (found : Option (List UInt8))
    (frame : WireFrame) (e : Error) : (h.handleFrame side found frame).reader ≠ .ended e := by
  unfold handleFrame
  split
  · split
    · dsimp only
      split_ifs
      · rw [reader_push]
        exact hr e
      · exact hr e
    · split
      · exact nofun
      · exact hr e
  all_goals exact hr e

section Acts

/-- A frame is sent into the channel. -/
theorem act_enqueue {frame : WireFrame}
    (hact : h.act side peerClosed (.enqueue frame) = some (h', bytes)) :
    h' = h.push [frame] ∧ bytes = [] := by
  simp only [act] at hact
  split_ifs at hact
  obtain ⟨rfl, rfl⟩ := Prod.mk.inj (Option.some.inj hact)
  exact ⟨rfl, rfl⟩

/-- The last sender is dropped. -/
theorem act_dropSender (hact : h.act side peerClosed .dropSender = some (h', bytes)) :
    h' = { h with sender := false } ∧ bytes = [] := by
  obtain ⟨rfl, rfl⟩ := Prod.mk.inj (Option.some.inj hact)
  exact ⟨rfl, rfl⟩

/-- The writer takes a frame from its channel, and goes on to send it or to close. -/
theorem act_pop (hact : h.act side peerClosed .pop = some (h', bytes)) :
    ∃ frame queue writer, h.writer = .idle ∧ h.queue = frame :: queue ∧ writer ≠ .ended ∧
      h' = { h with queue := queue, writer := writer } ∧ bytes = [] := by
  simp only [act] at hact
  split at hact
  · next frame queue hwriter hqueue =>
    split at hact
    · next payload _ =>
      obtain ⟨rfl, rfl⟩ := Prod.mk.inj (Option.some.inj hact)
      exact ⟨frame, queue, .sending payload, hwriter, hqueue, nofun, rfl, rfl⟩
    · obtain ⟨rfl, rfl⟩ := Prod.mk.inj (Option.some.inj hact)
      exact ⟨frame, queue, .closing, hwriter, hqueue, nofun, rfl, rfl⟩
  · cases hact

/-- The writer returns once its channel is closed. -/
theorem act_writerEnd (hact : h.act side peerClosed .writerEnd = some (h', bytes)) :
    h.writer = .idle ∧ h.queue = [] ∧ h.sender = false ∧
      h' = { h with writer := .ended } ∧ bytes = [] := by
  simp only [act] at hact
  split_ifs at hact with hend
  obtain ⟨rfl, rfl⟩ := Prod.mk.inj (Option.some.inj hact)
  exact ⟨hend.1, hend.2.1, hend.2.2, rfl, rfl⟩

/-- The writer takes the lock for a frame. -/
theorem act_writerLock (hact : h.act side peerClosed .writerLock = some (h', bytes)) :
    ∃ payload : Payload c, h.inner.lock = .free ∧
      h' = h.setLock (.writing .writer (framed payload.bytes)) ∧ bytes = [] := by
  simp only [act] at hact
  split at hact
  · next payload hlock _ =>
    obtain ⟨rfl, rfl⟩ := Prod.mk.inj (Option.some.inj hact)
    exact ⟨payload, hlock, rfl, rfl⟩
  · cases hact

/-- The writer shuts the stream down. -/
theorem act_close (hact : h.act side peerClosed .close = some (h', bytes)) :
    h.inner.lock = .free ∧ h' = { h with queue := [], writer := .ended, closed := true } ∧
      bytes = [] := by
  simp only [act] at hact
  split at hact
  · next hlock _ =>
    obtain ⟨rfl, rfl⟩ := Prod.mk.inj (Option.some.inj hact)
    exact ⟨hlock, rfl, rfl⟩
  · cases hact

/-- The reader takes the lock for a reply, or fails to after the shutdown. -/
theorem act_replyLock (hact : h.act side peerClosed .replyLock = some (h', bytes)) :
    ∃ payload : Payload c, h.inner.lock = .free ∧ bytes = [] ∧
      (h' = { h with reader := .receiving } ∨
        h' = h.setLock (.writing .reader (framed payload.bytes))) := by
  simp only [act] at hact
  split at hact
  · next payload hlock _ =>
    split_ifs at hact
    · obtain ⟨rfl, rfl⟩ := Prod.mk.inj (Option.some.inj hact)
      exact ⟨payload, hlock, rfl, .inl rfl⟩
    · obtain ⟨rfl, rfl⟩ := Prod.mk.inj (Option.some.inj hact)
      exact ⟨payload, hlock, rfl, .inr rfl⟩
  · cases hact

/-- The task that holds the lock in `write_framed` writes bytes. -/
theorem act_write {k : ℕ} (hact : h.act side peerClosed (.write k) = some (h', bytes)) :
    ∃ caller rest, h.inner.lock = .writing caller rest ∧
      h' = h.setLock (.writing caller (rest.drop k)) ∧ bytes = rest.take k := by
  simp only [act] at hact
  split at hact
  · next caller rest hlock =>
    split_ifs at hact
    obtain ⟨rfl, rfl⟩ := Prod.mk.inj (Option.some.inj hact)
    exact ⟨caller, rest, hlock, rfl, rfl⟩
  · cases hact

/-- `write_framed` returns to its caller. -/
theorem act_unlock (hact : h.act side peerClosed .unlock = some (h', bytes)) :
    bytes = [] ∧
      (h.inner.lock = .writing .writer [] ∧ h' = { h.setLock .free with writer := .idle } ∨
        h.inner.lock = .writing .reader [] ∧
          h' = { h.setLock .free with reader := .receiving }) := by
  simp only [act] at hact
  split at hact
  · next hlock =>
    obtain ⟨rfl, rfl⟩ := Prod.mk.inj (Option.some.inj hact)
    exact ⟨rfl, .inl ⟨hlock, rfl⟩⟩
  · next hlock =>
    obtain ⟨rfl, rfl⟩ := Prod.mk.inj (Option.some.inj hact)
    exact ⟨rfl, .inr ⟨hlock, rfl⟩⟩
  · cases hact

/-- The reader takes the lock in `read_framed`. -/
theorem act_readLock (hact : h.act side peerClosed .readLock = some (h', bytes)) :
    h.inner.lock = .free ∧ h' = h.setLock (.reading []) ∧ bytes = [] := by
  simp only [act] at hact
  split at hact
  · next hlock _ =>
    obtain ⟨rfl, rfl⟩ := Prod.mk.inj (Option.some.inj hact)
    exact ⟨hlock, rfl, rfl⟩
  · cases hact

/-- `read_framed` reads bytes that have arrived and that it still needs. -/
theorem act_read {k : ℕ} (hact : h.act side peerClosed (.read k) = some (h', bytes)) :
    ∃ buf n, h.inner.lock = .reading buf ∧ missing buf = .ok n ∧
      (0 < k ∧ k ≤ n ∧ k ≤ h.inner.inbox.length) ∧
      h' = { h with inner := ⟨.reading (buf ++ h.inner.inbox.take k), h.inner.inbox.drop k⟩ } ∧
      bytes = [] := by
  simp only [act] at hact
  split at hact
  · next buf hlock =>
    split at hact
    · next n hn =>
      split_ifs at hact with hk
      obtain ⟨rfl, rfl⟩ := Prod.mk.inj (Option.some.inj hact)
      exact ⟨buf, n, hlock, hn, hk, rfl, rfl⟩
    · cases hact
  · cases hact

/-- `recv_frame` returns with what it has read, or with a refused length. -/
theorem act_received {found : Option (List UInt8)}
    (hact : h.act side peerClosed (.received found) = some (h', bytes)) :
    ∃ buf, h.inner.lock = .reading buf ∧ bytes = [] ∧
      ((missing buf = .ok 0 ∧ h' = (h.setLock .free).recvFrame side found buf) ∨
        ∃ e, missing buf = .error e ∧ h' = { h.setLock .free with reader := .ended e }) := by
  simp only [act] at hact
  split at hact
  · next buf hlock =>
    split at hact
    · next hn =>
      obtain ⟨rfl, rfl⟩ := Prod.mk.inj (Option.some.inj hact)
      exact ⟨buf, hlock, rfl, .inl ⟨hn, rfl⟩⟩
    · cases hact
    · next e he =>
      obtain ⟨rfl, rfl⟩ := Prod.mk.inj (Option.some.inj hact)
      exact ⟨buf, hlock, rfl, .inr ⟨e, he, rfl⟩⟩
  · cases hact

/-- `read_framed` finds the stream at its end once the peer has shut it down. -/
theorem act_readEof {e : String} (hact : h.act side peerClosed (.readEof e) = some (h', bytes)) :
    ∃ buf, h.inner.lock = .reading buf ∧ peerClosed = true ∧
      h' = { h.setLock .free with reader := .ended (.io e) } ∧ bytes = [] := by
  simp only [act] at hact
  split at hact
  · next buf hlock =>
    split at hact
    · split_ifs at hact with hend
      obtain ⟨rfl, rfl⟩ := Prod.mk.inj (Option.some.inj hact)
      exact ⟨buf, hlock, hend.2, rfl, rfl⟩
    · cases hact
  · cases hact

end Acts

/-- What a step of a side does: what is shut down stays so; and where the `read_framed` of the
reader does not fail, the connection makes a move and the reader does not end. -/
theorem act_spec (hact : h.act side peerClosed a = some (h', bytes)) :
    (h.closed = true → h'.closed = true) ∧ (¬ h.ReadFails peerClosed →
      Move c a.isReadLock h.inner bytes h'.inner ∧
        ((∀ e, h.reader ≠ .ended e) → ∀ e, h'.reader ≠ .ended e)) := by
  cases a with
  | enqueue frame =>
    obtain ⟨rfl, rfl⟩ := act_enqueue hact
    simp only [inner_push, reader_push, closed_push]
    exact ⟨id, fun _ => ⟨.rest _, id⟩⟩
  | dropSender =>
    obtain ⟨rfl, rfl⟩ := act_dropSender hact
    exact ⟨id, fun _ => ⟨.rest _, id⟩⟩
  | pop =>
    obtain ⟨frame, queue, writer, -, -, -, rfl, rfl⟩ := act_pop hact
    exact ⟨id, fun _ => ⟨.rest _, id⟩⟩
  | writerEnd =>
    obtain ⟨-, -, -, rfl, rfl⟩ := act_writerEnd hact
    exact ⟨id, fun _ => ⟨.rest _, id⟩⟩
  | writerLock =>
    obtain ⟨payload, hlock, rfl, rfl⟩ := act_writerLock hact
    refine ⟨id, fun _ => ⟨?_, id⟩⟩
    rw [h.inner.eq_mk hlock]
    exact .writeLock .writer payload h.inner.inbox
  | close =>
    obtain ⟨-, rfl, rfl⟩ := act_close hact
    exact ⟨fun _ => rfl, fun _ => ⟨.rest _, id⟩⟩
  | replyLock =>
    obtain ⟨payload, hlock, rfl, rfl | rfl⟩ := act_replyLock hact
    · -- after the shutdown there is nothing to write the reply to
      exact ⟨id, fun _ => ⟨.rest _, fun _ _ => nofun⟩⟩
    · refine ⟨id, fun _ => ⟨?_, id⟩⟩
      rw [h.inner.eq_mk hlock]
      exact .writeLock .reader payload h.inner.inbox
  | write k =>
    obtain ⟨caller, rest, hlock, rfl, rfl⟩ := act_write hact
    refine ⟨id, fun _ => ⟨?_, id⟩⟩
    rw [h.inner.eq_mk hlock]
    -- the bytes that are written are the first of what is left
    have hmove := Move.write (c := c) caller (rest.take k) (rest.drop k) h.inner.inbox
    rwa [List.take_append_drop] at hmove
  | unlock =>
    obtain ⟨rfl, ⟨hlock, rfl⟩ | ⟨hlock, rfl⟩⟩ := act_unlock hact
    · refine ⟨id, fun _ => ⟨?_, id⟩⟩
      rw [h.inner.eq_mk hlock]
      exact .unlock .writer h.inner.inbox
    · refine ⟨id, fun _ => ⟨?_, fun _ _ => nofun⟩⟩
      rw [h.inner.eq_mk hlock]
      exact .unlock .reader h.inner.inbox
  | readLock =>
    obtain ⟨hlock, rfl, rfl⟩ := act_readLock hact
    refine ⟨id, fun _ => ⟨?_, id⟩⟩
    rw [h.inner.eq_mk hlock]
    exact .readLock h.inner.inbox
  | read k =>
    obtain ⟨buf, n, hlock, hn, ⟨hpos, hle, hlen⟩, rfl, rfl⟩ := act_read hact
    refine ⟨id, fun _ => ⟨?_, id⟩⟩
    rw [h.inner.eq_mk hlock]
    -- what is read has arrived, and the frame still wants it
    have htake : (h.inner.inbox.take k).length = k := List.length_take_of_le hlen
    have hne : h.inner.inbox.take k ≠ [] := by
      rw [← List.length_pos_iff, htake]
      exact hpos
    have hmove : Move c false ⟨.reading buf, h.inner.inbox.take k ++ h.inner.inbox.drop k⟩ []
        ⟨.reading (buf ++ h.inner.inbox.take k), h.inner.inbox.drop k⟩ :=
      .read hn hne (htake.trans_le hle)
    rwa [List.take_append_drop] at hmove
  | received found =>
    obtain ⟨buf, hlock, rfl, ⟨hn, rfl⟩ | ⟨e, he, rfl⟩⟩ := act_received hact
    -- a decoded frame is handled, and the reader goes on
    · unfold recvFrame
      split
      · next frame _ =>
        refine ⟨?_, fun _ => ⟨?_, fun hr =>
          reader_handleFrame (h := h.setLock .free) hr found frame⟩⟩
        · rw [closed_handleFrame]
          exact id
        · rw [inner_handleFrame, h.inner.eq_mk hlock]
          exact .received h.inner.inbox hn
      · next e he => exact ⟨id, fun hf => absurd ⟨buf, hlock, .inr (.inl ⟨hn, e, he⟩)⟩ hf⟩
    · exact ⟨id, fun hf => absurd ⟨buf, hlock, .inl ⟨e, he⟩⟩ hf⟩
  | readEof e =>
    obtain ⟨buf, hlock, hclosed, rfl, rfl⟩ := act_readEof hact
    exact ⟨id, fun hf => absurd ⟨buf, hlock, .inr (.inr hclosed)⟩ hf⟩

end Half

/-! ## What holds in a live session -/

namespace Pair

variable {c : FrameCodec} {s t : Pair c} {a : PairLabel}

/-- Neither side has shut the stream down. -/
def Live (s : Pair c) : Prop := ∀ X, (s.half X).closed = false

/-- A frame is in the channel of a writer. -/
def Queued (s : Pair c) : Prop := ∃ X, (s.half X).queue ≠ []

/-- A task can take a step. -/
def CanStep (s : Pair c) : Prop := ∃ a : PairLabel, a.act.isTask ∧ (s.step a).isSome

/-- Both readers hold their locks, have read nothing, and nothing has arrived. -/
def BothParked (s : Pair c) : Prop := ∀ X, (s.half X).inner.Parked

/-- What holds of a side of a live session: its reader has not failed, and what is on the way to it
is a stream of frames. -/
structure Sound (s : Pair c) (X : Side) : Prop where
  /-- The reader has not failed. -/
  reader : ∀ e, (s.half X).reader ≠ .ended e
  /-- The stream to the side. -/
  carries : Carries c (s.half X.other).inner (s.half X).inner

/-- A step is one of a side, and what the side writes arrives at the other. -/
theorem step_eq_some (h : s.step a = some t) :
    ∃ h' bytes, (s.half a.side).act a.side (s.half a.side.other).closed a.act = some (h', bytes) ∧
      t.half a.side = h' ∧ t.half a.side.other = (s.half a.side.other).arrive bytes := by
  unfold step at h
  obtain ⟨⟨h', bytes⟩, hact, rfl⟩ := Option.map_eq_some_iff.1 h
  exact ⟨h', bytes, hact, if_pos rfl, if_neg a.side.other_ne⟩

/-- In a live session no `read_framed` fails. -/
theorem Sound.not_readFails (hc : c.RoundTrip) {X : Side} (hs : s.Sound X) (hl : s.Live) :
    ¬ (s.half X).ReadFails (s.half X.other).closed := by
  rintro ⟨buf, hlock, hfail⟩
  rw [hl X.other] at hfail
  have hok : ∃ n, missing buf = .ok n ∧ (n = 0 → ∃ frame, c.received buf = .ok frame) := by
    rcases hs.carries.cases hlock with ⟨-, rfl⟩ | ⟨hn, hframe⟩ | ⟨⟨n, hn⟩, -⟩
    · exact ⟨4, rfl, nofun⟩
    · exact ⟨0, hn, fun _ => received_of_isFrame hc hframe⟩
    · exact ⟨n + 1, hn, nofun⟩
  obtain ⟨n, hn, hframe⟩ := hok
  rcases hfail with ⟨e, he⟩ | ⟨h0, e, he⟩ | hclosed
  · cases hn.symm.trans he
  · obtain ⟨frame, hok⟩ := hframe (Except.ok.inj (hn.symm.trans h0))
    cases hok.symm.trans he
  · cases hclosed

/-- A step of a session that is live after it keeps both sides sound. The connection of the side
makes a move, and what it writes arrives at the other side. -/
theorem Sound.step (hc : c.RoundTrip) (hs : s.Live → ∀ X, s.Sound X) (hstep : s.step a = some t)
    (hl : t.Live) : s.Live ∧ (∀ X, t.Sound X) ∧ ∃ bytes,
      Move c a.act.isReadLock (s.half a.side).inner bytes (t.half a.side).inner ∧
      t.half a.side.other = (s.half a.side.other).arrive bytes := by
  obtain ⟨h', bytes, hact, rfl, hother⟩ := step_eq_some hstep
  obtain ⟨hclosed, hspec⟩ := Half.act_spec hact
  have hlive : s.Live := by
    intro X
    rcases Side.eq_or_eq_other a.side X with rfl | rfl
    · exact Bool.eq_false_iff.2 fun htrue => Bool.eq_false_iff.1 (hl a.side) (hclosed htrue)
    · have h := hl a.side.other
      rwa [hother] at h
  obtain ⟨hmove, hreader⟩ := hspec ((hs hlive a.side).not_readFails hc hlive)
  refine ⟨hlive, fun X => ?_, bytes, hmove, hother⟩
  rcases Side.eq_or_eq_other a.side X with rfl | rfl
  · refine ⟨hreader (hs hlive a.side).reader, ?_⟩
    rw [hother]
    exact (hs hlive a.side).carries.receive hmove
  · have hsound := hs hlive a.side.other
    have hcarries := hsound.carries
    rw [Side.other_other] at hcarries
    refine ⟨?_, ?_⟩
    · rw [hother]
      exact hsound.reader
    · rw [hother, Side.other_other]
      exact hcarries.send hmove

/-- Both sides of a new session are sound. -/
theorem sound_start (c : FrameCodec) (X : Side) : Sound ⟨fun _ => Half.start c⟩ X :=
  ⟨nofun, aligned_nil⟩

/-- In a new session no reader is parked. -/
theorem not_bothParked_start (c : FrameCodec) : ¬ BothParked ⟨fun _ => Half.start c⟩ :=
  fun h => by cases h .hub

/-- Both sides of a live session are sound. -/
theorem sound_of_reach (hc : c.RoundTrip) {P : Pair c → PairLabel → Prop}
    (h : (duplex c).Reach P s) : s.Live → ∀ X, s.Sound X := by
  refine h.invariant (I := fun s => s.Live → ∀ X, s.Sound X) (fun s hs => ?_)
    fun s a t hs _ hstep hl => (Sound.step hc hs hstep hl).2.1
  obtain rfl : s = _ := hs
  exact fun _ => sound_start c

/-! ## When a task can take a step -/

/-- A task can take a step other than to take the lock in `read_framed`. -/
def Moves (s : Pair c) : Prop :=
  ∃ a : PairLabel, a.act.isTask ∧ a.act.isReadLock = false ∧ (s.step a).isSome

/-- A task that can take another step can take a step. -/
theorem Moves.canStep (h : s.Moves) : s.CanStep := by
  obtain ⟨a, htask, -, hstep⟩ := h
  exact ⟨a, htask, hstep⟩

/-- A step of a task on one side is a step of the session. -/
theorem moves_of_act (X : Side) (act : Act) (hact : act.isTask ∧ act.isReadLock = false)
    (h : ((s.half X).act X (s.half X.other).closed act).isSome) : s.Moves :=
  ⟨⟨X, act⟩, hact.1, hact.2, by rwa [Pair.step, Option.isSome_map]⟩

/-- A task that holds a lock in `write_framed` can go on. -/
theorem moves_of_writing {X : Side} {caller : Caller} {rest : List UInt8}
    (hlock : (s.half X).inner.lock = .writing caller rest) : s.Moves := by
  by_cases hrest : rest = []
  · refine moves_of_act X .unlock ⟨rfl, rfl⟩ ?_
    cases caller <;> simp [Half.act, hlock, hrest]
  · refine moves_of_act X (.write 1) ⟨rfl, rfl⟩ ?_
    simp [Half.act, hlock, hrest]

/-- While a lock is held, a task can go on, or the reader that holds the lock is parked. -/
theorem moves_or_parked {X : Side} (hs : s.Sound X) (hheld : (s.half X).inner.lock ≠ .free) :
    s.Moves ∨ (s.half X).inner.Parked := by
  cases hlock : (s.half X).inner.lock with
  | free => exact absurd hlock hheld
  | writing caller rest => exact .inl (moves_of_writing hlock)
  | reading buf =>
    -- by the stream to it, it is parked, or it can go on, or the other side is writing to it
    rcases hs.carries.cases hlock with ⟨hparked, -⟩ | ⟨hn, -⟩ | ⟨⟨n, hn⟩, hinbox | hunsent⟩
    · exact .inr hparked
    · exact .inl (moves_of_act X (.received none) ⟨rfl, rfl⟩ (by simp [Half.act, hlock, hn]))
    · -- a byte has arrived
      have hpos : 1 ≤ (s.half X).inner.inbox.length := List.length_pos_iff.2 hinbox
      exact .inl (moves_of_act X (.read 1) ⟨rfl, rfl⟩ (by simp [Half.act, hlock, hn, hpos]))
    · -- the other side is within a frame
      cases hpeer : (s.half X.other).inner.lock with
      | writing caller rest => exact .inl (moves_of_writing hpeer)
      | free => exact absurd (by rw [hpeer]; rfl) hunsent
      | reading buf => exact absurd (by rw [hpeer]; rfl) hunsent

/-- In a live session a task can take a step, or each reader is parked. -/
theorem canStep_or_parked (hs : ∀ X, s.Sound X) (X : Side) :
    s.CanStep ∨ (s.half X).inner.Parked := by
  by_cases hlock : (s.half X).inner.lock = .free
  · -- the reader takes the lock
    cases hreader : (s.half X).reader with
    | receiving =>
      refine .inl ⟨⟨X, .readLock⟩, rfl, ?_⟩
      simp [Pair.step, Half.act, hlock, hreader]
    | replying payload =>
      refine .inl (moves_of_act X .replyLock ⟨rfl, rfl⟩ ?_).canStep
      simp only [Half.act, hlock, hreader]
      split_ifs <;> rfl
    | ended e => exact absurd hreader ((hs X).reader e)
  · exact (moves_or_parked (hs X) hlock).imp_left Moves.canStep

end Pair

/-- The writer can leave its wait for a frame: its channel holds a frame, or is closed. -/
def Half.WriterReady {c : FrameCodec} (h : Half c) : Prop :=
  h.writer = .idle ∧ (h.queue ≠ [] ∨ h.sender = false)

instance {c : FrameCodec} (h : Half c) : Decidable h.WriterReady :=
  inferInstanceAs (Decidable (_ ∧ (_ ∨ _)))

/-- A writer that is ready can take a step. -/
theorem Pair.moves_of_writerReady {c : FrameCodec} {s : Pair c} {X : Side}
    (h : (s.half X).WriterReady) : s.Moves := by
  obtain ⟨hwriter, hready⟩ := h
  cases hqueue : (s.half X).queue with
  | nil =>
    have hsender := hready.resolve_left fun hne => hne hqueue
    exact moves_of_act X .writerEnd ⟨rfl, rfl⟩ (by simp [Half.act, hwriter, hqueue, hsender])
  | cons frame queue =>
    refine moves_of_act X .pop ⟨rfl, rfl⟩ ?_
    simp only [Half.act, hwriter, hqueue]
    split <;> rfl

/-- Beside a parked reader the only step of a task is that of a writer that is ready. -/
theorem Half.act_of_parked {c : FrameCodec} {h : Half c} {side : Side} {act : Act}
    (hp : h.inner.Parked) (htask : act.isTask) (hact : (h.act side false act).isSome) :
    h.WriterReady := by
  obtain ⟨⟨h', bytes⟩, hact⟩ := Option.isSome_iff_exists.1 hact
  have hlock : h.inner.lock = .reading [] := by rw [hp]
  cases act with
  | enqueue frame => cases htask
  | dropSender => cases htask
  | pop =>
    obtain ⟨frame, queue, writer, hwriter, hqueue, -⟩ := act_pop hact
    refine ⟨hwriter, .inl ?_⟩
    rw [hqueue]
    exact List.cons_ne_nil _ _
  | writerEnd =>
    obtain ⟨hwriter, -, hsender, -⟩ := act_writerEnd hact
    exact ⟨hwriter, .inr hsender⟩
  | writerLock =>
    -- the parked reader has the lock
    obtain ⟨_, hfree, -⟩ := act_writerLock hact
    cases hlock.symm.trans hfree
  | close => cases hlock.symm.trans (act_close hact).1
  | replyLock =>
    obtain ⟨_, hfree, -⟩ := act_replyLock hact
    cases hlock.symm.trans hfree
  | write k =>
    obtain ⟨_, _, hwriting, -⟩ := act_write hact
    cases hlock.symm.trans hwriting
  | unlock =>
    obtain ⟨-, ⟨hwriting, -⟩ | ⟨hwriting, -⟩⟩ := act_unlock hact
    · cases hlock.symm.trans hwriting
    · cases hlock.symm.trans hwriting
  | readLock => cases hlock.symm.trans (act_readLock hact).1
  | read k =>
    -- nothing has arrived
    obtain ⟨_, _, -, -, ⟨hpos, -, hlen⟩, -⟩ := act_read hact
    rw [hp] at hlen
    exact absurd hlen (Nat.not_le.2 hpos)
  | received found =>
    -- the length has not been read
    obtain ⟨buf, hbuf, -, hread⟩ := act_received hact
    obtain rfl : [] = buf := Lock.reading.inj (hlock.symm.trans hbuf)
    obtain ⟨hn, -⟩ | ⟨e, he, -⟩ := hread
    · cases hn
    · cases he
  | readEof e =>
    obtain ⟨_, -, hclosed, -⟩ := act_readEof hact
    cases hclosed

namespace Pair

variable {c : FrameCodec} {s t : Pair c} {a : PairLabel}

/-- In a live session a task can take a step if and only if not both readers are parked, or a writer
is ready. -/
theorem canStep_iff (hs : ∀ X, s.Sound X) (hl : s.Live) :
    s.CanStep ↔ ¬ s.BothParked ∨ ∃ X, (s.half X).WriterReady := by
  constructor
  · rintro ⟨⟨X, act⟩, htask, hstep⟩
    rw [or_iff_not_imp_left, not_not]
    intro hparked
    rw [step, Option.isSome_map, hl X.other] at hstep
    exact ⟨X, Half.act_of_parked (hparked X) htask hstep⟩
  · rintro (hparked | ⟨X, hready⟩)
    · obtain ⟨X, hX⟩ := not_forall.1 hparked
      exact (canStep_or_parked hs X).resolve_right hX
    · exact (moves_of_writerReady hready).canStep

/-- The guard of a `read_framed` that takes the lock: something has arrived for it, or the other
reader is not parked. -/
def LeavesOneUnparked (s : Pair c) (a : PairLabel) : Prop :=
  a.act.isReadLock → (s.half a.side).inner.inbox = [] → ¬ (s.half a.side.other).inner.Parked

instance (s : Pair c) : DecidablePred s.LeavesOneUnparked :=
  fun _ => inferInstanceAs (Decidable (_ → _ → ¬ _))

/-- Both readers are parked when that of one side is, and that of the other is and stays alone. -/
theorem bothParked_of_side {X : Side} (hside : (t.half X).inner.Parked)
    (hother : t.half X.other = (s.half X.other).arrive [])
    (hpeer : (s.half X.other).inner.Parked) : t.BothParked := by
  intro Y
  rcases Side.eq_or_eq_other X Y with rfl | rfl
  · exact hside
  · unfold Inner.Parked at hpeer ⊢
    rw [hother, Half.arrive, hpeer]
    rfl

/-- In a session that is live after a step, both readers are parked after it if and only if they
were so before it, or the step does not meet the guard. -/
theorem bothParked_step_iff (hc : c.RoundTrip) (hs : s.Live → ∀ X, s.Sound X)
    (hstep : s.step a = some t) (hl : t.Live) :
    t.BothParked ↔ s.BothParked ∨ ¬ s.LeavesOneUnparked a := by
  obtain ⟨-, -, bytes, hmove, hother⟩ := Sound.step hc hs hstep hl
  constructor
  · intro ht
    have hpeer : (s.half a.side.other).inner.Parked := by
      have h := ht a.side.other
      rw [hother] at h
      exact (Inner.parked_of_arrive h).1
    rcases hmove.parked (ht a.side) with hside | ⟨hlabel, hside⟩
    · refine .inl fun X => ?_
      rcases Side.eq_or_eq_other a.side X with rfl | rfl
      · exact hside
      · exact hpeer
    · -- the step is a `read_framed` that takes the lock with nothing to read
      have hinbox : (s.half a.side).inner.inbox = [] := by rw [hside]
      exact .inr fun hguard => hguard hlabel hinbox hpeer
  · rintro (hparked | hguard)
    · -- nobody writes, so both readers go on waiting
      obtain ⟨hside, rfl⟩ := hmove.of_parked (hparked a.side)
      refine bothParked_of_side ?_ hother (hparked a.side.other)
      rw [hside]
      exact hparked a.side
    · unfold LeavesOneUnparked at hguard
      push Not at hguard
      obtain ⟨hlabel, hinbox, hpeer⟩ := hguard
      rw [hlabel] at hmove
      obtain ⟨hside, rfl⟩ := hmove.readLock_eq
      refine bothParked_of_side ?_ hother hpeer
      rw [hside, hinbox]
      rfl

/-- After a run that ends in a live session, both readers are parked if and only if they were so
before it, or some step of the run does not meet the guard. -/
theorem bothParked_run_iff (hc : c.RoundTrip) (hs : s.Live → ∀ X, s.Sound X) {as : List PairLabel}
    (hrun : (duplex c).run s as = some t) (hl : t.Live) :
    s.Live ∧ (t.BothParked ↔
      s.BothParked ∨ ∃ p ∈ (duplex c).steps s as, ¬ p.1.LeavesOneUnparked p.2.1) := by
  induction as generalizing s with
  | nil =>
    obtain rfl : s = t := Option.some.inj hrun
    exact ⟨hl, by simp [System.steps]⟩
  | cons a as ih =>
    obtain ⟨u, hu, hrun⟩ := Option.bind_eq_some_iff.1 hrun
    have hsound : u.Live → ∀ X, u.Sound X := fun hu' => (Sound.step hc hs hu hu').2.1
    obtain ⟨hlive, hiff⟩ := ih hsound hrun
    refine ⟨(Sound.step hc hs hu hlive).1, ?_⟩
    rw [hiff, bothParked_step_iff hc hs hu hlive]
    simp only [System.steps, hu, List.exists_mem_cons_iff, or_assoc]

end Pair

open Pair

/-- Queued traffic of a live session. In every state of every run in which no reader takes its lock
while nothing has arrived for it and the reader of the other side is parked: if a frame is in the
channel of a writer, some task can take a step. After a run all tasks are blocked exactly when some
step of it was not such, and no writer is ready. -/
theorem queued_canStep (c : FrameCodec) (hc : c.RoundTrip) :
    (∀ s : Pair c, (duplex c).Reach LeavesOneUnparked s → s.Live → s.Queued → s.CanStep) ∧
    (∀ s t : Pair c, (duplex c).init s → ∀ as, (duplex c).run s as = some t → t.Live →
      (¬ t.CanStep ↔ (∃ p ∈ (duplex c).steps s as, ¬ p.1.LeavesOneUnparked p.2.1) ∧
        ∀ X, ¬ (t.half X).WriterReady)) := by
  refine ⟨fun s hs hl _ => ?_, fun s t hs as hrun hl => ?_⟩
  · have hinv : (s.Live → ∀ X, s.Sound X) ∧ (s.Live → ¬ s.BothParked) := by
      refine hs.invariant (I := fun s => (s.Live → ∀ X, s.Sound X) ∧ (s.Live → ¬ s.BothParked))
        (fun s hs => ?_) fun s a t hs hguard hstep => ?_
      · obtain rfl : s = _ := hs
        exact ⟨fun _ => sound_start c, fun _ => not_bothParked_start c⟩
      · refine ⟨fun hl => (Sound.step hc hs.1 hstep hl).2.1, fun hl => ?_⟩
        rw [bothParked_step_iff hc hs.1 hstep hl, not_or, not_not]
        exact ⟨hs.2 (Sound.step hc hs.1 hstep hl).1, hguard⟩
    exact (canStep_iff (hinv.1 hl) hl).2 (.inl (hinv.2 hl))
  · have hreach : (duplex c).Reachable t := (System.Reach.init hs).run (fun _ _ => trivial) hrun
    obtain rfl : s = _ := hs
    have hiff := (bothParked_run_iff hc (fun _ => sound_start c) hrun hl).2
    rw [canStep_iff (sound_of_reach hc hreach hl) hl, not_or, not_not, not_exists, hiff,
      or_iff_right (not_bothParked_start c)]

/-! ## Readers that wait without the lock -/

namespace Half

variable {c : FrameCodec} {h h' : Half c} {side : Side} {peerClosed : Bool} {a : Act}
  {bytes : List UInt8}

/-- A writer that has returned has left no frame in its channel. -/
def Drained (h : Half c) : Prop := h.writer = .ended → h.queue = []

/-- What is sent to a writer that has returned is lost. -/
theorem Drained.push (hd : h.Drained) (frames : List WireFrame) : (h.push frames).Drained := by
  unfold Half.push
  split_ifs with hended
  · exact hd
  · exact fun hw => absurd hw hended

/-- Handling a frame keeps a side drained. -/
theorem Drained.handleFrame (hd : h.Drained) (found : Option (List UInt8)) (frame : WireFrame) :
    (h.handleFrame side found frame).Drained := by
  unfold Half.handleFrame
  split
  · split
    · dsimp only
      split_ifs
      · exact hd.push _
      · exact hd
    · split <;> exact hd
  all_goals exact hd

/-- Every step keeps a side drained. -/
theorem Drained.act (hd : h.Drained) (hact : h.act side peerClosed a = some (h', bytes)) :
    h'.Drained := by
  cases a with
  | enqueue frame =>
    obtain ⟨rfl, -⟩ := act_enqueue hact
    exact hd.push _
  | dropSender =>
    obtain ⟨rfl, -⟩ := act_dropSender hact
    exact hd
  | pop =>
    obtain ⟨_, _, writer, -, -, hwriter, rfl, -⟩ := act_pop hact
    -- a writer with a frame in hand has not returned
    exact fun hended => absurd hended hwriter
  | writerEnd =>
    obtain ⟨-, hqueue, -, rfl, -⟩ := act_writerEnd hact
    exact fun _ => hqueue
  | writerLock =>
    obtain ⟨_, -, rfl, -⟩ := act_writerLock hact
    exact hd
  | close =>
    obtain ⟨-, rfl, -⟩ := act_close hact
    -- the channel goes with the writer
    exact fun _ => rfl
  | replyLock =>
    obtain ⟨_, -, -, rfl | rfl⟩ := act_replyLock hact
    · exact hd
    · exact hd
  | write k =>
    obtain ⟨_, _, -, rfl, -⟩ := act_write hact
    exact hd
  | unlock =>
    obtain ⟨-, ⟨-, rfl⟩ | ⟨-, rfl⟩⟩ := act_unlock hact
    · exact nofun
    · exact hd
  | readLock =>
    obtain ⟨-, rfl, -⟩ := act_readLock hact
    exact hd
  | read k =>
    obtain ⟨_, _, -, -, -, rfl, -⟩ := act_read hact
    exact hd
  | received found =>
    obtain ⟨buf, -, -, ⟨-, rfl⟩ | ⟨_, -, rfl⟩⟩ := act_received hact
    · unfold recvFrame
      split
      · exact Drained.handleFrame (h := h.setLock .free) hd _ _
      · exact hd
    · exact hd
  | readEof e =>
    obtain ⟨_, -, -, rfl, -⟩ := act_readEof hact
    exact hd

end Half

namespace Pair

variable {c : FrameCodec} {s t : Pair c} {a : PairLabel}

/-- The guard of a reader that waits for its frame without the lock: it takes the lock once a byte
has arrived. -/
def ReadsArrived (s : Pair c) (a : PairLabel) : Prop :=
  a.act.isReadLock → (s.half a.side).inner.inbox ≠ []

instance (s : Pair c) (a : PairLabel) : Decidable (s.ReadsArrived a) :=
  inferInstanceAs (Decidable (_ → _))

/-- What holds throughout a live session with such readers. -/
structure Flowing (s : Pair c) : Prop where
  /-- Both sides are sound. -/
  sound : ∀ X, s.Sound X
  /-- No reader is parked. -/
  unparked : ∀ X, ¬ (s.half X).inner.Parked
  /-- No frame is left behind. -/
  drained : ∀ X, (s.half X).Drained

/-- A new session flows. -/
theorem flowing_start (c : FrameCodec) : Flowing ⟨fun _ => Half.start c⟩ :=
  ⟨sound_start c, nofun, nofun⟩

/-- A guarded step of a session that is live after it keeps it flowing. -/
theorem Flowing.step (hc : c.RoundTrip) (hs : s.Live → s.Flowing) (hguard : s.ReadsArrived a)
    (hstep : s.step a = some t) (hl : t.Live) : t.Flowing := by
  obtain ⟨hlive, hsound, bytes, hmove, hother⟩ :=
    Sound.step hc (fun hl => (hs hl).sound) hstep hl
  have hflow := hs hlive
  refine ⟨hsound, fun X hX => ?_, fun X => ?_⟩
  · rcases Side.eq_or_eq_other a.side X with rfl | rfl
    · rcases hmove.parked hX with hparked | ⟨hlabel, hinner⟩
      · exact hflow.unparked a.side hparked
      · exact hguard hlabel (by rw [hinner])
    · rw [hother] at hX
      exact hflow.unparked a.side.other (Inner.parked_of_arrive hX).1
  · obtain ⟨h', bytes', hact, rfl, -⟩ := step_eq_some hstep
    rcases Side.eq_or_eq_other a.side X with rfl | rfl
    · exact (hflow.drained a.side).act hact
    · rw [hother]
      exact hflow.drained a.side.other

end Pair

section Example

/-- The first copies of the text `a` on the hub: the `n`th is a snapshot of version `n`. -/
def sampleFrame (n : UInt8) : WireFrame :=
  .clipboard ⟨n.toUInt64, ⟨.replicate 16 0⟩, 0, [.text "a"]⟩

/-- What postcard makes of `sampleFrame n` for a small `n`. -/
def samplePayload (n : UInt8) : List UInt8 :=
  [2, n] ++ List.replicate 16 0 ++ [0, 1, 0, 1, 97]

/-- A stand-in for postcard on the first two copies. -/
def sampleCodec : FrameCodec where
  encode frame :=
    if frame = sampleFrame 1 then .ok (samplePayload 1)
    else if frame = sampleFrame 2 then .ok (samplePayload 2)
    else .error "unsupported"
  decode bytes :=
    if bytes = samplePayload 1 then .ok (sampleFrame 1)
    else if bytes = samplePayload 2 then .ok (sampleFrame 2)
    else .error "unsupported"

/-- `sampleCodec` decodes what it encoded. -/
theorem sampleCodec_roundTrip : sampleCodec.RoundTrip := by
  intro frame bytes h
  simp only [sampleCodec] at h ⊢
  split_ifs at h with h1 h2
  · obtain rfl := Except.ok.inj h
    rw [if_pos rfl, h1]
  · obtain rfl := Except.ok.inj h
    rw [if_neg (by decide), if_pos rfl, h2]

/-- The spoke's reader waits for bytes, and the hub's writer is in `write_framed`. -/
def sendingRun : List PairLabel :=
  [⟨.spoke, .readLock⟩, ⟨.hub, .enqueue (sampleFrame 1)⟩, ⟨.hub, .enqueue (sampleFrame 2)⟩,
    ⟨.hub, .pop⟩, ⟨.hub, .writerLock⟩]

/-- After `sendingRun` a frame is in the channel of the hub, and a task can take a step. -/
theorem queued_canStep_sendingRun : ∃ s : Pair sampleCodec, s.Queued ∧ s.CanStep := by
  obtain ⟨hguarded, -⟩ := queued_canStep sampleCodec sampleCodec_roundTrip
  obtain ⟨s, hs, hclosed, hqueue⟩ := System.exists_reach_of_run (M := duplex sampleCodec)
    (P := LeavesOneUnparked)
    (p := fun s => ((s.half .hub).closed = false ∧ (s.half .spoke).closed = false) ∧
      (s.half .hub).queue ≠ []) rfl sendingRun
    (by decide +kernel) (by decide +kernel)
  have hlive : s.Live := fun X => by cases X <;> simp [hclosed]
  exact ⟨s, ⟨.hub, hqueue⟩, hguarded s hs hlive ⟨.hub, hqueue⟩⟩

/-- Both readers wait for bytes, and then the hub's writer takes a frame. -/
def parkedRun : List PairLabel :=
  [⟨.hub, .readLock⟩, ⟨.spoke, .readLock⟩, ⟨.hub, .enqueue (sampleFrame 1)⟩,
    ⟨.hub, .enqueue (sampleFrame 2)⟩, ⟨.hub, .pop⟩]

/-- After `parkedRun` a frame is in the channel of the hub, and all tasks are blocked. -/
theorem parked_readers_blocked : ¬ ∀ c : FrameCodec, c.RoundTrip → ∀ s : Pair c,
    (duplex c).Reachable s → s.Live → s.Queued → s.CanStep := by
  intro h
  obtain ⟨s, hs, ⟨hhub, hspoke⟩, hqueue, ⟨hhub', hspoke'⟩, hready, hready'⟩ :=
    System.exists_reach_of_run (M := duplex sampleCodec) (P := fun _ _ => True)
    (p := fun s => ((s.half .hub).closed = false ∧ (s.half .spoke).closed = false) ∧
      (s.half .hub).queue ≠ [] ∧ ((s.half .hub).inner.Parked ∧ (s.half .spoke).inner.Parked) ∧
      ¬ (s.half .hub).WriterReady ∧ ¬ (s.half .spoke).WriterReady)
    rfl parkedRun (fun _ _ => trivial) (by decide +kernel)
  have hlive : s.Live := fun X => by cases X <;> assumption
  have hcan := h sampleCodec sampleCodec_roundTrip s hs hlive ⟨.hub, hqueue⟩
  have hsound := sound_of_reach sampleCodec_roundTrip hs hlive
  rcases (canStep_iff hsound hlive).1 hcan with hnot | ⟨X, hX⟩
  · exact hnot fun X => by cases X <;> assumption
  · cases X
    · exact hready hX
    · exact hready' hX

end Example

end Borderless.Runtime
