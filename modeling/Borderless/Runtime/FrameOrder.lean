import Borderless.Lib.Exchange
import Borderless.Runtime.Duplex

/-!
# A session exchanges frames in order

The session of `Runtime/Duplex.lean` moves bytes: four tasks share two mutexes, a write may be cut
anywhere, and a reader takes what has arrived. What the session is for is an exchange of whole frames
(`Exchange.exchange`): each side posts the frames of its channel in their order, a reader handles one
frame after the other, and the reader of the spoke sends its replies itself, between the frames of
the writer.

`session_simulates` shows that the session implements this exchange: a frame counts as sent when its
task takes the lock, and as handled when `recv_frame` returns it; all other steps are internal.
`session_in_order` is what follows for every run.
-/

namespace Borderless.Runtime

open Borderless.Transport FrameStream Transition Exchange

variable {c : FrameCodec}

/-! ## The events of a session -/

/-- The frame of a payload. -/
def frames (payload : Payload c) : List WireFrame := (c.decode payload.bytes).toOption.toList

/-- The frame that the reader of a side sends itself in reply. -/
def directReply (c : FrameCodec) : Side → WireFrame → Option WireFrame
  | .spoke, .fetchRequest hash =>
    match c.payload (.fetchMiss hash) with
    | .ok _ => some (.fetchMiss hash)
    | .error _ => none
  | _, _ => none

/-- The frames that the reader of a side puts into the channel in reply. -/
def channelReply (found : Option (List UInt8)) : Side → WireFrame → List WireFrame
  | .hub, .fetchRequest hash =>
    match found with
    | some bytes => chunkFetchResponse hash bytes
    | none => [.fetchMiss hash]
  | _, _ => []

namespace Half

/-- What a step of one side is in the exchange. -/
def events (h : Half c) (side : Side) : Act → List (Event Side WireFrame)
  | .enqueue frame => [.accept side [frame]]
  | .pop =>
    match h.queue with
    | frame :: _ =>
      match c.payload frame with
      | .ok _ => []
      -- a frame that cannot be sent stops the writer
      | .error _ => [.stop side]
    | [] => []
  | .writerEnd => [.stop side]
  | .writerLock =>
    match h.writer with
    | .sending payload => (frames payload).map (.post side)
    | _ => []
  | .replyLock =>
    match h.reader with
    | .replying payload =>
      if h.closed then [.forgo side] else (frames payload).map (.answer side)
    | _ => []
  | .received found =>
    match h.inner.lock with
    | .reading buf =>
      match c.received buf with
      | .ok frame => [.handle side frame (directReply c side frame),
          .accept side (if h.sender then channelReply found side frame else [])]
      | .error _ => []
    | _ => []
  | .dropSender | .close | .write _ | .unlock | .readLock | .read _ | .readEof _ => []

end Half

/-- What a step of the session is in the exchange. -/
def Pair.events (s : Pair c) (a : PairLabel) : List (Event Side WireFrame) :=
  (s.half a.side).events a.side a.act

/-- A payload has one frame. -/
theorem exists_frames (hc : c.RoundTrip) (payload : Payload c) :
    ∃ frame, c.decode payload.bytes = .ok frame ∧ frames payload = [frame] := by
  obtain ⟨frame, hframe⟩ := payload.encoded
  have hdecode := hc frame payload.bytes hframe
  refine ⟨frame, hdecode, ?_⟩
  rw [frames, hdecode]
  rfl

/-- The payload that `send_frame` makes of a frame has that frame. -/
theorem frames_of_payload (hc : c.RoundTrip) {frame : WireFrame} {payload : Payload c}
    (h : c.payload frame = .ok payload) : frames payload = [frame] := by
  have hencode : c.encode frame = .ok payload.bytes := by
    unfold FrameCodec.payload at h
    split at h
    · next bytes hbytes =>
      split_ifs at h
      obtain rfl := Except.ok.inj h
      exact hbytes
    · cases h
  rw [frames, hc frame payload.bytes hencode]
  rfl

/-! ## What a side shows -/

namespace Half

/-- The frame that the writer has taken and not begun to write. -/
def inHand (h : Half c) : List WireFrame :=
  match h.writer, h.inner.lock with
  | .sending _, .writing .writer _ => []
  | .sending payload, _ => frames payload
  | _, _ => []

/-- The writer posts no more. -/
def isStopped (h : Half c) : Bool :=
  match h.writer with
  | .idle | .sending _ => false
  | .closing | .ended => true

/-- The frames that are still to be posted. -/
def held (h : Half c) : List WireFrame := if h.isStopped then [] else h.inHand ++ h.queue

/-- The reply that the reader has not begun to write. -/
def pendingReply (h : Half c) : Option WireFrame :=
  match h.reader, h.inner.lock with
  | .replying _, .writing .reader _ => none
  | .replying payload, _ => (frames payload).head?
  | _, _ => none

/-- The mutex and the tasks agree on who is in which call. -/
structure Coherent (h : Half c) : Prop where
  /-- The writer is in `write_framed`. -/
  writer : ∀ rest, h.inner.lock = .writing .writer rest → ∃ payload, h.writer = .sending payload
  /-- The reader is in `write_framed`. -/
  reply : ∀ rest, h.inner.lock = .writing .reader rest → ∃ payload, h.reader = .replying payload
  /-- The reader is in `read_framed`. -/
  reader : ∀ buf, h.inner.lock = .reading buf → h.reader = .receiving
  /-- After the shutdown nothing is written. -/
  closed : h.closed = true → h.inner.lock.unsent = [] ∧ h.writer = .ended

/-- A side is what the party shows of it, the link left aside. -/
structure Shows (h : Half c) (p : Party WireFrame) : Prop where
  /-- The mutex and the tasks agree. -/
  coherent : h.Coherent
  /-- The frames to be posted. -/
  queue : p.queue = h.held
  /-- The writer. -/
  stopped : p.stopped = h.isStopped
  /-- The reply to be sent. -/
  reply : p.reply = h.pendingReply
  /-- A reply is forgone after the shutdown only. -/
  muted : p.muted = true → h.closed = true

variable {h : Half c} {p : Party WireFrame}

/-- What arrives is not shown by the side. -/
theorem Shows.arrive (hs : h.Shows p) (bytes : List UInt8) : (h.arrive bytes).Shows p :=
  ⟨⟨hs.coherent.1, hs.coherent.2, hs.coherent.3, hs.coherent.4⟩, hs.queue, hs.stopped, hs.reply,
    hs.muted⟩

/-- The link is not shown by the side. -/
theorem Shows.congr (hs : h.Shows p) {q : Party WireFrame} (hqueue : q.queue = p.queue)
    (hstopped : q.stopped = p.stopped) (hreply : q.reply = p.reply) (hmuted : q.muted = p.muted) :
    h.Shows q :=
  ⟨hs.coherent, hqueue.trans hs.queue, hstopped.trans hs.stopped, hreply.trans hs.reply,
    fun hq => hs.muted (hmuted ▸ hq)⟩

/-- Frames are sent into the channel. -/
theorem Shows.push (hs : h.Shows p) (side : Side) (ms : List WireFrame) :
    (h.push ms).Shows (p.after Side.other side (.accept side ms)) := by
  have hwriter : (h.push ms).writer = h.writer := by
    unfold Half.push
    split_ifs <;> rfl
  have hstopped : (h.push ms).isStopped = h.isStopped := by
    unfold isStopped
    rw [hwriter]
  have hhand : (h.push ms).inHand = h.inHand := by
    unfold inHand
    rw [hwriter, inner_push]
  have hpending : (h.push ms).pendingReply = h.pendingReply := by
    unfold pendingReply
    rw [reader_push, inner_push]
  have hcoherent : (h.push ms).Coherent := by
    obtain ⟨hwriting, hreplying, hreading, hclosed⟩ := hs.coherent
    refine ⟨?_, ?_, ?_, ?_⟩
    · rwa [inner_push, hwriter]
    · rwa [inner_push, reader_push]
    · rwa [inner_push, reader_push]
    · rwa [closed_push, inner_push, hwriter]
  rw [Party.after_accept]
  by_cases hopen : p.stopped = false
  · -- the writer runs, so the frames go into the channel
    have hrun : h.isStopped = false := hs.stopped ▸ hopen
    have hqueue : (h.push ms).queue = h.queue ++ ms := by
      unfold Half.push
      rw [if_neg]
      intro hended
      rw [isStopped, hended] at hrun
      cases hrun
    rw [if_pos hopen]
    refine ⟨hcoherent, ?_, ?_, ?_, ?_⟩
    · show p.queue ++ ms = _
      rw [hs.queue, held, held, hstopped, hhand, hqueue, hrun]
      exact List.append_assoc _ _ _
    · rw [hstopped]
      exact hs.stopped
    · rw [hpending]
      exact hs.reply
    · rw [closed_push]
      exact hs.muted
  · have hrun : h.isStopped = true := by
      rw [← hs.stopped]
      simpa using hopen
    rw [if_neg hopen]
    refine ⟨hcoherent, ?_, ?_, ?_, ?_⟩
    · rw [hs.queue, held, held, hstopped, hrun]
      rfl
    · rw [hstopped]
      exact hs.stopped
    · rw [hpending]
      exact hs.reply
    · rw [closed_push]
      exact hs.muted

end Half

/-! ## The bytes on the way -/

/-- The bytes on their way from the connection `w` to the connection `v` are these frames. -/
def Lane (c : FrameCodec) (w v : Inner) (link : List WireFrame) : Prop :=
  ∃ ps : List (Payload c), link = ps.flatMap frames ∧
    AlignedTo (ps.map fun p => framed p.bytes) v.lock.read (v.inbox ++ w.lock.unsent)

section Lane

variable {w w' v v' : Inner} {link : List WireFrame}

/-- A lane depends on what is unsent, on the inbox and on what is read. -/
theorem Lane.congr (h : Lane c w v link) (hw : w'.lock.unsent = w.lock.unsent)
    (hv : v'.lock.read = v.lock.read) (hinbox : v'.inbox = v.inbox) : Lane c w' v' link := by
  unfold Lane
  rw [hw, hv, hinbox]
  exact h

/-- A task takes the lock to write a frame. -/
theorem Lane.post (h : Lane c w v link) (hw : w.lock.unsent = []) (payload : Payload c)
    (hw' : w'.lock.unsent = framed payload.bytes) : Lane c w' v (link ++ frames payload) := by
  obtain ⟨ps, rfl, haligned⟩ := h
  refine ⟨ps ++ [payload], by simp, ?_⟩
  rw [hw, List.append_nil] at haligned
  rw [hw', List.map_append]
  exact haligned.append _

/-- Bytes are written, and arrive. -/
theorem Lane.write {a rest : List UInt8} (h : Lane c w v link) (hw : w.lock.unsent = a ++ rest)
    (hw' : w'.lock.unsent = rest) (hv : v'.lock.read = v.lock.read) (hinbox : v'.inbox = v.inbox ++ a) :
    Lane c w' v' link := by
  obtain ⟨ps, hlink, haligned⟩ := h
  refine ⟨ps, hlink, ?_⟩
  rw [hw', hv, hinbox, List.append_assoc, ← hw]
  exact haligned

/-- The frames of a lane are frames. -/
theorem isFrame_of_mem {ps : List (Payload c)} :
    ∀ f ∈ ps.map fun p => framed p.bytes, IsFrame c f := by
  intro f hf
  obtain ⟨payload, -, rfl⟩ := List.mem_map.1 hf
  exact ⟨payload, rfl⟩

/-- The reader reads bytes that it wants. -/
theorem Lane.read (h : Lane c w v link) {buf a inbox : List UInt8} {n : ℕ}
    (hv : v.lock.read = buf) (hinbox : v.inbox = a ++ inbox) (hn : missing buf = .ok n)
    (hle : a.length ≤ n) (hv' : v'.lock.read = buf ++ a) (hinbox' : v'.inbox = inbox) :
    Lane c w v' link := by
  obtain ⟨ps, hlink, haligned⟩ := h
  refine ⟨ps, hlink, ?_⟩
  rw [hv, hinbox, List.append_assoc] at haligned
  rw [hv', hinbox']
  refine haligned.read (delimits_missing c) isFrame_of_mem ?_ hle
  rw [hn]
  rfl

/-- No length on a lane is refused. -/
theorem Lane.missing_ne_error (h : Lane c w v link) (e : Error) :
    missing v.lock.read ≠ .error e := by
  intro he
  obtain ⟨ps, -, haligned⟩ := h
  rcases haligned.cases (delimits_missing c) isFrame_of_mem with ⟨-, hbuf, -⟩ | hwhole | hpart
  · rw [hbuf] at he
    cases he
  · obtain ⟨fs, -, hn, -⟩ := hwhole
    rw [he] at hn
    cases hn
  · obtain ⟨⟨f, fs, n, -, -, -, hn⟩, -⟩ := hpart
    rw [he] at hn
    cases hn

/-- A reader that wants nothing more has the first frame of the lane. -/
theorem Lane.received (hc : c.RoundTrip) (h : Lane c w v link) (hn : missing v.lock.read = .ok 0)
    (hv' : v'.lock.read = []) (hinbox : v'.inbox = v.inbox) :
    ∃ frame rest, c.received v.lock.read = .ok frame ∧ link = frame :: rest ∧ Lane c w v' rest := by
  obtain ⟨ps, rfl, haligned⟩ := h
  rcases haligned.cases (delimits_missing c) isFrame_of_mem with ⟨-, hbuf, -⟩ | hwhole | hpart
  · rw [hbuf] at hn
    cases hn
  · obtain ⟨fs, hps, -, hrest⟩ := hwhole
    obtain ⟨payload, ps', rfl, hbuf, rfl⟩ := List.map_eq_cons_iff.1 hps
    obtain ⟨frame, hdecode, hframes⟩ := exists_frames hc payload
    have hdrop : (framed payload.bytes).drop 4 = payload.bytes := List.drop_left' (length_u32ToLe _)
    refine ⟨frame, ps'.flatMap frames, ?_, ?_, ps', rfl, ?_⟩
    · unfold FrameCodec.received
      rw [← hbuf, hdrop, hdecode]
    · rw [List.flatMap_cons, hframes]
      rfl
    · rw [hv', hinbox]
      exact hrest
  · obtain ⟨⟨f, fs, n, -, -, -, hwant⟩, -⟩ := hpart
    rw [hn] at hwant
    cases hwant

/-- At the end of the stream the reader is between two frames. -/
theorem Lane.read_eq_nil (h : Lane c w v link) {n : ℕ} (hn : missing v.lock.read = .ok (n + 1))
    (hinbox : v.inbox = []) (hw : w.lock.unsent = []) : v.lock.read = [] := by
  obtain ⟨ps, -, haligned⟩ := h
  rcases haligned.cases (delimits_missing c) isFrame_of_mem with ⟨-, hbuf, -⟩ | hwhole | hpart
  · exact hbuf
  · obtain ⟨fs, -, hwant, -⟩ := hwhole
    rw [hn] at hwant
    cases hwant
  · rw [hinbox, hw] at hpart
    exact absurd rfl hpart.2

end Lane

/-! ## The steps of one side -/

namespace Half

variable {h h' : Half c} {p : Party WireFrame} {side : Side} {peerClosed : Bool}
  {bytes : List UInt8}

/-- Nothing is sent into the channel. -/
@[simp] theorem push_nil (h : Half c) : h.push [] = h := by
  unfold Half.push
  split_ifs
  · rfl
  · rw [List.append_nil]

/-- The reader answers through the channel, or not at all. -/
theorem handleFrame_eq_push {frame : WireFrame} (h : Half c) (found : Option (List UInt8))
    (hnone : directReply c side frame = none) :
    h.handleFrame side found frame =
      h.push (if h.sender then channelReply found side frame else []) := by
  unfold Half.handleFrame
  cases frame with
  | fetchRequest hash =>
    cases side with
    | hub =>
      simp only [channelReply]
      split_ifs
      · rfl
      · exact (push_nil h).symm
    | spoke =>
      simp only [directReply] at hnone
      split at hnone
      · cases hnone
      · next e he => simp [he, channelReply]
  | _ => simp [channelReply]

/-- The reader answers itself. -/
theorem handleFrame_eq_replying {frame m : WireFrame} (h : Half c) (found : Option (List UInt8))
    (hsome : directReply c side frame = some m) :
    channelReply found side frame = [] ∧ ∃ payload, c.payload m = .ok payload ∧
      h.handleFrame side found frame = { h with reader := .replying payload } := by
  cases frame with
  | fetchRequest hash =>
    cases side with
    | hub => cases hsome
    | spoke =>
      simp only [directReply] at hsome
      split at hsome
      · next payload hpayload =>
        obtain rfl := Option.some.inj hsome
        refine ⟨rfl, payload, hpayload, ?_⟩
        simp only [Half.handleFrame, hpayload]
      · cases hsome
  | _ => simp [directReply] at hsome

/-- The last sender is dropped. -/
theorem Shows.dropSender (hs : h.Shows p) : { h with sender := false }.Shows p :=
  ⟨⟨hs.coherent.1, hs.coherent.2, hs.coherent.3, hs.coherent.4⟩, hs.queue, hs.stopped, hs.reply,
    hs.muted⟩

/-- The writer takes a frame from its channel. -/
theorem Shows.pop (hc : c.RoundTrip) (hs : h.Shows p) (hwriter : h.writer = .idle)
    {frame : WireFrame} {queue : List WireFrame} (hqueue : h.queue = frame :: queue)
    {payload : Payload c} (hpayload : c.payload frame = .ok payload) :
    { h with queue := queue, writer := .sending payload }.Shows p := by
  have hfree : ∀ rest, h.inner.lock ≠ .writing .writer rest := by
    intro rest hlock
    obtain ⟨payload', hsending⟩ := hs.coherent.writer rest hlock
    cases hwriter.symm.trans hsending
  refine ⟨⟨?_, hs.coherent.reply, hs.coherent.reader, ?_⟩, ?_, ?_, hs.reply, hs.muted⟩
  · exact fun rest hlock => absurd hlock (hfree rest)
  · intro hclosed
    cases hwriter.symm.trans (hs.coherent.closed hclosed).2
  · have hheld : p.queue = frame :: queue := by
      rw [hs.queue]
      simp [held, isStopped, inHand, hwriter, hqueue]
    rw [hheld]
    simp only [held, isStopped, inHand, Bool.false_eq_true, if_false]
    rw [frames_of_payload hc hpayload]
    rfl
  · rw [hs.stopped]
    simp [isStopped, hwriter]

/-- The writer stops: it takes a frame that cannot be sent, or finds its channel closed. -/
theorem Shows.stop (hs : h.Shows p) (hwriter : h.writer = .idle) {queue : List WireFrame}
    {writer : WriterTask c} (hstop : writer = .closing ∨ writer = .ended) :
    { h with queue := queue, writer := writer }.Shows (p.after Side.other side (.stop side)) := by
  have hclosed : h.closed ≠ true := by
    intro hclosed
    cases hwriter.symm.trans (hs.coherent.closed hclosed).2
  have hstopped : { h with queue := queue, writer := writer }.isStopped = true := by
    unfold isStopped
    rcases hstop with rfl | rfl <;> rfl
  simp only [Party.after, if_pos]
  refine ⟨⟨?_, hs.coherent.reply, hs.coherent.reader, ?_⟩, ?_, hstopped.symm, hs.reply, hs.muted⟩
  · intro rest hlock
    obtain ⟨payload, hsending⟩ := hs.coherent.writer rest hlock
    cases hwriter.symm.trans hsending
  · exact fun h => absurd h hclosed
  · rw [held, hstopped]
    rfl

/-- The writer begins to write its frame. -/
theorem Shows.writerLock (side : Side) (hs : h.Shows p) (hlock : h.inner.lock = .free)
    {payload : Payload c} (hwriter : h.writer = .sending payload) {frame : WireFrame}
    (hframe : frames payload = [frame]) :
    (p.queue.head? = some frame ∧ p.stopped = false) ∧
      (h.setLock (.writing .writer (framed payload.bytes))).Shows
        (p.after Side.other side (.post side frame)) := by
  have hqueue : p.queue = frame :: h.queue := by
    rw [hs.queue]
    simp [held, isStopped, inHand, hwriter, hlock, hframe]
  have hstopped : p.stopped = false := by
    rw [hs.stopped]
    simp [isStopped, hwriter]
  refine ⟨⟨by rw [hqueue]; rfl, hstopped⟩, ?_⟩
  simp only [Party.after, if_pos]
  refine ⟨⟨?_, ?_, ?_, ?_⟩, ?_, ?_, ?_, hs.muted⟩
  · exact fun _ _ => ⟨payload, hwriter⟩
  · rintro _ ⟨⟩
  · rintro _ ⟨⟩
  · intro hclosed
    cases hwriter.symm.trans (hs.coherent.closed hclosed).2
  · rw [hqueue]
    simp [held, isStopped, inHand, hwriter, setLock]
  · exact hs.stopped
  · rw [hs.reply]
    cases hreader : h.reader <;> simp [pendingReply, setLock, hreader, hlock]

/-- The writer shuts the stream down. -/
theorem Shows.close (hs : h.Shows p) (hlock : h.inner.lock = .free) (hwriter : h.writer = .closing) :
    { h with queue := [], writer := .ended, closed := true }.Shows p := by
  refine ⟨⟨?_, hs.coherent.reply, hs.coherent.reader, ?_⟩, ?_, ?_, hs.reply, fun _ => rfl⟩
  · intro rest h
    cases hlock.symm.trans h
  · refine fun _ => ⟨?_, rfl⟩
    show h.inner.lock.unsent = []
    rw [hlock]
    rfl
  · rw [hs.queue]
    simp [held, isStopped, hwriter]
  · rw [hs.stopped]
    simp [isStopped, hwriter]

/-- The reader drops its reply after the shutdown. -/
theorem Shows.forgo (hs : h.Shows p) (hlock : h.inner.lock = .free) (hclosed : h.closed = true) :
    { h with reader := .receiving }.Shows (p.after Side.other side (.forgo side)) := by
  simp only [Party.after, if_pos]
  refine ⟨⟨hs.coherent.writer, ?_, fun _ _ => rfl, hs.coherent.closed⟩, hs.queue, hs.stopped, rfl,
    fun _ => hclosed⟩
  intro rest h
  cases hlock.symm.trans h

/-- The reader begins to write its reply. -/
theorem Shows.replyLock (side : Side) (hs : h.Shows p) (hlock : h.inner.lock = .free)
    {payload : Payload c} (hreader : h.reader = .replying payload) (hclosed : h.closed = false)
    {frame : WireFrame} (hframe : frames payload = [frame]) :
    (p.reply = some frame ∧ p.muted = false) ∧
      (h.setLock (.writing .reader (framed payload.bytes))).Shows
        (p.after Side.other side (.answer side frame)) := by
  have hreply : p.reply = some frame := by
    rw [hs.reply]
    simp [pendingReply, hreader, hlock, hframe]
  have hmuted : p.muted = false := by
    rw [Bool.eq_false_iff]
    intro hmuted
    cases hclosed.symm.trans (hs.muted hmuted)
  refine ⟨⟨hreply, hmuted⟩, ?_⟩
  simp only [Party.after, if_pos]
  refine ⟨⟨?_, fun _ _ => ⟨payload, hreader⟩, ?_, ?_⟩, ?_, hs.stopped, ?_, hs.muted⟩
  · rintro _ ⟨⟩
  · rintro _ ⟨⟩
  · exact fun h => absurd (hclosed.symm.trans h) Bool.false_ne_true
  · rw [hs.queue]
    cases hwriter : h.writer <;> simp [held, isStopped, inHand, setLock, hwriter, hlock]
  · simp [pendingReply, setLock, hreader]

/-- A task writes bytes. -/
theorem Shows.write (hs : h.Shows p) {caller : Caller} {rest : List UInt8}
    (hlock : h.inner.lock = .writing caller rest) (rest' : List UInt8) (hrest : rest ≠ []) :
    (h.setLock (.writing caller rest')).Shows p := by
  obtain ⟨hwriter, hreply, hreader, hclosed⟩ := hs.coherent
  refine ⟨⟨?_, ?_, nofun, ?_⟩, ?_, hs.stopped, ?_, hs.muted⟩
  · rintro _ ⟨⟩
    exact hwriter rest hlock
  · rintro _ ⟨⟩
    exact hreply rest hlock
  · intro h
    have hunsent := (hclosed h).1
    rw [hlock] at hunsent
    exact absurd hunsent hrest
  · rw [hs.queue]
    cases caller <;> cases hw : h.writer <;> simp [held, isStopped, inHand, setLock, hw, hlock]
  · rw [hs.reply]
    cases caller <;> cases hr : h.reader <;> simp [pendingReply, setLock, hr, hlock]

/-- `write_framed` returns to the writer. -/
theorem Shows.unlockWriter (hs : h.Shows p) (hlock : h.inner.lock = .writing .writer []) :
    { h.setLock .free with writer := .idle }.Shows p := by
  obtain ⟨payload, hwriter⟩ := hs.coherent.writer [] hlock
  refine ⟨⟨nofun, nofun, nofun, ?_⟩, ?_, ?_, ?_, hs.muted⟩
  · intro hclosed
    cases hwriter.symm.trans (hs.coherent.closed hclosed).2
  · rw [hs.queue]
    simp [held, isStopped, inHand, setLock, hwriter, hlock]
  · rw [hs.stopped]
    simp [isStopped, hwriter]
  · rw [hs.reply]
    cases hr : h.reader <;> simp [pendingReply, setLock, hr, hlock]

/-- `write_framed` returns to the reader. -/
theorem Shows.unlockReader (hs : h.Shows p) (hlock : h.inner.lock = .writing .reader []) :
    { h.setLock .free with reader := .receiving }.Shows p := by
  obtain ⟨payload, hreader⟩ := hs.coherent.reply [] hlock
  refine ⟨⟨nofun, nofun, nofun, ?_⟩, ?_, hs.stopped, ?_, hs.muted⟩
  · exact fun hclosed => ⟨rfl, (hs.coherent.closed hclosed).2⟩
  · rw [hs.queue]
    cases hw : h.writer <;> simp [held, isStopped, inHand, setLock, hw, hlock]
  · rw [hs.reply]
    simp [pendingReply, hreader, hlock]

/-- The reader takes the lock, or reads on. -/
theorem Shows.reading (hs : h.Shows p) (hreader : h.reader = .receiving) {lock : Lock}
    (hlock : h.inner.lock = lock) (hfree : lock = .free ∨ ∃ buf, lock = .reading buf)
    (buf inbox : List UInt8) : { h with inner := ⟨.reading buf, inbox⟩ }.Shows p := by
  have hinHand : { h with inner := ⟨.reading buf, inbox⟩ }.inHand = h.inHand := by
    unfold inHand
    rcases hfree with rfl | ⟨buf', rfl⟩ <;> cases hw : h.writer <;> simp [hlock]
  refine ⟨⟨nofun, nofun, fun _ _ => hreader, ?_⟩, ?_, hs.stopped, ?_, hs.muted⟩
  · exact fun hclosed => ⟨rfl, (hs.coherent.closed hclosed).2⟩
  · rw [hs.queue, held, held, hinHand]
    rfl
  · rw [hs.reply]
    simp [pendingReply, hreader]

/-- `read_framed` returns. -/
theorem Shows.release (hs : h.Shows p) {buf : List UInt8} (hlock : h.inner.lock = .reading buf) :
    (h.setLock .free).Shows p := by
  have hreader := hs.coherent.reader buf hlock
  refine ⟨⟨nofun, nofun, nofun, ?_⟩, ?_, hs.stopped, ?_, hs.muted⟩
  · exact fun hclosed => ⟨rfl, (hs.coherent.closed hclosed).2⟩
  · rw [hs.queue]
    cases hw : h.writer <;> simp [held, isStopped, inHand, setLock, hw, hlock]
  · rw [hs.reply]
    simp [pendingReply, setLock, hreader]

/-- The reader ends. -/
theorem Shows.ended (hs : h.Shows p) (hlock : h.inner.lock = .free) (hreader : h.reader = .receiving)
    (e : Error) : { h with reader := .ended e }.Shows p := by
  refine ⟨⟨hs.coherent.writer, ?_, ?_, hs.coherent.closed⟩, hs.queue, hs.stopped, ?_, hs.muted⟩
  · intro rest h
    cases hlock.symm.trans h
  · intro buf h
    cases hlock.symm.trans h
  · rw [hs.reply]
    simp [pendingReply, hreader]

/-- The reader handles a frame. -/
theorem Shows.handle (hc : c.RoundTrip) (hs : h.Shows p) (hlock : h.inner.lock = .free)
    (hreader : h.reader = .receiving) (found : Option (List UInt8)) (frame : WireFrame) :
    (h.handleFrame side found frame).Shows
      ((p.after Side.other side (.handle side frame (directReply c side frame))).after Side.other side
        (.accept side (if h.sender then channelReply found side frame else []))) := by
  have hsilent : p.reply = none := by
    rw [hs.reply]
    simp [pendingReply, hreader]
  cases hdirect : directReply c side frame with
  | none =>
    rw [handleFrame_eq_push h found hdirect]
    refine Shows.push (hs.congr ?_ ?_ ?_ ?_) side _
    · rfl
    · rfl
    · simp [Party.after, hsilent]
    · rfl
  | some m =>
    obtain ⟨hchannel, payload, hpayload, heq⟩ := handleFrame_eq_replying h found hdirect
    rw [heq, hchannel, ite_self]
    have hreply : { h with reader := .replying payload }.pendingReply = some m := by
      simp [pendingReply, hlock, frames_of_payload hc hpayload]
    have hreplying : { h with reader := .replying payload }.Shows { p with reply := some m } := by
      refine ⟨⟨hs.coherent.writer, ?_, ?_, hs.coherent.closed⟩, hs.queue, hs.stopped, hreply.symm,
        hs.muted⟩
      · intro rest h
        cases hlock.symm.trans h
      · intro buf h
        cases hlock.symm.trans h
    have hpush := Shows.push hreplying side []
    rw [push_nil] at hpush
    refine hpush.congr ?_ ?_ ?_ ?_ <;> simp only [Party.after_accept] <;> split_ifs <;>
      simp_all [Party.after]

end Half

/-! ## The session implements the exchange -/

namespace Pair

variable {s t : Pair c} {a : PairLabel} {s' t' : Side → Party WireFrame}

/-- A side and the bytes from it are what its party is in the exchange. -/
structure Implements (s : Pair c) (s' : Side → Party WireFrame) (X : Side) : Prop where
  /-- The side. -/
  shows : (s.half X).Shows (s' X)
  /-- The bytes from it. -/
  link : Lane c (s.half X).inner (s.half X.other).inner (s' X).link

/-- A new session. -/
theorem implements_start (c : FrameCodec) (X : Side) :
    Implements ⟨fun _ => Half.start c⟩ (fun _ => .start) X :=
  ⟨⟨⟨nofun, nofun, nofun, nofun⟩, rfl, rfl, rfl, nofun⟩, [], rfl, alignedTo_nil⟩

/-- After a step of the side `X` it has changed and sent bytes, and the other side has got them. -/
theorem implements_of_step {X : Side} {h' : Half c} {bytes : List UInt8} (hside : t.half X = h')
    (hother : t.half X.other = (s.half X.other).arrive bytes) (hshows : h'.Shows (t' X))
    (hout : Lane c h'.inner ((s.half X.other).arrive bytes).inner (t' X).link)
    (hpeer : (s.half X.other).Shows (t' X.other))
    (hin : Lane c (s.half X.other).inner h'.inner (t' X.other).link) :
    ∀ Y, t.Implements t' Y := by
  intro Y
  rcases Side.eq_or_eq_other X Y with rfl | rfl
  · refine ⟨hside ▸ hshows, ?_⟩
    rw [hside, hother]
    exact hout
  · refine ⟨hother ▸ hpeer.arrive bytes, ?_⟩
    rw [Side.other_other, hside, hother]
    exact hin.congr rfl rfl rfl

/-- A step that is internal to the side `X`: what it shows and what it has to send and to read stay
the same. -/
theorem implements_internal (hs : ∀ X, s.Implements s' X) {X : Side} {h' : Half c}
    (hside : t.half X = h') (hother : t.half X.other = (s.half X.other).arrive [])
    (hshows : h'.Shows (s' X)) (hunsent : h'.inner.lock.unsent = (s.half X).inner.lock.unsent)
    (hread : h'.inner.lock.read = (s.half X).inner.lock.read)
    (hinbox : h'.inner.inbox = (s.half X).inner.inbox) : ∀ Y, t.Implements s' Y := by
  refine implements_of_step hside hother hshows ?_ (hs X.other).shows ?_
  · exact (hs X).link.congr hunsent rfl (List.append_nil _)
  · have hlink := (hs X.other).link
    rw [Side.other_other] at hlink
    exact hlink.congr rfl hread hinbox

/-- A step of the side `X` in which it accepts frames, is stopped or forgoes a reply. -/
theorem implements_event (hs : ∀ X, s.Implements s' X) {X : Side} {h' : Half c}
    (hside : t.half X = h') (hother : t.half X.other = (s.half X.other).arrive [])
    {e : Event Side WireFrame} (he : (∃ ms, e = .accept X ms) ∨ e = .stop X ∨ e = .forgo X)
    (hshows : h'.Shows ((s' X).after Side.other X e)) (hinner : h'.inner = (s.half X).inner) :
    ∃ t', (exchange Side.other).run s' [e] = some t' ∧ ∀ Y, t.Implements t' Y := by
  have henabled : Enabled Side.other s' e := by
    rcases he with ⟨ms, rfl⟩ | rfl | rfl <;> trivial
  have hkeeps : ∀ Y, ((s' Y).after Side.other Y e).link = (s' Y).link := by
    refine fun Y => Party.link_after _ _ _ ?_
    rcases he with ⟨ms, rfl⟩ | rfl | rfl
    · exact .inl ⟨X, ms, rfl⟩
    · exact .inr (.inl ⟨X, rfl⟩)
    · exact .inr (.inr ⟨X, rfl⟩)
  have hpeer : (s' X.other).after Side.other X.other e = s' X.other := by
    refine Party.after_of_ne _ X.other_ne.symm _ ?_
    rcases he with ⟨ms, rfl⟩ | rfl | rfl
    · exact .inl ⟨ms, rfl⟩
    · exact .inr (.inr (.inl rfl))
    · exact .inr (.inr (.inr (.inr rfl)))
  refine ⟨fun Y => (s' Y).after Side.other Y e, ?_, ?_⟩
  · rw [System.run_singleton, step_of_enabled henabled]
  · refine implements_of_step hside hother hshows ?_ ?_ ?_
    · rw [hkeeps, hinner]
      exact (hs X).link.congr rfl rfl (List.append_nil _)
    · rw [hpeer]
      exact (hs X.other).shows
    · have hlink := (hs X.other).link
      rw [Side.other_other] at hlink
      rw [hpeer, hinner]
      exact hlink

/-- A step of the side `X` in which one of its tasks takes the lock to write a frame. -/
theorem implements_send (hs : ∀ X, s.Implements s' X) {X : Side} {caller : Caller}
    {payload : Payload c} {frame : WireFrame} (hframe : frames payload = [frame])
    (hlock : (s.half X).inner.lock = .free)
    (hside : t.half X = (s.half X).setLock (.writing caller (framed payload.bytes)))
    (hother : t.half X.other = (s.half X.other).arrive []) {e : Event Side WireFrame}
    (he : e = .post X frame ∨ e = .answer X frame) (henabled : Enabled Side.other s' e)
    (hshows : ((s.half X).setLock (.writing caller (framed payload.bytes))).Shows
      ((s' X).after Side.other X e)) :
    ∃ t', (exchange Side.other).run s' [e] = some t' ∧ ∀ Y, t.Implements t' Y := by
  have hsends : ((s' X).after Side.other X e).link = (s' X).link ++ frames payload := by
    rw [hframe]
    rcases he with rfl | rfl <;> simp [Party.after]
  have hpeer : (s' X.other).after Side.other X.other e = s' X.other := by
    refine Party.after_of_ne _ X.other_ne.symm _ ?_
    rcases he with rfl | rfl
    · exact .inr (.inl ⟨frame, rfl⟩)
    · exact .inr (.inr (.inr (.inl ⟨frame, rfl⟩)))
  refine ⟨fun Y => (s' Y).after Side.other Y e, ?_, ?_⟩
  · rw [System.run_singleton, step_of_enabled henabled]
  · refine implements_of_step hside hother hshows ?_ ?_ ?_
    · rw [hsends]
      have hunsent : (s.half X).inner.lock.unsent = [] := by
        rw [hlock]
        rfl
      exact ((hs X).link.post hunsent payload rfl).congr rfl rfl (List.append_nil _)
    · rw [hpeer]
      exact (hs X.other).shows
    · have hlink := (hs X.other).link
      rw [Side.other_other] at hlink
      rw [hpeer]
      exact hlink.congr rfl (by rw [hlock]; rfl) rfl

/-- A step of the side `X` in which `recv_frame` returns a frame. -/
theorem implements_received (hc : c.RoundTrip) (hs : ∀ X, s.Implements s' X) {X : Side}
    {buf : List UInt8} (hlock : (s.half X).inner.lock = .reading buf) (hn : missing buf = .ok 0)
    {found : Option (List UInt8)}
    (hside : t.half X = ((s.half X).setLock .free).recvFrame X found buf)
    (hother : t.half X.other = (s.half X.other).arrive []) :
    ∃ t', (exchange Side.other).run s' ((s.half X).events X (.received found)) = some t' ∧
      ∀ Y, t.Implements t' Y := by
  have hreader := (hs X).shows.coherent.reader buf hlock
  have hlink := (hs X.other).link
  rw [Side.other_other] at hlink
  have hbuf : (s.half X).inner.lock.read = buf := by
    rw [hlock]
    rfl
  have hread : ∃ frame rest, c.received (s.half X).inner.lock.read = .ok frame ∧
      (s' X.other).link = frame :: rest ∧
      Lane c (s.half X.other).inner ((s.half X).setLock .free).inner rest :=
    hlink.received hc (hbuf.symm ▸ hn) rfl rfl
  rw [hbuf] at hread
  obtain ⟨frame, rest, hframe, hrest, hlane⟩ := hread
  let first : Event Side WireFrame := .handle X frame (directReply c X frame)
  let second : Event Side WireFrame :=
    .accept X (if (s.half X).sender then channelReply found X frame else [])
  have hevents : (s.half X).events X (.received found) = [first, second] := by
    simp only [Half.events, hlock, hframe, first, second]
  have henabled : Enabled Side.other s' first := by
    refine ⟨by rw [hrest]; rfl, ?_⟩
    rw [(hs X).shows.reply]
    simp [Half.pendingReply, hreader]
  have hother_ne : X.other ≠ X := X.other_ne
  have hpeer : ((s' X.other).after Side.other X.other first).after Side.other X.other second =
      { s' X.other with link := rest } := by
    rw [Party.after_of_ne _ hother_ne.symm _ (.inl ⟨_, rfl⟩)]
    simp [first, Party.after, hother_ne.symm, hrest]
  refine ⟨fun Y => ((s' Y).after Side.other Y first).after Side.other Y second, ?_, ?_⟩
  · rw [hevents]
    show ((exchange Side.other).step s' first).bind _ = _
    rw [step_of_enabled henabled, Option.bind_some, System.run_singleton]
    exact step_of_enabled (e := second) trivial
  · have hside' : t.half X = ((s.half X).setLock .free).handleFrame X found frame := by
      rw [hside, Half.recvFrame, hframe]
    refine implements_of_step hside' hother ?_ ?_ ?_ ?_
    · exact ((hs X).shows.release hlock).handle hc rfl hreader found frame
    · rw [Party.link_after _ _ _ (.inl ⟨X, _, rfl⟩)]
      have hsame : ((s' X).after Side.other X first).link = (s' X).link := by
        simp [first, Party.after, hother_ne]
      rw [hsame, Half.inner_handleFrame]
      refine (hs X).link.congr ?_ rfl (List.append_nil _)
      rw [hlock]
      rfl
    · rw [hpeer]
      exact (hs X.other).shows.congr rfl rfl rfl rfl
    · rw [hpeer, Half.inner_handleFrame]
      exact hlane

/-- Each step of the session is the events of the step in the exchange. -/
theorem implements_step (hc : c.RoundTrip) (hs : ∀ X, s.Implements s' X)
    (hstep : s.step a = some t) :
    ∃ t', (exchange Side.other).run s' (s.events a) = some t' ∧ ∀ X, t.Implements t' X := by
  obtain ⟨h', bytes, hact, hside, hother⟩ := step_eq_some hstep
  obtain ⟨X, act⟩ := a
  have hX := hs X
  have hlink := (hs X.other).link
  rw [Side.other_other] at hlink
  unfold Pair.events
  dsimp only at hact hside hother ⊢
  cases act with
  | enqueue frame =>
    obtain ⟨rfl, rfl⟩ := Half.act_enqueue hact
    exact implements_event hs hside hother (.inl ⟨_, rfl⟩) (hX.shows.push X [frame])
      (Half.inner_push _ _)
  | dropSender =>
    obtain ⟨rfl, rfl⟩ := Half.act_dropSender hact
    exact ⟨s', rfl, implements_internal hs hside hother hX.shows.dropSender rfl rfl rfl⟩
  | pop =>
    simp only [Half.act] at hact
    split at hact
    · next frame queue hwriter hqueue =>
      split at hact
      · next payload hpayload =>
        obtain ⟨rfl, rfl⟩ := Prod.mk.inj (Option.some.inj hact)
        have hevents : (s.half X).events X .pop = [] := by
          simp [Half.events, hqueue, hpayload]
        rw [hevents]
        exact ⟨s', rfl, implements_internal hs hside hother
          (hX.shows.pop hc hwriter hqueue hpayload) rfl rfl rfl⟩
      · next e he =>
        obtain ⟨rfl, rfl⟩ := Prod.mk.inj (Option.some.inj hact)
        have hevents : (s.half X).events X .pop = [.stop X] := by
          simp [Half.events, hqueue, he]
        rw [hevents]
        exact implements_event hs hside hother (.inr (.inl rfl)) (hX.shows.stop hwriter (.inl rfl))
          rfl
    · cases hact
  | writerEnd =>
    obtain ⟨hwriter, hqueue, -, rfl, rfl⟩ := Half.act_writerEnd hact
    have hshows : { s.half X with writer := .ended }.Shows
        ((s' X).after Side.other X (.stop X)) := hX.shows.stop hwriter (.inr rfl)
    exact implements_event hs hside hother (.inr (.inl rfl)) hshows rfl
  | writerLock =>
    simp only [Half.act] at hact
    split at hact
    · next payload hlock hwriter =>
      obtain ⟨rfl, rfl⟩ := Prod.mk.inj (Option.some.inj hact)
      obtain ⟨frame, -, hframe⟩ := exists_frames hc payload
      obtain ⟨henabled, hshows⟩ := hX.shows.writerLock X hlock hwriter hframe
      simp only [Half.events, hwriter, hframe, List.map_cons, List.map_nil]
      exact implements_send hs hframe hlock hside hother (.inl rfl) henabled hshows
    · cases hact
  | close =>
    simp only [Half.act] at hact
    split at hact
    · next hlock hwriter =>
      obtain ⟨rfl, rfl⟩ := Prod.mk.inj (Option.some.inj hact)
      exact ⟨s', rfl, implements_internal hs hside hother (hX.shows.close hlock hwriter) rfl rfl rfl⟩
    · cases hact
  | replyLock =>
    simp only [Half.act] at hact
    split at hact
    · next payload hlock hreader =>
      simp only [Half.events, hreader]
      split_ifs at hact ⊢ with hclosed
      · obtain ⟨rfl, rfl⟩ := Prod.mk.inj (Option.some.inj hact)
        exact implements_event hs hside hother (.inr (.inr rfl)) (hX.shows.forgo hlock hclosed) rfl
      · obtain ⟨rfl, rfl⟩ := Prod.mk.inj (Option.some.inj hact)
        obtain ⟨frame, -, hframe⟩ := exists_frames hc payload
        obtain ⟨henabled, hshows⟩ :=
          hX.shows.replyLock X hlock hreader (Bool.eq_false_iff.2 hclosed) hframe
        rw [hframe]
        exact implements_send hs hframe hlock hside hother (.inr rfl) henabled hshows
    · cases hact
  | write k =>
    simp only [Half.act] at hact
    split at hact
    · next caller rest hlock =>
      split_ifs at hact with hk
      obtain ⟨rfl, rfl⟩ := Prod.mk.inj (Option.some.inj hact)
      refine ⟨s', rfl, implements_of_step hside hother (hX.shows.write hlock _ hk.2) ?_
        (hs X.other).shows ?_⟩
      · have hwritten : (s.half X).inner.lock.unsent = rest.take k ++ rest.drop k := by
          rw [hlock, List.take_append_drop]
          rfl
        exact hX.link.write hwritten rfl rfl rfl
      · exact hlink.congr rfl (by rw [hlock]; rfl) rfl
    · cases hact
  | unlock =>
    obtain ⟨rfl, ⟨hlock, rfl⟩ | ⟨hlock, rfl⟩⟩ := Half.act_unlock hact
    · exact ⟨s', rfl, implements_internal hs hside hother (hX.shows.unlockWriter hlock)
        (by rw [hlock]; rfl) (by rw [hlock]; rfl) rfl⟩
    · exact ⟨s', rfl, implements_internal hs hside hother (hX.shows.unlockReader hlock)
        (by rw [hlock]; rfl) (by rw [hlock]; rfl) rfl⟩
  | readLock =>
    simp only [Half.act] at hact
    split at hact
    · next hlock hreader =>
      obtain ⟨rfl, rfl⟩ := Prod.mk.inj (Option.some.inj hact)
      exact ⟨s', rfl, implements_internal hs hside hother
        (hX.shows.reading hreader hlock (.inl rfl) [] _) (by rw [hlock]; rfl) (by rw [hlock]; rfl) rfl⟩
    · cases hact
  | read k =>
    obtain ⟨buf, n, hlock, hn, ⟨-, hle, hlen⟩, rfl, rfl⟩ := Half.act_read hact
    have hreader := hX.shows.coherent.reader buf hlock
    refine ⟨s', rfl, implements_of_step hside hother
      (hX.shows.reading hreader hlock (.inr ⟨buf, rfl⟩) _ _) ?_ (hs X.other).shows ?_⟩
    · exact hX.link.congr (by rw [hlock]; rfl) rfl (List.append_nil _)
    · refine hlink.read (by rw [hlock]; rfl) (List.take_append_drop k _).symm hn ?_ rfl rfl
      rw [List.length_take_of_le hlen]
      exact hle
  | received found =>
    obtain ⟨buf, hlock, rfl, ⟨hn, rfl⟩ | ⟨e, he, rfl⟩⟩ := Half.act_received hact
    · exact implements_received hc hs hlock hn hside hother
    · -- no length is refused
      have hbuf : (s.half X).inner.lock.read = buf := by
        rw [hlock]
        rfl
      exact absurd he (hbuf ▸ hlink.missing_ne_error e)
  | readEof e =>
    simp only [Half.act] at hact
    split at hact
    · next buf hlock =>
      split at hact
      · next n hn =>
        split_ifs at hact with hend
        obtain ⟨rfl, rfl⟩ := Prod.mk.inj (Option.some.inj hact)
        have hreader := hX.shows.coherent.reader buf hlock
        have hbuf : (s.half X).inner.lock.read = buf := by
          rw [hlock]
          rfl
        -- the peer has shut the stream down after a whole frame
        have hunsent := ((hs X.other).shows.coherent.closed hend.2).1
        have hnil := hlink.read_eq_nil (hbuf.symm ▸ hn) hend.1 hunsent
        have hshows := (hX.shows.release hlock).ended rfl hreader (.io e)
        exact ⟨s', rfl, implements_internal hs hside hother hshows (by rw [hlock]; rfl)
          (hnil.symm ▸ rfl) rfl⟩
      · cases hact
    · cases hact

end Pair

/-- The session implements the exchange of frames. -/
theorem session_simulates (c : FrameCodec) (hc : c.RoundTrip) :
    Simulates (duplex c) (exchange Side.other) (fun s s' => ∀ X, s.Implements s' X)
      Pair.events := by
  constructor
  · rintro _ rfl
    exact ⟨fun _ => .start, rfl, Pair.implements_start c⟩
  · exact fun s a t s' hs hstep => Pair.implements_step hc hs hstep

/-! ## What holds in every run -/

/-- Nothing is on the lane when its bytes are written, have arrived and are read. -/
theorem Lane.eq_nil {w v : Inner} {link : List WireFrame} (h : Lane c w v link)
    (hw : w.lock.unsent = []) (hv : v.lock.read = []) (hinbox : v.inbox = []) : link = [] := by
  obtain ⟨ps, rfl, haligned⟩ := h
  rw [hw, hv, hinbox] at haligned
  rcases haligned.cases (delimits_missing c) isFrame_of_mem with ⟨hps, -, -⟩ | hwhole | ⟨-, hrest⟩
  · rw [List.map_eq_nil_iff.1 hps]
    rfl
  · obtain ⟨fs, -, hwant, -⟩ := hwhole
    cases hwant
  · exact absurd rfl hrest

/-- A reader replies to what it handles. -/
theorem Half.replied_events (h : Half c) (side X : Side) (act : Act) :
    (h.events side act).flatMap (Event.replied X) =
      ((h.events side act).flatMap (Event.handled X)).filterMap (directReply c X) := by
  have hsent : ∀ (payload : Payload c) (f : WireFrame → Event Side WireFrame),
      (∀ m, (f m).replied X = [] ∧ (f m).handled X = []) →
        ((frames payload).map f).flatMap (Event.replied X) =
          (((frames payload).map f).flatMap (Event.handled X)).filterMap (directReply c X) := by
    intro payload f hf
    have hreplied : ((frames payload).map f).flatMap (Event.replied X) = [] := by
      simp [List.flatMap_eq_nil_iff, hf]
    have hhandled : ((frames payload).map f).flatMap (Event.handled X) = [] := by
      simp [List.flatMap_eq_nil_iff, hf]
    rw [hreplied, hhandled]
    rfl
  cases act with
  | writerLock =>
    simp only [Half.events]
    split
    · exact hsent _ _ fun m => ⟨rfl, rfl⟩
    · rfl
  | replyLock =>
    simp only [Half.events]
    split
    · split_ifs
      · rfl
      · exact hsent _ _ fun m => ⟨rfl, rfl⟩
    · rfl
  | received found =>
    simp only [Half.events]
    split
    · split
      · next frame _ =>
        by_cases hX : side = X
        · subst hX
          cases hdirect : directReply c side frame <;>
            simp [Event.replied, Event.handled, hdirect]
        · simp [Event.replied, Event.handled, hX]
      · rfl
    · rfl
  | pop =>
    simp only [Half.events]
    split
    · split <;> rfl
    · rfl
  | enqueue frame | writerEnd | dropSender | close | write k | unlock | readLock | read k | readEof e =>
    rfl

/-- The readers reply to what they handle. -/
theorem replied_trace (s : Pair c) (as : List PairLabel) (X : Side) :
    ((duplex c).trace Pair.events s as).flatMap (Event.replied X) =
      (((duplex c).trace Pair.events s as).flatMap (Event.handled X)).filterMap
        (directReply c X) := by
  unfold System.trace
  induction (duplex c).steps s as with
  | nil => rfl
  | cons p steps ih =>
    rw [List.flatMap_cons, List.flatMap_append, List.flatMap_append, List.filterMap_append, ih]
    congr 1
    exact Half.replied_events _ _ _ _

/-- Nothing is under way in a session of which neither side is shut down: the channels are empty, no
task has a frame in hand, and no byte is unsent, on the way or read. -/
structure Pair.Settled (s : Pair c) : Prop where
  /-- Neither side is shut down. -/
  live : s.Live
  /-- The writers. -/
  writer : ∀ X, (s.half X).writer = .idle ∧ (s.half X).queue = []
  /-- The readers. -/
  reader : ∀ X, (s.half X).reader = .receiving
  /-- The bytes. -/
  bytes : ∀ X, (s.half X).inner.inbox = [] ∧ (s.half X).inner.lock.read = [] ∧
    (s.half X).inner.lock.unsent = []

/-- When nothing is under way in a session, neither side shows anything that is to be sent or
handled. -/
theorem Pair.Settled.party {t : Pair c} {t' : Side → Party WireFrame} (hsettled : t.Settled)
    (himp : ∀ X, t.Implements t' X) (X : Side) :
    (t' X).link = [] ∧ ((t' X).stopped = false ∧ (t' X).queue = []) ∧
      (t' X).muted = false ∧ (t' X).reply = none := by
  obtain ⟨hwriter, hqueue⟩ := hsettled.writer X
  refine ⟨?_, ⟨?_, ?_⟩, ?_, ?_⟩
  · exact (himp X).link.eq_nil (hsettled.bytes X).2.2 (hsettled.bytes X.other).2.1
      (hsettled.bytes X.other).1
  · rw [(himp X).shows.stopped]
    simp [Half.isStopped, hwriter]
  · rw [(himp X).shows.queue]
    simp [Half.held, Half.isStopped, Half.inHand, hwriter, hqueue]
  · rw [Bool.eq_false_iff]
    intro hmuted
    exact absurd ((himp X).shows.muted hmuted) (by rw [hsettled.live X]; decide)
  · rw [(himp X).shows.reply]
    simp [Half.pendingReply, hsettled.reader X]

/-- The reader of the hub sends no reply itself. -/
theorem sent_hub {s : Pair c} {as : List PairLabel} {s' t' : Side → Party WireFrame}
    (hs' : (exchange Side.other).init s')
    (hrun' : (exchange Side.other).run s' ((duplex c).trace Pair.events s as) = some t') :
    ((duplex c).trace Pair.events s as).flatMap (Event.sent .hub) =
      ((duplex c).trace Pair.events s as).flatMap (Event.posted .hub) := by
  refine sent_eq_posted (List.prefix_nil.1 ?_)
  have hanswered := answered_replied hs' hrun' .hub
  have hnone : directReply c .hub = fun _ => none := rfl
  rwa [replied_trace, hnone, List.filterMap_none] at hanswered

/-- The frames of a session, in every run and for both directions. What the reader of a side has
handled are the first of the frames that the other side has sent, in their order, none twice and none
changed. The writer has sent the first of the frames that its channel has got, and the reader itself
the first of its replies to what it has handled; the hub's reader sends nothing itself. And when
nothing is under way, nothing is missing. -/
theorem session_in_order (c : FrameCodec) (hc : c.RoundTrip) (s t : Pair c) (as : List PairLabel)
    (hs : (duplex c).init s) (hrun : (duplex c).run s as = some t) :
    let es := (duplex c).trace Pair.events s as
    (∀ X : Side, es.flatMap (Event.handled X.other) <+: es.flatMap (Event.sent X)) ∧
    (∀ X, es.flatMap (Event.posted X) <+: es.flatMap (Event.accepted X)) ∧
    (∀ X, es.flatMap (Event.answered X) <+:
      (es.flatMap (Event.handled X)).filterMap (directReply c X)) ∧
    es.flatMap (Event.sent .hub) = es.flatMap (Event.posted .hub) ∧
    (t.Settled → ∀ X : Side, es.flatMap (Event.handled X.other) = es.flatMap (Event.sent X) ∧
      es.flatMap (Event.posted X) = es.flatMap (Event.accepted X) ∧
      es.flatMap (Event.answered X) =
        (es.flatMap (Event.handled X)).filterMap (directReply c X)) := by
  intro es
  obtain ⟨s', t', hs', hrun', himp⟩ := (session_simulates c hc).exists_run hs hrun
  have hsent : ∀ X : Side, es.flatMap (Event.sent X) =
      es.flatMap (Event.handled X.other) ++ (t' X).link := by
    intro X
    have h := handled_sent Side.other_other hs' hrun' X.other
    rwa [Side.other_other] at h
  have hreplied : ∀ X, es.flatMap (Event.replied X) =
      (es.flatMap (Event.handled X)).filterMap (directReply c X) := replied_trace s as
  have hanswered : ∀ X, es.flatMap (Event.answered X) <+:
      (es.flatMap (Event.handled X)).filterMap (directReply c X) := by
    intro X
    rw [← hreplied]
    exact answered_replied hs' hrun' X
  refine ⟨fun X => ?_, posted_accepted hs' hrun', hanswered, sent_hub hs' hrun',
    fun hsettled X => ?_⟩
  · rw [hsent]
    exact List.prefix_append _ _
  · obtain ⟨hlink, ⟨hopen, hqueue⟩, hmuted, hreply⟩ := hsettled.party himp X
    refine ⟨?_, ?_, ?_⟩
    · rw [hsent, hlink, List.append_nil]
    · rw [accepted_eq hs' hrun' hopen, hqueue, List.append_nil]
    · rw [← hreplied, replied_eq hs' hrun' hmuted, hreply]
      exact (List.append_nil _).symm

/-- The hub sends a frame, and the spoke reads it in two parts. -/
def deliveredRun : List PairLabel :=
  [⟨.hub, .enqueue (sampleFrame 1)⟩, ⟨.hub, .pop⟩, ⟨.spoke, .readLock⟩, ⟨.hub, .writerLock⟩,
    ⟨.hub, .write 10⟩, ⟨.spoke, .read 4⟩, ⟨.hub, .write 17⟩, ⟨.hub, .unlock⟩, ⟨.spoke, .read 23⟩,
    ⟨.spoke, .received none⟩]

/-- After `deliveredRun` the spoke has handled the frame of the hub, in the order of the channel. -/
theorem session_in_order_deliveredRun :
    ∃ t, (duplex sampleCodec).run ⟨fun _ => Half.start sampleCodec⟩ deliveredRun = some t ∧
      ((duplex sampleCodec).trace Pair.events ⟨fun _ => Half.start sampleCodec⟩
        deliveredRun).flatMap (Event.handled .spoke) = [sampleFrame 1] ∧
      ((duplex sampleCodec).trace Pair.events ⟨fun _ => Half.start sampleCodec⟩
        deliveredRun).flatMap (Event.handled .spoke) <+:
        ((duplex sampleCodec).trace Pair.events ⟨fun _ => Half.start sampleCodec⟩
          deliveredRun).flatMap (Event.sent .hub) := by
  have hsome : ((duplex sampleCodec).run ⟨fun _ => Half.start sampleCodec⟩ deliveredRun).isSome := by
    decide +kernel
  obtain ⟨t, ht⟩ := Option.isSome_iff_exists.1 hsome
  refine ⟨t, ht, by decide +kernel, ?_⟩
  exact (session_in_order sampleCodec sampleCodec_roundTrip _ t deliveredRun rfl ht).1 .hub

end Borderless.Runtime
