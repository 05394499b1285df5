import Borderless.Runtime.HubRouting
import Borderless.Runtime.SpokeSession
import Borderless.Transport.WireFormat

/-!
# Every queued frame can be sent

A writer task ends when `send_frame` fails, and `send_frame` refuses a frame whose encoding is longer
than `MAX_FRAME`. What a node puts into its channels comes from three places: it relays what it has
received, it answers a fetch in chunks of 256 KiB, and it produces snapshots and input events of its
own. `Hub.Frames` and `Spoke.Frames` carry a property of frames from these places to the channels;
`queued_frames_sendable` is its instance for the limit, where only a text that was copied on the node
can be too long.
-/

namespace Borderless.Runtime

open Borderless.Clipboard Borderless.Transport Transition

/-! ## A property of all frames of a hub -/

/-- The frames of a session of the hub have the property: those in its channel, and the snapshot that
its reader is to broadcast. -/
structure Session.Frames (P : WireFrame → Prop) (x : Session) : Prop where
  /-- The channel. -/
  queue : ∀ frame ∈ x.queue, P frame
  /-- The accepted snapshot. -/
  reader : ∀ snap, x.reader = .writing snap ∨ x.reader = .relaying snap → P (.clipboard snap)

/-- The answers to fetches have the property. -/
structure Answers (P : WireFrame → Prop) : Prop where
  /-- The chunks of a payload. -/
  chunks : ∀ hash bytes, ∀ frame ∈ chunkFetchResponse hash bytes, P frame
  /-- A miss. -/
  miss : ∀ hash, P (.fetchMiss hash)

namespace Hub

variable {P : WireFrame → Prop} {s t : Hub} {a : HubLabel}

/-- The frames of the hub have the property. -/
structure Frames (P : WireFrame → Prop) (s : Hub) : Prop where
  /-- The local snapshots. -/
  localFrames : ∀ frame ∈ s.localFrames, P frame
  /-- The captured events. -/
  captured : ∀ event ∈ s.captured, P (.input event)
  /-- The sessions. -/
  sessions : ∀ x ∈ s.sessions, x.Frames P

/-- What a step brings to the hub has the property. -/
def Brings (P : WireFrame → Prop) (s : Hub) : HubLabel → Prop
  | .recv _ frame => P frame
  | .produce now text => P (.clipboard (s.engine.produceText now text).1)
  | .capture event => P (.input event)
  | _ => True

/-- A change of one session that keeps the property. -/
theorem frames_modify (hs : ∀ x ∈ s.sessions, x.Frames P) {i : ℕ} {f : Session → Session}
    (hf : ∀ x, s.sessions[i]? = some x → x.Frames P → (f x).Frames P) :
    ∀ x ∈ s.sessions.modify i f, x.Frames P := by
  intro y hy
  obtain ⟨j, hj⟩ := List.mem_iff_getElem?.1 hy
  rw [List.getElem?_modify] at hj
  obtain ⟨x, hx, rfl⟩ := Option.map_eq_some_iff.1 hj
  have hold := hs x (List.mem_of_getElem? hx)
  split_ifs with hij
  · subst hij
    exact hf x hx hold
  · exact hold

/-- A frame with the property goes into a channel. -/
theorem frames_send (hs : s.Frames P) (i : ℕ) {frame : WireFrame} (hframe : P frame) :
    (s.send i frame).Frames P := by
  refine ⟨hs.localFrames, hs.captured, frames_modify hs.sessions fun x _ hx => ?_⟩
  split_ifs
  · refine ⟨fun f hf => ?_, hx.reader⟩
    rcases List.mem_append.1 hf with hold | hnew
    · exact hx.queue f hold
    · rw [List.mem_singleton.1 hnew]
      exact hframe
  · exact hx

/-- A frame with the property goes into the channels. -/
theorem frames_broadcastToAll (hs : s.Frames P) {frame : WireFrame} (hframe : P frame)
    (exclude : Option NodeId) : (s.broadcastToAll frame exclude).Frames P := by
  unfold broadcastToAll
  refine List.foldlRecOn _ _ hs fun s hs entry _ => ?_
  split_ifs
  · exact hs
  · exact frames_send hs entry.2 hframe

/-- A reply with the property goes into a channel. -/
theorem frames_reply (hs : s.Frames P) (peer : NodeId) {frames : List WireFrame}
    (hframes : ∀ frame ∈ frames, P frame) : (s.reply peer frames).Frames P := by
  unfold reply
  split
  · next i _ =>
    exact List.foldlRecOn _ _ hs fun s hs frame hframe => frames_send hs i (hframes frame hframe)
  · exact hs

/-- A reader moves on with a snapshot with the property. -/
theorem frames_setReader (hs : s.Frames P) (i : ℕ) {reader : Reader}
    (hreader : ∀ snap, reader = .writing snap ∨ reader = .relaying snap → P (.clipboard snap)) :
    (s.setReader i reader).Frames P :=
  ⟨hs.localFrames, hs.captured, frames_modify hs.sessions fun _ _ hx => ⟨hx.queue, hreader⟩⟩

/-- A reader passes on a received snapshot, and answers a fetch. -/
theorem frames_handleFrame (hanswers : Answers P) (hs : s.Frames P) (i : ℕ) (peer : NodeId)
    {frame : WireFrame} (hframe : P frame) : (s.handleFrame i peer frame).Frames P := by
  unfold handleFrame
  cases frame with
  | clipboard snap =>
    simp only [Engine.observeRemote_eq]
    by_cases haccepts : s.engine.Accepts snap
    · rw [if_pos haccepts]
      have hs' : Frames P { s with engine := s.engine.advance snap } := ⟨hs.1, hs.2, hs.3⟩
      refine frames_setReader hs' i fun snap' hsnap' => ?_
      rcases hsnap' with hsnap' | hsnap'
      · cases hsnap'
        exact hframe
      · cases hsnap'
    · rw [if_neg haccepts]
      exact hs
  | fetchRequest hash =>
    simp only
    split
    · exact frames_reply hs peer (hanswers.chunks hash _)
    · refine frames_reply hs peer fun frame hmem => ?_
      rw [List.mem_singleton.1 hmem]
      exact hanswers.miss hash
  | _ => exact hs

/-- A step that brings only frames with the property keeps it. -/
theorem frames_step (hanswers : Answers P) (hs : s.Frames P) (hbrings : s.Brings P a)
    (h : s.step a = some t) : t.Frames P := by
  cases a with
  | accept peer =>
    obtain rfl := Option.some.inj h
    refine ⟨hs.localFrames, hs.captured, fun x hx => ?_⟩
    rcases List.mem_append.1 hx with hold | hnew
    · exact hs.sessions x hold
    · obtain rfl := List.mem_singleton.1 hnew
      exact ⟨by simp, by simp⟩
  | recv i frame =>
    obtain ⟨x, -, -, rfl⟩ := step_recv h
    exact frames_handleFrame hanswers hs i x.peer hbrings
  | write i ok =>
    obtain ⟨x, snap, hx, hreader, rfl⟩ := step_write h
    have hsnap := (hs.sessions x (List.mem_of_getElem? hx)).reader snap (.inl hreader)
    have hs' : Frames P { s with
        clipboard := if ok then snap.plainText <|> s.clipboard else s.clipboard } :=
      ⟨hs.1, hs.2, hs.3⟩
    refine frames_setReader hs' i fun snap' hsnap' => ?_
    rcases hsnap' with hsnap' | hsnap'
    · cases hsnap'
    · cases hsnap'
      exact hsnap
  | relay i =>
    obtain ⟨x, snap, hx, hreader, rfl⟩ := step_relay h
    have hsnap := (hs.sessions x (List.mem_of_getElem? hx)).reader snap (.inr hreader)
    exact frames_setReader (frames_broadcastToAll hs hsnap _) i (by simp)
  | readError i =>
    obtain ⟨x, -, -, rfl⟩ := step_readError h
    exact frames_setReader hs i (by simp)
  | cleanup i =>
    obtain ⟨x, -, -, rfl⟩ := step_cleanup h
    have hs' : Frames P { s with writers := s.writers.erase x.peer } := ⟨hs.1, hs.2, hs.3⟩
    exact frames_setReader hs' i (by simp)
  | writerSend i =>
    obtain ⟨x, frame, rest, hx, hqueue, rfl⟩ := step_writerSend h
    have hmem : ∀ f ∈ rest, P f := by
      intro f hf
      refine (hs.sessions x (List.mem_of_getElem? hx)).queue f ?_
      rw [hqueue]
      exact List.mem_cons_of_mem _ hf
    exact ⟨hs.localFrames, hs.captured,
      frames_modify hs.sessions fun _ _ hold => ⟨hmem, hold.reader⟩⟩
  | writerFail i =>
    obtain ⟨x, -, rfl⟩ := step_writerFail h
    exact ⟨hs.localFrames, hs.captured,
      frames_modify hs.sessions fun _ _ hold => ⟨by simp, hold.reader⟩⟩
  | writerEnd i =>
    obtain rfl := step_writerEnd h
    exact ⟨hs.localFrames, hs.captured,
      frames_modify hs.sessions fun _ _ hold => ⟨hold.queue, hold.reader⟩⟩
  | produce now text =>
    obtain rfl := Option.some.inj h
    refine ⟨fun frame hframe => ?_, hs.captured, hs.sessions⟩
    rcases List.mem_append.1 hframe with hold | hnew
    · exact hs.localFrames frame hold
    · rw [List.mem_singleton.1 hnew]
      exact hbrings
  | broadcastLocal =>
    obtain ⟨frame, rest, hlocal, rfl⟩ := step_broadcastLocal h
    have hframes := hs.localFrames
    rw [hlocal, List.forall_mem_cons] at hframes
    have hs' : Frames P { s with localFrames := rest } := ⟨hframes.2, hs.2, hs.3⟩
    exact frames_broadcastToAll hs' hframes.1 none
  | capture event =>
    obtain rfl := Option.some.inj h
    refine ⟨hs.localFrames, fun event' hevent => ?_, hs.sessions⟩
    rcases List.mem_append.1 hevent with hold | hnew
    · exact hs.captured event' hold
    · rw [List.mem_singleton.1 hnew]
      exact hbrings
  | broadcastInput =>
    obtain ⟨event, rest, hcaptured, rfl⟩ := step_broadcastInput h
    have hevents := hs.captured
    rw [hcaptured, List.forall_mem_cons] at hevents
    have hs' : Frames P { s with captured := rest } := ⟨hs.1, hevents.2, hs.3⟩
    exact frames_broadcastToAll hs' hevents.1 none

/-- In a run whose steps bring only frames with the property, all frames of the hub have it. -/
theorem frames_of_reach (hanswers : Answers P) (h : hub.Reach (Brings P) s) : s.Frames P := by
  refine System.Reach.invariant (I := Frames P) (fun s hinit => ?_)
    (fun s a t hs hbrings hstep => frames_step hanswers hs hbrings hstep) h
  obtain ⟨engine, lazy, clipboard, rfl⟩ := hinit
  exact ⟨by simp [start], by simp [start], by simp [start]⟩

end Hub

/-! ## A property of all frames of a spoke -/

namespace SpokeSession

variable {P : WireFrame → Prop} {x y : SpokeSession} {e e' : Engine} {c c' : Option String}
  {label : TaskLabel}

/-- The frames of a session have the property: those of the producer, those in the write channel, and
the one that the writer sends. -/
structure Frames (P : WireFrame → Prop) (x : SpokeSession) : Prop where
  /-- The frames of the producer. -/
  frames : ∀ frame ∈ x.frames, P frame
  /-- The write channel. -/
  queue : ∀ frame ∈ x.queue, P frame
  /-- The writer. -/
  writer : ∀ frame, x.writer = .sending frame → P frame

/-- A step of the main task leaves the frames alone. -/
theorem outgoing_of_isMain (hmain : label.isMain = true) (h : x.step e c label = some (e', c', y)) :
    y.frames = x.frames ∧ y.queue = x.queue ∧ y.writer = x.writer := by
  cases label with
  | recv frame =>
    simp only [step] at h
    grind
  | write ok | readError lost | drop | join =>
    simp only [step] at h
    grind
  | _ => cases hmain

/-- A step keeps the property if the snapshot that the producer makes has it. -/
theorem frames_step (hx : x.Frames P)
    (hproduce : ∀ now text texts, label = .produce now → x.texts = text :: texts →
      P (.clipboard (e.produceText now text).1))
    (h : x.step e c label = some (e', c', y)) : y.Frames P := by
  by_cases hmain : label.isMain = true
  · obtain ⟨hframes, hqueue, hwriter⟩ := outgoing_of_isMain hmain h
    exact ⟨hframes ▸ hx.frames, hqueue ▸ hx.queue, hwriter ▸ hx.writer⟩
  · cases label with
    | poll =>
      obtain ⟨last, texts, watching, hpoll, -, -⟩ := x.poll_eq c
      simp only [step, hpoll] at h
      split_ifs at h
      cases h
      exact ⟨hx.frames, hx.queue, hx.writer⟩
    | produce now =>
      obtain ⟨text, texts, -, htexts, -, -, rfl⟩ := produce_step h
      split_ifs
      · refine ⟨fun frame hframe => ?_, hx.queue, hx.writer⟩
        rcases List.mem_append.1 hframe with hold | hnew
        · exact hx.frames frame hold
        · rw [List.mem_singleton.1 hnew]
          exact hproduce now text texts rfl htexts
      · exact ⟨hx.frames, hx.queue, hx.writer⟩
    | forward =>
      obtain ⟨frame, frames, -, hframes, -, -, rfl⟩ := forward_step h
      have hold := hx.frames
      rw [hframes, List.forall_mem_cons] at hold
      split_ifs
      · exact ⟨by simp, hx.queue, hx.writer⟩
      · refine ⟨hold.2, fun f hf => ?_, hx.writer⟩
        rcases List.mem_append.1 hf with hf | hf
        · exact hx.queue f hf
        · rw [List.mem_singleton.1 hf]
          exact hold.1
    | take =>
      simp only [step] at h
      split at h
      · next frame queue hwriter hqueue =>
        cases h
        have hold := hx.queue
        rw [hqueue, List.forall_mem_cons] at hold
        exact ⟨hx.frames, hold.2, fun frame' hframe' => by cases hframe'; exact hold.1⟩
      · cases h
    | producerEnd | forwardEnd | sent | sendFail | close | writerEnd =>
      obtain ⟨hframes, hqueue, hwriter⟩ := hx
      simp only [step] at h
      constructor <;> grind
    | recv frame | write ok | readError lost | drop | join => exact absurd rfl hmain

end SpokeSession

namespace Spoke

variable {P : WireFrame → Prop} {s t : Spoke} {a : SpokeLabel}

/-- The snapshot that a step makes has the property. -/
def Brings (P : WireFrame → Prop) (s : Spoke) : SpokeLabel → Prop
  | .task i (.produce now) => ∀ x text texts, s.sessions[i]? = some x → x.texts = text :: texts →
    P (.clipboard (s.engine.produceText now text).1)
  | _ => True

/-- In a run whose steps make only snapshots with the property, all frames of the spoke have it. -/
theorem frames_of_reach (h : spoke.Reach (Brings P) s) : ∀ x ∈ s.sessions, x.Frames P := by
  refine System.Reach.invariant (I := fun s : Spoke => ∀ x ∈ s.sessions, x.Frames P)
    (fun s hinit => ?_) (fun s a t hs hbrings hstep => ?_) h
  · obtain ⟨engine, clipboard, rfl⟩ := hinit
    exact List.forall_mem_nil _
  · refine forall_sessions_step (fun clipboard => ?_) hs ?_ hstep
    · exact ⟨by simp [SpokeSession.start], by simp [SpokeSession.start],
        by simp [SpokeSession.start]⟩
    · rintro i label x engine clipboard y rfl hx hframes hy
      refine SpokeSession.frames_step hframes ?_ hy
      rintro now text texts rfl htexts
      exact hbrings x text texts hx htexts

end Spoke

/-! ## The limit of a frame -/

/-- The encoding is within the limit of `send_frame`. -/
def Fits (frame : WireFrame) : Prop := frame.postcard.length ≤ maxFrame

instance (frame : WireFrame) : Decidable (Fits frame) := inferInstanceAs (Decidable (_ ≤ _))

/-- `send_frame` refuses a frame for its length only. -/
theorem payload_ok_iff {c : FrameCodec} (hc : c.IsWireFormat) (frame : WireFrame) :
    (∃ p, c.payload frame = .ok p) ↔ Fits frame := by
  unfold Fits
  constructor
  · rintro ⟨p, hp⟩
    unfold FrameCodec.payload at hp
    split at hp
    · next bytes hbytes =>
      obtain ⟨rfl, -⟩ := (hc.encode_ok_iff frame _).1 hbytes
      split_ifs at hp with hle
      exact hle
    · cases hp
  · intro hle
    have hfits : frame.postcard.length < 2^64 := by
      unfold maxFrame at hle
      omega
    obtain ⟨p, hp, -⟩ := payload_of_encode ((hc.encode_ok_iff frame _).2 ⟨rfl, hfits⟩) hle
    exact ⟨p, hp⟩

/-- A number of 32 bits takes at most five bytes. -/
theorem length_i32Postcard_le (n : Int32) : (i32Postcard n).length ≤ 5 := by
  rw [i32Postcard, Postcard.length_varint]
  exact Postcard.varintLength_le (by omega) ((Postcard.zigzag_lt n).trans (by decide))

/-- An input event is short. -/
theorem fits_input (event : InputEvent) : Fits (.input event) := by
  have hlength : event.postcard.length ≤ 30 := by
    cases event with
    | mouseMove dx dy ts =>
      have hts := Postcard.varintLength_toNat_le ts
      have hdx := length_i32Postcard_le dx
      have hdy := length_i32Postcard_le dy
      simp [InputEvent.postcard, Postcard.varintLength_of_lt]
      omega
    | mouseAbs x y screenId =>
      have hx := length_i32Postcard_le x
      have hy := length_i32Postcard_le y
      simp [InputEvent.postcard, Postcard.varintLength_of_lt]
      omega
    | mouseButton btn pressed =>
      cases btn <;>
        simp [InputEvent.postcard, Button.postcard, Postcard.bool, Postcard.varintLength_of_lt]
    | scroll dx dy =>
      have hdx := length_i32Postcard_le dx
      have hdy := length_i32Postcard_le dy
      simp [InputEvent.postcard, Postcard.varintLength_of_lt]
      omega
    | key code pressed modifiers =>
      have hcode : Postcard.varintLength code.usage.toNat ≤ 3 :=
        Postcard.varintLength_le (by omega) (code.usage.toNat_lt.trans (by decide))
      simp [InputEvent.postcard, Postcard.bool, Postcard.varintLength_of_lt]
      omega
    | enter fromNode modifiers =>
      simp [InputEvent.postcard, Postcard.varintLength_of_lt]
    | leave toNode =>
      simp [InputEvent.postcard, Postcard.varintLength_of_lt]
  unfold Fits maxFrame
  simp [WireFrame.postcard, Postcard.varintLength_of_lt]
  omega

/-- A chunk of a payload is short. -/
theorem fits_fetchResponse (hash : Bytes 32) (chunkIdx total : UInt32) {bytes : List UInt8}
    (hle : bytes.length ≤ fetchChunkSize) : Fits (.fetchResponse hash chunkIdx total bytes) := by
  unfold fetchChunkSize at hle
  have hidx : Postcard.varintLength chunkIdx.toNat ≤ 5 :=
    Postcard.varintLength_le (by omega) (chunkIdx.toNat_lt.trans (by decide))
  have htotal : Postcard.varintLength total.toNat ≤ 5 :=
    Postcard.varintLength_le (by omega) (total.toNat_lt.trans (by decide))
  have hlength : Postcard.varintLength bytes.length ≤ 3 :=
    Postcard.varintLength_le (by omega) (by omega)
  unfold Fits maxFrame
  simp [WireFrame.postcard, Postcard.varintLength_of_lt]
  omega

/-- The answers to fetches are short. -/
theorem answers_fits : Answers Fits := by
  constructor
  · intro hash bytes frame hframe
    unfold chunkFetchResponse at hframe
    split_ifs at hframe with hempty
    · rw [List.mem_singleton.1 hframe]
      exact fits_fetchResponse hash 0 1 (Nat.zero_le _)
    · obtain ⟨⟨chunk, k⟩, hmem, rfl⟩ := List.mem_map.1 hframe
      have hchunk := List.mem_toChunks (n := fetchChunkSize) (by decide)
        (List.fst_mem_of_mem_zipIdx hmem)
      exact fits_fetchResponse hash _ _ hchunk.2
  · intro hash
    unfold Fits maxFrame
    simp [WireFrame.postcard, Postcard.varintLength_of_lt]

/-! ## What the channels hold can be sent -/

/-- The snapshot of a text is within the limit if the text leaves room for the other fields. -/
theorem fits_produceText (e : Engine) (now : UInt64) {text : String}
    (hle : text.utf8ByteSize + 43 ≤ maxFrame) : Fits (.clipboard (e.produceText now text).1) := by
  have hversion := Postcard.varintLength_toNat_le (e.localVersion + 1)
  have hnow := Postcard.varintLength_toNat_le now
  have hlength : Postcard.varintLength text.utf8ByteSize ≤ 4 := by
    unfold maxFrame at hle
    exact Postcard.varintLength_le (by omega) (by omega)
  show (e.produceText now text).1.framePostcard.length ≤ maxFrame
  rw [length_framePostcard_produceText]
  omega

/-- A reader handles frames that `recv_frame` returns, and the texts that are copied on the hub leave
room for the other fields of a frame. -/
def Hub.ShortTexts (c : FrameCodec) (_ : Hub) : HubLabel → Prop
  | .recv _ frame => c.Receives frame
  | .produce _ text => text.utf8ByteSize + 43 ≤ maxFrame
  | _ => True

/-- The texts that are copied on the spoke leave room for the other fields of a frame. -/
def Spoke.ShortTexts (s : Spoke) : SpokeLabel → Prop
  | .task i (.produce _) => ∀ x text texts, s.sessions[i]? = some x → x.texts = text :: texts →
    text.utf8ByteSize + 43 ≤ maxFrame
  | _ => True

/-- What a hub or a spoke has queued can be sent. As long as no text that is copied on the node comes
within 43 bytes of `MAX_FRAME`, `send_frame` refuses no frame in a channel to a spoke, whatever the
spokes send and request; none in the channel of a spoke to the hub; and no answer of a spoke to a
fetch. -/
theorem queued_frames_sendable (c : FrameCodec) (hc : c.IsWireFormat) :
    (∀ s, hub.Reach (Hub.ShortTexts c) s → ∀ x ∈ s.sessions, ∀ frame ∈ x.queue,
      ∃ p, c.payload frame = .ok p) ∧
    (∀ s, spoke.Reach Spoke.ShortTexts s → ∀ x ∈ s.sessions, ∀ frame,
      frame ∈ x.queue ∨ x.writer = .sending frame → ∃ p, c.payload frame = .ok p) ∧
    ∀ hash, ∃ p, c.payload (.fetchMiss hash) = .ok p := by
  refine ⟨fun s hreach x hx frame hframe => ?_, fun s hreach x hx frame hframe => ?_, fun hash => ?_⟩
  · have hbrings : hub.Reach (Hub.Brings Fits) s := by
      refine hreach.mono fun s a hshort => ?_
      cases a with
      | recv i frame => exact (payload_ok_iff hc frame).1 (payload_of_receives hc hshort)
      | produce now text => exact fits_produceText s.engine now hshort
      | capture event => exact fits_input event
      | _ => trivial
    have hframes := (Hub.frames_of_reach answers_fits hbrings).sessions x hx
    exact (payload_ok_iff hc frame).2 (hframes.queue frame hframe)
  · have hbrings : spoke.Reach (Spoke.Brings Fits) s := by
      refine hreach.mono fun s a hshort => ?_
      cases a with
      | task i label =>
        cases label with
        | produce now =>
          intro x text texts hx htexts
          exact fits_produceText s.engine now (hshort x text texts hx htexts)
        | _ => trivial
      | _ => trivial
    have hframes := Spoke.frames_of_reach hbrings x hx
    refine (payload_ok_iff hc frame).2 ?_
    rcases hframe with hqueue | hwriter
    · exact hframes.queue frame hqueue
    · exact hframes.writer frame hwriter
  · exact (payload_ok_iff hc _).2 (answers_fits.miss hash)

/-- A spoke connects, and a short text is copied on the hub. -/
def shortRun : List HubLabel := [.accept spokeId, .produce 0 "hi", .broadcastLocal]

/-- The text of `shortRun` is queued, and can be sent. -/
theorem queued_frames_sendable_shortRun :
    ∃ s, hub.Reach (Hub.ShortTexts (postcardCodec "" "")) s ∧
      (∃ x ∈ s.sessions, x.queue ≠ []) ∧
      ∀ x ∈ s.sessions, ∀ frame ∈ x.queue, ∃ p, (postcardCodec "" "").payload frame = .ok p := by
  let start := Hub.start (Engine.new ⟨.replicate 16 0⟩ 8) LazyStore.new none
  have hguard : ∀ q ∈ hub.steps start shortRun,
      Hub.ShortTexts (postcardCodec "" "") q.1 q.2.1 := by
    intro q hq
    have hlabel : q.2.1 ∈ shortRun := System.label_mem_of_mem_steps hq
    simp only [shortRun, List.mem_cons, List.not_mem_nil, or_false] at hlabel
    rcases hlabel with hlabel | hlabel | hlabel
    · rw [hlabel]
      trivial
    · rw [hlabel]
      show "hi".utf8ByteSize + 43 ≤ maxFrame
      decide
    · rw [hlabel]
      trivial
  have hinit : hub.init start := ⟨_, _, _, rfl⟩
  obtain ⟨s, hreach, hqueue⟩ := System.exists_reach_of_run
    (p := fun s : Hub => ∃ x ∈ s.sessions, x.queue ≠ []) hinit shortRun hguard (by decide +kernel)
  exact ⟨s, hreach, hqueue,
    (queued_frames_sendable _ (isWireFormat_postcardCodec "" "")).1 s hreach⟩

end Borderless.Runtime
