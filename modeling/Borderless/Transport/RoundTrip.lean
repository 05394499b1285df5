import Borderless.Transport.Link

/-!
# The round trip of the framed stream

Where the peer is in the stream of frames that the calls of `send_frame` put on it: it reads the
frame after those that it has returned (`Link.Receiving`), or the transport was cut and it has
failed (`Link.Failed`). Every step keeps this (`Link.inStream_step`).

`framed_stream_round_trip` says what the peer gets in every state of every run: the frames in the
order of the lock, all of them once there is nothing left to deliver or to read, and after a cut
those that were delivered whole, and then errors.
-/

namespace Borderless.Transport

open FrameStream Transition

/-- What `send_frame` writes for a frame that passes its checks encodes the frame. -/
theorem Sent.encoded {c : FrameCodec} (x : Sent c) : c.encode x.frame = .ok x.payload.bytes := by
  have hchecked := x.checked
  unfold FrameCodec.payload at hchecked
  split at hchecked
  · next bytes hbytes =>
    split_ifs at hchecked
    rw [hbytes, ← Except.ok.inj hchecked]
  · cases hchecked

/-- The peer returns the frame that was sent. -/
theorem Sent.received {c : FrameCodec} (hc : c.RoundTrip) (x : Sent c) :
    c.received (framed x.payload.bytes) = .ok x.frame := by
  have hdrop : (framed x.payload.bytes).drop 4 = x.payload.bytes :=
    List.drop_left' (length_u32ToLe _)
  unfold FrameCodec.received
  rw [hdrop, hc _ _ x.encoded]

/-- A reader that has read nothing wants the four bytes of the length. -/
theorem missing_nil : missing [] = .ok 4 := rfl

namespace Link

variable {c : FrameCodec}

/-- The frames on the stream, in the order of the lock. -/
def stream (order : List (ℕ × Sent c)) : List (List UInt8) :=
  order.map fun p => framed p.2.payload.bytes

/-- What the peer is to return, in the order of the lock. -/
def expected (order : List (ℕ × Sent c)) : List (Except Error WireFrame) :=
  order.map fun p => .ok p.2.frame

/-- The stream is of frames. -/
theorem isFrame_stream {order : List (ℕ × Sent c)} {f : List UInt8} (h : f ∈ stream order) :
    IsFrame c f := by
  obtain ⟨p, -, rfl⟩ := List.mem_map.1 h
  exact ⟨p.2.payload, rfl⟩

section Append

variable {order : List (ℕ × Sent c)} {k : ℕ} (p : ℕ × Sent c)

/-- A new frame leaves the first ones as they are. -/
theorem take_stream_append (h : k ≤ order.length) :
    (stream (order ++ [p])).take k = (stream order).take k := by
  unfold stream
  rw [List.map_append, List.take_append_of_le_length (by simpa using h)]

/-- A new frame comes after the others. -/
theorem drop_stream_append (h : k ≤ order.length) :
    (stream (order ++ [p])).drop k = (stream order).drop k ++ [framed p.2.payload.bytes] := by
  unfold stream
  rw [List.map_append, List.drop_append_of_le_length (by simpa using h)]
  rfl

/-- A new frame leaves what is to be returned before it as it is. -/
theorem take_expected_append (h : k ≤ order.length) :
    (expected (order ++ [p])).take k = (expected order).take k := by
  unfold expected
  rw [List.map_append, List.take_append_of_le_length (by simpa using h)]

end Append

/-- The peer has returned the first `k` frames, and reads the next one. -/
structure Receiving (s : Link c) (k : ℕ) : Prop where
  /-- There are so many frames. -/
  le : k ≤ s.order.length
  /-- What was returned. -/
  results : s.results = (expected s.order).take k
  /-- What was delivered. -/
  arrived : s.arrived = ((stream s.order).take k).flatten ++ s.buf ++ s.inbox
  /-- What is to come, the bytes on the wire and the unsent ones as long as nothing is cut. -/
  rest : ∃ rest, AlignedTo ((stream s.order).drop k) s.buf (s.inbox ++ rest) ∧
    (s.isCut = false → rest = s.wire ++ s.lock.unsent)

/-- The transport is cut; the peer has returned the first `k` frames, which are those delivered
whole, and then errors. -/
structure Failed (s : Link c) (k : ℕ) : Prop where
  /-- There are so many frames. -/
  le : k ≤ s.order.length
  /-- The transport is cut. -/
  isCut : s.isCut = true
  /-- Nothing is left to read. -/
  nothing : s.buf = [] ∧ s.inbox = []
  /-- What was returned. -/
  results : ∃ errs, errs ≠ [] ∧ (∀ r ∈ errs, ∃ e, r = .error e) ∧
    s.results = (expected s.order).take k ++ errs
  /-- What was delivered: the first `k` frames, and less than the next one. -/
  arrived : ∃ part more, s.arrived = ((stream s.order).take k).flatten ++ part ∧
    AlignedTo ((stream s.order).drop k) part more ∧
    ∀ f ∈ ((stream s.order).drop k).head?, part.length < f.length

/-- Where the peer is in the stream. -/
def InStream (s : Link c) : Prop := ∃ k, s.Receiving k ∨ s.Failed k

variable {s t : Link c}

/-- What the peer does not see leaves it where it is. -/
theorem InStream.congr (h : s.InStream) (horder : t.order = s.order)
    (hcut : t.isCut = false → s.isCut = false ∧
      t.wire ++ t.lock.unsent = s.wire ++ s.lock.unsent)
    (harrived : t.arrived = s.arrived) (hinbox : t.inbox = s.inbox) (hbuf : t.buf = s.buf)
    (hresults : t.results = s.results) : t.InStream := by
  obtain ⟨k, h | h⟩ := h
  · -- no read has failed
    obtain ⟨rest, haligned, hrest⟩ := h.rest
    refine ⟨k, .inl ⟨?_, ?_, ?_, rest, ?_, fun hnot => ?_⟩⟩
    · rw [horder]
      exact h.le
    · rw [hresults, horder, h.results]
    · rw [harrived, horder, hbuf, hinbox, h.arrived]
    · rw [horder, hbuf, hinbox]
      exact haligned
    · obtain ⟨hnot', hsame⟩ := hcut hnot
      rw [hsame, hrest hnot']
  · -- the stream is cut, and stays so
    have hisCut : t.isCut = true := by
      cases hnot : t.isCut with
      | true => rfl
      | false =>
        have hcontra := h.isCut
        rw [(hcut hnot).1] at hcontra
        cases hcontra
    refine ⟨k, .inr ⟨?_, hisCut, ?_, ?_, ?_⟩⟩
    · rw [horder]
      exact h.le
    · rw [hbuf, hinbox]
      exact h.nothing
    · rw [horder, hresults]
      exact h.results
    · rw [horder, harrived]
      exact h.arrived

/-- A call that gets the lock adds its frame to the stream. -/
theorem inStream_lock (h : s.InStream) (hlock : s.lock = .free) (i : ℕ) (x : Sent c)
    (calls : List (SendCall c)) :
    InStream { s with
      lock := .held i (framed x.payload.bytes)
      order := s.order ++ [(i, x)]
      calls := calls } := by
  have hlength : (s.order ++ [(i, x)]).length = s.order.length + 1 := by
    rw [List.length_append, List.length_singleton]
  obtain ⟨k, h | h⟩ := h
  · -- the new frame comes after what is still to be read
    obtain ⟨rest, haligned, hrest⟩ := h.rest
    refine ⟨k, .inl ⟨hlength ▸ Nat.le_succ_of_le h.le, ?_, ?_, rest ++ framed x.payload.bytes, ?_,
      fun hnot => ?_⟩⟩
    · exact h.results.trans (take_expected_append _ h.le).symm
    · show s.arrived = ((stream (s.order ++ [(i, x)])).take k).flatten ++ s.buf ++ s.inbox
      rw [take_stream_append _ h.le, h.arrived]
    · show AlignedTo ((stream (s.order ++ [(i, x)])).drop k) s.buf _
      rw [drop_stream_append _ h.le, ← List.append_assoc]
      exact haligned.append _
    · rw [hrest hnot, hlock]
      simp [SendLock.unsent]
  · -- it is never read, for a read has failed
    obtain ⟨errs, hne, herrs, hresults⟩ := h.results
    obtain ⟨part, more, harrived, haligned, hpart⟩ := h.arrived
    refine ⟨k, .inr ⟨hlength ▸ Nat.le_succ_of_le h.le, h.isCut, h.nothing, ⟨errs, hne, herrs, ?_⟩,
      part, more ++ framed x.payload.bytes, ?_, ?_, ?_⟩⟩
    · show s.results = (expected (s.order ++ [(i, x)])).take k ++ errs
      rw [take_expected_append _ h.le, hresults]
    · show s.arrived = ((stream (s.order ++ [(i, x)])).take k).flatten ++ part
      rw [take_stream_append _ h.le, harrived]
    · show AlignedTo ((stream (s.order ++ [(i, x)])).drop k) part _
      rw [drop_stream_append _ h.le]
      exact haligned.append _
    · intro f hf
      change f ∈ ((stream (s.order ++ [(i, x)])).drop k).head? at hf
      rw [drop_stream_append _ h.le] at hf
      cases hdrop : (stream s.order).drop k with
      | nil =>
        -- nothing was delivered of a frame that was not there
        rw [hdrop] at hf haligned
        obtain rfl : framed x.payload.bytes = f := Option.some.inj hf
        have hnil := (List.append_eq_nil_iff.1 haligned.flatten).1
        rw [hnil, length_framed, List.length_nil]
        omega
      | cons g gs =>
        rw [hdrop] at hf hpart
        exact hpart f hf

/-- What the transport delivers is still to be read. -/
theorem inStream_deliver (h : s.InStream) (hcut : s.isCut = false) (n : ℕ) :
    InStream { s with
      wire := s.wire.drop n
      arrived := s.arrived ++ s.wire.take n
      inbox := s.inbox ++ s.wire.take n } := by
  obtain ⟨k, h | h⟩ := h
  · obtain ⟨rest, haligned, hrest⟩ := h.rest
    refine ⟨k, .inl ⟨h.le, h.results, ?_, s.wire.drop n ++ s.lock.unsent, ?_, fun _ => rfl⟩⟩
    · show s.arrived ++ s.wire.take n = _ ++ s.buf ++ (s.inbox ++ s.wire.take n)
      rw [h.arrived, List.append_assoc _ s.inbox]
    · show AlignedTo _ s.buf (s.inbox ++ s.wire.take n ++ (s.wire.drop n ++ s.lock.unsent))
      rw [hrest hcut] at haligned
      rw [List.append_assoc, ← List.append_assoc (s.wire.take n), List.take_append_drop]
      exact haligned
  · have hcontra := h.isCut
    rw [hcut] at hcontra
    cases hcontra

/-- The number of bytes that a reader wants, as an option. -/
theorem toOption_missing {buf : List UInt8} {n : ℕ} :
    (missing buf).toOption = some n ↔ missing buf = .ok n := by
  cases missing buf with
  | ok m => simp [Except.toOption]
  | error e => simp [Except.toOption]

/-- What the peer reads is of the next frame. -/
theorem inStream_read (h : s.InStream) {m n : ℕ} (hm : missing s.buf = .ok m) (hpos : 0 < n)
    (hle : n ≤ m) (hinbox : n ≤ s.inbox.length) :
    InStream { s with buf := s.buf ++ s.inbox.take n, inbox := s.inbox.drop n } := by
  obtain ⟨k, h | h⟩ := h
  · obtain ⟨rest, haligned, hrest⟩ := h.rest
    refine ⟨k, .inl ⟨h.le, h.results, ?_, rest, ?_, hrest⟩⟩
    · show s.arrived = _ ++ (s.buf ++ s.inbox.take n) ++ s.inbox.drop n
      rw [h.arrived, List.append_assoc, List.append_assoc, List.append_assoc,
        List.take_append_drop, ← List.append_assoc]
    · rw [← List.take_append_drop n s.inbox, List.append_assoc] at haligned
      refine haligned.read (delimits_missing c)
        (fun f hf => isFrame_stream (List.mem_of_mem_drop hf)) (toOption_missing.2 hm) ?_
      rw [List.length_take]
      omega
  · rw [h.nothing.2] at hinbox
    simp only [List.length_nil] at hinbox
    omega

/-- A frame that the peer has read to its end is the next one. -/
theorem inStream_recv (hc : c.RoundTrip) (h : s.InStream) (hm : missing s.buf = .ok 0) :
    InStream { s with buf := [], results := s.results ++ [c.received s.buf] } := by
  obtain ⟨k, h | h⟩ := h
  · obtain ⟨rest, haligned, hrest⟩ := h.rest
    have hframes : ∀ f ∈ (stream s.order).drop k, IsFrame c f :=
      fun f hf => isFrame_stream (List.mem_of_mem_drop hf)
    rcases haligned.cases (delimits_missing c) hframes with ⟨-, hbuf, -⟩ | ⟨fs, hdrop, -, hnext⟩ |
      ⟨⟨f, fs, n, -, -, -, hn⟩, -⟩
    · rw [hbuf, missing_nil] at hm
      cases hm
    · have hlt : k < s.order.length := by
        have hpos := congrArg List.length hdrop
        simp only [stream, List.length_drop, List.length_map, List.length_cons] at hpos
        omega
      -- the frame `k` is read, so the peer returns it
      have hget : (stream s.order)[k]? = some s.buf := by
        rw [← List.head?_drop, hdrop]
        rfl
      have hbuf : s.buf = framed s.order[k].2.payload.bytes := by
        simp only [stream, List.getElem?_map, List.getElem?_eq_getElem hlt, Option.map_some] at hget
        exact (Option.some.inj hget).symm
      have htake : (stream s.order).take (k + 1) = (stream s.order).take k ++ [s.buf] := by
        rw [List.take_add_one, hget]
        rfl
      refine ⟨k + 1, .inl ⟨hlt, ?_, ?_, rest, ?_, hrest⟩⟩
      · show s.results ++ [c.received s.buf] = (expected s.order).take (k + 1)
        rw [List.take_add_one, ← h.results, hbuf, Sent.received hc]
        simp [expected, hlt]
      · show s.arrived = ((stream s.order).take (k + 1)).flatten ++ [] ++ s.inbox
        rw [htake, List.flatten_append, List.flatten_singleton, List.append_nil, h.arrived]
      · show AlignedTo ((stream s.order).drop (k + 1)) [] (s.inbox ++ rest)
        rw [← List.drop_drop, hdrop]
        exact hnext
    · have hcontra := hm.symm.trans (toOption_missing.1 hn)
      cases hcontra
  · -- after a failed read there is no frame to return
    rw [h.nothing.1, missing_nil] at hm
    cases hm

/-- Within a stream of frames a reader finds no length over the limit. -/
theorem InStream.missing_ok (h : s.InStream) : ∃ n, missing s.buf = .ok n := by
  obtain ⟨k, h | h⟩ := h
  · obtain ⟨rest, haligned, -⟩ := h.rest
    rcases haligned.cases (delimits_missing c)
      (fun f hf => isFrame_stream (List.mem_of_mem_drop hf)) with ⟨-, hbuf, -⟩ |
      ⟨fs, -, hn, -⟩ | ⟨⟨f, fs, n, -, -, -, hn⟩, -⟩
    · rw [hbuf]
      exact ⟨4, missing_nil⟩
    · exact ⟨0, toOption_missing.1 hn⟩
    · exact ⟨n + 1, toOption_missing.1 hn⟩
  · rw [h.nothing.1]
    exact ⟨4, missing_nil⟩

/-- At the end of a cut stream the peer has returned the frames that were delivered whole, and
fails. -/
theorem inStream_recvFail (h : s.InStream) {n : ℕ} (hm : missing s.buf = .ok (n + 1))
    (hcut : s.isCut = true) (hinbox : s.inbox = []) (e : String) :
    InStream { s with buf := [], results := s.results ++ [.error (.io e)] } := by
  obtain ⟨k, h | h⟩ := h
  · obtain ⟨rest, haligned, -⟩ := h.rest
    -- this is the first read that fails
    have harrived := h.arrived
    rw [hinbox, List.append_nil] at harrived
    refine ⟨k, .inr ⟨h.le, hcut, ⟨rfl, hinbox⟩, ⟨[.error (.io e)], by simp, by simp, ?_⟩, s.buf,
      s.inbox ++ rest, harrived, haligned, fun f hf => ?_⟩⟩
    · show s.results ++ [.error (.io e)] = _
      rw [h.results]
    · -- a reader that wants bytes has less than the frame
      obtain ⟨m, hm', hle, -⟩ := delimits_missing c s.buf f
        (isFrame_stream (List.mem_of_mem_drop (List.mem_of_mem_head? hf))) (haligned.head f hf)
      have heq : missing s.buf = .ok m := toOption_missing.1 hm'
      rw [hm] at heq
      have hmn := Except.ok.inj heq
      omega
  · obtain ⟨errs, hne, herrs, hresults⟩ := h.results
    refine ⟨k, .inr ⟨h.le, hcut, ⟨rfl, hinbox⟩, ⟨errs ++ [.error (.io e)], by simp, ?_, ?_⟩,
      h.arrived⟩⟩
    · intro r hr
      rcases List.mem_append.1 hr with hold | hnew
      · exact herrs r hold
      · exact ⟨_, List.mem_singleton.1 hnew⟩
    · show s.results ++ [.error (.io e)] = _
      rw [hresults, List.append_assoc]

/-- Every step leaves the peer somewhere in the stream. -/
theorem inStream_step (hc : c.RoundTrip) (h : s.InStream) {a : LinkLabel}
    (hstep : s.step a = some t) : t.InStream := by
  cases a with
  | call frame =>
    obtain rfl := Option.some.inj hstep
    exact h.congr rfl (fun hcut => ⟨hcut, rfl⟩) rfl rfl rfl rfl
  | lock i =>
    obtain ⟨frame, x, hlock, -, rfl⟩ := step_lock hstep
    exact inStream_lock h hlock i x _
  | write n =>
    obtain ⟨i, rest, hlock, rfl⟩ := step_write hstep
    refine h.congr rfl (fun hcut => ⟨hcut, ?_⟩) rfl rfl rfl rfl
    -- the bytes move from the holder of the lock to the wire
    show (if s.isCut then s.wire else s.wire ++ rest.take n) ++ rest.drop n = _
    have hnot : s.isCut = false := hcut
    rw [hnot, hlock]
    simp [SendLock.unsent]
  | finish =>
    -- whoever gives the lock back has nothing left to write
    obtain ⟨i, hlock, hrelease⟩ := step_finish hstep
    obtain ⟨frame, x, -, rfl⟩ := release_eq_some hrelease
    refine h.congr rfl (fun hcut => ⟨hcut, ?_⟩) rfl rfl rfl rfl
    rw [hlock]
    rfl
  | fail e =>
    obtain ⟨i, rest, hcut, -, hrelease⟩ := step_fail hstep
    obtain ⟨frame, x, -, rfl⟩ := release_eq_some hrelease
    refine h.congr rfl (fun hnot => ?_) rfl rfl rfl rfl
    cases hcut.symm.trans hnot
  | recvLock =>
    obtain ⟨hlock, rfl⟩ := step_recvLock hstep
    refine h.congr rfl (fun hcut => ⟨hcut, ?_⟩) rfl rfl rfl rfl
    rw [hlock]
    rfl
  | recvUnlock =>
    obtain ⟨hlock, rfl⟩ := step_recvUnlock hstep
    refine h.congr rfl (fun hcut => ⟨hcut, ?_⟩) rfl rfl rfl rfl
    rw [hlock]
    rfl
  | deliver n =>
    obtain ⟨hcut, rfl⟩ := step_deliver hstep
    exact inStream_deliver h hcut n
  | cut =>
    obtain rfl := Option.some.inj hstep
    exact h.congr rfl nofun rfl rfl rfl rfl
  | read n =>
    obtain ⟨m, hm, ⟨hpos, hle, hinbox⟩, rfl⟩ := step_read hstep
    exact inStream_read h hm hpos hle hinbox
  | recv =>
    obtain ⟨hm, rfl⟩ := step_recv hstep
    exact inStream_recv hc h hm
  | recvFail e =>
    obtain ⟨n, hn⟩ := h.missing_ok
    rcases step_recvFail hstep with ⟨m, hm, hcut, hinbox, rfl⟩ | ⟨e', hm, -⟩
    · exact inStream_recvFail h hm hcut hinbox e
    · cases hm.symm.trans hn

/-! ## What the peer gets -/

/-- No call of `send_frame` holds the lock. -/
def NoHolder (s : Link c) : Prop := ∀ i rest, s.lock ≠ .held i rest

/-- There is nothing left for the transport and the peer to do. -/
def Drained (s : Link c) : Prop :=
  (∀ n, s.step (.deliver n) = none) ∧ (∀ n, s.step (.read n) = none) ∧ s.step .recv = none

/-- The frames of the calls that have returned `Ok`, in the order of the lock. -/
def succeeded (s : Link c) : List WireFrame :=
  s.order.filterMap fun p =>
    match s.calls[p.1]? with
    | some ⟨_, .returned _ (.ok _)⟩ => some p.2.frame
    | _ => none

/-- The first `k` frames are those that were delivered whole. -/
def DeliveredWhole (s : Link c) (k : ℕ) : Prop :=
  ((stream s.order).take k).flatten <+: s.arrived ∧
    ∀ j, k < j → j ≤ s.order.length → ¬ ((stream s.order).take j).flatten <+: s.arrived

/-- What the peer gets of what is sent. -/
structure RoundTrips (s : Link c) : Prop where
  /-- A call that returns `Ok` has got the lock once, with its own frame. -/
  once : (s.order.map Prod.fst).Nodup ∧ ∀ i call x, s.calls[i]? = some call →
    call.stage = .returned x (.ok ()) → call.frame = x.frame ∧ (i, x) ∈ s.order
  /-- Without a cut every call that has got the lock succeeds. -/
  succeeds : s.isCut = false → s.NoHolder → s.succeeded = s.order.map fun p => p.2.frame
  /-- The peer returns the first frames in the order of the lock; only after a cut, and only once it
  has returned all that were delivered whole, it returns errors. -/
  received : ∃ k errs, k ≤ s.order.length ∧ s.results = (expected s.order).take k ++ errs ∧
    (∀ r ∈ errs, ∃ e, r = .error e) ∧
    (errs ≠ [] → s.isCut = true ∧ s.DeliveredWhole k)
  /-- Without a cut, and with nothing left to do, the peer has returned exactly the frames of the
  successful calls. -/
  complete : s.isCut = false → s.NoHolder → s.Drained → s.results = s.succeeded.map .ok
  /-- Without a cut the bytes on the stream are those of the calls that have got the lock. -/
  bytes : s.isCut = false →
    s.arrived ++ s.wire ++ s.lock.unsent = (stream s.order).flatten
  /-- A call with a frame over the limit returns an error, and never gets the lock. -/
  tooLarge : ∀ i call payload, s.calls[i]? = some call → c.encode call.frame = .ok payload →
    maxFrame < payload.length → (∃ e, call.stage = .refused e) ∧ ∀ x, (i, x) ∉ s.order
  /-- After a cut the peer is not blocked: when it has nothing to read or to return, it fails. -/
  fails : s.isCut = true → (∀ n, s.step (.read n) = none) → s.step .recv = none →
    ∀ e, (s.step (.recvFail e)).isSome

/-- The checked call of a frame within the limits encodes it. -/
theorem SendStage.Checked.refused {frame : WireFrame} {stage : SendStage c}
    (h : stage.Checked frame) {payload : List UInt8} (hencode : c.encode frame = .ok payload)
    (hlarge : maxFrame < payload.length) : ∃ e, stage = .refused e := by
  have hnot : ∀ x : Sent c, x.frame ≠ frame := by
    rintro x rfl
    have heq := Except.ok.inj (x.encoded.symm.trans hencode)
    have hle := x.payload.le_max
    rw [heq] at hle
    omega
  cases stage with
  | refused e => exact ⟨e, rfl⟩
  | waiting x => exact absurd h (hnot x)
  | holding x => exact absurd h (hnot x)
  | returned x result => exact absurd h (hnot x)

/-- Without a cut every call in the order succeeds once the lock is given back. -/
theorem CallsInOrder.succeeded_eq (h : s.CallsInOrder) (hcut : s.isCut = false)
    (hlock : s.NoHolder) : s.succeeded = s.order.map fun p => p.2.frame := by
  have hsome : ∀ p ∈ s.order, (match s.calls[p.1]? with
      | some ⟨_, .returned _ (.ok _)⟩ => some p.2.frame
      | _ => none) = some p.2.frame := by
    rintro ⟨i, x⟩ hp
    obtain ⟨call, hcall, hacquired⟩ := (h.mem_order i x).1 hp
    rcases call with ⟨frame, stage⟩
    cases stage with
    | refused e => cases hacquired
    | waiting y => cases hacquired
    | holding y =>
      obtain ⟨rest, hrest⟩ := h.holder i _ y hcall rfl
      exact absurd hrest (hlock i rest)
    | returned y result =>
      have hok := h.succeeds hcut _ (List.mem_of_getElem? hcall) y result rfl
      subst hok
      simp only [hcall]
  unfold succeeded
  rw [List.filterMap_congr hsome, List.filterMap_eq_map']

/-- A stream that is cut has been delivered up to the frame that the peer failed to read. -/
theorem Failed.deliveredWhole {k : ℕ} (h : s.Failed k) : s.DeliveredWhole k := by
  obtain ⟨part, more, harrived, -, hpart⟩ := h.arrived
  refine ⟨⟨part, harrived.symm⟩, fun j hkj hj hpre => ?_⟩
  obtain ⟨f, fs, hdrop⟩ : ∃ f fs, (stream s.order).drop k = f :: fs := by
    refine List.exists_cons_of_length_pos ?_
    simp only [stream, List.length_drop, List.length_map]
    omega
  have hshort := hpart f (by rw [hdrop]; rfl)
  -- the frame after the first `k` is longer than what has arrived of it
  have htake : (stream s.order).take j =
      (stream s.order).take k ++ f :: fs.take (j - k - 1) := by
    obtain ⟨d, rfl⟩ : ∃ d, j = k + (d + 1) := ⟨j - k - 1, by omega⟩
    rw [List.take_add, hdrop, List.take_succ_cons]
    congr 3
    omega
  have hlength := hpre.length_le
  rw [htake, harrived, List.flatten_append, List.flatten_cons] at hlength
  simp only [List.length_append] at hlength
  omega

/-- Without a cut, a drained stream has been returned whole. -/
theorem Receiving.drained {k : ℕ} (h : s.Receiving k) (hcut : s.isCut = false)
    (hlock : s.NoHolder) (hdrained : s.Drained) : k = s.order.length := by
  obtain ⟨hdeliver, hread, hrecv⟩ := hdrained
  obtain ⟨rest, haligned, hrest⟩ := h.rest
  have hunsent : s.lock.unsent = [] := by
    cases hheld : s.lock with
    | free => rfl
    | receiving => rfl
    | held i rest => exact absurd hheld (hlock i rest)
  have hwire : s.wire = [] := by
    by_contra hne
    have hpos := List.length_pos_iff.2 hne
    have hstep := hdeliver 1
    simp only [step, hcut] at hstep
    rw [if_pos ⟨trivial, by omega, hpos⟩] at hstep
    cases hstep
  have hnil : rest = [] := by
    rw [hrest hcut, hwire, hunsent]
    rfl
  rcases haligned.cases (delimits_missing c)
    (fun f hf => isFrame_stream (List.mem_of_mem_drop hf)) with ⟨hdrop, -, -⟩ | ⟨fs, -, hn, -⟩ |
    ⟨⟨f, fs, n, -, -, -, hn⟩, hne⟩
  · have hlength := congrArg List.length hdrop
    simp only [stream, List.length_drop, List.length_map, List.length_nil] at hlength
    have hle := h.le
    omega
  · have hstep := hrecv
    simp only [step, toOption_missing.1 hn] at hstep
    cases hstep
  · -- bytes are wanted, and some are there
    have hinbox : s.inbox ≠ [] := by
      rw [hnil, List.append_nil] at hne
      exact hne
    have hpos := List.length_pos_iff.2 hinbox
    have hstep := hread 1
    simp only [step, toOption_missing.1 hn] at hstep
    rw [if_pos ⟨by omega, by omega, hpos⟩] at hstep
    cases hstep

/-- After a cut the peer can always go on. -/
theorem InStream.fails (h : s.InStream) (hcut : s.isCut = true)
    (hread : ∀ n, s.step (.read n) = none) (hrecv : s.step .recv = none) (e : String) :
    (s.step (.recvFail e)).isSome := by
  obtain ⟨n, hn⟩ := h.missing_ok
  cases n with
  | zero =>
    simp only [step, hn] at hrecv
    cases hrecv
  | succ n =>
    have hinbox : s.inbox = [] := by
      by_contra hne
      have hpos := List.length_pos_iff.2 hne
      have hstep := hread 1
      simp only [step, hn] at hstep
      rw [if_pos ⟨by omega, by omega, hpos⟩] at hstep
      cases hstep
    simp only [step, hn]
    rw [if_pos ⟨hcut, hinbox⟩]
    rfl

/-- What the invariants say of a state. -/
theorem roundTrips_of_inStream (hstream : s.InStream) (hcalls : s.CallsInOrder) :
    s.RoundTrips := by
  constructor
  · refine ⟨hcalls.nodup, fun i call x hcall hx => ?_⟩
    have hchecked := hcalls.checked call (List.mem_of_getElem? hcall)
    rw [hx] at hchecked
    have hacquired : call.stage.acquired = some x := by rw [hx]; rfl
    exact ⟨Eq.symm hchecked, (hcalls.mem_order i x).2 ⟨call, hcall, hacquired⟩⟩
  · exact hcalls.succeeded_eq
  · obtain ⟨k, h | h⟩ := hstream
    · refine ⟨k, [], h.le, ?_, by simp, fun hne => absurd rfl hne⟩
      rw [List.append_nil, h.results]
    · obtain ⟨errs, hne, herrs, hresults⟩ := h.results
      exact ⟨k, errs, h.le, hresults, herrs, fun _ => ⟨h.isCut, h.deliveredWhole⟩⟩
  · intro hcut hlock hdrained
    obtain ⟨k, h | h⟩ := hstream
    -- everything that was sent has been read
    · have hk := h.drained hcut hlock hdrained
      rw [h.results, hcalls.succeeded_eq hcut hlock, hk,
        List.take_of_length_le (by simp [expected]), List.map_map]
      rfl
    · cases hcut.symm.trans h.isCut
  · intro hcut
    obtain ⟨k, h | h⟩ := hstream
    · obtain ⟨rest, haligned, hrest⟩ := h.rest
      have hflatten := haligned.flatten
      rw [hrest hcut] at hflatten
      calc s.arrived ++ s.wire ++ s.lock.unsent
          = ((stream s.order).take k).flatten ++
              (s.buf ++ (s.inbox ++ (s.wire ++ s.lock.unsent))) := by
            rw [h.arrived]
            simp only [List.append_assoc]
        _ = ((stream s.order).take k).flatten ++ ((stream s.order).drop k).flatten := by
            rw [hflatten]
        _ = (stream s.order).flatten := by
            rw [← List.flatten_append, List.take_append_drop]
    · cases hcut.symm.trans h.isCut
  · intro i call payload hcall hencode hlarge
    have hchecked := hcalls.checked call (List.mem_of_getElem? hcall)
    obtain ⟨e, he⟩ := SendStage.Checked.refused hchecked hencode hlarge
    refine ⟨⟨e, he⟩, fun x hx => ?_⟩
    obtain ⟨call', hcall', hacquired⟩ := (hcalls.mem_order i x).1 hx
    obtain rfl := Option.some.inj (hcall.symm.trans hcall')
    rw [he] at hacquired
    cases hacquired
  · exact hstream.fails

end Link

open Link

/-- The round trip of the framed stream. In every state of every run of one direction of a session,
the peer has returned the frames of the first calls that got the lock, in that order, and errors
only after a cut. Every payload that the sender admits has a length that reads back as it is, and
that the receiver admits. -/
theorem framed_stream_round_trip (c : FrameCodec) (hc : c.RoundTrip) :
    (∀ s, (link c).Reachable s → s.RoundTrips) ∧
    ∀ payload : Payload c, u32FromLe (u32ToLe payload.bytes.length) = payload.bytes.length ∧
      missing (u32ToLe payload.bytes.length) = .ok payload.bytes.length := by
  constructor
  · intro s hs
    have hinv : s.InStream ∧ s.CallsInOrder := by
      refine hs.invariant (I := fun s => s.InStream ∧ s.CallsInOrder) (fun s hinit => ?_)
        fun s a t h _ hstep => ⟨inStream_step hc h.1 hstep, callsInOrder_step h.2 hstep⟩
      obtain rfl : s = Link.start c := hinit
      refine ⟨⟨0, .inl ⟨le_rfl, rfl, rfl, [], alignedTo_nil, fun _ => rfl⟩⟩, ?_⟩
      constructor
      · exact List.nodup_nil
      · simp [Link.start]
      · simp [Link.start]
      · simp [Link.start]
      · simp [Link.start]
    exact roundTrips_of_inStream hinv.1 hinv.2
  · intro payload
    have hle := payload.le_max
    have hlength : u32FromLe (u32ToLe payload.bytes.length) = payload.bytes.length := by
      rw [u32FromLe_u32ToLe, Nat.mod_eq_of_lt]
      unfold maxFrame at hle
      omega
    refine ⟨hlength, ?_⟩
    have htake : (u32ToLe payload.bytes.length).take 4 = u32ToLe payload.bytes.length :=
      List.take_of_length_le (by rw [length_u32ToLe])
    unfold missing
    rw [if_neg (by simp)]
    simp only [htake, hlength, if_neg hle.not_gt, length_u32ToLe]
    congr 1
    omega

section Example

/-- A stand-in for postcard on two frames, with the bytes that postcard makes of them. -/
def pingCodec : FrameCodec where
  encode
    | .control (.ping nonce) =>
      if nonce = 0 then .ok [0, 2, 0] else if nonce = 1 then .ok [0, 2, 1] else .error "unsupported"
    | _ => .error "unsupported"
  decode bytes :=
    if bytes = [0, 2, 0] then .ok (.control (.ping 0))
    else if bytes = [0, 2, 1] then .ok (.control (.ping 1))
    else .error "unsupported"

/-- `pingCodec` decodes what it encoded. -/
theorem pingCodec_roundTrip : pingCodec.RoundTrip := by
  intro frame bytes h
  simp only [pingCodec] at h ⊢
  split at h
  · split_ifs at h with h0 h1
    · obtain rfl := Except.ok.inj h
      rw [if_pos rfl, h0]
    · obtain rfl := Except.ok.inj h
      rw [if_neg (by decide), if_pos rfl, h1]
  · cases h

/-- Two tasks send, the second call gets the lock first, and the stream is cut within the frame of
the first. -/
def cutRun : List LinkLabel :=
  [.call (.control (.ping 0)), .call (.control (.ping 1)), .lock 1, .write 3, .deliver 2, .read 1,
    .write 4, .finish, .lock 0, .write 7, .finish, .deliver 8, .read 3, .read 3, .recv, .read 3,
    .cut, .recvFail "eof"]

/-- In `cutRun` the peer gets the frame of the second call, and then an error. -/
theorem framed_stream_round_trip_cutRun : ∃ s : Link pingCodec, s.RoundTrips ∧
    s.results = [.ok (.control (.ping 1)), .error (.io "eof")] := by
  obtain ⟨s, hs, hresults⟩ := System.exists_reach_of_run (M := link pingCodec)
    (P := fun _ _ => True)
    (p := fun s => s.results = [.ok (.control (.ping 1)), .error (.io "eof")]) rfl cutRun
    (fun _ _ => trivial) (by decide +kernel)
  exact ⟨s, (framed_stream_round_trip pingCodec pingCodec_roundTrip).1 s hs, hresults⟩

end Example

end Borderless.Transport
