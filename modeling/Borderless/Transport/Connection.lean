import Borderless.Lib.FrameStream
import Borderless.Transport.Framing

/-!
# The connection

`crates/transport/src/connection.rs` after the handshake. A `Connection` is one side of a session:
the stream behind one async mutex. `read_framed` holds the mutex from its first wait for a byte to
the end of the frame, and `write_framed` holds it from the first byte of the frame to the flush, so
the state of the mutex says who holds it and how far that call is.

`Move` is all that the calls of one side do to its mutex and its incoming bytes, with the bytes that
they put on the wire. In both directions the bytes that are read, on the wire and unsent are a
stream of whole frames (`Carries`).
-/

namespace Borderless.Transport

open FrameStream

/-- `borderless_core::encode` and `borderless_core::decode` of a frame. -/
structure FrameCodec where
  /-- `encode`. -/
  encode : WireFrame → Except String (List UInt8)
  /-- `decode`. -/
  decode : List UInt8 → Except String WireFrame

namespace FrameCodec

/-- What the repository relies on in postcard: it decodes what it has encoded. -/
def RoundTrip (c : FrameCodec) : Prop :=
  ∀ frame bytes, c.encode frame = .ok bytes → c.decode bytes = .ok frame

end FrameCodec

/-- The payload of a frame that passes the checks of `send_frame`. -/
structure Payload (c : FrameCodec) where
  /-- The bytes. -/
  bytes : List UInt8
  /-- They encode a frame. -/
  encoded : ∃ frame, c.encode frame = .ok bytes
  /-- They fit into a frame. -/
  le_max : bytes.length ≤ maxFrame
deriving DecidableEq

/-- `send_frame` and `write_framed` up to the lock. -/
def FrameCodec.payload (c : FrameCodec) (frame : WireFrame) : Except Error (Payload c) :=
  match h : c.encode frame with
  | .ok bytes =>
    if hle : bytes.length ≤ maxFrame then .ok ⟨bytes, ⟨frame, h⟩, hle⟩
    else .error (.codec s!"frame too large: {bytes.length} > {maxFrame}")
  | .error e => .error (.codec s!"encode: {e}")

/-- How many bytes `read_framed` still wants after it has read `buf`: first the length, and then the
payload. -/
def missing (buf : List UInt8) : Except Error ℕ :=
  if buf.length < 4 then .ok (4 - buf.length)
  else
    let len := u32FromLe (buf.take 4)
    if maxFrame < len then .error (.codec s!"frame too large: {len}")
    else .ok (4 + len - buf.length)

/-- `recv_frame` after it has read the frame `buf`. -/
def FrameCodec.received (c : FrameCodec) (buf : List UInt8) : Except Error WireFrame :=
  match c.decode (buf.drop 4) with
  | .ok frame => .ok frame
  | .error e => .error (.codec s!"decode: {e}")

/-- The tasks that call `write_framed`. -/
inductive Caller
  /-- The task that receives frames. -/
  | reader
  /-- The task that sends the frames of the channel. -/
  | writer
deriving DecidableEq

/-- The mutex of a connection. -/
inductive Lock
  /-- No task holds it. -/
  | free
  /-- The reader holds it in `read_framed`, and has read `buf`. -/
  | reading (buf : List UInt8)
  /-- A task holds it in `write_framed`, and `rest` is not written yet. -/
  | writing (caller : Caller) (rest : List UInt8)
deriving DecidableEq

/-- The bytes of the current frame that are read. -/
def Lock.read : Lock → List UInt8
  | reading buf => buf
  | free | writing _ _ => []

/-- The bytes of the current frame that are not written yet. -/
def Lock.unsent : Lock → List UInt8
  | writing _ rest => rest
  | free | reading _ => []

/-- `Connection::inner`: the mutex, and the stream behind it. -/
structure Inner where
  /-- The mutex. -/
  lock : Lock
  /-- The bytes that have arrived and are not read. -/
  inbox : List UInt8
deriving DecidableEq

/-- A connection is its lock and what has arrived. -/
theorem Inner.eq_mk (w : Inner) {lock : Lock} (h : w.lock = lock) : w = ⟨lock, w.inbox⟩ := by
  rw [← h]

/-- The reader holds the lock, has read nothing, and nothing has arrived. -/
def Inner.Parked (w : Inner) : Prop := w = ⟨.reading [], []⟩

instance : DecidablePred Inner.Parked := fun w => decEq w _

/-- A connection that is parked after bytes have arrived was so before, and none have arrived. -/
theorem Inner.parked_of_arrive {w : Inner} {bytes : List UInt8}
    (h : Inner.Parked { w with inbox := w.inbox ++ bytes }) : w.Parked ∧ bytes = [] := by
  obtain ⟨hlock, hinbox⟩ := Inner.mk.inj h
  obtain ⟨hold, hbytes⟩ := List.append_eq_nil_iff.1 hinbox
  refine ⟨?_, hbytes⟩
  rw [Inner.Parked, w.eq_mk hlock, hold]

/-- What the calls of one side do to its connection, with the bytes that go onto the wire. The flag
tells the calls of `read_framed` that take the lock from all others. -/
inductive Move (c : FrameCodec) : Bool → Inner → List UInt8 → Inner → Prop
  /-- Nothing. -/
  | rest (w : Inner) : Move c false w [] w
  /-- `read_framed` takes the lock. -/
  | readLock (inbox : List UInt8) : Move c true ⟨.free, inbox⟩ [] ⟨.reading [], inbox⟩
  /-- `read_framed` reads bytes that it wants. -/
  | read {buf a inbox : List UInt8} {n : ℕ} (hn : missing buf = .ok n) (ha : a ≠ [])
      (hle : a.length ≤ n) : Move c false ⟨.reading buf, a ++ inbox⟩ [] ⟨.reading (buf ++ a), inbox⟩
  /-- `read_framed` returns a frame. -/
  | received {buf : List UInt8} (inbox : List UInt8) (hn : missing buf = .ok 0) :
      Move c false ⟨.reading buf, inbox⟩ [] ⟨.free, inbox⟩
  /-- `write_framed` takes the lock. -/
  | writeLock (caller : Caller) (payload : Payload c) (inbox : List UInt8) :
      Move c false ⟨.free, inbox⟩ [] ⟨.writing caller (framed payload.bytes), inbox⟩
  /-- `write_framed` writes bytes. -/
  | write (caller : Caller) (a rest inbox : List UInt8) :
      Move c false ⟨.writing caller (a ++ rest), inbox⟩ a ⟨.writing caller rest, inbox⟩
  /-- `write_framed` returns. -/
  | unlock (caller : Caller) (inbox : List UInt8) :
      Move c false ⟨.writing caller [], inbox⟩ [] ⟨.free, inbox⟩

/-! ## The stream between two connections -/

/-- The frames that `write_framed` writes. -/
def IsFrame (c : FrameCodec) (bytes : List UInt8) : Prop :=
  ∃ payload : Payload c, bytes = framed payload.bytes

/-- The length of a payload within the limit reads back. -/
theorem u32FromLe_framed {payload buf : List UInt8} (hle : payload.length ≤ maxFrame)
    (hpre : buf <+: framed payload) (hbuf : 4 ≤ buf.length) :
    u32FromLe (buf.take 4) = payload.length := by
  have htake : buf.take 4 = u32ToLe payload.length := by
    rw [List.prefix_iff_eq_take.1 hpre, List.take_take, min_eq_left hbuf]
    exact List.take_left' (length_u32ToLe _)
  have hlt : payload.length < 2^32 := by
    unfold maxFrame at hle
    omega
  rw [htake, u32FromLe_u32ToLe, Nat.mod_eq_of_lt hlt]

/-- `read_framed` reads a frame to its end, and no further. -/
theorem delimits_missing (c : FrameCodec) :
    Delimits (fun buf => (missing buf).toOption) (IsFrame c) := by
  rintro buf f ⟨payload, rfl⟩ hpre
  have hlen := hpre.length_le
  rw [length_framed] at hlen
  by_cases hshort : buf.length < 4
  · -- the length is not complete
    refine ⟨4 - buf.length, ?_, ?_, ?_⟩
    · simp only [missing, if_pos hshort]
      rfl
    · rw [length_framed]
      omega
    · omega
  · -- the length is complete, and within the limit
    have hle := payload.le_max
    refine ⟨4 + payload.bytes.length - buf.length, ?_, ?_, fun h0 => ?_⟩
    · simp only [missing, if_neg hshort, u32FromLe_framed hle hpre (by omega), if_neg hle.not_gt]
      rfl
    · rw [length_framed]
      omega
    · exact hpre.eq_of_length (by rw [length_framed]; omega)

/-- The bytes on their way from the connection `w` to the connection `v` are a stream of frames. -/
def Carries (c : FrameCodec) (w v : Inner) : Prop :=
  Aligned (IsFrame c) v.lock.read (v.inbox ++ w.lock.unsent)

/-- A frame in an aligned buffer is decoded. -/
theorem received_of_isFrame {c : FrameCodec} (hc : c.RoundTrip) {buf : List UInt8}
    (h : IsFrame c buf) : ∃ frame, c.received buf = .ok frame := by
  obtain ⟨payload, rfl⟩ := h
  obtain ⟨frame, hframe⟩ := payload.encoded
  have hdrop : (framed payload.bytes).drop 4 = payload.bytes := List.drop_left' (length_u32ToLe _)
  refine ⟨frame, ?_⟩
  unfold FrameCodec.received
  rw [hdrop, hc frame payload.bytes hframe]

variable {c : FrameCodec} {b : Bool} {w w' v : Inner} {bytes : List UInt8}

/-- Where a reader that holds the lock of a connection is: it is parked and has read nothing; or it
has read a whole frame; or it wants bytes, and some have arrived or are to be written. -/
theorem Carries.cases (h : Carries c v w) {buf : List UInt8} (hlock : w.lock = .reading buf) :
    w.Parked ∧ buf = [] ∨ missing buf = .ok 0 ∧ IsFrame c buf ∨
    (∃ n, missing buf = .ok (n + 1)) ∧ (w.inbox ≠ [] ∨ v.lock.unsent ≠ []) := by
  have hok : ∀ n, (missing buf).toOption = some n → missing buf = .ok n := by
    intro n hn
    cases hm : missing buf with
    | ok m =>
      rw [hm] at hn
      rw [Option.some.inj hn]
    | error e =>
      rw [hm] at hn
      cases hn
  unfold Carries at h
  rw [hlock] at h
  rcases Aligned.cases (delimits_missing c) h with ⟨hbuf, hrest⟩ | ⟨hn, hframe, -⟩ | ⟨⟨n, hn⟩, hne⟩
  · obtain rfl : buf = [] := hbuf
    have hinbox := (List.append_eq_nil_iff.1 hrest).1
    refine .inl ⟨?_, rfl⟩
    rw [Inner.Parked, w.eq_mk hlock, hinbox]
  · exact .inr (.inl ⟨hok 0 hn, hframe⟩)
  · refine .inr (.inr ⟨⟨n, hok (n + 1) hn⟩, ?_⟩)
    rw [Ne, List.append_eq_nil_iff] at hne
    exact not_and_or.1 hne

/-- What a connection reads leaves the stream to it aligned. -/
theorem Carries.receive (h : Carries c v w) (hm : Move c b w bytes w') : Carries c v w' := by
  cases hm with
  | rest => exact h
  | readLock => exact h
  | read hn ha hle =>
    unfold Carries at h ⊢
    rw [List.append_assoc] at h
    exact h.read (delimits_missing c) (congrArg Except.toOption hn) hle
  | @received buf inbox hn =>
    have hwant := congrArg Except.toOption hn
    rcases Aligned.cases (delimits_missing c) h with ⟨hbuf, -⟩ | ⟨-, -, hrest⟩ | ⟨⟨n, hn'⟩, -⟩
    · -- before its first byte a frame wants four
      rw [show buf = [] from hbuf] at hn
      cases hn
    · exact hrest
    · cases hwant.symm.trans hn'
  | writeLock => exact h
  | write => exact h
  | unlock => exact h

/-- What a connection writes keeps the stream from it aligned. -/
theorem Carries.send (h : Carries c w v) (hm : Move c b w bytes w') :
    Carries c w' { v with inbox := v.inbox ++ bytes } := by
  unfold Carries at h ⊢
  cases hm with
  | rest => simpa using h
  | readLock => simpa [Lock.unsent] using h
  | read => simpa [Lock.unsent] using h
  | received => simpa [Lock.unsent] using h
  | writeLock caller payload inbox =>
    simp only [Lock.unsent, List.append_nil] at h ⊢
    exact h.append ⟨payload, rfl⟩
  | write caller a rest inbox => simpa [Lock.unsent] using h
  | unlock => simpa [Lock.unsent] using h

/-- Only a reader that takes the lock with nothing to read parks. -/
theorem Move.parked (hm : Move c b w bytes w') (h : w'.Parked) :
    w.Parked ∨ b = true ∧ w = ⟨.free, []⟩ := by
  unfold Inner.Parked at *
  cases hm with
  | rest => exact .inl h
  | readLock inbox =>
    obtain ⟨-, hinbox⟩ := Inner.mk.inj h
    exact .inr ⟨rfl, by rw [hinbox]⟩
  | read hn ha hle =>
    obtain ⟨hlock, -⟩ := Inner.mk.inj h
    have hnil := (List.append_eq_nil_iff.1 (Lock.reading.inj hlock)).2
    exact absurd hnil ha
  | received => cases h
  | writeLock => cases h
  | write => cases h
  | unlock => cases h

/-- A `read_framed` that takes the lock has read nothing. -/
theorem Move.readLock_eq (hm : Move c true w bytes w') :
    w' = ⟨.reading [], w.inbox⟩ ∧ bytes = [] := by
  cases hm with
  | readLock inbox => exact ⟨rfl, rfl⟩

/-- A connection that is parked does nothing by itself. -/
theorem Move.of_parked (hm : Move c b w bytes w') (h : w.Parked) : w' = w ∧ bytes = [] := by
  unfold Inner.Parked at h
  cases hm with
  | rest => exact ⟨rfl, rfl⟩
  | readLock => cases h
  | read hn ha hle =>
    obtain ⟨-, hinbox⟩ := Inner.mk.inj h
    exact absurd (List.append_eq_nil_iff.1 hinbox).1 ha
  | received inbox hn =>
    obtain ⟨hlock, -⟩ := Inner.mk.inj h
    rw [Lock.reading.inj hlock] at hn
    cases hn
  | writeLock => cases h
  | write => cases h
  | unlock => cases h

end Borderless.Transport
