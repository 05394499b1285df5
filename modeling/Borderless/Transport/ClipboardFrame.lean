import Borderless.Clipboard.Engine
import Borderless.Lib.Postcard
import Borderless.Transport.Connection

/-!
# The size of a clipboard frame

The limit on a frame is enforced by `send_frame`, and the decision between inline bytes and a handle
is made by the producers of the clipboard. `ClipboardSnapshot.postcard` is the encoding of a
snapshot in the postcard format. An image is always within the limit, because a large one is a
handle. A text always rides along, and `produced_snapshots_sendable_iff` says how long it may be.
-/

namespace Borderless

/-! ## The encoding of a snapshot -/

/-- The variant of an `ImageFormat`. -/
def ImageFormat.postcard : ImageFormat → List UInt8
  | .png => Postcard.varint 0
  | .jpeg => Postcard.varint 1
  | .rgba8 => Postcard.varint 2

/-- A `LazyPayload`. -/
def LazyPayload.postcard : LazyPayload → List UInt8
  | .inline bytes => Postcard.varint 0 ++ Postcard.bytes bytes
  | .onDemand hash size => Postcard.varint 1 ++ hash.toList ++ Postcard.varint size.toNat

/-- A `FileRef`. -/
def FileRef.postcard : FileRef → List UInt8
  | .originPath path => Postcard.varint 0 ++ Postcard.string path
  | .inline name data => Postcard.varint 1 ++ Postcard.string name ++ Postcard.bytes data
  | .onDemand name size hash =>
    Postcard.varint 2 ++ Postcard.string name ++ Postcard.varint size.toNat ++ hash.toList

/-- A `ClipItem`. -/
def ClipItem.postcard : ClipItem → List UInt8
  | .text t => Postcard.varint 0 ++ Postcard.string t
  | .html h plainFallback =>
    Postcard.varint 1 ++ Postcard.string h ++ Postcard.string plainFallback
  | .image format hash data =>
    Postcard.varint 2 ++ format.postcard ++ hash.toList ++ data.postcard
  | .files refs => Postcard.varint 3 ++ Postcard.seq FileRef.postcard refs

/-- A `ClipboardSnapshot`. -/
def ClipboardSnapshot.postcard (snap : ClipboardSnapshot) : List UInt8 :=
  Postcard.varint snap.version.toNat ++ snap.origin.bytes.toList ++
    Postcard.varint snap.createdUnixMs.toNat ++ Postcard.seq ClipItem.postcard snap.items

/-- `WireFrame::Clipboard`, the third variant of a frame. -/
def ClipboardSnapshot.framePostcard (snap : ClipboardSnapshot) : List UInt8 :=
  Postcard.varint 2 ++ snap.postcard

/-- The length of the frame of a snapshot with one item. -/
theorem length_framePostcard (version now : UInt64) (origin : NodeId) (item : ClipItem) :
    (ClipboardSnapshot.framePostcard ⟨version, origin, now, [item]⟩).length =
      18 + Postcard.varintLength version.toNat + Postcard.varintLength now.toNat +
        item.postcard.length := by
  unfold ClipboardSnapshot.framePostcard ClipboardSnapshot.postcard Postcard.seq
  simp [Postcard.varintLength_of_lt]
  omega

/-- The length of a text item. -/
theorem length_postcard_text (text : String) :
    (ClipItem.text text).postcard.length =
      1 + Postcard.varintLength text.utf8ByteSize + text.utf8ByteSize := by
  unfold ClipItem.postcard
  simp [Postcard.varintLength_of_lt]
  omega

namespace Transport

open Clipboard

/-- The codec encodes clipboard frames in the postcard format. -/
def FrameCodec.IsPostcard (c : FrameCodec) : Prop :=
  ∀ snap : ClipboardSnapshot, c.encode (.clipboard snap) = .ok snap.framePostcard

/-- The encoding of the frame of a snapshot is within the limit, and `send_frame` passes it on to
the stream. -/
def FrameCodec.Sends (c : FrameCodec) (snap : ClipboardSnapshot) : Prop :=
  ∃ payload, c.encode (.clipboard snap) = .ok payload ∧ payload.length ≤ maxFrame ∧
    ∃ p, c.payload (.clipboard snap) = .ok p ∧ p.bytes = payload

section Sends

variable {c : FrameCodec}

/-- `send_frame` passes a frame within the limit on. -/
theorem payload_of_encode {frame : WireFrame} {bytes : List UInt8} (h : c.encode frame = .ok bytes)
    (hle : bytes.length ≤ maxFrame) : ∃ p, c.payload frame = .ok p ∧ p.bytes = bytes := by
  unfold FrameCodec.payload
  split
  · rename_i bytes' h'
    obtain rfl := Except.ok.inj (h.symm.trans h')
    exact ⟨_, dif_pos hle, rfl⟩
  · rename_i e h'
    cases h.symm.trans h'

/-- A snapshot is sent exactly when its frame is within the limit. -/
theorem sends_iff (hc : c.IsPostcard) (snap : ClipboardSnapshot) :
    c.Sends snap ↔ snap.framePostcard.length ≤ maxFrame := by
  constructor
  · rintro ⟨payload, hencode, hle, -⟩
    obtain rfl := Except.ok.inj ((hc snap).symm.trans hencode)
    exact hle
  · intro hle
    exact ⟨_, hc snap, hle, payload_of_encode (hc snap) hle⟩

/-- The payload of an image is short enough for a frame. -/
theorem length_postcard_image_le (blake3 : List UInt8 → Bytes 32) (store : LazyStore)
    (bytes : List UInt8) (format : ImageFormat) :
    (produceImage blake3 store bytes format).1.postcard.length ≤ inlineThreshold + 100 := by
  have hformat : format.postcard.length = 1 := by
    cases format <;> simp [ImageFormat.postcard, Postcard.varintLength_of_lt]
  unfold produceImage
  dsimp only
  split_ifs with hle
  · have hvar : Postcard.varintLength bytes.length ≤ 3 :=
      Postcard.varintLength_le (by omega) (lt_of_le_of_lt hle (by decide))
    simp [ClipItem.postcard, LazyPayload.postcard, hformat, Postcard.varintLength_of_lt]
    omega
  · have hvar := Postcard.varintLength_toNat_le (UInt64.ofNat bytes.length)
    simp only [ClipItem.postcard, LazyPayload.postcard, List.length_append, hformat,
      Postcard.length_varint, List.Vector.toList_length]
    rw [Postcard.varintLength_of_lt (by omega), Postcard.varintLength_of_lt (by omega)]
    omega

/-- The length of the frame of a text. -/
theorem length_framePostcard_produceText (e : Engine) (now : UInt64) (text : String) :
    (e.produceText now text).1.framePostcard.length =
      19 + Postcard.varintLength (e.localVersion + 1).toNat + Postcard.varintLength now.toNat +
        Postcard.varintLength text.utf8ByteSize + text.utf8ByteSize := by
  show (ClipboardSnapshot.framePostcard
    ⟨e.localVersion + 1, e.selfId, now, [.text text]⟩).length = _
  rw [length_framePostcard, length_postcard_text]
  omega

/-- The frame of an image is within the limit. -/
theorem length_framePostcard_produceImage_le (blake3 : List UInt8 → Bytes 32) (e : Engine)
    (now : UInt64) (store : LazyStore) (bytes : List UInt8) (format : ImageFormat) :
    (e.produceImageSnapshot blake3 now store bytes format).1.framePostcard.length ≤ maxFrame := by
  show (ClipboardSnapshot.framePostcard ⟨e.localVersion + 1, e.selfId, now,
    [(produceImage blake3 store bytes format).1]⟩).length ≤ maxFrame
  have himage := length_postcard_image_le blake3 store bytes format
  have hversion := Postcard.varintLength_toNat_le (e.localVersion + 1)
  have hnow := Postcard.varintLength_toNat_le now
  rw [length_framePostcard]
  unfold maxFrame
  unfold inlineThreshold at himage
  omega

end Sends

/-- Produced snapshots and the limit of a frame. The snapshot of a text is sent exactly when its
length fits, together with the nineteen fixed bytes and the varints of the version, the time and the
length; the snapshot of an image is always sent. -/
theorem produced_snapshots_sendable_iff (c : FrameCodec) (hc : c.IsPostcard) (e : Engine)
    (now : UInt64) :
    (∀ text : String, c.Sends (e.produceText now text).1 ↔
      19 + Postcard.varintLength (e.localVersion + 1).toNat + Postcard.varintLength now.toNat +
        Postcard.varintLength text.utf8ByteSize + text.utf8ByteSize ≤ maxFrame) ∧
    ∀ (blake3 : List UInt8 → Bytes 32) (store : LazyStore) (bytes : List UInt8)
      (format : ImageFormat), c.Sends (e.produceImageSnapshot blake3 now store bytes format).1 := by
  constructor
  · intro text
    rw [sends_iff hc, length_framePostcard_produceText]
  · intro blake3 store bytes format
    rw [sends_iff hc]
    exact length_framePostcard_produceImage_le blake3 e now store bytes format

section Example

/-- An encoder of clipboard frames. -/
def clipboardCodec : FrameCodec where
  encode
    | .clipboard snap => .ok snap.framePostcard
    | _ => .error "unsupported"
  decode _ := .error "unsupported"

/-- `clipboardCodec` writes the postcard format. -/
theorem isPostcard_clipboardCodec : clipboardCodec.IsPostcard := fun _ => rfl

/-- A short text of a new engine is sent. -/
theorem short_text_sent :
    clipboardCodec.Sends ((Engine.new ⟨.replicate 16 0⟩ 8).produceText 0 "hi").1 := by
  refine ((produced_snapshots_sendable_iff clipboardCodec isPostcard_clipboardCodec
    (Engine.new ⟨.replicate 16 0⟩ 8) 0).1 "hi").2 ?_
  rw [Postcard.varintLength_of_lt (by decide), Postcard.varintLength_of_lt (by decide),
    Postcard.varintLength_of_lt (by decide)]
  decide

/-- There are texts of every length. -/
theorem exists_text (n : ℕ) : ∃ text : String, text.utf8ByteSize = n := by
  induction n with
  | zero => exact ⟨"", rfl⟩
  | succ n ih =>
    obtain ⟨text, htext⟩ := ih
    refine ⟨text ++ "a", ?_⟩
    rw [String.utf8ByteSize_append, htext]
    rfl

/-- A text of 64 MiB is not sent. -/
theorem large_text_not_sent :
    ¬ ∀ (c : FrameCodec), c.IsPostcard → ∀ (e : Engine) (now : UInt64) (text : String),
      c.Sends (e.produceText now text).1 := by
  intro h
  obtain ⟨text, htext⟩ := exists_text (64 * 1024 * 1024)
  have hsent := (sends_iff isPostcard_clipboardCodec _).1
    (h _ isPostcard_clipboardCodec (Engine.new ⟨.replicate 16 0⟩ 8) 0 text)
  rw [length_framePostcard_produceText, htext] at hsent
  unfold maxFrame at hsent
  omega

end Example

end Transport

end Borderless
