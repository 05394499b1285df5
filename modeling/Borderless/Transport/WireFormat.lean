import Borderless.Lib.PostcardFormat
import Borderless.Transport.ClipboardFrame

/-!
# The format of the frames

`crates/core`: what the derived `Serialize` and `Deserialize` of `WireFrame` and of the types in it
are in the postcard format. A struct is its fields in order, an enumeration the number of its
variant and then the fields of that variant; a newtype is what it wraps.

The frames are a format (`isFormat_wireFrame`), and `wire_format` says what this gives the framing:
the codec round trips, a payload that is cut short is refused, frames one after the other are taken
apart in one way only, and a decoded frame has no longer encoding than the bytes that it was decoded
from. So a node can send on what it has received (`payload_of_receives`).
-/

namespace Borderless

open Postcard (Reader IsFormat Readable Consumes)

/-! ## Encodings -/

/-- A `Button`. -/
def Button.postcard : Button → List UInt8
  | .left => Postcard.varint 0
  | .right => Postcard.varint 1
  | .middle => Postcard.varint 2
  | .back => Postcard.varint 3
  | .forward => Postcard.varint 4
  | .other id => Postcard.varint 5 ++ [id]

/-- A signed number of 32 bits. -/
def i32Postcard (n : Int32) : List UInt8 := Postcard.varint (Postcard.zigzag n)

/-- An `InputEvent`. -/
def InputEvent.postcard : InputEvent → List UInt8
  | .mouseMove dx dy ts =>
    Postcard.varint 0 ++ (i32Postcard dx ++ (i32Postcard dy ++ Postcard.varint ts.toNat))
  | .mouseAbs x y screenId => Postcard.varint 1 ++ (i32Postcard x ++ (i32Postcard y ++ [screenId]))
  | .mouseButton btn pressed => Postcard.varint 2 ++ (btn.postcard ++ Postcard.bool pressed)
  | .scroll dx dy => Postcard.varint 3 ++ (i32Postcard dx ++ i32Postcard dy)
  | .key code pressed modifiers =>
    Postcard.varint 4 ++
      (Postcard.varint code.usage.toNat ++ (Postcard.bool pressed ++ [modifiers.bits]))
  | .enter fromNode modifiers => Postcard.varint 5 ++ (fromNode.bytes.toList ++ [modifiers.bits])
  | .leave toNode => Postcard.varint 6 ++ toNode.bytes.toList

/-- A `ControlFrame`. -/
def ControlFrame.postcard : ControlFrame → List UInt8
  | .hello nodeId name maxProtocol =>
    Postcard.varint 0 ++
      (nodeId.bytes.toList ++ (Postcard.string name ++ Postcard.varint maxProtocol.number.toNat))
  | .welcome nodeId name protocol =>
    Postcard.varint 1 ++
      (nodeId.bytes.toList ++ (Postcard.string name ++ Postcard.varint protocol.number.toNat))
  | .ping nonce => Postcard.varint 2 ++ Postcard.varint nonce.toNat
  | .pong nonce => Postcard.varint 3 ++ Postcard.varint nonce.toNat
  | .bye reason => Postcard.varint 4 ++ Postcard.string reason

/-- A `WireFrame`. -/
def WireFrame.postcard : WireFrame → List UInt8
  | .control frame => Postcard.varint 0 ++ frame.postcard
  | .input event => Postcard.varint 1 ++ event.postcard
  | .clipboard snap => Postcard.varint 2 ++ snap.postcard
  | .fetchRequest hash => Postcard.varint 3 ++ hash.toList
  | .fetchResponse hash chunkIdx total bytes =>
    Postcard.varint 4 ++
      (hash.toList ++ (Postcard.varint chunkIdx.toNat ++
        (Postcard.varint total.toNat ++ Postcard.bytes bytes)))
  | .fetchMiss hash => Postcard.varint 5 ++ hash.toList

/-! ## Readers -/

/-- A `NodeId`. -/
def NodeId.read : Reader NodeId := do
  let bytes ← Reader.array 16
  pure ⟨bytes⟩

/-- A `Button`. -/
def Button.read : Reader Button := Reader.enum fun
  | 0 => pure .left
  | 1 => pure .right
  | 2 => pure .middle
  | 3 => pure .back
  | 4 => pure .forward
  | 5 => do
    let id ← Reader.u8
    pure (.other id)
  | _ => failure

/-- A number of 16 bits. -/
def readU16 : Reader UInt16 := Reader.number 16 UInt16.ofNat

/-- A number of 32 bits. -/
def readU32 : Reader UInt32 := Reader.number 32 UInt32.ofNat

/-- A number of 64 bits. -/
def readU64 : Reader UInt64 := Reader.number 64 UInt64.ofNat

/-- A signed number of 32 bits. -/
def readI32 : Reader Int32 := Reader.number 32 Postcard.unzigzag

/-- An `InputEvent`. -/
def InputEvent.read : Reader InputEvent := Reader.enum fun
  | 0 => do
    let dx ← readI32
    let dy ← readI32
    let ts ← readU64
    pure (.mouseMove dx dy ts)
  | 1 => do
    let x ← readI32
    let y ← readI32
    let screenId ← Reader.u8
    pure (.mouseAbs x y screenId)
  | 2 => do
    let btn ← Button.read
    let pressed ← Reader.bool
    pure (.mouseButton btn pressed)
  | 3 => do
    let dx ← readI32
    let dy ← readI32
    pure (.scroll dx dy)
  | 4 => do
    let code ← readU16
    let pressed ← Reader.bool
    let modifiers ← Reader.u8
    pure (.key ⟨code⟩ pressed ⟨modifiers⟩)
  | 5 => do
    let fromNode ← NodeId.read
    let modifiers ← Reader.u8
    pure (.enter fromNode ⟨modifiers⟩)
  | 6 => do
    let toNode ← NodeId.read
    pure (.leave toNode)
  | _ => failure

/-- An `ImageFormat`. -/
def ImageFormat.read : Reader ImageFormat := Reader.enum fun
  | 0 => pure .png
  | 1 => pure .jpeg
  | 2 => pure .rgba8
  | _ => failure

/-- A `LazyPayload`. -/
def LazyPayload.read : Reader LazyPayload := Reader.enum fun
  | 0 => do
    let bytes ← Reader.byteVec
    pure (.inline bytes)
  | 1 => do
    let hash ← Reader.array 32
    let size ← readU64
    pure (.onDemand hash size)
  | _ => failure

/-- A `FileRef`. -/
def FileRef.read : Reader FileRef := Reader.enum fun
  | 0 => do
    let path ← Reader.utf8
    pure (.originPath path)
  | 1 => do
    let name ← Reader.utf8
    let data ← Reader.byteVec
    pure (.inline name data)
  | 2 => do
    let name ← Reader.utf8
    let size ← readU64
    let hash ← Reader.array 32
    pure (.onDemand name size hash)
  | _ => failure

/-- A `ClipItem`. -/
def ClipItem.read : Reader ClipItem := Reader.enum fun
  | 0 => do
    let text ← Reader.utf8
    pure (.text text)
  | 1 => do
    let html ← Reader.utf8
    let plainFallback ← Reader.utf8
    pure (.html html plainFallback)
  | 2 => do
    let format ← ImageFormat.read
    let hash ← Reader.array 32
    let data ← LazyPayload.read
    pure (.image format hash data)
  | 3 => do
    let refs ← FileRef.read.vec
    pure (.files refs)
  | _ => failure

/-- A `ClipboardSnapshot`. -/
def ClipboardSnapshot.read : Reader ClipboardSnapshot := do
  let version ← readU64
  let origin ← NodeId.read
  let createdUnixMs ← readU64
  let items ← ClipItem.read.vec
  pure ⟨version, origin, createdUnixMs, items⟩

/-- A `ControlFrame`. -/
def ControlFrame.read : Reader ControlFrame := Reader.enum fun
  | 0 => do
    let nodeId ← NodeId.read
    let name ← Reader.utf8
    let maxProtocol ← readU16
    pure (.hello nodeId name ⟨maxProtocol⟩)
  | 1 => do
    let nodeId ← NodeId.read
    let name ← Reader.utf8
    let protocol ← readU16
    pure (.welcome nodeId name ⟨protocol⟩)
  | 2 => do
    let nonce ← readU64
    pure (.ping nonce)
  | 3 => do
    let nonce ← readU64
    pure (.pong nonce)
  | 4 => do
    let reason ← Reader.utf8
    pure (.bye reason)
  | _ => failure

/-- A `WireFrame`. -/
def WireFrame.read : Reader WireFrame := Reader.enum fun
  | 0 => do
    let frame ← ControlFrame.read
    pure (.control frame)
  | 1 => do
    let event ← InputEvent.read
    pure (.input event)
  | 2 => do
    let snap ← ClipboardSnapshot.read
    pure (.clipboard snap)
  | 3 => do
    let hash ← Reader.array 32
    pure (.fetchRequest hash)
  | 4 => do
    let hash ← Reader.array 32
    let chunkIdx ← readU32
    let total ← readU32
    let bytes ← Reader.byteVec
    pure (.fetchResponse hash chunkIdx total bytes)
  | 5 => do
    let hash ← Reader.array 32
    pure (.fetchMiss hash)
  | _ => failure

/-! ## The formats -/

section Formats

open Postcard

/-- The format of a node identifier, which is its sixteen bytes. -/
theorem isFormat_nodeId : IsFormat NodeId.read fun id => id.bytes.toList := by
  constructor
  · exact fun id => ((isFormat_array 16).reads id.bytes).bind_nil (.pure id)
  · exact (isFormat_array 16).consumes.bind fun bytes => .pure rfl

/-- The format of a button: the index of its variant, and its number if it has one. -/
theorem isFormat_button : IsFormat Button.read Button.postcard := by
  constructor
  · rintro (_ | _ | _ | _ | _ | id)
    · exact readable_unit (by omega) rfl
    · exact readable_unit (by omega) rfl
    · exact readable_unit (by omega) rfl
    · exact readable_unit (by omega) rfl
    · exact readable_unit (by omega) rfl
    · exact readable_enum (by omega) ((isFormat_u8.reads id).bind_nil (.pure _))
  · refine consumes_enum fun n => ?_
    split
    · exact .pure rfl
    · exact .pure rfl
    · exact .pure rfl
    · exact .pure rfl
    · exact .pure rfl
    · exact isFormat_u8.consumes.bind fun id => .pure rfl
    · exact .failure

/-- The format of an input event: the index of its variant, and its fields in order. -/
theorem isFormat_inputEvent : IsFormat InputEvent.read InputEvent.postcard := by
  constructor
  · -- an encoding is read field by field
    intro event
    cases event with
    | mouseMove dx dy ts =>
      refine readable_enum (by omega) ?_
      refine (isFormat_i32.reads dx).bind ((isFormat_i32.reads dy).bind ?_)
      exact (isFormat_u64.reads ts).bind_nil (.pure _)
    | mouseAbs x y screenId =>
      refine readable_enum (by omega) ?_
      refine (isFormat_i32.reads x).bind ((isFormat_i32.reads y).bind ?_)
      exact (isFormat_u8.reads screenId).bind_nil (.pure _)
    | mouseButton btn pressed =>
      refine readable_enum (by omega) ?_
      refine (isFormat_button.reads btn).bind ?_
      exact (isFormat_bool.reads pressed).bind_nil (.pure _)
    | scroll dx dy =>
      refine readable_enum (by omega) ?_
      refine (isFormat_i32.reads dx).bind ?_
      exact (isFormat_i32.reads dy).bind_nil (.pure _)
    | key code pressed modifiers =>
      refine readable_enum (by omega) ?_
      refine (isFormat_u16.reads code.usage).bind ((isFormat_bool.reads pressed).bind ?_)
      exact (isFormat_u8.reads modifiers.bits).bind_nil (.pure _)
    | enter fromNode modifiers =>
      refine readable_enum (by omega) ?_
      refine (isFormat_nodeId.reads fromNode).bind ?_
      exact (isFormat_u8.reads modifiers.bits).bind_nil (.pure _)
    | leave toNode =>
      exact readable_enum (by omega) ((isFormat_nodeId.reads toNode).bind_nil (.pure _))
  · -- what is read has an encoding as short as what it was read from, whatever its variant
    refine consumes_enum fun n => ?_
    split
    · refine isFormat_i32.consumes.bind fun dx => isFormat_i32.consumes.bind fun dy => ?_
      exact isFormat_u64.consumes.bind fun ts => .pure (by simp [InputEvent.postcard, i32Postcard])
    · refine isFormat_i32.consumes.bind fun x => isFormat_i32.consumes.bind fun y => ?_
      exact isFormat_u8.consumes.bind fun id => .pure (by simp [InputEvent.postcard, i32Postcard])
    · refine isFormat_button.consumes.bind fun btn => ?_
      exact isFormat_bool.consumes.bind fun pressed => .pure (by simp [InputEvent.postcard])
    · refine isFormat_i32.consumes.bind fun dx => ?_
      exact isFormat_i32.consumes.bind fun dy => .pure (by simp [InputEvent.postcard, i32Postcard])
    · refine isFormat_u16.consumes.bind fun code => isFormat_bool.consumes.bind fun pressed => ?_
      exact isFormat_u8.consumes.bind fun bits => .pure (by simp [InputEvent.postcard])
    · refine isFormat_nodeId.consumes.bind fun node => ?_
      exact isFormat_u8.consumes.bind fun bits => .pure (by simp [InputEvent.postcard])
    · exact isFormat_nodeId.consumes.bind fun node => .pure rfl
    · -- no variant has this index
      exact .failure

/-- The format of an image format: the index of its variant. -/
theorem isFormat_imageFormat : IsFormat ImageFormat.read ImageFormat.postcard := by
  constructor
  · rintro (_ | _ | _)
    · exact readable_unit (by omega) rfl
    · exact readable_unit (by omega) rfl
    · exact readable_unit (by omega) rfl
  · refine consumes_enum fun n => ?_
    split
    · exact .pure rfl
    · exact .pure rfl
    · exact .pure rfl
    · exact .failure

/-- The format of a lazy payload: the index of its variant, and its fields in order. -/
theorem isFormat_lazyPayload : IsFormat LazyPayload.read LazyPayload.postcard := by
  constructor
  · intro payload
    cases payload with
    | inline bytes =>
      exact readable_enum (by omega) ((isFormat_byteVec.reads bytes).bind_nil (.pure _))
    | onDemand hash size =>
      rw [LazyPayload.postcard, List.append_assoc]
      refine readable_enum (by omega) ?_
      refine ((isFormat_array 32).reads hash).bind ?_
      exact (isFormat_u64.reads size).bind_nil (.pure _)
  · refine consumes_enum fun n => ?_
    split
    · exact isFormat_byteVec.consumes.bind fun bytes => .pure rfl
    · refine (isFormat_array 32).consumes.bind fun hash => ?_
      exact isFormat_u64.consumes.bind fun size => .pure rfl
    · exact .failure

/-- The format of a file reference: the index of its variant, and its fields in order. -/
theorem isFormat_fileRef : IsFormat FileRef.read FileRef.postcard := by
  constructor
  · intro ref
    cases ref with
    | originPath path =>
      exact readable_enum (by omega) ((isFormat_utf8.reads path).bind_nil (.pure _))
    | inline name data =>
      rw [FileRef.postcard, List.append_assoc]
      refine readable_enum (by omega) ?_
      refine (isFormat_utf8.reads name).bind ?_
      exact (isFormat_byteVec.reads data).bind_nil (.pure _)
    | onDemand name size hash =>
      rw [FileRef.postcard, List.append_assoc, List.append_assoc]
      refine readable_enum (by omega) ?_
      refine (isFormat_utf8.reads name).bind ((isFormat_u64.reads size).bind ?_)
      exact ((isFormat_array 32).reads hash).bind_nil (.pure _)
  · -- each variant with its own fields
    refine consumes_enum fun n => ?_
    split
    · exact isFormat_utf8.consumes.bind fun path => .pure rfl
    · refine isFormat_utf8.consumes.bind fun name => ?_
      exact isFormat_byteVec.consumes.bind fun data => .pure rfl
    · refine isFormat_utf8.consumes.bind fun name => isFormat_u64.consumes.bind fun size => ?_
      exact (isFormat_array 32).consumes.bind fun hash => .pure rfl
    · exact .failure

/-- A file reference takes at least one byte. -/
theorem FileRef.postcard_ne_nil (ref : FileRef) : ref.postcard ≠ [] := by
  cases ref <;> simp [FileRef.postcard, varint_ne_nil]

/-- The format of a clipboard item: the index of its variant, and its fields in order. -/
theorem isFormat_clipItem : IsFormat ClipItem.read ClipItem.postcard := by
  -- a vector of references can be read back since none of them is empty
  have hrefs : IsFormat FileRef.read.vec (seq FileRef.postcard) :=
    isFormat_vec isFormat_fileRef FileRef.postcard_ne_nil
  constructor
  · intro item
    cases item with
    | text text => exact readable_enum (by omega) ((isFormat_utf8.reads text).bind_nil (.pure _))
    | html html plainFallback =>
      rw [ClipItem.postcard, List.append_assoc]
      refine readable_enum (by omega) ?_
      refine (isFormat_utf8.reads html).bind ?_
      exact (isFormat_utf8.reads plainFallback).bind_nil (.pure _)
    | image format hash data =>
      rw [ClipItem.postcard, List.append_assoc, List.append_assoc]
      refine readable_enum (by omega) ?_
      refine (isFormat_imageFormat.reads format).bind (((isFormat_array 32).reads hash).bind ?_)
      exact (isFormat_lazyPayload.reads data).bind_nil (.pure _)
    | files refs => exact readable_enum (by omega) ((hrefs.reads refs).bind_nil (.pure _))
  · refine consumes_enum fun n => ?_
    split
    · exact isFormat_utf8.consumes.bind fun text => .pure rfl
    · refine isFormat_utf8.consumes.bind fun html => ?_
      exact isFormat_utf8.consumes.bind fun plainFallback => .pure rfl
    · refine isFormat_imageFormat.consumes.bind fun format => ?_
      refine (isFormat_array 32).consumes.bind fun hash => ?_
      exact isFormat_lazyPayload.consumes.bind fun data => .pure rfl
    · exact hrefs.consumes.bind fun refs => .pure rfl
    · exact .failure

/-- A clipboard item takes at least one byte. -/
theorem ClipItem.postcard_ne_nil (item : ClipItem) : item.postcard ≠ [] := by
  cases item <;> simp [ClipItem.postcard, varint_ne_nil]

/-- The format of a snapshot: its fields in order, and its items as a vector. -/
theorem isFormat_clipboardSnapshot :
    IsFormat ClipboardSnapshot.read ClipboardSnapshot.postcard := by
  -- a vector of items can be read back since none of them is empty
  have hitems : IsFormat ClipItem.read.vec (seq ClipItem.postcard) :=
    isFormat_vec isFormat_clipItem ClipItem.postcard_ne_nil
  constructor
  · intro snap
    unfold ClipboardSnapshot.postcard
    rw [List.append_assoc, List.append_assoc]
    refine (isFormat_u64.reads snap.version).bind ((isFormat_nodeId.reads snap.origin).bind ?_)
    refine (isFormat_u64.reads snap.createdUnixMs).bind ?_
    exact (hitems.reads snap.items).bind_nil (.pure snap)
  · refine isFormat_u64.consumes.bind fun version => isFormat_nodeId.consumes.bind fun origin => ?_
    refine isFormat_u64.consumes.bind fun now => hitems.consumes.bind fun items => ?_
    exact .pure rfl

/-- The format of a control frame: the index of its variant, and its fields in order. -/
theorem isFormat_controlFrame : IsFormat ControlFrame.read ControlFrame.postcard := by
  constructor
  · intro frame
    cases frame with
    | hello nodeId name maxProtocol =>
      refine readable_enum (by omega) ?_
      refine (isFormat_nodeId.reads nodeId).bind ((isFormat_utf8.reads name).bind ?_)
      exact (isFormat_u16.reads maxProtocol.number).bind_nil (.pure _)
    | welcome nodeId name protocol =>
      refine readable_enum (by omega) ?_
      refine (isFormat_nodeId.reads nodeId).bind ((isFormat_utf8.reads name).bind ?_)
      exact (isFormat_u16.reads protocol.number).bind_nil (.pure _)
    -- the other variants have one field
    | ping nonce => exact readable_enum (by omega) ((isFormat_u64.reads nonce).bind_nil (.pure _))
    | pong nonce => exact readable_enum (by omega) ((isFormat_u64.reads nonce).bind_nil (.pure _))
    | bye reason => exact readable_enum (by omega) ((isFormat_utf8.reads reason).bind_nil (.pure _))
  · refine consumes_enum fun n => ?_
    split
    · refine isFormat_nodeId.consumes.bind fun nodeId => isFormat_utf8.consumes.bind fun name => ?_
      exact isFormat_u16.consumes.bind fun version => .pure (by simp [ControlFrame.postcard])
    · refine isFormat_nodeId.consumes.bind fun nodeId => isFormat_utf8.consumes.bind fun name => ?_
      exact isFormat_u16.consumes.bind fun version => .pure (by simp [ControlFrame.postcard])
    · exact isFormat_u64.consumes.bind fun nonce => .pure rfl
    · exact isFormat_u64.consumes.bind fun nonce => .pure rfl
    · exact isFormat_utf8.consumes.bind fun reason => .pure rfl
    · exact .failure

/-- The format of a frame: the index of its variant, and its fields in order. -/
theorem isFormat_wireFrame : IsFormat WireFrame.read WireFrame.postcard := by
  constructor
  · intro frame
    cases frame with
    | control frame =>
      exact readable_enum (by omega) ((isFormat_controlFrame.reads frame).bind_nil (.pure _))
    | input event =>
      exact readable_enum (by omega) ((isFormat_inputEvent.reads event).bind_nil (.pure _))
    | clipboard snap =>
      exact readable_enum (by omega) ((isFormat_clipboardSnapshot.reads snap).bind_nil (.pure _))
    | fetchRequest hash =>
      exact readable_enum (by omega) (((isFormat_array 32).reads hash).bind_nil (.pure _))
    | fetchResponse hash chunkIdx total bytes =>
      refine readable_enum (by omega) ?_
      refine ((isFormat_array 32).reads hash).bind ((isFormat_u32.reads chunkIdx).bind ?_)
      refine (isFormat_u32.reads total).bind ?_
      -- the bytes of the part come last, with their own length in front
      exact (isFormat_byteVec.reads bytes).bind_nil (.pure _)
    | fetchMiss hash =>
      exact readable_enum (by omega) (((isFormat_array 32).reads hash).bind_nil (.pure _))
  · refine consumes_enum fun n => ?_
    split
    · exact isFormat_controlFrame.consumes.bind fun frame => .pure rfl
    · exact isFormat_inputEvent.consumes.bind fun event => .pure rfl
    · exact isFormat_clipboardSnapshot.consumes.bind fun snap => .pure rfl
    · exact (isFormat_array 32).consumes.bind fun hash => .pure rfl
    · refine (isFormat_array 32).consumes.bind fun hash => ?_
      refine isFormat_u32.consumes.bind fun chunkIdx => isFormat_u32.consumes.bind fun total => ?_
      exact isFormat_byteVec.consumes.bind fun bytes => .pure (by simp [WireFrame.postcard])
    · exact (isFormat_array 32).consumes.bind fun hash => .pure rfl
    · exact .failure

/-- A frame takes at least one byte. -/
theorem WireFrame.postcard_ne_nil (frame : WireFrame) : frame.postcard ≠ [] := by
  cases frame <;> simp [WireFrame.postcard, varint_ne_nil]

end Formats

/-! ## The codec of the frames -/

namespace Transport

/-- The codec is that of postcard: a value that fits in memory is encoded, and `from_bytes` reads a
value from the start of the bytes, whatever follows it. -/
structure FrameCodec.IsWireFormat (c : FrameCodec) : Prop where
  /-- `to_allocvec`. -/
  encode_ok_iff : ∀ frame bytes,
    c.encode frame = .ok bytes ↔ bytes = frame.postcard ∧ bytes.length < 2^64
  /-- `from_bytes`. -/
  decode_ok_iff : ∀ bytes frame,
    c.decode bytes = .ok frame ↔ ∃ rest, WireFrame.read bytes = some (frame, rest)

variable {c : FrameCodec}

/-- The codec round trips. -/
theorem FrameCodec.IsWireFormat.roundTrip (hc : c.IsWireFormat) : c.RoundTrip := by
  intro frame bytes h
  obtain ⟨rfl, hfits⟩ := (hc.encode_ok_iff frame bytes).1 h
  have hread := (isFormat_wireFrame.reads frame hfits).whole []
  rw [List.append_nil] at hread
  exact (hc.decode_ok_iff _ _).2 ⟨[], hread⟩

/-- A payload that is cut short is not decoded. -/
theorem decode_of_part (hc : c.IsWireFormat) {frame : WireFrame} {bytes part : List UInt8}
    (h : c.encode frame = .ok bytes) (hpre : part <+: bytes) (hne : part ≠ bytes) :
    ∃ e, c.decode part = .error e := by
  obtain ⟨rfl, hfits⟩ := (hc.encode_ok_iff frame bytes).1 h
  have hnone := (isFormat_wireFrame.reads frame hfits).part part hpre hne
  cases hdecode : c.decode part with
  | error e => exact ⟨e, rfl⟩
  | ok frame' =>
    obtain ⟨rest, hread⟩ := (hc.decode_ok_iff part frame').1 hdecode
    rw [hnone] at hread
    cases hread

/-- A decoded frame has no longer encoding than the bytes that it was decoded from. -/
theorem encode_of_decode (hc : c.IsWireFormat) {frame : WireFrame} {bytes : List UInt8}
    (hfits : bytes.length < 2^64) (h : c.decode bytes = .ok frame) :
    ∃ payload, c.encode frame = .ok payload ∧ payload.length ≤ bytes.length := by
  obtain ⟨rest, hread⟩ := (hc.decode_ok_iff bytes frame).1 h
  have htaken := isFormat_wireFrame.consumes bytes frame rest hread
  rw [List.length_nil] at htaken
  refine ⟨frame.postcard, (hc.encode_ok_iff _ _).2 ⟨rfl, ?_⟩, ?_⟩
  · omega
  · omega

/-- What `read_framed` has read of a frame at some point, whatever the stream holds. -/
inductive ReadFramed : List UInt8 → Prop
  /-- Nothing. -/
  | start : ReadFramed []
  /-- It has read bytes that it wanted. -/
  | more {buf a : List UInt8} {n : ℕ} (h : ReadFramed buf) (hn : missing buf = .ok n)
      (hle : a.length ≤ n) : ReadFramed (buf ++ a)

/-- The length comes first, and what follows is no more than that. -/
theorem ReadFramed.length_le {buf : List UInt8} (h : ReadFramed buf) :
    buf.length ≤ 4 + u32FromLe (buf.take 4) := by
  induction h with
  | start => exact Nat.zero_le _
  | @more buf a n h hn hle ih =>
    unfold missing at hn
    dsimp only at hn
    rw [List.length_append]
    split_ifs at hn with hshort hlarge
    · have hn := Except.ok.inj hn
      omega
    · have hn := Except.ok.inj hn
      rw [List.take_append_of_le_length (by omega)]
      omega

/-- The payload of a frame that is read to its end is within the limit. -/
theorem ReadFramed.payload_le {buf : List UInt8} (h : ReadFramed buf) (hend : missing buf = .ok 0) :
    (buf.drop 4).length ≤ maxFrame := by
  have hle := h.length_le
  unfold missing at hend
  dsimp only at hend
  rw [List.length_drop]
  split_ifs at hend with hshort hlarge
  · have hzero := Except.ok.inj hend
    omega
  · omega

/-- The frames that `recv_frame` can return. -/
def FrameCodec.Receives (c : FrameCodec) (frame : WireFrame) : Prop :=
  ∃ buf, ReadFramed buf ∧ missing buf = .ok 0 ∧ c.received buf = .ok frame

/-- What `recv_frame` returns passes the checks of `send_frame`. -/
theorem payload_of_receives (hc : c.IsWireFormat) {frame : WireFrame} (h : c.Receives frame) :
    ∃ p, c.payload frame = .ok p := by
  obtain ⟨buf, hbuf, hend, h⟩ := h
  have hle := hbuf.payload_le hend
  have hdecode : c.decode (buf.drop 4) = .ok frame := by
    unfold FrameCodec.received at h
    split at h
    · next frame' hframe' =>
      obtain rfl := Except.ok.inj h
      exact hframe'
    · cases h
  have hfits : (buf.drop 4).length < 2^64 := by
    unfold maxFrame at hle
    omega
  obtain ⟨payload, hencode, hshorter⟩ := encode_of_decode hc hfits hdecode
  obtain ⟨p, hp, -⟩ := payload_of_encode hencode (hshorter.trans hle)
  exact ⟨p, hp⟩

/-- The codec of the frames. It round trips; a payload that is cut short is refused; the payloads of
two sequences of frames are the same bytes only if the frames are the same; and what is decoded is
encoded again in no more bytes. -/
theorem wire_format (c : FrameCodec) (hc : c.IsWireFormat) :
    c.RoundTrip ∧
    (∀ frame bytes part, c.encode frame = .ok bytes → part <+: bytes → part ≠ bytes →
      ∃ e, c.decode part = .error e) ∧
    (∀ frames frames' : List WireFrame, (frames.flatMap WireFrame.postcard).length < 2^64 →
      frames.flatMap WireFrame.postcard = frames'.flatMap WireFrame.postcard → frames = frames') ∧
    ∀ bytes frame, bytes.length < 2^64 → c.decode bytes = .ok frame →
      ∃ payload, c.encode frame = .ok payload ∧ payload.length ≤ bytes.length := by
  refine ⟨hc.roundTrip, ?_, ?_, ?_⟩
  · exact fun frame bytes part => decode_of_part hc
  · exact fun frames frames' => isFormat_wireFrame.flatMap_injective WireFrame.postcard_ne_nil
  · exact fun bytes frame => encode_of_decode hc

/-- The codec of the frames, with the texts of its errors as parameters. -/
def postcardCodec (tooLarge malformed : String) : FrameCodec where
  encode frame := if frame.postcard.length < 2^64 then .ok frame.postcard else .error tooLarge
  decode bytes := ((WireFrame.read bytes).map Prod.fst).elim (.error malformed) .ok

/-- The codec of the frames writes and reads this format. -/
theorem isWireFormat_postcardCodec (tooLarge malformed : String) :
    (postcardCodec tooLarge malformed).IsWireFormat := by
  constructor
  · intro frame bytes
    unfold postcardCodec
    constructor
    · intro h
      dsimp only at h
      split_ifs at h with hfits
      obtain rfl := Except.ok.inj h
      exact ⟨rfl, hfits⟩
    · rintro ⟨rfl, hfits⟩
      exact if_pos hfits
  · intro bytes frame
    unfold postcardCodec
    dsimp only
    cases WireFrame.read bytes with
    | none => simp
    | some p =>
      obtain ⟨frame', rest⟩ := p
      simp

/-- The frames of the codec of postcard. -/
theorem wire_format_postcardCodec :
    (postcardCodec "Serialize Buffer Full" "Hit the end of buffer").RoundTrip :=
  (wire_format _ (isWireFormat_postcardCodec _ _)).1

end Transport

end Borderless
