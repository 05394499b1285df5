import Mathlib.Data.Vector.Basic

/-!
# The protocol types

The types of `crates/core`: node identity (`node.rs`), input events (`input.rs`), clipboard
snapshots (`clipboard.rs`) and wire frames (`wire.rs`). Byte vectors are lists of bytes, and a
fixed-size array `[u8; n]` is `Bytes n`, a list with its length. The functions that are not part of
the repository (postcard, BLAKE3) are parameters where they are used.
-/

namespace Borderless

/-- An array `[u8; n]`. -/
abbrev Bytes (n : ℕ) := List.Vector UInt8 n

/-! ## Nodes -/

/-- Stable identifier of a node, derived from its long-term public key. -/
structure NodeId where
  /-- The sixteen bytes. -/
  bytes : Bytes 16
deriving DecidableEq

/-- `NodeId::from_pubkey`: the first sixteen bytes of the key's BLAKE3 hash. -/
def NodeId.fromPubkey (blake3 : List UInt8 → Bytes 32) (pubkey : Bytes 32) : NodeId :=
  ⟨(blake3 pubkey.toList).take 16⟩

/-- Wire-protocol version. -/
structure ProtocolVersion where
  /-- The version number. -/
  number : UInt16
deriving DecidableEq

/-- `PROTOCOL_V0`, the version that every node speaks. -/
def protocolV0 : ProtocolVersion := ⟨0⟩

/-! ## Input events -/

/-- A USB HID usage code on the keyboard page. -/
structure HidUsage where
  /-- The usage value. -/
  usage : UInt16
deriving DecidableEq

/-- The bit mask of held modifiers. -/
structure ModifierMask where
  /-- One bit for each modifier key. -/
  bits : UInt8
deriving DecidableEq

/-- Mouse button. -/
inductive Button
  | left
  | right
  | middle
  | back
  | forward
  | other (id : UInt8)
deriving DecidableEq

/-- One input event from the hub to a spoke. -/
inductive InputEvent
  | mouseMove (dx dy : Int32) (ts : UInt64)
  | mouseAbs (x y : Int32) (screenId : UInt8)
  | mouseButton (btn : Button) (pressed : Bool)
  | scroll (dx dy : Int32)
  | key (code : HidUsage) (pressed : Bool) (modifiers : ModifierMask)
  | enter (fromNode : NodeId) (modifiers : ModifierMask)
  | leave (toNode : NodeId)
deriving DecidableEq

/-! ## Clipboard snapshots -/

/-- Clipboard image formats. -/
inductive ImageFormat
  | png
  | jpeg
  | rgba8
deriving DecidableEq

/-- Inline bytes, or a fetch handle that stands for them. -/
inductive LazyPayload
  | inline (bytes : List UInt8)
  | onDemand (hash : Bytes 32) (size : UInt64)
deriving DecidableEq

/-- A reference to a file in a clipboard payload. -/
inductive FileRef
  | originPath (path : String)
  | inline (name : String) (data : List UInt8)
  | onDemand (name : String) (size : UInt64) (hash : Bytes 32)
deriving DecidableEq

/-- One representation of a clipboard payload. -/
inductive ClipItem
  | text (text : String)
  | html (html plainFallback : String)
  | image (format : ImageFormat) (hash : Bytes 32) (data : LazyPayload)
  | files (files : List FileRef)
deriving DecidableEq

/-- A versioned clipboard update. -/
structure ClipboardSnapshot where
  /-- Lamport version (`ClipVersion`, a `u64`). -/
  version : UInt64
  /-- The node that produced the snapshot. -/
  origin : NodeId
  /-- Wall-clock time at the origin, for logs only. -/
  createdUnixMs : UInt64
  /-- The representations of the payload. -/
  items : List ClipItem
deriving DecidableEq

/-- Snapshots on the way to a node are compared by the node and the snapshot. -/
instance {κ : Type*} [DecidableEq κ] : LawfulBEq (κ × ClipboardSnapshot) := inferInstance

/-! ## Wire frames -/

/-- Connection-level signalling. -/
inductive ControlFrame
  | hello (nodeId : NodeId) (name : String) (maxProtocol : ProtocolVersion)
  | welcome (nodeId : NodeId) (name : String) (protocol : ProtocolVersion)
  | ping (nonce : UInt64)
  | pong (nonce : UInt64)
  | bye (reason : String)
deriving DecidableEq

/-- The root of every frame on an established connection. -/
inductive WireFrame
  | control (frame : ControlFrame)
  | input (event : InputEvent)
  | clipboard (snap : ClipboardSnapshot)
  | fetchRequest (hash : Bytes 32)
  | fetchResponse (hash : Bytes 32) (chunkIdx total : UInt32) (bytes : List UInt8)
  | fetchMiss (hash : Bytes 32)
deriving DecidableEq

/-- The text that a backend writes for a snapshot: its first text item, or the plain fallback of
an HTML item. This is the `find_map` of `Clipboard::write` on every platform. -/
def ClipboardSnapshot.plainText (snap : ClipboardSnapshot) : Option String :=
  snap.items.findSome? fun
    | .text t => some t
    | .html _ plainFallback => some plainFallback
    | _ => none

end Borderless
