import Borderless.Input.Keymap
import Mathlib.Data.Finmap

/-!
# Key capture and emission on X11

The X11 backend of the capture on the hub (`handle_key` of `crates/pal-x11/src/capture.rs`) and of
the emission on a spoke (`crates/pal-x11/src/emit.rs`). An emitter is the table that it builds from
its keyboard mapping, and what it emits is the list of its requests to the XTest extension.
-/

namespace Borderless.Input

/-! ## Capture -/

/-- The usage of a keycode, the first part of `handle_key`. -/
def KeyMap.usage (map : KeyMap) (keycode : UInt32) : Option HidUsage :=
  let kc : Int32 := keycode.toInt32 - map.minKeycode.toUInt32.toInt32
  if kc < 0 then none else (map.keysym kc.toInt.toNat 0).bind keysymToHid

/-- `handle_key`: the event for the sink, if any, and the modifiers after it. -/
def handleKey (map : KeyMap) (keycode : UInt32) (pressed : Bool) (modifiers : ModifierMask) :
    Option InputEvent × ModifierMask :=
  match map.usage keycode with
  | none => (none, modifiers)
  | some hid =>
    let modifiers := updateModifiers hid pressed modifiers
    (some (.key hid pressed modifiers), modifiers)

/-! ## Emission -/

/-- The event types of a fake input. -/
inductive FakeType
  | keyPress
  | keyRelease
  | buttonPress
  | buttonRelease
  | motionNotify
deriving DecidableEq

/-- A request `xtest_fake_input`. The time, the root window and the device are always the same. -/
structure FakeInput where
  /-- The event type. -/
  type : FakeType
  /-- The keycode, the button, or whether a motion is relative. -/
  detail : UInt8
  /-- The position or the motion. -/
  rootX : Int16
  /-- The position or the motion. -/
  rootY : Int16
deriving DecidableEq

/-- The entries that `build_keysym_table` makes, in its order. -/
def keysymEntries (map : KeyMap) : List (Keysym × UInt8) :=
  let count := map.maxKeycode - map.minKeycode + 1
  (List.range count.toNat).flatMap fun kc =>
    (List.range map.keysymsPerKeycode.toNat).filterMap fun col =>
      match map.keysym kc col with
      | none => none
      | some sym => if sym = 0 then none else some (sym, map.minKeycode + UInt8.ofNat kc)

/-- `build_keysym_table`, where the first entry of a keysym wins. -/
def buildKeysymTable (map : KeyMap) : Finmap fun _ : Keysym => UInt8 :=
  (keysymEntries map).foldl (fun out p => if p.1 ∈ out then out else out.insert p.1 p.2) ∅

/-- `X11Emit`: the emitter, with the table of its keyboard mapping. -/
structure X11Emit where
  /-- The keycode for a keysym. -/
  keysymToKeycode : Finmap fun _ : Keysym => UInt8

namespace X11Emit

/-- `X11Emit::new`: the table is built from the keyboard mapping. -/
def new (map : KeyMap) : X11Emit := ⟨buildKeysymTable map⟩

/-- `X11Emit::hid_to_keycode`: the keycode that has the keysym of the usage. -/
def hidToKeycode (em : X11Emit) (hid : HidUsage) : Option UInt8 :=
  (hidToKeysym hid).bind fun sym => em.keysymToKeycode.lookup sym

/-- `X11Emit::click`: a press of the button and its release. -/
def click (code : UInt8) : List FakeInput := [⟨.buttonPress, code, 0, 0⟩, ⟨.buttonRelease, code, 0, 0⟩]

/-- The button is clicked so many times. -/
def clicks (times : ℕ) (code : UInt8) : List FakeInput := (List.replicate times (click code)).flatten

/-- `button_to_code`: the number of a button of the X server. -/
def buttonToCode : Button → UInt8
  | .left => 1
  | .middle => 2
  | .right => 3
  | .back => 8
  | .forward => 9
  | .other n => n

/-- `X11Emit::emit`. The masks of `Key` and `Enter` are not used. -/
def emit (em : X11Emit) : InputEvent → List FakeInput
  | .mouseMove dx dy _ => [⟨.motionNotify, 1, dx.toInt16, dy.toInt16⟩]
  | .mouseAbs x y _ => [⟨.motionNotify, 0, x.toInt16, y.toInt16⟩]
  | .mouseButton btn pressed =>
    [⟨if pressed then .buttonPress else .buttonRelease, buttonToCode btn, 0, 0⟩]
  | .scroll dx dy =>
    (if dy ≠ 0 then clicks dy.toInt.natAbs (if dy < 0 then 4 else 5) else []) ++
      if dx ≠ 0 then clicks dx.toInt.natAbs (if dx < 0 then 6 else 7) else []
  | .key code pressed _ =>
    match em.hidToKeycode code with
    | none => []
    | some keycode => [⟨if pressed then .keyPress else .keyRelease, keycode, 0, 0⟩]
  | .enter .. => []
  | .leave _ => []

/-- A request of some clicks presses or releases their button. -/
theorem mem_clicks {fake : FakeInput} {times : ℕ} {code : UInt8} (h : fake ∈ clicks times code) :
    fake = ⟨.buttonPress, code, 0, 0⟩ ∨ fake = ⟨.buttonRelease, code, 0, 0⟩ := by
  obtain ⟨one, hone, hmem⟩ := List.mem_flatten.1 h
  obtain ⟨-, rfl⟩ := List.mem_replicate.1 hone
  exact List.mem_pair.1 hmem

/-- A request of a scroll presses or releases a button of the wheel. -/
theorem mem_emit_scroll {em : X11Emit} {dx dy : Int32} {fake : FakeInput}
    (h : fake ∈ em.emit (.scroll dx dy)) :
    ∃ code : UInt8, (4 ≤ code.toNat ∧ code.toNat ≤ 7) ∧
      (fake = ⟨.buttonPress, code, 0, 0⟩ ∨ fake = ⟨.buttonRelease, code, 0, 0⟩) := by
  unfold emit at h
  -- a part of the scroll is clicks of one button, and is left out when the wheel did not turn
  have hpart : ∀ (p : Prop) [Decidable p] (n : ℕ) (code : UInt8),
      fake ∈ (if p then clicks n code else []) → fake ∈ clicks n code := by
    intro p _ n code hmem
    split_ifs at hmem
    · exact hmem
    · exact absurd hmem List.not_mem_nil
  rcases List.mem_append.1 h with hvertical | hhorizontal
  · have hclick := mem_clicks (hpart _ _ _ hvertical)
    split_ifs at hclick
    · exact ⟨4, by decide, hclick⟩
    · exact ⟨5, by decide, hclick⟩
  · have hclick := mem_clicks (hpart _ _ _ hhorizontal)
    split_ifs at hclick
    · exact ⟨6, by decide, hclick⟩
    · exact ⟨7, by decide, hclick⟩

end X11Emit

/-- The key change that a fake input makes. -/
def FakeInput.keyChange (fake : FakeInput) : Option (UInt8 × Bool) :=
  match fake.type with
  | .keyPress => some (fake.detail, true)
  | .keyRelease => some (fake.detail, false)
  | _ => none

/-- The key changes that an emitted key makes. -/
theorem keyChange_emit (em : X11Emit) (code : HidUsage) (pressed : Bool) (m : ModifierMask) :
    (em.emit (.key code pressed m)).filterMap FakeInput.keyChange =
      ((em.hidToKeycode code).map fun kc => (kc, pressed)).toList := by
  unfold X11Emit.emit
  dsimp only
  cases em.hidToKeycode code with
  | none => rfl
  | some kc => cases pressed <;> rfl

end Borderless.Input
