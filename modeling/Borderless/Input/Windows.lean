import Borderless.Input.Keymap
import Borderless.Lib.Truncation

/-!
# The Windows backend

The key tables of `crates/pal-windows/src/keymap.rs`, the emission of
`crates/pal-windows/src/emit.rs` and the hook procedures of `crates/pal-windows/src/capture.rs`.
What is emitted is the list of the inputs that are handed to `SendInput`, and a hook procedure gives
the event for the sink, if any, and its variables after the call.

The capture divides each motion of the wheel by 120, the size of a notch, and drops the remainder.
`wheel_keeps_iff` says when the remainders of a sequence of motions stay below a notch.
-/

namespace Borderless.Input

open LastWrite Truncation

/-! ## Keys -/

/-- `LETTER_SCANCODES`, from A to Z. -/
def letterScancodes : List UInt16 :=
  [0x1E, 0x30, 0x2E, 0x20, 0x12, 0x21, 0x22, 0x23, 0x17, 0x24, 0x25, 0x26, 0x32, 0x31, 0x18, 0x19,
    0x10, 0x13, 0x1F, 0x14, 0x16, 0x2F, 0x11, 0x2D, 0x15, 0x2C]

/-- `DIGIT_SCANCODES`, from 1 to 9 and 0. -/
def digitScancodes : List UInt16 :=
  [0x02, 0x03, 0x04, 0x05, 0x06, 0x07, 0x08, 0x09, 0x0A, 0x0B]

/-- The arms of `hid_to_win`: a virtual key, a scan code, and whether the key is extended. -/
def winOfUsage : List (HidUsage × UInt16 × UInt16 × Bool) :=
  [(.enter, 0x0D, 0x1C, false), (.escape, 0x1B, 0x01, false), (.backspace, 0x08, 0x0E, false),
    (.tab, 0x09, 0x0F, false), (.space, 0x20, 0x39, false), (.minus, 0xBD, 0x0C, false),
    (.equal, 0xBB, 0x0D, false), (.leftBracket, 0xDB, 0x1A, false),
    (.rightBracket, 0xDD, 0x1B, false), (.backslash, 0xDC, 0x2B, false),
    (.semicolon, 0xBA, 0x27, false), (.apostrophe, 0xDE, 0x28, false), (.grave, 0xC0, 0x29, false),
    (.comma, 0xBC, 0x33, false), (.period, 0xBE, 0x34, false), (.slash, 0xBF, 0x35, false),
    (.capsLock, 0x14, 0x3A, false), (.f1, 0x70, 0x3B, false), (.f2, 0x71, 0x3C, false),
    (.f3, 0x72, 0x3D, false), (.f4, 0x73, 0x3E, false), (.f5, 0x74, 0x3F, false),
    (.f6, 0x75, 0x40, false), (.f7, 0x76, 0x41, false), (.f8, 0x77, 0x42, false),
    (.f9, 0x78, 0x43, false), (.f10, 0x79, 0x44, false), (.f11, 0x7A, 0x57, false),
    (.f12, 0x7B, 0x58, false), (.printScreen, 0x2C, 0x37, true), (.scrollLock, 0x91, 0x46, false),
    (.pause, 0x13, 0x45, false), (.insert, 0x2D, 0x52, true), (.home, 0x24, 0x47, true),
    (.pageUp, 0x21, 0x49, true), (.delete, 0x2E, 0x53, true), (.endKey, 0x23, 0x4F, true),
    (.pageDown, 0x22, 0x51, true), (.right, 0x27, 0x4D, true), (.left, 0x25, 0x4B, true),
    (.down, 0x28, 0x50, true), (.up, 0x26, 0x48, true), (.numLock, 0x90, 0x45, true),
    (.kpSlash, 0x6F, 0x35, true), (.kpAsterisk, 0x6A, 0x37, false), (.kpMinus, 0x6D, 0x4A, false),
    (.kpPlus, 0x6B, 0x4E, false), (.kpEnter, 0x0D, 0x1C, true), (.kp1, 0x61, 0x4F, false),
    (.kp2, 0x62, 0x50, false), (.kp3, 0x63, 0x51, false), (.kp4, 0x64, 0x4B, false),
    (.kp5, 0x65, 0x4C, false), (.kp6, 0x66, 0x4D, false), (.kp7, 0x67, 0x47, false),
    (.kp8, 0x68, 0x48, false), (.kp9, 0x69, 0x49, false), (.kp0, 0x60, 0x52, false),
    (.kpPeriod, 0x6E, 0x53, false), (.application, 0x5D, 0x5D, true), (.lctrl, 0xA2, 0x1D, false),
    (.lshift, 0xA0, 0x2A, false), (.lalt, 0xA4, 0x38, false), (.lgui, 0x5B, 0x5B, true),
    (.rctrl, 0xA3, 0x1D, true), (.rshift, 0xA1, 0x36, false), (.ralt, 0xA5, 0x38, true),
    (.rgui, 0x5C, 0x5C, true)]

/-- `hid_to_win`: the virtual key and the scan code of a usage. Letters and digits are computed, the
other keys are in the table. -/
def hidToWin (hid : HidUsage) : Option (UInt16 × UInt16 × Bool) :=
  let n := hid.usage
  if 0x04 ≤ n ∧ n ≤ 0x1D then
    let idx := n - 0x04
    letterScancodes[idx.toNat]?.map fun scan => (0x41 + idx, scan, false)
  else if 0x1E ≤ n ∧ n ≤ 0x27 then
    let idx := n - 0x1E
    let vk := if n = 0x27 then 0x30 else 0x31 + idx
    digitScancodes[idx.toNat]?.map fun scan => (vk, scan, false)
  else winOfUsage.lookup hid

/-- The arms of `vk_to_hid`. -/
def usageOfVk : List (UInt16 × HidUsage) :=
  [(0x0D, .enter), (0x1B, .escape), (0x08, .backspace), (0x09, .tab), (0x20, .space),
    (0xBD, .minus), (0xBB, .equal), (0xDB, .leftBracket), (0xDD, .rightBracket), (0xDC, .backslash),
    (0xBA, .semicolon), (0xDE, .apostrophe), (0xC0, .grave), (0xBC, .comma), (0xBE, .period),
    (0xBF, .slash), (0x14, .capsLock), (0x70, .f1), (0x71, .f2), (0x72, .f3), (0x73, .f4),
    (0x74, .f5), (0x75, .f6), (0x76, .f7), (0x77, .f8), (0x78, .f9), (0x79, .f10), (0x7A, .f11),
    (0x7B, .f12), (0x2C, .printScreen), (0x91, .scrollLock), (0x13, .pause), (0x2D, .insert),
    (0x24, .home), (0x21, .pageUp), (0x2E, .delete), (0x23, .endKey), (0x22, .pageDown),
    (0x27, .right), (0x25, .left), (0x28, .down), (0x26, .up), (0x90, .numLock), (0xA2, .lctrl),
    (0xA0, .lshift), (0xA4, .lalt), (0x5B, .lgui), (0xA3, .rctrl), (0xA1, .rshift), (0xA5, .ralt),
    (0x5C, .rgui)]

/-- `vk_to_hid`: the usage of a virtual key. Letters and digits are computed, the other keys are in
the table. -/
def vkToHid (vk : UInt16) : Option HidUsage :=
  if 0x41 ≤ vk ∧ vk ≤ 0x5A then some ⟨vk - 0x41 + 0x04⟩
  else if vk = 0x30 then some .key0
  else if 0x31 ≤ vk ∧ vk ≤ 0x39 then some ⟨vk - 0x31 + 0x1E⟩
  else usageOfVk.lookup vk

/-- A key that the capture recognizes is emitted with the same virtual key. -/
theorem hidToWin_of_vkToHid {vk : UInt16} {hid : HidUsage} (h : vkToHid vk = some hid) :
    (hidToWin hid).map Prod.fst = some vk := by
  have hletters : ∀ n < 26, (hidToWin ⟨.ofNat n + 0x04⟩).map Prod.fst = some (.ofNat n + 0x41) := by
    decide
  have hdigits : ∀ n < 9, (hidToWin ⟨.ofNat n + 0x1E⟩).map Prod.fst = some (.ofNat n + 0x31) := by
    decide
  have htable : ∀ p ∈ usageOfVk, (hidToWin p.2).map Prod.fst = some p.1 := by decide +kernel
  unfold vkToHid at h
  split_ifs at h with hletter hzero hdigit
  · obtain rfl := Option.some.inj h
    have hspec := hletters (vk - 0x41).toNat (by
      have hle := UInt16.le_iff_toNat_le.1 hletter.2
      rw [UInt16.toNat_sub_of_le _ _ hletter.1]
      exact Nat.lt_succ_of_le (Nat.sub_le_sub_right hle 0x41))
    rwa [UInt16.ofNat_toNat, UInt16.sub_add_cancel] at hspec
  · obtain rfl := Option.some.inj h
    rw [hzero]
    decide
  · obtain rfl := Option.some.inj h
    have hspec := hdigits (vk - 0x31).toNat (by
      have hle := UInt16.le_iff_toNat_le.1 hdigit.2
      rw [UInt16.toNat_sub_of_le _ _ hdigit.1]
      exact Nat.lt_succ_of_le (Nat.sub_le_sub_right hle 0x31))
    rwa [UInt16.ofNat_toNat, UInt16.sub_add_cancel] at hspec
  · exact htable (vk, hid) (mem_of_lookup_eq_some h)

/-! ## Emission -/

/-- The flags of a mouse input. -/
inductive MouseEventFlag
  | move | absolute | virtualDesk
  | leftDown | leftUp | rightDown | rightUp | middleDown | middleUp | xDown | xUp
  | wheel | hWheel
deriving DecidableEq

/-- `MOUSEINPUT`: what a mouse input does. -/
structure MouseInput where
  /-- `dx`. -/
  dx : Int32
  /-- `dy`. -/
  dy : Int32
  /-- `mouseData`. -/
  mouseData : UInt32
  /-- `dwFlags`. -/
  dwFlags : List MouseEventFlag
deriving DecidableEq

/-- The flags of a keyboard input. -/
inductive KeybdEventFlag
  | scanCode | keyUp | extendedKey
deriving DecidableEq

/-- `KEYBDINPUT`: which key a keyboard input presses or releases. -/
structure KeybdInput where
  /-- `wVk`. -/
  wVk : UInt16
  /-- `wScan`. -/
  wScan : UInt16
  /-- `dwFlags`. -/
  dwFlags : List KeybdEventFlag
deriving DecidableEq

/-- `INPUT`, as `SendInput` takes it. -/
inductive WinInput
  | mouse (mi : MouseInput)
  | keyboard (ki : KeybdInput)
deriving DecidableEq

/-- `XBUTTON1`, the button to go back. -/
def xbutton1 : UInt16 := 1

/-- `XBUTTON2`, the button to go forward. -/
def xbutton2 : UInt16 := 2

/-- `key_input`: a keyboard input with these fields. -/
def keyInput (vk scan : UInt16) (flags : List KeybdEventFlag) : WinInput :=
  .keyboard { wVk := vk, wScan := scan, dwFlags := flags }

/-- `mouse_input`: a mouse input with these fields. -/
def mouseInput (dx dy : Int32) (flags : List MouseEventFlag) (data : Int32) : WinInput :=
  .mouse { dx := dx, dy := dy, mouseData := data.toUInt32, dwFlags := flags }

/-- `button_flags`: the flag of a press or a release, and which of the extra buttons it is. A button
without a name becomes a motion by nothing. -/
def buttonFlags : Button → Bool → List MouseEventFlag × Int32
  | .left, true => ([.leftDown], 0)
  | .left, false => ([.leftUp], 0)
  | .right, true => ([.rightDown], 0)
  | .right, false => ([.rightUp], 0)
  | .middle, true => ([.middleDown], 0)
  | .middle, false => ([.middleUp], 0)
  | .back, true => ([.xDown], xbutton1.toUInt32.toInt32)
  | .back, false => ([.xUp], xbutton1.toUInt32.toInt32)
  | .forward, true => ([.xDown], xbutton2.toUInt32.toInt32)
  | .forward, false => ([.xUp], xbutton2.toUInt32.toInt32)
  | .other _, _ => ([.move], 0)

/-- `WindowsEmit::emit`, with the arithmetic of a build without overflow checks. -/
def WindowsEmit.emit : InputEvent → List WinInput
  | .mouseMove dx dy _ => [mouseInput dx dy [.move] 0]
  | .mouseAbs x y _ => [mouseInput x y [.move, .absolute, .virtualDesk] 0]
  | .mouseButton btn pressed =>
    let (flags, data) := buttonFlags btn pressed
    [mouseInput 0 0 flags data]
  | .scroll dx dy =>
    (if dy ≠ 0 then [mouseInput 0 0 [.wheel] (-dy * 120)] else []) ++
      if dx ≠ 0 then [mouseInput 0 0 [.hWheel] (dx * 120)] else []
  | .key code pressed _ =>
    match hidToWin code with
    | none => []
    | some (vk, scan, ext) =>
      let flags : List KeybdEventFlag := [.scanCode]
      let flags := if !pressed then flags ++ [.keyUp] else flags
      let flags := if ext then flags ++ [.extendedKey] else flags
      [keyInput vk scan flags]
  | .enter .. => []
  | .leave _ => []

/-! ## Capture -/

/-- `update_modifiers`: a modifier key that is pressed sets its bit, and one that is released clears
it. -/
def Windows.updateModifiers (hid : HidUsage) (pressed : Bool) (m : ModifierMask) : ModifierMask :=
  let bit : Option ModifierMask :=
    if hid = .lctrl then some .lctrl
    else if hid = .lshift then some .lshift
    else if hid = .lalt then some .lalt
    else if hid = .lgui then some .lgui
    else if hid = .rctrl then some .rctrl
    else if hid = .rshift then some .rshift
    else if hid = .ralt then some .ralt
    else if hid = .rgui then some .rgui
    else none
  match bit with
  | some b => if pressed then m.insert b else m.remove b
  | none => m

/-- The messages of the keyboard hook. -/
inductive KeyMessage
  | keyDown | keyUp | sysKeyDown | sysKeyUp | other
deriving DecidableEq

/-- `low_level_keyboard_proc`, once the sink is set. -/
def lowLevelKeyboardProc (code : Int32) (message : KeyMessage) (vkCode : UInt32)
    (modifiers : ModifierMask) : Option InputEvent × ModifierMask :=
  let pressed := decide (message = .keyDown ∨ message = .sysKeyDown)
  let released := decide (message = .keyUp ∨ message = .sysKeyUp)
  if code ≥ 0 ∧ (pressed ∨ released) then
    match vkToHid vkCode.toUInt16 with
    | none => (none, modifiers)
    | some hid =>
      let modifiers := Windows.updateModifiers hid pressed modifiers
      (some (.key hid pressed modifiers), modifiers)
  else (none, modifiers)

/-- The messages of the mouse hook. -/
inductive MouseMessage
  | mouseMove
  | lButtonDown | lButtonUp | rButtonDown | rButtonUp | mButtonDown | mButtonUp
  | xButtonDown | xButtonUp
  | mouseWheel
  | other
deriving DecidableEq

/-- The fields of an `MSLLHOOKSTRUCT` that the hook reads. -/
structure MsllHookStruct where
  /-- `pt`. -/
  pt : Int32 × Int32
  /-- `mouseData`. -/
  mouseData : UInt32
deriving DecidableEq

/-- The motion of the wheel, the high word of `mouseData`. -/
def MsllHookStruct.wheelDelta (m : MsllHookStruct) : Int16 := (m.mouseData >>> 16).toUInt16.toInt16

/-- `low_level_mouse_proc`, once the sink is set. `last` is `LAST_MOUSE`. -/
def lowLevelMouseProc (code : Int32) (message : MouseMessage) (m : MsllHookStruct) (now : UInt64)
    (last : Option (Int32 × Int32)) : Option InputEvent × Option (Int32 × Int32) :=
  if code ≥ 0 then
    match message with
    | .mouseMove =>
      let (x, y) := m.pt
      (last.map fun p => .mouseMove (x - p.1) (y - p.2) now, some (x, y))
    | .lButtonDown => (some (.mouseButton .left true), last)
    | .lButtonUp => (some (.mouseButton .left false), last)
    | .rButtonDown => (some (.mouseButton .right true), last)
    | .rButtonUp => (some (.mouseButton .right false), last)
    | .mButtonDown => (some (.mouseButton .middle true), last)
    | .mButtonUp => (some (.mouseButton .middle false), last)
    | .xButtonDown | .xButtonUp =>
      let xbtn := (m.mouseData >>> 16).toUInt16
      let pressed := decide (message = .xButtonDown)
      (some (.mouseButton (if xbtn = xbutton1 then .back else .forward) pressed), last)
    | .mouseWheel => (some (.scroll 0 (-(m.wheelDelta / 120)).toInt32), last)
    | .other => (none, last)
  else (none, last)

/-- A call of the mouse hook. -/
structure MouseCall where
  /-- `code`. -/
  code : Int32
  /-- The message in `wparam`. -/
  message : MouseMessage
  /-- The structure behind `lparam`. -/
  hook : MsllHookStruct
  /-- The time of the call. -/
  now : UInt64
deriving DecidableEq

/-- The events that are sent for a sequence of calls. -/
def capturedMouse : Option (Int32 × Int32) → List MouseCall → List InputEvent
  | _, [] => []
  | last, call :: calls =>
    let result := lowLevelMouseProc call.code call.message call.hook call.now last
    result.1.toList ++ capturedMouse result.2 calls

/-! ## The wheel -/

/-- The motion of the wheel that a call reports. -/
def MouseCall.wheelDelta (call : MouseCall) : Option Int16 :=
  if call.code ≥ 0 ∧ call.message = .mouseWheel then some call.hook.wheelDelta else none

/-- The motions of the wheel that a sequence of calls reports. -/
def wheelDeltas (calls : List MouseCall) : List Int16 := calls.filterMap MouseCall.wheelDelta

/-- The total motion of the wheel. -/
def wheelTotal (calls : List MouseCall) : ℤ := ((wheelDeltas calls).map Int16.toInt).sum

/-- The total of what is left of each motion when the notches are taken off. -/
def wheelRest (calls : List MouseCall) : ℤ :=
  ((wheelDeltas calls).map fun d => d.toInt.tmod 120).sum

/-- The notches by which an event scrolls down. -/
def scrolledDown : InputEvent → ℤ
  | .scroll _ dy => dy.toInt
  | _ => 0

/-- The total by which a sequence of calls scrolls down. -/
def wheelScrolled (last : Option (Int32 × Int32)) (calls : List MouseCall) : ℤ :=
  ((capturedMouse last calls).map scrolledDown).sum

/-- A sequence of calls scrolls by the motion of the wheel, up to less than a notch. -/
def KeepsWheel (last : Option (Int32 × Int32)) (calls : List MouseCall) : Prop :=
  |120 * wheelScrolled last calls + wheelTotal calls| < 120

section Wheel

variable {last : Option (Int32 × Int32)} {calls : List MouseCall}

/-- The quotient is rounded toward zero, and its negation does not overflow. -/
theorem toInt_neg_wheelDelta (d : Int16) :
    (-(d / 120)).toInt32.toInt = -d.toInt.tdiv 120 := by
  have hnotch : (120 : Int16).toInt = 120 := by decide
  have hge := d.le_toInt
  have hlt := d.toInt_lt
  have hsize : (d.toInt.tdiv 120).natAbs = d.toInt.natAbs / 120 := Int.natAbs_tdiv _ _
  rw [Int16.toInt_toInt32, Int16.toInt_neg, Int16.toInt_div_of_ne_right _ _ (by decide), hnotch]
  exact Int.bmod_eq_of_le (by omega) (by omega)

/-- What a call scrolls. -/
theorem scrolledDown_call (call : MouseCall) (last : Option (Int32 × Int32)) :
    ((lowLevelMouseProc call.code call.message call.hook call.now last).1.toList.map
        scrolledDown).sum =
      (call.wheelDelta.toList.map fun d => -d.toInt.tdiv 120).sum := by
  unfold lowLevelMouseProc MouseCall.wheelDelta
  by_cases hcode : call.code ≥ 0
  · rw [if_pos hcode]
    cases hmessage : call.message with
    | mouseWheel =>
      -- the only message that scrolls
      rw [if_pos ⟨hcode, rfl⟩]
      show (-(call.hook.wheelDelta / 120)).toInt32.toInt + 0 = _
      rw [toInt_neg_wheelDelta]
      rfl
    | mouseMove => cases last <;> simp [scrolledDown]
    | _ => simp [scrolledDown]
  · rw [if_neg hcode, if_neg fun hand => hcode hand.1]
    rfl

/-- A sequence of calls scrolls by the sum of the quotients. -/
theorem wheelScrolled_eq (last : Option (Int32 × Int32)) (calls : List MouseCall) :
    wheelScrolled last calls = -((wheelDeltas calls).map fun d => d.toInt.tdiv 120).sum := by
  unfold wheelScrolled
  -- on the calls; the other messages change the last position, and scroll nothing
  induction calls generalizing last with
  | nil => rfl
  | cons call calls ih =>
    have hdeltas : wheelDeltas (call :: calls) = call.wheelDelta.toList ++ wheelDeltas calls := by
      unfold wheelDeltas
      cases hdelta : call.wheelDelta <;> simp [hdelta]
    have hneg : ∀ l : List Int16, (l.map fun d => -d.toInt.tdiv 120).sum =
        -(l.map fun d => d.toInt.tdiv 120).sum := by
      intro l
      rw [List.sum_neg, List.map_map]
      rfl
    unfold capturedMouse
    rw [List.map_append, List.sum_append, scrolledDown_call, ih, hdeltas, List.map_append,
      List.sum_append, hneg, neg_add]

/-- What a sequence of calls loses is the rest of each motion. -/
theorem wheelScrolled_add_wheelTotal (last : Option (Int32 × Int32)) (calls : List MouseCall) :
    120 * wheelScrolled last calls + wheelTotal calls = wheelRest calls := by
  have hsum := sum_tdiv_add_tmod 120 ((wheelDeltas calls).map Int16.toInt)
  rw [List.map_map, List.map_map] at hsum
  have hnotches := wheelScrolled_eq last calls
  calc 120 * wheelScrolled last calls + wheelTotal calls
      = -(120 * ((wheelDeltas calls).map fun d => d.toInt.tdiv 120).sum) + wheelTotal calls := by
        rw [hnotches, mul_neg]
    _ = -(120 * ((wheelDeltas calls).map fun d => d.toInt.tdiv 120).sum) +
          (120 * ((wheelDeltas calls).map fun d => d.toInt.tdiv 120).sum + wheelRest calls) :=
        congrArg _ hsum.symm
    _ = wheelRest calls := neg_add_cancel_left _ _

/-- The wheel. For every sequence of calls of the hook, what is scrolled is the motion of the wheel
up to less than a notch precisely when the rests of the motions add up to less than a notch. Two
sequences with the same total motion and with such rests scroll the same up to one notch. -/
theorem wheel_keeps_iff (last : Option (Int32 × Int32)) (calls : List MouseCall) :
    (KeepsWheel last calls ↔ |wheelRest calls| < 120) ∧
    ∀ last' calls', wheelTotal calls' = wheelTotal calls → |wheelRest calls| < 120 →
      |wheelRest calls'| < 120 → |wheelScrolled last' calls' - wheelScrolled last calls| ≤ 1 := by
  have hlost := wheelScrolled_add_wheelTotal last calls
  constructor
  · unfold KeepsWheel
    rw [hlost]
  · intro last' calls' htotal hrest hrest'
    have hlost' := wheelScrolled_add_wheelTotal last' calls'
    rw [abs_lt] at hrest hrest'
    rw [abs_le]
    omega

end Wheel

section Example

/-- Half a notch up. -/
def halfNotch : MouseCall := ⟨0, .mouseWheel, ⟨(0, 0), 0x003C0000⟩, 0⟩

/-- Half a notch and another half do not scroll. -/
theorem halfNotches_lost : ¬ ∀ last calls, KeepsWheel last calls := by
  intro h
  have hkeeps := h none [halfNotch, halfNotch]
  unfold KeepsWheel at hkeeps
  rw [wheelScrolled_add_wheelTotal] at hkeeps
  have hrest : wheelRest [halfNotch, halfNotch] = 120 := by decide
  rw [hrest] at hkeeps
  exact absurd hkeeps (by decide)

end Example

end Borderless.Input
