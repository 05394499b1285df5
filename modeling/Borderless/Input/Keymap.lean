import Borderless.Input.Modifiers

/-!
# HID usages and X11 keysyms

The key tables of `crates/pal-x11/src/keymap.rs`. The capture goes from a keycode to the keysym in
column 0 of the keyboard mapping and from there to a HID usage; the emitter goes from a HID usage to
a keysym and from there to a keycode. The `match` of a table is the list of its arms.
-/

namespace Borderless

/-! The usages of `crates/core/src/hid.rs` that the tables name. -/

namespace HidUsage

def key0 : HidUsage := ⟨0x27⟩
def enter : HidUsage := ⟨0x28⟩
def escape : HidUsage := ⟨0x29⟩
def backspace : HidUsage := ⟨0x2A⟩
def tab : HidUsage := ⟨0x2B⟩
def space : HidUsage := ⟨0x2C⟩
def minus : HidUsage := ⟨0x2D⟩
def equal : HidUsage := ⟨0x2E⟩
def leftBracket : HidUsage := ⟨0x2F⟩
def rightBracket : HidUsage := ⟨0x30⟩
def backslash : HidUsage := ⟨0x31⟩
def semicolon : HidUsage := ⟨0x33⟩
def apostrophe : HidUsage := ⟨0x34⟩
def grave : HidUsage := ⟨0x35⟩
def comma : HidUsage := ⟨0x36⟩
def period : HidUsage := ⟨0x37⟩
def slash : HidUsage := ⟨0x38⟩
def capsLock : HidUsage := ⟨0x39⟩
def f1 : HidUsage := ⟨0x3A⟩
def f2 : HidUsage := ⟨0x3B⟩
def f3 : HidUsage := ⟨0x3C⟩
def f4 : HidUsage := ⟨0x3D⟩
def f5 : HidUsage := ⟨0x3E⟩
def f6 : HidUsage := ⟨0x3F⟩
def f7 : HidUsage := ⟨0x40⟩
def f8 : HidUsage := ⟨0x41⟩
def f9 : HidUsage := ⟨0x42⟩
def f10 : HidUsage := ⟨0x43⟩
def f11 : HidUsage := ⟨0x44⟩
def f12 : HidUsage := ⟨0x45⟩
def printScreen : HidUsage := ⟨0x46⟩
def scrollLock : HidUsage := ⟨0x47⟩
def pause : HidUsage := ⟨0x48⟩
def insert : HidUsage := ⟨0x49⟩
def home : HidUsage := ⟨0x4A⟩
def pageUp : HidUsage := ⟨0x4B⟩
def delete : HidUsage := ⟨0x4C⟩
def endKey : HidUsage := ⟨0x4D⟩
def pageDown : HidUsage := ⟨0x4E⟩
def right : HidUsage := ⟨0x4F⟩
def left : HidUsage := ⟨0x50⟩
def down : HidUsage := ⟨0x51⟩
def up : HidUsage := ⟨0x52⟩
def numLock : HidUsage := ⟨0x53⟩
def kpSlash : HidUsage := ⟨0x54⟩
def kpAsterisk : HidUsage := ⟨0x55⟩
def kpMinus : HidUsage := ⟨0x56⟩
def kpPlus : HidUsage := ⟨0x57⟩
def kpEnter : HidUsage := ⟨0x58⟩
def kp1 : HidUsage := ⟨0x59⟩
def kp2 : HidUsage := ⟨0x5A⟩
def kp3 : HidUsage := ⟨0x5B⟩
def kp4 : HidUsage := ⟨0x5C⟩
def kp5 : HidUsage := ⟨0x5D⟩
def kp6 : HidUsage := ⟨0x5E⟩
def kp7 : HidUsage := ⟨0x5F⟩
def kp8 : HidUsage := ⟨0x60⟩
def kp9 : HidUsage := ⟨0x61⟩
def kp0 : HidUsage := ⟨0x62⟩
def kpPeriod : HidUsage := ⟨0x63⟩
def application : HidUsage := ⟨0x65⟩
def f13 : HidUsage := ⟨0x68⟩
def f14 : HidUsage := ⟨0x69⟩
def f15 : HidUsage := ⟨0x6A⟩
def f16 : HidUsage := ⟨0x6B⟩
def f17 : HidUsage := ⟨0x6C⟩
def f18 : HidUsage := ⟨0x6D⟩
def f19 : HidUsage := ⟨0x6E⟩
def f20 : HidUsage := ⟨0x6F⟩
def f21 : HidUsage := ⟨0x70⟩
def f22 : HidUsage := ⟨0x71⟩
def f23 : HidUsage := ⟨0x72⟩
def f24 : HidUsage := ⟨0x73⟩

end HidUsage

namespace Input

/-- A 32-bit X11 keysym. -/
abbrev Keysym := UInt32

/-- `alpha_to_keysym`: the keysym of a letter, in lower case. -/
def alphaToKeysym (usage : UInt16) : Option Keysym :=
  let n : ℤ := usage.toNat - 0x04
  if 0 ≤ n ∧ n ≤ 25 then some (0x0061 + UInt32.ofNat n.toNat) else none

/-- `digit_to_keysym`: the keysym of a digit, whose usages go from 1 to 9 and 0. -/
def digitToKeysym (usage : UInt16) : Option Keysym :=
  if 0x1E ≤ usage ∧ usage ≤ 0x27 then
    let digit := if usage = 0x27 then 0 else (usage - 0x1E + 1).toUInt32
    some (0x0030 + digit)
  else none

/-- The arms of `hid_to_keysym`. -/
def keysymOfUsage : List (HidUsage × Keysym) :=
  [(.enter, 0xff0d), (.escape, 0xff1b), (.backspace, 0xff08), (.tab, 0xff09), (.space, 0x0020),
    (.minus, 0x002d), (.equal, 0x003d), (.leftBracket, 0x005b), (.rightBracket, 0x005d),
    (.backslash, 0x005c), (.semicolon, 0x003b), (.apostrophe, 0x0027), (.grave, 0x0060),
    (.comma, 0x002c), (.period, 0x002e), (.slash, 0x002f), (.capsLock, 0xffe5), (.f1, 0xffbe),
    (.f2, 0xffbf), (.f3, 0xffc0), (.f4, 0xffc1), (.f5, 0xffc2), (.f6, 0xffc3), (.f7, 0xffc4),
    (.f8, 0xffc5), (.f9, 0xffc6), (.f10, 0xffc7), (.f11, 0xffc8), (.f12, 0xffc9), (.f13, 0xffca),
    (.f14, 0xffcb), (.f15, 0xffcc), (.f16, 0xffcd), (.f17, 0xffce), (.f18, 0xffcf), (.f19, 0xffd0),
    (.f20, 0xffd1), (.f21, 0xffd2), (.f22, 0xffd3), (.f23, 0xffd4), (.f24, 0xffd5),
    (.printScreen, 0xff61), (.scrollLock, 0xff14), (.pause, 0xff13), (.insert, 0xff63),
    (.home, 0xff50), (.pageUp, 0xff55), (.delete, 0xffff), (.endKey, 0xff57), (.pageDown, 0xff56),
    (.right, 0xff53), (.left, 0xff51), (.down, 0xff54), (.up, 0xff52), (.numLock, 0xff7f),
    (.kpSlash, 0xffaf), (.kpAsterisk, 0xffaa), (.kpMinus, 0xffad), (.kpPlus, 0xffab),
    (.kpEnter, 0xff8d), (.kp1, 0xffb1), (.kp2, 0xffb2), (.kp3, 0xffb3), (.kp4, 0xffb4),
    (.kp5, 0xffb5), (.kp6, 0xffb6), (.kp7, 0xffb7), (.kp8, 0xffb8), (.kp9, 0xffb9), (.kp0, 0xffb0),
    (.kpPeriod, 0xffae), (.application, 0xff67), (.lctrl, 0xffe3), (.lshift, 0xffe1),
    (.lalt, 0xffe9), (.lgui, 0xffeb), (.rctrl, 0xffe4), (.rshift, 0xffe2), (.ralt, 0xffea),
    (.rgui, 0xffec)]

/-- `hid_to_keysym`: the keysym of a letter, of a digit, or of a key in the table. -/
def hidToKeysym (usage : HidUsage) : Option Keysym :=
  match alphaToKeysym usage.usage with
  | some k => some k
  | none =>
    match digitToKeysym usage.usage with
    | some k => some k
    | none => keysymOfUsage.lookup usage

/-- The arms of `keysym_to_hid`. -/
def usageOfKeysym : List (Keysym × HidUsage) :=
  [(0xff0d, .enter), (0xff1b, .escape), (0xff08, .backspace), (0xff09, .tab), (0x0020, .space),
    (0x002d, .minus), (0x003d, .equal), (0x005b, .leftBracket), (0x005d, .rightBracket),
    (0x005c, .backslash), (0x003b, .semicolon), (0x0027, .apostrophe), (0x0060, .grave),
    (0x002c, .comma), (0x002e, .period), (0x002f, .slash), (0xffe5, .capsLock), (0xffbe, .f1),
    (0xffbf, .f2), (0xffc0, .f3), (0xffc1, .f4), (0xffc2, .f5), (0xffc3, .f6), (0xffc4, .f7),
    (0xffc5, .f8), (0xffc6, .f9), (0xffc7, .f10), (0xffc8, .f11), (0xffc9, .f12),
    (0xff63, .insert), (0xff50, .home), (0xff55, .pageUp), (0xffff, .delete), (0xff57, .endKey),
    (0xff56, .pageDown), (0xff53, .right), (0xff51, .left), (0xff54, .down), (0xff52, .up),
    (0xff7f, .numLock), (0xffe3, .lctrl), (0xffe1, .lshift), (0xffe9, .lalt), (0xffeb, .lgui),
    (0xffe4, .rctrl), (0xffe2, .rshift), (0xffea, .ralt), (0xffec, .rgui)]

/-- `keysym_to_hid`: the usage of a letter in either case, of a digit, or of a key in the table. -/
def keysymToHid (keysym : Keysym) : Option HidUsage :=
  -- lowercase and uppercase letters
  if 0x0061 ≤ keysym ∧ keysym ≤ 0x007a then some ⟨(keysym - 0x0061).toUInt16 + 0x04⟩
  else if 0x0041 ≤ keysym ∧ keysym ≤ 0x005a then some ⟨(keysym - 0x0041).toUInt16 + 0x04⟩
  -- digits, where `0` comes last
  else if keysym = 0x0030 then some .key0
  else if 0x0031 ≤ keysym ∧ keysym ≤ 0x0039 then some ⟨(keysym - 0x0031).toUInt16 + 0x1E⟩
  else usageOfKeysym.lookup keysym

/-- A keyboard mapping of the X server. -/
structure KeyMap where
  /-- The lowest keycode. -/
  minKeycode : UInt8
  /-- The highest keycode. -/
  maxKeycode : UInt8
  /-- The number of columns. -/
  keysymsPerKeycode : UInt8
  /-- The columns of all keycodes, row by row. A keysym 0 stands for no keysym. -/
  keysyms : List Keysym

/-- The keysym in a column of a keycode's row. -/
def KeyMap.keysym (map : KeyMap) (kc col : ℕ) : Option Keysym :=
  map.keysyms[kc * map.keysymsPerKeycode.toNat + col]?

end Input

end Borderless
