import Borderless.Input.Keymap
import Borderless.Lib.Binary64

/-!
# The macOS backend

The key tables of `crates/pal-macos/src/keymap.rs` and the emission of `crates/pal-macos/src/emit.rs`.
What is emitted is the list of the events that are posted. The capture is not written yet: its `start`
sends no events.

A macOS event has the position of the pointer in it, and the emitter keeps that position as two
numbers of type `f64`. The model is over any numbers. The code has it over `doubles`, the numbers of
binary64; over the integers it is what the positions mean, and below `2 ^ 53` the emitter posts just
these positions (`posted_eq_map`).
-/

namespace Borderless.Input

open LastWrite

/-! ## Keys -/

/-- The arms of `hid_to_mac`. -/
def macOfUsage : List (HidUsage × UInt16) :=
  [(.keyA, 0x00), (⟨0x05⟩, 0x0B), (⟨0x06⟩, 0x08), (⟨0x07⟩, 0x02), (⟨0x08⟩, 0x0E), (⟨0x09⟩, 0x03),
    (⟨0x0A⟩, 0x05), (⟨0x0B⟩, 0x04), (⟨0x0C⟩, 0x22), (⟨0x0D⟩, 0x26), (⟨0x0E⟩, 0x28), (⟨0x0F⟩, 0x25),
    (⟨0x10⟩, 0x2E), (⟨0x11⟩, 0x2D), (⟨0x12⟩, 0x1F), (⟨0x13⟩, 0x23), (⟨0x14⟩, 0x0C), (⟨0x15⟩, 0x0F),
    (⟨0x16⟩, 0x01), (⟨0x17⟩, 0x11), (⟨0x18⟩, 0x20), (⟨0x19⟩, 0x09), (⟨0x1A⟩, 0x0D), (⟨0x1B⟩, 0x07),
    (⟨0x1C⟩, 0x10), (⟨0x1D⟩, 0x06), (⟨0x1E⟩, 0x12), (⟨0x1F⟩, 0x13), (⟨0x20⟩, 0x14), (⟨0x21⟩, 0x15),
    (⟨0x22⟩, 0x17), (⟨0x23⟩, 0x16), (⟨0x24⟩, 0x1A), (⟨0x25⟩, 0x1C), (⟨0x26⟩, 0x19), (.key0, 0x1D),
    (.enter, 0x24), (.escape, 0x35), (.backspace, 0x33), (.tab, 0x30), (.space, 0x31),
    (.minus, 0x1B), (.equal, 0x18), (.leftBracket, 0x21), (.rightBracket, 0x1E), (.backslash, 0x2A),
    (.semicolon, 0x29), (.apostrophe, 0x27), (.grave, 0x32), (.comma, 0x2B), (.period, 0x2F),
    (.slash, 0x2C), (.capsLock, 0x39), (.f1, 0x7A), (.f2, 0x78), (.f3, 0x63), (.f4, 0x76),
    (.f5, 0x60), (.f6, 0x61), (.f7, 0x62), (.f8, 0x64), (.f9, 0x65), (.f10, 0x6D), (.f11, 0x67),
    (.f12, 0x6F), (.insert, 0x72), (.home, 0x73), (.pageUp, 0x74), (.delete, 0x75), (.endKey, 0x77),
    (.pageDown, 0x79), (.right, 0x7C), (.left, 0x7B), (.down, 0x7D), (.up, 0x7E), (.lctrl, 0x3B),
    (.lshift, 0x38), (.lalt, 0x3A), (.lgui, 0x37), (.rctrl, 0x3E), (.rshift, 0x3C), (.ralt, 0x3D),
    (.rgui, 0x36)]

/-- `hid_to_mac`: the virtual key of a usage, by the table. -/
def hidToMac (hid : HidUsage) : Option UInt16 := macOfUsage.lookup hid

/-- The arms of `mac_to_hid`. -/
def usageOfMac : List (UInt16 × HidUsage) :=
  [(0x00, .keyA), (0x0B, ⟨0x05⟩), (0x08, ⟨0x06⟩), (0x02, ⟨0x07⟩), (0x0E, ⟨0x08⟩), (0x03, ⟨0x09⟩),
    (0x05, ⟨0x0A⟩), (0x04, ⟨0x0B⟩), (0x22, ⟨0x0C⟩), (0x26, ⟨0x0D⟩), (0x28, ⟨0x0E⟩), (0x25, ⟨0x0F⟩),
    (0x2E, ⟨0x10⟩), (0x2D, ⟨0x11⟩), (0x1F, ⟨0x12⟩), (0x23, ⟨0x13⟩), (0x0C, ⟨0x14⟩), (0x0F, ⟨0x15⟩),
    (0x01, ⟨0x16⟩), (0x11, ⟨0x17⟩), (0x20, ⟨0x18⟩), (0x09, ⟨0x19⟩), (0x0D, ⟨0x1A⟩), (0x07, ⟨0x1B⟩),
    (0x10, ⟨0x1C⟩), (0x06, ⟨0x1D⟩), (0x12, ⟨0x1E⟩), (0x13, ⟨0x1F⟩), (0x14, ⟨0x20⟩), (0x15, ⟨0x21⟩),
    (0x17, ⟨0x22⟩), (0x16, ⟨0x23⟩), (0x1A, ⟨0x24⟩), (0x1C, ⟨0x25⟩), (0x19, ⟨0x26⟩), (0x1D, .key0),
    (0x24, .enter), (0x35, .escape), (0x33, .backspace), (0x30, .tab), (0x31, .space),
    (0x1B, .minus), (0x18, .equal), (0x21, .leftBracket), (0x1E, .rightBracket), (0x2A, .backslash),
    (0x29, .semicolon), (0x27, .apostrophe), (0x32, .grave), (0x2B, .comma), (0x2F, .period),
    (0x2C, .slash), (0x39, .capsLock), (0x7A, .f1), (0x78, .f2), (0x63, .f3), (0x76, .f4),
    (0x60, .f5), (0x61, .f6), (0x62, .f7), (0x64, .f8), (0x65, .f9), (0x6D, .f10), (0x67, .f11),
    (0x6F, .f12), (0x72, .insert), (0x73, .home), (0x74, .pageUp), (0x75, .delete), (0x77, .endKey),
    (0x79, .pageDown), (0x7C, .right), (0x7B, .left), (0x7D, .down), (0x7E, .up), (0x3B, .lctrl),
    (0x38, .lshift), (0x3A, .lalt), (0x37, .lgui), (0x3E, .rctrl), (0x3C, .rshift), (0x3D, .ralt),
    (0x36, .rgui)]

/-- `mac_to_hid`: the usage of a virtual key, by the table. -/
def macToHid (kc : UInt16) : Option HidUsage := usageOfMac.lookup kc

/-- The two tables are the same relation. -/
theorem hidToMac_eq_some_iff {hid : HidUsage} {kc : UInt16} :
    hidToMac hid = some kc ↔ macToHid kc = some hid := by
  have hthere : ∀ p ∈ macOfUsage, macToHid p.2 = some p.1 := by decide +kernel
  have hback : ∀ p ∈ usageOfMac, hidToMac p.2 = some p.1 := by decide +kernel
  exact ⟨fun h => hthere (hid, kc) (mem_of_lookup_eq_some h),
    fun h => hback (kc, hid) (mem_of_lookup_eq_some h)⟩

/-! ## Emission -/

/-- The operations of the emitter on positions. -/
structure Doubles (F : Type) where
  /-- `0.0`. -/
  zero : F
  /-- `as f64`. -/
  ofInt32 : Int32 → F
  /-- `+`. -/
  add : F → F → F

/-- The integers. -/
def wholes : Doubles ℤ where
  zero := 0
  ofInt32 n := n.toInt
  add a b := a + b

/-- The operations on `f64`, where a sum is rounded. -/
def doubles : Doubles Float where
  zero := 0.0
  ofInt32 n := .ofModel (.ofInt32 n)
  add a b := a + b

/-- The number of type `f64` that is nearest to an integer. -/
def double (n : ℤ) : Float := .ofModel (.ofInt n)

/-- The cast of an `i32` is its integer. -/
theorem doubles_ofInt32 (n : Int32) : doubles.ofInt32 n = double n.toInt := rfl

/-- Sums of integers below `2 ^ 53` are exact. -/
theorem doubles_add {a b : ℤ} (ha : a.natAbs < 2 ^ 53) (hb : b.natAbs < 2 ^ 53)
    (hab : (a + b).natAbs < 2 ^ 53) : doubles.add (double a) (double b) = double (a + b) :=
  congrArg Float.ofModel (Binary64.ofInt_add_ofInt ha hb hab)

/-- The types of a mouse event. -/
inductive CGEventType
  | mouseMoved
  | leftMouseDown | leftMouseUp | rightMouseDown | rightMouseUp | otherMouseDown | otherMouseUp
deriving DecidableEq

/-- `CGMouseButton`: a button of the mouse, where all others are the center one. -/
inductive CGMouseButton
  | left | right | center
deriving DecidableEq

/-- An event that is posted. -/
inductive CGEvent (F : Type)
  /-- `CGEvent::new_mouse_event`. -/
  | mouse (type : CGEventType) (pos : F × F) (button : CGMouseButton)
  /-- `CGEvent::new_scroll_event`, in lines, with two wheels. -/
  | scroll (wheel1 wheel2 : Int32)
  /-- `CGEvent::new_keyboard_event`. -/
  | keyboard (keycode : UInt16) (keydown : Bool)
deriving DecidableEq

/-- The same event over other numbers. -/
def CGEvent.map {F G : Type} (f : F → G) : CGEvent F → CGEvent G
  | .mouse type pos button => .mouse type (f pos.1, f pos.2) button
  | .scroll wheel1 wheel2 => .scroll wheel1 wheel2
  | .keyboard keycode keydown => .keyboard keycode keydown

/-- `mouse_event_type`: the type of the event of a press or a release, and its button. -/
def mouseEventType : Button → Bool → CGEventType × CGMouseButton
  | .left, true => (.leftMouseDown, .left)
  | .left, false => (.leftMouseUp, .left)
  | .right, true => (.rightMouseDown, .right)
  | .right, false => (.rightMouseUp, .right)
  | .middle, true => (.otherMouseDown, .center)
  | .middle, false => (.otherMouseUp, .center)
  | _, true => (.otherMouseDown, .center)
  | _, false => (.otherMouseUp, .center)

/-- `MacosEmit`: where the emitter believes the pointer to be. -/
structure MacosEmit (F : Type) where
  /-- `last_pos`. -/
  lastPos : F × F

namespace MacosEmit

variable {F G : Type}

/-- `MacosEmit::new`: the pointer is at the origin. -/
def new (d : Doubles F) : MacosEmit F := ⟨d.zero, d.zero⟩

/-- `MacosEmit::emit`, with the arithmetic of a build without overflow checks. -/
def emit (d : Doubles F) (em : MacosEmit F) : InputEvent → List (CGEvent F) × MacosEmit F
  | .mouseMove dx dy _ =>
    let pos := (d.add em.lastPos.1 (d.ofInt32 dx), d.add em.lastPos.2 (d.ofInt32 dy))
    ([.mouse .mouseMoved pos .left], ⟨pos⟩)
  | .mouseAbs x y _ =>
    let pos := (d.ofInt32 x, d.ofInt32 y)
    ([.mouse .mouseMoved pos .left], ⟨pos⟩)
  | .mouseButton btn pressed =>
    let (type, button) := mouseEventType btn pressed
    ([.mouse type em.lastPos button], em)
  | .scroll dx dy => ([.scroll (-dy) (-dx)], em)
  | .key code pressed _ =>
    match hidToMac code with
    | none => ([], em)
    | some kc => ([.keyboard kc pressed], em)
  | .enter .. => ([], em)
  | .leave _ => ([], em)

/-- What is posted for a sequence of events. -/
def posted (d : Doubles F) : MacosEmit F → List InputEvent → List (CGEvent F)
  | _, [] => []
  | em, event :: events => (emit d em event).1 ++ posted d (emit d em event).2 events

/-- The emitter after a sequence of events. -/
def after (d : Doubles F) (em : MacosEmit F) (events : List InputEvent) : MacosEmit F :=
  events.foldl (fun em event => (emit d em event).2) em

/-- The same emitter over other numbers. -/
def map (f : F → G) (em : MacosEmit F) : MacosEmit G := ⟨f em.lastPos.1, f em.lastPos.2⟩

/-- The position is in the range in which numbers of type `f64` are exact. -/
def InRange (em : MacosEmit ℤ) : Prop := em.lastPos.1.natAbs < 2 ^ 53 ∧ em.lastPos.2.natAbs < 2 ^ 53

end MacosEmit

/-! ## Positions -/

section Positions

variable {em : MacosEmit ℤ}

/-- A distance or a coordinate is in range. -/
theorem natAbs_toInt_lt (n : Int32) : n.toInt.natAbs < 2 ^ 53 := by
  have hge := n.le_toInt
  have hlt := n.toInt_lt
  omega

/-- One event, with exact numbers. -/
theorem MacosEmit.emit_map {event : InputEvent} (hbefore : em.InRange)
    (hafter : (MacosEmit.emit wholes em event).2.InRange) :
    MacosEmit.emit doubles (em.map double) event =
      ((MacosEmit.emit wholes em event).1.map (CGEvent.map double),
        (MacosEmit.emit wholes em event).2.map double) := by
  cases event with
  | mouseMove dx dy ts =>
    have hx : doubles.add (double em.lastPos.1) (doubles.ofInt32 dx) =
        double (em.lastPos.1 + dx.toInt) :=
      doubles_add hbefore.1 (natAbs_toInt_lt dx) hafter.1
    have hy : doubles.add (double em.lastPos.2) (doubles.ofInt32 dy) =
        double (em.lastPos.2 + dy.toInt) :=
      doubles_add hbefore.2 (natAbs_toInt_lt dy) hafter.2
    simp only [MacosEmit.emit, MacosEmit.map, wholes, hx, hy, List.map_cons, List.map_nil,
      CGEvent.map]
  | mouseAbs x y screen =>
    simp only [MacosEmit.emit, MacosEmit.map, wholes, doubles_ofInt32, List.map_cons, List.map_nil,
      CGEvent.map]
  | key code pressed m =>
    unfold MacosEmit.emit
    dsimp only
    cases hidToMac code <;> rfl
  | _ => rfl

/-- The emitter posts what it would with whole numbers, as long as the position stays in range. -/
theorem MacosEmit.posted_eq_map {events : List InputEvent}
    (h : ∀ pre, pre <+: events → (em.after wholes pre).InRange) :
    MacosEmit.posted doubles (em.map double) events =
        (MacosEmit.posted wholes em events).map (CGEvent.map double) ∧
      (em.map double).after doubles events = (em.after wholes events).map double := by
  -- on the events, one at a time
  induction events generalizing em with
  | nil => exact ⟨rfl, rfl⟩
  | cons event events ih =>
    have hbefore : em.InRange := h [] List.nil_prefix
    have hafter : (MacosEmit.emit wholes em event).2.InRange :=
      h [event] (List.cons_prefix_cons.2 ⟨rfl, List.nil_prefix⟩)
    have hone := MacosEmit.emit_map hbefore hafter
    have hrest := @ih (MacosEmit.emit wholes em event).2 fun pre hpre =>
      h (event :: pre) (List.cons_prefix_cons.2 ⟨rfl, hpre⟩)
    constructor
    · unfold MacosEmit.posted
      rw [hone, List.map_append, hrest.1]
    · show (MacosEmit.emit doubles (em.map double) event).2.after doubles events = _
      rw [hone]
      exact hrest.2

end Positions

end Borderless.Input
