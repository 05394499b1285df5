import Borderless.Input.Windows
import Borderless.Input.X11Capture
import Borderless.Lib.EventRelay

/-!
# Buttons and wheel from a hub to a spoke

The way of a mouse button: the capture of the hub (`handle_button` on X11, `low_level_mouse_proc` on
Windows) turns a press or a release into an event, and the emitter of the spoke (`button_to_code` and
`button_flags`) turns the event into one of its own system. The wheel of X11 is a set of buttons, too:
a press of one is sent as a scroll, which is emitted as clicks, but its release is sent as the release
of a button.
-/

namespace Borderless.Input

open EventRelay LastWrite

/-! ## What is pressed and released -/

/-- The button that an event presses or releases. -/
def wireButton : InputEvent → Option (Button × Bool)
  | .mouseButton btn pressed => some (btn, pressed)
  | _ => none

/-- The button of the X server that a raw event presses or releases. -/
def RawEvent.button : RawEvent → Option (UInt32 × Bool)
  | .buttonPress detail => some (detail, true)
  | .buttonRelease detail => some (detail, false)
  | _ => none

/-- The button of the X server that a fake input presses or releases. -/
def FakeInput.button (fake : FakeInput) : Option (UInt8 × Bool) :=
  match fake.type with
  | .buttonPress => some (fake.detail, true)
  | .buttonRelease => some (fake.detail, false)
  | _ => none

/-- The wheel of the X server. -/
def IsWheel (code : ℕ) : Prop := 4 ≤ code ∧ code ≤ 7

instance : DecidablePred IsWheel := fun _ => inferInstanceAs (Decidable (_ ∧ _))

/-- The press or release of a button other than the wheel. -/
def FakeInput.plainButton (fake : FakeInput) : Option (UInt8 × Bool) :=
  fake.button.filter fun p => ¬ IsWheel p.1.toNat

/-- The mouse button that an input of Windows presses or releases. -/
def WinInput.button : WinInput → Option (Button × Bool)
  | .mouse mi =>
    if mi.dwFlags = [.leftDown] then some (.left, true)
    else if mi.dwFlags = [.leftUp] then some (.left, false)
    else if mi.dwFlags = [.rightDown] then some (.right, true)
    else if mi.dwFlags = [.rightUp] then some (.right, false)
    else if mi.dwFlags = [.middleDown] then some (.middle, true)
    else if mi.dwFlags = [.middleUp] then some (.middle, false)
    else if mi.dwFlags = [.xDown] then
      some (if mi.mouseData = xbutton1.toUInt32 then .back else .forward, true)
    else if mi.dwFlags = [.xUp] then
      some (if mi.mouseData = xbutton1.toUInt32 then .back else .forward, false)
    else none
  | .keyboard _ => none

/-- The mouse button that a call of the hook presses or releases. -/
def MouseCall.button (call : MouseCall) : Option (Button × Bool) :=
  if call.code ≥ 0 then
    match call.message with
    | .lButtonDown => some (.left, true)
    | .lButtonUp => some (.left, false)
    | .rButtonDown => some (.right, true)
    | .rButtonUp => some (.right, false)
    | .mButtonDown => some (.middle, true)
    | .mButtonUp => some (.middle, false)
    | .xButtonDown =>
      some (if (call.hook.mouseData >>> 16).toUInt16 = xbutton1 then .back else .forward, true)
    | .xButtonUp =>
      some (if (call.hook.mouseData >>> 16).toUInt16 = xbutton1 then .back else .forward, false)
    | _ => none
  else none

/-! ## The captures -/

/-- The button that `handle_button` reports. A press of the wheel is none. -/
def reportedButton (p : UInt32 × Bool) : Option (Button × Bool) := wireButton (handleButton p.1 p.2)

/-- The capture on X11 reports the buttons that `handle_button` does, whatever else it sends. -/
theorem reports_captured (map : KeyMap) :
    Reports (captured map) (fun p : UInt64 × RawEvent => p.2.button.bind reportedButton)
      wireButton := by
  refine .of_step (f := fun m p => dispatchEvent map p.1 p.2 m) (fun _ => rfl)
    (fun _ _ _ => rfl) ?_
  rintro m ⟨now, event⟩
  have hkey : ∀ detail pressed, (handleKey map detail pressed m).1.bind wireButton = none := by
    intro detail pressed
    unfold handleKey
    cases map.usage detail <;> rfl
  cases event with
  | keyPress detail => exact hkey detail true
  | keyRelease detail => exact hkey detail false
  | buttonPress detail => rfl
  | buttonRelease detail => rfl
  | motion ev =>
    show (dispatchRawMotion now ev).bind wireButton = none
    unfold dispatchRawMotion
    dsimp only
    split_ifs <;> rfl

/-- The mouse hook reports the buttons. -/
theorem reports_capturedMouse : Reports capturedMouse MouseCall.button wireButton := by
  refine .of_step (f := fun last call =>
    lowLevelMouseProc call.code call.message call.hook call.now last) (fun _ => rfl)
    (fun _ _ _ => rfl) ?_
  intro last call
  unfold lowLevelMouseProc MouseCall.button
  by_cases hcode : call.code ≥ 0
  · rw [if_pos hcode, if_pos hcode]
    cases call.message with
    | mouseMove => cases last <;> rfl
    | _ => rfl
  · rw [if_neg hcode, if_neg hcode]
    rfl

/-! ## The emitters -/

/-- What the X11 emission makes of a button, other than of the wheel. -/
def emittedButton (p : Button × Bool) : Option (UInt8 × Bool) :=
  (some (X11Emit.buttonToCode p.1, p.2)).filter fun p => ¬ IsWheel p.1.toNat

/-- The buttons that Windows knows. -/
def namedButton (p : Button × Bool) : Option (Button × Bool) :=
  match p.1 with
  | .other _ => none
  | _ => some p

/-- The emitter of X11 presses and releases the buttons that it is sent. Its clicks of the wheel are
presses and releases too, but not of other buttons. -/
theorem performs_x11 (em : X11Emit) :
    Performs em.emit wireButton emittedButton FakeInput.plainButton := by
  intro e
  cases e with
  | mouseButton btn pressed =>
    show (FakeInput.plainButton ⟨if pressed then .buttonPress else .buttonRelease,
      X11Emit.buttonToCode btn, 0, 0⟩).toList = _
    cases pressed <;> rfl
  | scroll dx dy =>
    -- clicks of the wheel are no other button
    refine List.filterMap_eq_nil_iff.2 fun fake hfake => ?_
    obtain ⟨code, hwheel, rfl | rfl⟩ := X11Emit.mem_emit_scroll hfake
    · simp [FakeInput.plainButton, FakeInput.button, IsWheel, hwheel]
    · simp [FakeInput.plainButton, FakeInput.button, IsWheel, hwheel]
  | key code pressed m =>
    unfold X11Emit.emit
    dsimp only
    cases em.hidToKeycode code with
    | none => rfl
    | some kc => cases pressed <;> rfl
  | _ => rfl

/-- The emitter of Windows presses and releases the buttons that it has a name for. -/
theorem performs_windows : Performs WindowsEmit.emit wireButton namedButton WinInput.button := by
  intro e
  cases e with
  | mouseButton btn pressed => cases btn <;> cases pressed <;> rfl
  | scroll dx dy =>
    unfold WindowsEmit.emit
    dsimp only
    split_ifs <;> rfl
  | key code pressed m =>
    unfold WindowsEmit.emit
    dsimp only
    cases hidToWin code <;> rfl
  | _ => rfl

/-! ## From the hub to the spoke -/

/-- The button with this number of the X server, if it is not the wheel. -/
def plainCode (p : UInt32 × Bool) : Option (UInt8 × Bool) :=
  (some (p.1.toUInt8, p.2)).filter fun p => ¬ IsWheel p.1.toNat

/-- The button of Windows with this number of the X server. -/
def namedCode (p : UInt32 × Bool) : Option (Button × Bool) :=
  if p.1 = 1 then some (.left, p.2)
  else if p.1 = 2 then some (.middle, p.2)
  else if p.1 = 3 then some (.right, p.2)
  else if p.1 = 8 then some (.back, p.2)
  else if p.1 = 9 then some (.forward, p.2)
  else none

/-- From X11 to X11 a button keeps its code, or is of the wheel. -/
theorem emitted_reported (p : UInt32 × Bool) : (reportedButton p).bind emittedButton = plainCode p := by
  obtain ⟨detail, pressed⟩ := p
  unfold reportedButton handleButton
  dsimp only
  -- by the arms of `handle_button`
  split_ifs with h1 h2 h3 h4 h5 h6 h7 h8 h9
  · rw [h1]
    cases pressed <;> rfl
  · rw [h2]
    cases pressed <;> rfl
  · rw [h3]
    cases pressed <;> rfl
  · -- a press of the wheel is sent as a scroll, and so it is no button
    rw [h4.1]
    cases pressed <;> rfl
  · rw [h5.1]
    cases pressed <;> rfl
  · rw [h6.1]
    cases pressed <;> rfl
  · rw [h7.1]
    cases pressed <;> rfl
  · rw [h8]
    cases pressed <;> rfl
  · rw [h9]
    cases pressed <;> rfl
  · rfl

/-- From X11 to Windows a button keeps its name, if it has one. -/
theorem named_reported (p : UInt32 × Bool) : (reportedButton p).bind namedButton = namedCode p := by
  obtain ⟨detail, pressed⟩ := p
  unfold reportedButton handleButton namedCode
  dsimp only
  -- the presses of the wheel are scrolls, which have no name either
  by_cases hwheel : (detail = 4 ∨ detail = 5 ∨ detail = 6 ∨ detail = 7) ∧ pressed
  · obtain ⟨rfl | rfl | rfl | rfl, hpressed⟩ := hwheel
    · simp [hpressed, wireButton]
    · simp [hpressed, wireButton]
    · simp [hpressed, wireButton]
    · simp [hpressed, wireButton]
  · have hnot : ¬ (detail = 4 ∧ pressed = true) ∧ ¬ (detail = 5 ∧ pressed = true) ∧
        ¬ (detail = 6 ∧ pressed = true) ∧ ¬ (detail = 7 ∧ pressed = true) := by tauto
    rw [if_neg hnot.1, if_neg hnot.2.1, if_neg hnot.2.2.1, if_neg hnot.2.2.2]
    split_ifs <;> rfl

/-- The hook reports the buttons that Windows knows. -/
theorem namedButton_of_call {call : MouseCall} {p : Button × Bool} (h : call.button = some p) :
    namedButton p = some p := by
  unfold MouseCall.button at h
  by_cases hcode : call.code ≥ 0
  · rw [if_pos hcode] at h
    cases hmessage : call.message with
    | xButtonDown | xButtonUp =>
      -- which of the two extra buttons it is
      rw [hmessage] at h
      obtain rfl := Option.some.inj h
      by_cases hback : (call.hook.mouseData >>> 16).toUInt16 = xbutton1
      · rw [if_pos hback]
        rfl
      · rw [if_neg hback]
        rfl
    | mouseMove | mouseWheel | other =>
      rw [hmessage] at h
      cases h
    | _ =>
      rw [hmessage] at h
      obtain rfl := Option.some.inj h
      rfl
  · rw [if_neg hcode] at h
    cases h

/-- The mouse hook has a name for each of its buttons. -/
theorem named_call (call : MouseCall) : call.button.bind namedButton = call.button := by
  cases h : call.button with
  | none => rfl
  | some p => exact namedButton_of_call h

/-- A button of Windows is none of the wheel of the X server. -/
theorem emitted_call (call : MouseCall) :
    call.button.bind emittedButton = call.button.map fun p => (X11Emit.buttonToCode p.1, p.2) := by
  cases h : call.button with
  | none => rfl
  | some p =>
    obtain ⟨btn, pressed⟩ := p
    have hnamed := namedButton_of_call h
    cases btn with
    | other n => cases hnamed
    | _ => rfl

/-- The buttons of a hub on its spokes, for every sequence of raw events, of any kind and with any
keyboard. The presses and releases on the spoke are those on the hub, in their order, with the same
button: between two X servers all buttons but the wheel, by the low byte of their numbers, and between
an X server and Windows, or two of Windows, the left, middle, right, back and forward buttons. -/
theorem buttons_mirrored (map : KeyMap) (em : X11Emit) (m : ModifierMask)
    (last : Option (Int32 × Int32)) (evs : List (UInt64 × RawEvent)) (calls : List MouseCall) :
    ((captured map m evs).flatMap em.emit).filterMap FakeInput.plainButton =
        evs.filterMap (fun p => p.2.button.bind plainCode) ∧
      ((captured map m evs).flatMap WindowsEmit.emit).filterMap WinInput.button =
        evs.filterMap (fun p => p.2.button.bind namedCode) ∧
      ((capturedMouse last calls).flatMap em.emit).filterMap FakeInput.plainButton =
        calls.filterMap (fun call =>
          call.button.map fun p => (X11Emit.buttonToCode p.1, p.2)) ∧
      ((capturedMouse last calls).flatMap WindowsEmit.emit).filterMap WinInput.button =
        calls.filterMap MouseCall.button := by
  refine ⟨?_, ?_, ?_, ?_⟩
  · rw [(reports_captured map).relay (performs_x11 em)]
    simp only [Option.bind_assoc, emitted_reported]
  · rw [(reports_captured map).relay performs_windows]
    simp only [Option.bind_assoc, named_reported]
  · rw [reports_capturedMouse.relay (performs_x11 em)]
    simp only [emitted_call]
  · rw [reports_capturedMouse.relay performs_windows]
    simp only [named_call]

/-! ## The wheel of the X server -/

/-- What the spoke does for a press or a release on the hub: a press of the wheel becomes a click. -/
def mirroredButton (p : UInt32 × Bool) : List (UInt8 × Bool) :=
  if p.2 ∧ IsWheel p.1.toNat then [(p.1.toUInt8, true), (p.1.toUInt8, false)]
  else [(p.1.toUInt8, p.2)]

section Wheel

variable {map : KeyMap} {em : X11Emit} {m : ModifierMask} {evs : List (UInt64 × RawEvent)}

/-- What one button of the hub becomes on the spoke, with the wheel. -/
theorem button_handleButton (em : X11Emit) (p : UInt32 × Bool) :
    (em.emit (handleButton p.1 p.2)).filterMap FakeInput.button = mirroredButton p := by
  obtain ⟨detail, pressed⟩ := p
  unfold handleButton
  dsimp only
  split_ifs with h1 h2 h3 h4 h5 h6 h7 h8 h9
  · rw [h1]
    cases pressed <;> rfl
  · rw [h2]
    cases pressed <;> rfl
  · rw [h3]
    cases pressed <;> rfl
  · -- a press of the wheel is one click of the same button
    rw [h4.1, h4.2]
    rfl
  · rw [h5.1, h5.2]
    rfl
  · rw [h6.1, h6.2]
    rfl
  · rw [h7.1, h7.2]
    rfl
  · rw [h8]
    cases pressed <;> rfl
  · rw [h9]
    cases pressed <;> rfl
  · -- all other numbers, and the releases of the wheel
    have hplain : ¬ (pressed = true ∧ IsWheel detail.toNat) := by
      rintro ⟨hpressed, hlow, hhigh⟩
      have hdetail : detail = .ofNat detail.toNat := (UInt32.ofNat_toNat).symm
      generalize detail.toNat = n at hdetail hlow hhigh
      obtain rfl | rfl | rfl | rfl : n = 4 ∨ n = 5 ∨ n = 6 ∨ n = 7 := by omega
      · exact h4 ⟨hdetail, hpressed⟩
      · exact h5 ⟨hdetail, hpressed⟩
      · exact h6 ⟨hdetail, hpressed⟩
      · exact h7 ⟨hdetail, hpressed⟩
    unfold mirroredButton
    rw [if_neg hplain]
    cases pressed <;> rfl

/-- All presses and releases on the spoke. -/
theorem buttons_captured (map : KeyMap) (em : X11Emit) (m : ModifierMask)
    (evs : List (UInt64 × RawEvent)) :
    ((captured map m evs).flatMap em.emit).filterMap FakeInput.button =
      evs.flatMap fun p => p.2.button.toList.flatMap mirroredButton := by
  -- a key changes no button
  have hkey : ∀ detail pressed m,
      ((handleKey map detail pressed m).1.toList.flatMap em.emit).filterMap FakeInput.button = [] := by
    intro detail pressed m
    unfold handleKey
    cases map.usage detail with
    | none => rfl
    | some hid =>
      show ((em.emit (.key hid pressed _)) ++ []).filterMap FakeInput.button = []
      unfold X11Emit.emit
      dsimp only
      cases em.hidToKeycode hid with
      | none => rfl
      | some kc => cases pressed <;> rfl
  -- on the raw events, for all modifiers before them
  induction evs generalizing m with
  | nil => rfl
  | cons p evs ih =>
    obtain ⟨now, event⟩ := p
    have hone : ((dispatchEvent map now event m).1.toList.flatMap em.emit).filterMap
        FakeInput.button = event.button.toList.flatMap mirroredButton := by
      cases event with
      | keyPress detail => exact hkey detail true m
      | keyRelease detail => exact hkey detail false m
      | buttonPress detail =>
        show ((em.emit (handleButton detail true)) ++ []).filterMap FakeInput.button = _ ++ []
        rw [List.append_nil, List.append_nil, button_handleButton em (detail, true)]
      | buttonRelease detail =>
        show ((em.emit (handleButton detail false)) ++ []).filterMap FakeInput.button = _ ++ []
        rw [List.append_nil, List.append_nil, button_handleButton em (detail, false)]
      | motion ev =>
        show ((dispatchRawMotion now ev).toList.flatMap em.emit).filterMap FakeInput.button = []
        unfold dispatchRawMotion
        dsimp only
        split_ifs <;> rfl
    show (((dispatchEvent map now event m).1.toList ++
      captured map (dispatchEvent map now event m).2 evs).flatMap em.emit).filterMap _ = _
    rw [List.flatMap_append, List.filterMap_append, hone, ih, List.flatMap_cons]

/-- A press or release of a numbered button presses a wheel button as often, and leaves it up. -/
theorem wheel_mirroredButton {p : UInt32 × Bool} (hp : p.1.toNat < 256) {c : UInt8}
    (hc : IsWheel c.toNat) :
    (mirroredButton p).count (c, true) = (if p = (c.toUInt32, true) then 1 else 0) ∧
      lastWrite c (mirroredButton p) ≠ some true := by
  obtain ⟨detail, pressed⟩ := p
  -- the number is its low byte
  have hcode : detail.toUInt8 = c ↔ detail = c.toUInt32 := by
    rw [← UInt8.toNat_inj, ← UInt32.toNat_inj, UInt32.toNat_toUInt8, UInt8.toNat_toUInt32,
      Nat.mod_eq_of_lt hp]
  unfold mirroredButton
  dsimp only
  by_cases hwheel : IsWheel detail.toNat
  · cases pressed with
    | true =>
      -- a click of the button, which ends with its release
      rw [if_pos ⟨rfl, hwheel⟩]
      by_cases hdetail : detail.toUInt8 = c
      · simp [hcode.1 hdetail, lastWrite]
      · simp [hdetail, mt hcode.2 hdetail, lastWrite]
    | false =>
      rw [if_neg fun h => Bool.false_ne_true h.1]
      by_cases hdetail : detail.toUInt8 = c <;> simp [hdetail, lastWrite]
  · -- another button
    have hdetail : detail.toUInt8 ≠ c := by
      rintro hdetail
      rw [hcode.1 hdetail, UInt8.toNat_toUInt32] at hwheel
      exact hwheel hc
    rw [if_neg fun h => hwheel h.2]
    simp [hdetail, mt hcode.2 hdetail, lastWrite]

/-- The wheel of a hub with an X server on a spoke with one, for every sequence of raw events whose
buttons have numbers that an X server uses. Every notch of the hub is a notch on the spoke: each
button of the wheel is pressed as often, and it is not left down. -/
theorem wheel_mirrored (map : KeyMap) (em : X11Emit) (m : ModifierMask)
    (evs : List (UInt64 × RawEvent)) (hdetail : ∀ p ∈ evs, ∀ b ∈ p.2.button, b.1.toNat < 256)
    (c : UInt8) (hc : IsWheel c.toNat) :
    (((captured map m evs).flatMap em.emit).filterMap FakeInput.button).count (c, true) =
        (evs.filterMap fun p => p.2.button).count (c.toUInt32, true) ∧
      lastWrite c (((captured map m evs).flatMap em.emit).filterMap FakeInput.button) ≠
        some true := by
  rw [buttons_captured]
  induction evs with
  | nil => exact ⟨rfl, Option.some_ne_none true ∘ Eq.symm⟩
  | cons p evs ih =>
    rw [List.forall_mem_cons] at hdetail
    obtain ⟨hcount, hlast⟩ := ih hdetail.2
    rw [List.flatMap_cons, List.count_append, lastWrite_append, hcount]
    cases hbutton : p.2.button with
    | none =>
      -- the event changes nothing on the spoke
      have hcons := @List.filterMap_cons_none _ _ (fun p : UInt64 × RawEvent => p.2.button) _ evs hbutton
      rw [hcons]
      refine ⟨by simp, ?_⟩
      simpa using hlast
    | some b =>
      obtain ⟨hone, hup⟩ := wheel_mirroredButton (hdetail.1 b hbutton) hc
      have hcons := @List.filterMap_cons_some _ _ (fun p : UInt64 × RawEvent => p.2.button) _ evs _ hbutton
      rw [hcons, List.count_cons]
      simp only [Option.toList_some, List.flatMap_singleton, beq_iff_eq]
      refine ⟨by rw [hone, Nat.add_comm], ?_⟩
      -- the last change of the button is a later one, or that of this event
      cases hrest : lastWrite c (evs.flatMap fun p => p.2.button.toList.flatMap mirroredButton) with
      | none => exact hup
      | some pressed =>
        rw [hrest] at hlast
        exact hlast

end Wheel

section Example

/-- Three notches up and one to the right. -/
def wheelRun : List (UInt64 × RawEvent) :=
  [(0, .buttonPress 4), (0, .buttonRelease 4), (0, .buttonPress 4), (0, .buttonRelease 4),
    (0, .buttonPress 7), (0, .buttonRelease 7), (0, .buttonPress 4), (0, .buttonRelease 4)]

/-- They are three notches up on the spoke. -/
theorem wheel_mirrored_wheelRun :
    (((captured ⟨8, 8, 1, []⟩ .empty wheelRun).flatMap (X11Emit.mk ∅).emit).filterMap
      FakeInput.button).count (4, true) = 3 := by
  have hdetail : ∀ p ∈ wheelRun, ∀ b ∈ p.2.button, b.1.toNat < 256 := by
    simp [wheelRun, RawEvent.button]
  have hup : IsWheel (4 : UInt8).toNat := by decide
  have hcount := (wheel_mirrored ⟨8, 8, 1, []⟩ ⟨∅⟩ .empty wheelRun hdetail 4 hup).1
  have hnotches : (wheelRun.filterMap fun p => p.2.button).count ((4 : UInt8).toUInt32, true) = 3 := by
    decide
  exact hcount.trans hnotches

end Example

end Borderless.Input
