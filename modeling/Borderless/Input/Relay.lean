import Borderless.Input.Macos
import Borderless.Input.PointerLink

/-!
# Input from any hub to any spoke

A hub runs X11 or Windows, and a spoke X11, Windows or macOS. On Windows both hooks feed the one sink
of the capture, in any order. The keys that are pressed and released on a spoke are those of the hub
(`keys_relayed`), and the pointer goes by what the pointer of a Windows hub went (`pointer_follows`).
-/

namespace Borderless.Input

open EventRelay LastWrite

/-! ## The hub -/

/-- A call of one of the two hooks of Windows. -/
inductive HookCall
  /-- `low_level_keyboard_proc`. -/
  | keyboard (code : Int32) (message : KeyMessage) (vkCode : UInt32)
  /-- `low_level_mouse_proc`. -/
  | mouse (call : MouseCall)
deriving DecidableEq

/-- The variables of the hooks. -/
structure Hooks where
  /-- `MODIFIERS`. -/
  modifiers : ModifierMask
  /-- `LAST_MOUSE`. -/
  lastMouse : Option (Int32 × Int32)

namespace Hooks

/-- A call: the event for the sink, if any, and the variables after it. -/
def call (s : Hooks) : HookCall → Option InputEvent × Hooks
  | .keyboard code message vkCode =>
    let (event, modifiers) := lowLevelKeyboardProc code message vkCode s.modifiers
    (event, { s with modifiers := modifiers })
  | .mouse c =>
    let (event, last) := lowLevelMouseProc c.code c.message c.hook c.now s.lastMouse
    (event, { s with lastMouse := last })

/-- The events that are sent for a sequence of calls. -/
def captured : Hooks → List HookCall → List InputEvent
  | _, [] => []
  | s, c :: calls => (s.call c).1.toList ++ captured (s.call c).2 calls

/-- The variables after a sequence of calls. -/
def after (s : Hooks) (calls : List HookCall) : Hooks := calls.foldl (fun s c => (s.call c).2) s

end Hooks

/-- A hub with what its capture sees. -/
inductive HubCapture
  /-- The capture of X11, with its keyboard. -/
  | x11 (map : KeyMap) (m : ModifierMask) (evs : List (UInt64 × RawEvent))
  /-- The capture of Windows. -/
  | windows (s : Hooks) (calls : List HookCall)

/-- The key that a raw event presses or releases. -/
def RawEvent.key : RawEvent → Option (UInt32 × Bool)
  | .keyPress detail => some (detail, true)
  | .keyRelease detail => some (detail, false)
  | _ => none

/-- The virtual key that a call of the hooks presses or releases. -/
def HookCall.key : HookCall → Option (UInt32 × Bool)
  | .keyboard code message vkCode =>
    if code ≥ 0 then
      match message with
      | .keyDown | .sysKeyDown => some (vkCode, true)
      | .keyUp | .sysKeyUp => some (vkCode, false)
      | .other => none
    else none
  | .mouse _ => none

namespace HubCapture

/-- What the hub sends. -/
def sent : HubCapture → List InputEvent
  | .x11 map m evs => captured map m evs
  | .windows s calls => s.captured calls

/-- The presses and releases on the hub. -/
def keys : HubCapture → List (UInt32 × Bool)
  | .x11 _ _ evs => evs.filterMap fun p => p.2.key
  | .windows _ calls => calls.filterMap HookCall.key

/-- The usage of a key of the hub. -/
def usage : HubCapture → UInt32 → Option HidUsage
  | .x11 map _ _, key => map.usage key
  | .windows _ _, key => vkToHid key.toUInt16

end HubCapture

/-! ## The spoke -/

/-- A spoke with its emitter. -/
inductive SpokeEmit (F : Type)
  /-- The emitter of X11. -/
  | x11 (em : X11Emit)
  /-- The emitter of Windows. -/
  | windows
  /-- The emitter of macOS. -/
  | macos (d : Doubles F) (em : MacosEmit F)

/-- A key of a spoke. -/
inductive SpokeKey
  /-- A keycode of the X server. -/
  | keycode (kc : UInt8)
  /-- A scan code of Windows, of an extended key or not. -/
  | scan (code : UInt16) (extended : Bool)
  /-- A key of macOS. -/
  | cgKeyCode (kc : UInt16)
deriving DecidableEq

/-- The key that an input of Windows presses or releases. With a scan code its virtual key does not
count. -/
def WinInput.keyChange : WinInput → Option ((UInt16 × Bool) × Bool)
  | .mouse _ => none
  | .keyboard ki =>
    if .scanCode ∈ ki.dwFlags then
      some ((ki.wScan, decide (.extendedKey ∈ ki.dwFlags)), decide (.keyUp ∉ ki.dwFlags))
    else none

/-- The key that an event of macOS presses or releases. -/
def CGEvent.keyChange {F : Type} : CGEvent F → Option (UInt16 × Bool)
  | .keyboard keycode keydown => some (keycode, keydown)
  | _ => none

namespace SpokeEmit

variable {F : Type}

/-- The presses and releases that the spoke makes of the events that it receives. -/
def keys : SpokeEmit F → List InputEvent → List (SpokeKey × Bool)
  | .x11 em, events =>
    ((events.flatMap em.emit).filterMap FakeInput.keyChange).map fun p => (.keycode p.1, p.2)
  | .windows, events =>
    ((events.flatMap WindowsEmit.emit).filterMap WinInput.keyChange).map fun p =>
      (.scan p.1.1 p.1.2, p.2)
  | .macos d em, events =>
    ((em.posted d events).filterMap CGEvent.keyChange).map fun p => (.cgKeyCode p.1, p.2)

/-- The key of the spoke with a usage. -/
def key : SpokeEmit F → HidUsage → Option SpokeKey
  | .x11 em, hid => (em.hidToKeycode hid).map .keycode
  | .windows, hid => (hidToWin hid).map fun w => .scan w.2.1 w.2.2
  | .macos _ _, hid => (hidToMac hid).map .cgKeyCode

end SpokeEmit

/-! ## Keys -/

/-- The key that an event presses or releases. -/
def wireKey : InputEvent → Option (HidUsage × Bool)
  | .key code pressed _ => some (code, pressed)
  | _ => none

/-- The capture of X11 reports the keys whose usages it knows, and nothing else as a key. -/
theorem reports_captured_key (map : KeyMap) :
    Reports (captured map) (fun p : UInt64 × RawEvent => p.2.key.bind (rename map.usage))
      wireKey := by
  refine .of_step (f := fun m p => dispatchEvent map p.1 p.2 m) (fun _ => rfl)
    (fun _ _ _ => rfl) ?_
  rintro m ⟨now, event⟩
  have hkey : ∀ detail pressed, (handleKey map detail pressed m).1.bind wireKey =
      rename map.usage (detail, pressed) := by
    intro detail pressed
    unfold handleKey rename
    dsimp only
    cases map.usage detail <;> rfl
  cases event with
  | keyPress detail => exact hkey detail true
  | keyRelease detail => exact hkey detail false
  | buttonPress detail | buttonRelease detail =>
    -- a button becomes a button or a scroll
    show wireKey (handleButton detail _) = none
    unfold handleButton
    split_ifs <;> rfl
  | motion ev =>
    -- a motion becomes a move or nothing
    show (dispatchRawMotion now ev).bind wireKey = none
    unfold dispatchRawMotion
    dsimp only
    split_ifs <;> rfl

/-- So do the hooks of Windows. -/
theorem reports_hooks_key : Reports Hooks.captured
    (fun c : HookCall => c.key.bind (rename fun vk : UInt32 => vkToHid vk.toUInt16)) wireKey := by
  refine .of_step (f := Hooks.call) (fun _ => rfl) (fun _ _ _ => rfl) ?_
  intro s c
  cases c with
  | keyboard code message vkCode =>
    unfold Hooks.call HookCall.key lowLevelKeyboardProc
    dsimp only
    by_cases hcode : code ≥ 0
    · cases message with
      | other => simp
      | _ => cases hvk : vkToHid vkCode.toUInt16 <;> simp [hcode, hvk, rename, wireKey]
    · simp [hcode]
  | mouse c =>
    -- the mouse hook sends no key
    have hnone : (lowLevelMouseProc c.code c.message c.hook c.now s.lastMouse).1.bind wireKey =
        none := by
      unfold lowLevelMouseProc
      split_ifs
      · cases c.message with
        | mouseMove => cases s.lastMouse <;> rfl
        | _ => rfl
      · rfl
    exact hnone

/-- The hub sends the keys whose usages it knows. -/
theorem HubCapture.wireKey_sent (hub : HubCapture) :
    hub.sent.filterMap wireKey = hub.keys.filterMap (rename hub.usage) := by
  cases hub with
  | x11 map m evs =>
    have hall := reports_captured_key map m evs
    rw [← List.filterMap_filterMap] at hall
    exact hall
  | windows s calls =>
    have hall := reports_hooks_key s calls
    rw [← List.filterMap_filterMap] at hall
    exact hall

/-- The emitter of X11 changes the keys that it has for the usages, and no others. -/
theorem performs_x11_key (em : X11Emit) :
    Performs em.emit wireKey (rename em.hidToKeycode) FakeInput.keyChange := by
  intro e
  cases e with
  | key code pressed m => exact keyChange_emit em code pressed m
  | mouseButton btn pressed => cases pressed <;> rfl
  | scroll dx dy =>
    -- a scroll becomes clicks
    refine List.filterMap_eq_nil_iff.2 fun fake hfake => ?_
    obtain ⟨code, -, rfl | rfl⟩ := X11Emit.mem_emit_scroll hfake
    · rfl
    · rfl
  | _ => rfl

/-- So does that of Windows, by scan code. -/
theorem performs_windows_key : Performs WindowsEmit.emit wireKey
    (rename fun hid => (hidToWin hid).map Prod.snd) WinInput.keyChange := by
  intro e
  cases e with
  | key code pressed m =>
    unfold WindowsEmit.emit
    dsimp only [wireKey]
    cases hwin : hidToWin code with
    | none => simp [rename, hwin]
    | some w =>
      -- the flags say whether the key is released and whether it is extended
      obtain ⟨vk, scan, ext⟩ := w
      cases pressed <;> cases ext <;>
        simp [rename, hwin, keyInput, WinInput.keyChange]
  | scroll dx dy =>
    unfold WindowsEmit.emit
    dsimp only
    split_ifs <;> rfl
  | _ => rfl

/-- So does that of macOS, wherever it believes the pointer to be. -/
theorem reports_posted_key {F : Type} (d : Doubles F) : Reports (MacosEmit.posted d)
    (fun e => (wireKey e).bind (rename hidToMac)) CGEvent.keyChange := by
  refine .of_steps (f := MacosEmit.emit d) (fun _ => rfl) (fun _ _ _ => rfl) ?_
  intro em e
  cases e with
  | key code pressed m =>
    unfold MacosEmit.emit
    dsimp only [wireKey]
    cases hmac : hidToMac code <;> simp [rename, hmac, CGEvent.keyChange]
  | mouseButton btn pressed => cases btn <;> cases pressed <;> rfl
  | _ => rfl

/-- The spoke presses and releases the keys that it has for the usages. -/
theorem SpokeEmit.keys_eq {F : Type} (spoke : SpokeEmit F) (events : List InputEvent) :
    spoke.keys events = (events.filterMap wireKey).filterMap (rename spoke.key) := by
  cases spoke with
  | x11 em =>
    show ((events.flatMap em.emit).filterMap FakeInput.keyChange).map _ = _
    rw [(performs_x11_key em).flatMap, List.map_filterMap]
    congr 1
    funext p
    unfold rename SpokeEmit.key
    cases hkey : em.hidToKeycode p.1 <;> simp [hkey]
  | windows =>
    show ((events.flatMap WindowsEmit.emit).filterMap WinInput.keyChange).map _ = _
    rw [performs_windows_key.flatMap, List.map_filterMap]
    congr 1
    funext p
    unfold rename SpokeEmit.key
    cases hkey : hidToWin p.1 <;> simp [hkey]
  | macos d em =>
    show ((em.posted d events).filterMap CGEvent.keyChange).map _ = _
    rw [reports_posted_key d em events, ← List.filterMap_filterMap, List.map_filterMap]
    congr 1
    funext p
    unfold rename SpokeEmit.key
    cases hkey : hidToMac p.1 <;> simp [hkey]

/-! ## Different keys -/

/-- The usages that `hid_to_win` knows. -/
def winUsages : List HidUsage :=
  ((List.range 36).map fun n => ⟨.ofNat n + 0x04⟩) ++ winOfUsage.map Prod.fst

/-- `winUsages` has every usage that `hid_to_win` knows. -/
theorem mem_winUsages {hid : HidUsage} (h : (hidToWin hid).isSome) : hid ∈ winUsages := by
  have hrange : ∀ low high : UInt16, 0x04 ≤ low.toNat → high.toNat ≤ 0x27 → low ≤ hid.usage →
      hid.usage ≤ high → hid ∈ winUsages := by
    intro low high hlow hhigh hge hle
    have hge' := UInt16.le_iff_toNat_le.1 hge
    have hle' := UInt16.le_iff_toNat_le.1 hle
    have hsub : (hid.usage - 0x04).toNat = hid.usage.toNat - 4 :=
      UInt16.toNat_sub_of_le _ _ (UInt16.le_iff_toNat_le.2 (hlow.trans hge'))
    refine List.mem_append_left _ (List.mem_map.2 ⟨(hid.usage - 0x04).toNat, ?_, ?_⟩)
    · rw [List.mem_range]
      omega
    · rw [UInt16.ofNat_toNat, UInt16.sub_add_cancel]
  by_cases hletter : 0x04 ≤ hid.usage ∧ hid.usage ≤ 0x1D
  · exact hrange 0x04 0x1D (by decide) (by decide) hletter.1 hletter.2
  by_cases hdigit : 0x1E ≤ hid.usage ∧ hid.usage ≤ 0x27
  · exact hrange 0x1E 0x27 (by decide) (by decide) hdigit.1 hdigit.2
  unfold hidToWin at h
  dsimp only at h
  rw [if_neg hletter, if_neg hdigit] at h
  obtain ⟨w, hw⟩ := Option.isSome_iff_exists.1 h
  exact List.mem_append_right _ (List.mem_map.2 ⟨(hid, w), mem_of_lookup_eq_some hw, rfl⟩)

/-- No two usages have the same scan code, extended or not. -/
theorem hidToWin_injective {hid hid' : HidUsage} {w w' : UInt16 × UInt16 × Bool}
    (h : hidToWin hid = some w) (h' : hidToWin hid' = some w') (hscan : w.2 = w'.2) : hid = hid' := by
  have hnodup : (winUsages.map fun hid => (hidToWin hid).map Prod.snd).Nodup := by decide +kernel
  refine List.inj_on_of_nodup_map hnodup (mem_winUsages (Option.isSome_of_mem h))
    (mem_winUsages (Option.isSome_of_mem h')) ?_
  rw [h, h', Option.map_some, Option.map_some, hscan]

/-- Two usages with the same key of a spoke that has no X server are the same. -/
theorem SpokeEmit.key_injective {F : Type} {spoke : SpokeEmit F} (hspoke : ∀ em, spoke ≠ .x11 em)
    {hid hid' : HidUsage} {k : SpokeKey} (h : spoke.key hid = some k) (h' : spoke.key hid' = some k) :
    hid = hid' := by
  cases spoke with
  | x11 em => exact absurd rfl (hspoke em)
  | windows =>
    obtain ⟨w, hw, rfl⟩ := Option.map_eq_some_iff.1 h
    obtain ⟨w', hw', hsame⟩ := Option.map_eq_some_iff.1 h'
    obtain ⟨hcode, hextended⟩ := SpokeKey.scan.inj hsame
    exact hidToWin_injective hw hw' (Prod.ext hcode.symm hextended.symm)
  | macos d em =>
    obtain ⟨kc, hkc, rfl⟩ := Option.map_eq_some_iff.1 h
    obtain ⟨kc', hkc', hsame⟩ := Option.map_eq_some_iff.1 h'
    obtain rfl := SpokeKey.cgKeyCode.inj hsame
    have hback := hidToMac_eq_some_iff.1 hkc
    rw [hidToMac_eq_some_iff.1 hkc'] at hback
    exact (Option.some.inj hback).symm

/-- The keys of a hub on a spoke, for every pair of systems and every sequence of calls of the capture,
of whatever kind. The presses and releases on the spoke are those on the hub, in their order, each of
the key of the spoke with the same usage. A key of the spoke is not left down when on the hub all keys
with its usage are up. And keys of different usages are different keys of a spoke with Windows or
macOS. -/
theorem keys_relayed {F : Type} (hub : HubCapture) (spoke : SpokeEmit F) :
    spoke.keys hub.sent = hub.keys.filterMap (rename fun key => (hub.usage key).bind spoke.key) ∧
      (∀ k, (∀ key, (hub.usage key).bind spoke.key = some k → lastWrite key hub.keys ≠ some true) →
        lastWrite k (spoke.keys hub.sent) ≠ some true) ∧
      ((∀ em, spoke ≠ .x11 em) → ∀ key key' k, (hub.usage key).bind spoke.key = some k →
        (hub.usage key').bind spoke.key = some k → hub.usage key = hub.usage key') := by
  have hkeys : spoke.keys hub.sent =
      hub.keys.filterMap (rename fun key => (hub.usage key).bind spoke.key) := by
    rw [spoke.keys_eq, hub.wireKey_sent, List.filterMap_filterMap]
    simp only [rename_bind_rename]
  refine ⟨hkeys, ?_, ?_⟩
  · intro k hup hdown
    rw [hkeys] at hdown
    obtain ⟨key, hkey, hlast⟩ := lastWrite_rename hdown
    exact hup key hkey hlast
  · intro hspoke key key' k h h'
    obtain ⟨hid, hhid, hk⟩ := Option.bind_eq_some_iff.1 h
    obtain ⟨hid', hhid', hk'⟩ := Option.bind_eq_some_iff.1 h'
    rw [hhid, hhid', SpokeEmit.key_injective hspoke hk hk']

/-! ## The pointer -/

/-- The points of a screen, up to a size far beyond any. -/
def OnDesktop (p : Int32 × Int32) : Prop := p.1.toInt.natAbs < 2 ^ 30 ∧ p.2.toInt.natAbs < 2 ^ 30

/-- The pointer is at such a point when the hook is called. -/
def HookCall.At (P : Int32 × Int32 → Prop) : HookCall → Prop
  | .mouse c => P c.hook.pt
  | .keyboard .. => True

/-- An event that does not move the pointer. -/
def IsStill : InputEvent → Prop
  | .mouseMove .. | .mouseAbs .. => False
  | _ => True

/-- Where the relative motions of Windows take the pointer on a screen without borders. -/
def WinInput.move (pos : Int32 × Int32) : WinInput → Int32 × Int32
  | .mouse mi => if mi.dwFlags = [.move] then (pos.1 + mi.dx, pos.2 + mi.dy) else pos
  | .keyboard _ => pos

/-- Where the relative motions of the X server take the pointer on a screen without borders. -/
def FakeInput.move (pos : Int16 × Int16) (fake : FakeInput) : Int16 × Int16 :=
  match fake.type with
  | .motionNotify => if fake.detail = 1 then (pos.1 + fake.rootX, pos.2 + fake.rootY) else pos
  | _ => pos

section Pointer

variable {s : Hooks} {p : Int32 × Int32} {calls : List HookCall} {P : Int32 × Int32 → Prop}

/-- A call moves the pointer by the event that it sends. -/
theorem Hooks.call_motion (hp : s.lastMouse = some p) {c : HookCall} (hc : c.At P) :
    ∃ q, (s.call c).2.lastMouse = some q ∧
      ((q = p ∧ ∀ e ∈ (s.call c).1, IsStill e) ∨
        ∃ now, (s.call c).1 = some (.mouseMove (q.1 - p.1) (q.2 - p.2) now) ∧ P q) := by
  cases c with
  | keyboard code message vk =>
    -- a key leaves the pointer where it is
    refine ⟨p, hp, .inl ⟨rfl, ?_⟩⟩
    unfold Hooks.call lowLevelKeyboardProc
    dsimp only
    split_ifs
    · cases vkToHid vk.toUInt16 <;> simp [IsStill]
    · simp
  | mouse c =>
    unfold Hooks.call lowLevelMouseProc
    dsimp only
    by_cases hcode : c.code ≥ 0
    · rw [if_pos hcode, hp]
      cases c.message with
      -- the delta is measured from where the pointer was last seen
      | mouseMove => exact ⟨c.hook.pt, rfl, .inr ⟨c.now, rfl, hc⟩⟩
      | _ => exact ⟨p, rfl, .inl ⟨rfl, by simp [IsStill]⟩⟩
    · rw [if_neg hcode]
      exact ⟨p, hp, .inl ⟨rfl, by simp⟩⟩

/-- What holds between the pointers of the two machines, and what every event keeps, holds after the
events of any sequence of calls. -/
theorem Hooks.follow {ω : Type} {move : ω → InputEvent → ω} {R : ω → Int32 × Int32 → Prop}
    (hmove : ∀ w p q now, R w p → P q → R (move w (.mouseMove (q.1 - p.1) (q.2 - p.2) now)) q)
    (hstill : ∀ w p e, R w p → IsStill e → R (move w e) p) {w : ω} (hp : s.lastMouse = some p)
    (hw : R w p) (hcalls : ∀ c ∈ calls, c.At P) :
    ∃ q, (s.after calls).lastMouse = some q ∧ R ((s.captured calls).foldl move w) q := by
  -- on the calls, for all variables of the hooks and all pointers that are in the relation
  induction calls generalizing s p w with
  | nil => exact ⟨p, hp, hw⟩
  | cons c calls ih =>
    rw [List.forall_mem_cons] at hcalls
    obtain ⟨q, hq, ⟨rfl, hevents⟩ | ⟨now, hevent, hat⟩⟩ := Hooks.call_motion hp hcalls.1
    · have hR : R ((s.call c).1.toList.foldl move w) q := by
        cases hevent : (s.call c).1 with
        | none => exact hw
        | some e => exact hstill w q e hw (hevents e hevent)
      have hrest := ih hq hR hcalls.2
      rw [← List.foldl_append] at hrest
      exact hrest
    · have hR : R ((s.call c).1.toList.foldl move w) q := by
        rw [hevent]
        exact hmove w p q now hw hat
      have hrest := ih hq hR hcalls.2
      rw [← List.foldl_append] at hrest
      exact hrest

/-- The first events of a sequence of calls are those of the first calls. -/
theorem Hooks.captured_prefix {pre : List InputEvent} (hpre : pre <+: s.captured calls) :
    ∃ first, first <+: calls ∧ pre = s.captured first :=
  capture_prefix (f := Hooks.call) (fun _ => rfl) (fun _ _ _ => rfl) hpre

/-- Any calls are at some point. -/
theorem HookCall.at_true (c : HookCall) : c.At fun _ => True := by
  cases c <;> trivial

/-- The pointer of a spoke with Windows. -/
theorem Hooks.follow_windows (hp : s.lastMouse = some p) (calls : List HookCall)
    (pos : Int32 × Int32) :
    ∃ q, (s.after calls).lastMouse = some q ∧
      ((s.captured calls).flatMap WindowsEmit.emit).foldl WinInput.move pos =
        (pos.1 + (q.1 - p.1), pos.2 + (q.2 - p.2)) := by
  rw [List.foldl_flatMap]
  refine @Hooks.follow s p calls (fun _ => True) _
    (fun pos e => (WindowsEmit.emit e).foldl WinInput.move pos)
    (fun w r => w = (pos.1 + (r.1 - p.1), pos.2 + (r.2 - p.2))) ?_ ?_ pos hp ?_
    (fun c _ => c.at_true)
  · -- the deltas add up, in 32 bits
    rintro w p' q now rfl -
    show (_, _) = (_, _)
    dsimp only
    congr 1 <;> grind
  · intro w p' e hR he
    rw [hR]
    cases e with
    | mouseMove | mouseAbs => exact he.elim
    | mouseButton btn pressed =>
      cases btn <;> cases pressed <;> simp [WindowsEmit.emit, buttonFlags, mouseInput, WinInput.move]
    | scroll dx dy =>
      unfold WindowsEmit.emit
      dsimp only
      split_ifs <;> simp [mouseInput, WinInput.move]
    | key code pressed m =>
      unfold WindowsEmit.emit
      dsimp only
      cases hidToWin code <;> simp [keyInput, WinInput.move]
    | _ => rfl
  · simp

/-- The pointer of a spoke with an X server. -/
theorem Hooks.follow_x11 (hp : s.lastMouse = some p) (calls : List HookCall) (em : X11Emit)
    (pos : Int16 × Int16) :
    ∃ q, (s.after calls).lastMouse = some q ∧
      ((s.captured calls).flatMap em.emit).foldl FakeInput.move pos =
        (pos.1 + (q.1 - p.1).toInt16, pos.2 + (q.2 - p.2).toInt16) := by
  rw [List.foldl_flatMap]
  refine @Hooks.follow s p calls (fun _ => True) _
    (fun pos e => (em.emit e).foldl FakeInput.move pos)
    (fun w r => w = (pos.1 + (r.1 - p.1).toInt16, pos.2 + (r.2 - p.2).toInt16)) ?_ ?_ pos hp ?_
    (fun c _ => c.at_true)
  · -- the low halves of the deltas add up
    rintro w p' q now rfl -
    show (_, _) = (_, _)
    dsimp only
    congr 1 <;> simp only [Int32.toInt16_sub] <;> grind
  · intro w p' e hR he
    rw [hR]
    cases e with
    | mouseMove | mouseAbs => exact he.elim
    | mouseButton btn pressed => cases pressed <;> rfl
    | scroll dx dy =>
      -- the clicks of a scroll do not move the pointer
      refine List.foldlRecOn (motive := fun w => w = (_, _)) _ _ rfl fun w hw fake hfake => ?_
      obtain ⟨code, -, rfl | rfl⟩ := X11Emit.mem_emit_scroll hfake
      · exact hw
      · exact hw
    | key code pressed m =>
      unfold X11Emit.emit
      dsimp only
      cases em.hidToKeycode code with
      | none => rfl
      | some kc => cases pressed <;> rfl
    | _ => rfl
  · simp

/-- The pointer of the emitter of macOS, as whole numbers. -/
theorem Hooks.follow_macos (hp : s.lastMouse = some p) (hdesk : OnDesktop p)
    (hcalls : ∀ c ∈ calls, c.At OnDesktop) (em : MacosEmit ℤ) :
    ∃ q, (s.after calls).lastMouse = some q ∧ OnDesktop q ∧
      em.after wholes (s.captured calls) =
        ⟨em.lastPos.1 + (q.1.toInt - p.1.toInt), em.lastPos.2 + (q.2.toInt - p.2.toInt)⟩ := by
  refine @Hooks.follow s p calls OnDesktop _ (fun em e => (MacosEmit.emit wholes em e).2)
    (fun em' r => OnDesktop r ∧ em' =
      ⟨em.lastPos.1 + (r.1.toInt - p.1.toInt), em.lastPos.2 + (r.2.toInt - p.2.toInt)⟩)
    ?_ ?_ em hp ⟨hdesk, by simp⟩ hcalls
  · rintro w p' q now ⟨hp', rfl⟩ hq
    -- the distances fit into 32 bits
    have hexact : ∀ a b : Int32, a.toInt.natAbs < 2 ^ 30 → b.toInt.natAbs < 2 ^ 30 →
        (a - b).toInt = a.toInt - b.toInt := by
      intro a b ha hb
      rw [Int32.toInt_sub]
      exact Int.bmod_eq_of_le (by omega) (by omega)
    refine ⟨hq, ?_⟩
    show MacosEmit.mk (_, _) = _
    simp only [wholes, hexact _ _ hq.1 hp'.1, hexact _ _ hq.2 hp'.2]
    congr 2 <;> omega
  · rintro w p' e ⟨hp', rfl⟩ he
    refine ⟨hp', ?_⟩
    cases e with
    | mouseMove | mouseAbs => exact he.elim
    | mouseButton btn pressed => cases btn <;> cases pressed <;> rfl
    | key code pressed m =>
      unfold MacosEmit.emit
      dsimp only
      cases hidToMac code <;> rfl
    | _ => rfl

/-- The pointer of a hub with Windows on its spokes, for every sequence of calls of its two hooks. When
the pointer of the hub is last seen at `q`, the pointer of a spoke has gone the way from `p` to `q`: with
Windows in 32 bits, with an X server in its 16 bits, and with macOS exactly, if it starts at a whole
position up to `2 ^ 52` and the pointer of the hub stays within `2 ^ 30`. Each event that macOS posts
has in it the position as whole numbers, although the emitter adds up numbers of type `f64`. -/
theorem pointer_follows (hp : s.lastMouse = some p) (calls : List HookCall) :
    ∃ q, (s.after calls).lastMouse = some q ∧
      (∀ pos, ((s.captured calls).flatMap WindowsEmit.emit).foldl WinInput.move pos =
        (pos.1 + (q.1 - p.1), pos.2 + (q.2 - p.2))) ∧
      (∀ (em : X11Emit) pos, ((s.captured calls).flatMap em.emit).foldl FakeInput.move pos =
        (pos.1 + (q.1 - p.1).toInt16, pos.2 + (q.2 - p.2).toInt16)) ∧
      ∀ em : MacosEmit ℤ, em.lastPos.1.natAbs ≤ 2 ^ 52 → em.lastPos.2.natAbs ≤ 2 ^ 52 →
        OnDesktop p → (∀ c ∈ calls, c.At OnDesktop) →
        (em.map double).posted doubles (s.captured calls) =
            (em.posted wholes (s.captured calls)).map (CGEvent.map double) ∧
          ((em.map double).after doubles (s.captured calls)).lastPos =
            (double (em.lastPos.1 + (q.1.toInt - p.1.toInt)),
              double (em.lastPos.2 + (q.2.toInt - p.2.toInt))) := by
  -- where the pointer of the hub is does not depend on the spoke
  obtain ⟨q, hq, -⟩ := Hooks.follow_windows hp calls (0, 0)
  have hsame : ∀ {q'}, (s.after calls).lastMouse = some q' → q' = q := fun hq' =>
    Option.some.inj (hq'.symm.trans hq)
  refine ⟨q, hq, ?_, ?_, ?_⟩
  · intro pos
    obtain ⟨q', hq', hmoved⟩ := Hooks.follow_windows hp calls pos
    rwa [hsame hq'] at hmoved
  · intro em pos
    obtain ⟨q', hq', hmoved⟩ := Hooks.follow_x11 hp calls em pos
    rwa [hsame hq'] at hmoved
  · intro em hx hy hdesk hcalls
    -- the position stays in range all the way
    have hrange : ∀ pre, pre <+: s.captured calls → (em.after wholes pre).InRange := by
      intro pre hpre
      obtain ⟨first, hfirst, rfl⟩ := Hooks.captured_prefix hpre
      obtain ⟨q', -, hdesk', hafter⟩ := Hooks.follow_macos hp hdesk
        (fun c hc => hcalls c (hfirst.subset hc)) em
      rw [hafter]
      unfold OnDesktop at hdesk hdesk'
      constructor <;> dsimp only <;> omega
    obtain ⟨hposted, hafter⟩ := MacosEmit.posted_eq_map hrange
    obtain ⟨q', hq', -, hwhole⟩ := Hooks.follow_macos hp hdesk hcalls em
    rw [hsame hq'] at hwhole
    refine ⟨hposted, ?_⟩
    rw [hafter, hwhole]
    rfl

end Pointer

section Example

/-- The pointer goes right, a key is pressed, and the pointer goes up. -/
def hookRun : List HookCall :=
  [.mouse ⟨0, .mouseMove, ⟨(110, 50), 0⟩, 0⟩, .keyboard 0 .keyDown 0x41,
    .mouse ⟨0, .mouseMove, ⟨(110, 20), 0⟩, 5⟩]

/-- The pointer of a spoke with an X server goes as far, and a new emitter of macOS posts where it has
gone. -/
theorem pointer_follows_hookRun :
    (((Hooks.mk .empty (some (100, 50))).captured hookRun).flatMap (X11Emit.mk ∅).emit).foldl
        FakeInput.move (0, 0) = (10, -30) ∧
      (MacosEmit.new doubles).posted doubles ((Hooks.mk .empty (some (100, 50))).captured hookRun) =
        [.mouse .mouseMoved (10.0, 0.0) .left, .keyboard 0x00 true,
          .mouse .mouseMoved (10.0, -30.0) .left] ∧
      ((MacosEmit.new doubles).after doubles
        ((Hooks.mk .empty (some (100, 50))).captured hookRun)).lastPos = (10.0, -30.0) := by
  obtain ⟨q, hq, -, hx11, hmacos⟩ :=
    pointer_follows (s := Hooks.mk .empty (some (100, 50))) (p := (100, 50)) rfl hookRun
  have hlast : ((Hooks.mk .empty (some (100, 50))).after hookRun).lastMouse = some (110, 20) := rfl
  obtain rfl := Option.some.inj (hlast.symm.trans hq)
  have hdesk : ∀ c ∈ hookRun, c.At OnDesktop := by
    unfold hookRun OnDesktop
    simp [HookCall.At]
  have hdesk₀ : OnDesktop (100, 50) := by
    unfold OnDesktop
    decide
  obtain ⟨hposted, hafter⟩ := hmacos (.new wholes) (Nat.zero_le _) (Nat.zero_le _) hdesk₀ hdesk
  -- the events are computed in whole numbers, and then their positions are taken as `f64`
  have hwhole : (MacosEmit.new wholes).posted wholes
      ((Hooks.mk .empty (some (100, 50))).captured hookRun) =
        [.mouse .mouseMoved (10, 0) .left, .keyboard 0x00 true,
          .mouse .mouseMoved (10, -30) .left] := by decide +kernel
  have hten : double 10 = 10.0 := by decide +kernel
  have hthirty : double (-30) = -30.0 := by decide +kernel
  have hnew : MacosEmit.new doubles = (MacosEmit.new wholes).map double := rfl
  refine ⟨?_, ?_, ?_⟩
  · rw [hx11 ⟨∅⟩ (0, 0)]
    decide
  · rw [hnew, hposted, hwhole, ← hten, ← hthirty]
    rfl
  · rw [hnew, hafter, ← hten, ← hthirty]
    rfl

end Example

end Borderless.Input
