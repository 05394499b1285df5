import Borderless.Input.Windows

/-!
# The trackers of the modifier keys

Three functions keep track of the modifier keys: `ModifierState::update` of the router and
`update_modifiers` of the X11 and of the Windows capture. Over every sequence of key events they
make the same mask, whose bits are the last events of the keys (`trackers_agree`).
-/

namespace Borderless.Input

open LastWrite

/-- The state of the router after a sequence of key events. -/
def routerState (events : List (HidUsage × Bool)) : ModifierState :=
  events.foldl (fun s e => (s.update e.1 e.2).2) .new

/-- The mask of the X11 capture after a sequence of key events. -/
def x11Mask (events : List (HidUsage × Bool)) : ModifierMask :=
  events.foldl (fun m e => updateModifiers e.1 e.2 m) .empty

/-- The mask of the Windows capture after a sequence of key events. -/
def windowsMask (events : List (HidUsage × Bool)) : ModifierMask :=
  events.foldl (fun m e => Windows.updateModifiers e.1 e.2 m) .empty

/-- The arms of the `match` of each of the three functions. -/
theorem modifierBit_eq (code : HidUsage) :
    modifierBit code =
      if code = .lctrl then some .lctrl
      else if code = .lshift then some .lshift
      else if code = .lalt then some .lalt
      else if code = .lgui then some .lgui
      else if code = .rctrl then some .rctrl
      else if code = .rshift then some .rshift
      else if code = .ralt then some .ralt
      else if code = .rgui then some .rgui
      else none := by
  unfold modifierBit modifierKeys
  simp only [List.lookup_cons, List.lookup_nil, beq_eq_decide]
  split_ifs <;> simp_all

/-- The captures of X11 and of Windows update the mask alike. -/
theorem windows_updateModifiers (hid : HidUsage) (pressed : Bool) (m : ModifierMask) :
    Windows.updateModifiers hid pressed m = updateModifiers hid pressed m := by
  have harms := modifierBit_eq hid
  unfold Windows.updateModifiers updateModifiers
  cases hbit : modifierBit hid with
  | none =>
    rw [hbit] at harms
    simp only [← harms]
  | some b =>
    rw [hbit] at harms
    simp only [← harms]

section Runs

variable {events : List (HidUsage × Bool)}

/-- The router and the X11 capture have the same mask. -/
theorem mask_routerState (events : List (HidUsage × Bool)) :
    (routerState events).mask = x11Mask events := by
  unfold routerState x11Mask
  induction events using List.reverseRecOn with
  | nil => rfl
  | append_singleton events e ih =>
    rw [List.foldl_concat, List.foldl_concat, mask_update, ih]

/-- The captures of X11 and of Windows have the same mask. -/
theorem windowsMask_eq (events : List (HidUsage × Bool)) : windowsMask events = x11Mask events := by
  have hupdate : (fun (m : ModifierMask) (e : HidUsage × Bool) =>
      Windows.updateModifiers e.1 e.2 m) = fun m e => updateModifiers e.1 e.2 m := by
    funext m e
    exact windows_updateModifiers e.1 e.2 m
  unfold windowsMask x11Mask
  rw [hupdate]

/-- The mask tracks the keys. -/
theorem tracks_x11Mask (events : List (HidUsage × Bool)) : (x11Mask events).Tracks events := by
  unfold x11Mask
  induction events using List.reverseRecOn with
  | nil => exact tracks_empty
  | append_singleton events e ih =>
    rw [List.foldl_concat]
    exact ih.update e.1 e.2

/-- A bit of the mask is set when the last event of its key is a press. -/
theorem bit_x11Mask {i : ℕ} (hi : i < 8) :
    (x11Mask events).bit i = true ↔ lastWrite (modifierUsage i) events = some true := by
  have hmodifier : ∀ i < 8, (modifierBit (modifierUsage i)).isSome := by decide
  rw [← holds_modifierUsage hi, tracks_x11Mask events]
  exact and_iff_right (hmodifier i hi)

/-- An update changes only the bit of its own key. -/
theorem bit_update_of_ne (s : ModifierState) {code : HidUsage} {i : ℕ} (hi : i < 8)
    (hne : code ≠ modifierUsage i) (pressed : Bool) :
    (s.update code pressed).2.mask.bit i = s.mask.bit i := by
  rw [Bool.eq_iff_iff, ← holds_modifierUsage hi, ← holds_modifierUsage hi, mask_update,
    holds_updateModifiers, if_neg fun hand => hne hand.1]

/-- An update says whether it changes the mask. -/
theorem update_fst_iff (s : ModifierState) (code : HidUsage) (pressed : Bool) :
    (s.update code pressed).1 = true ↔ (s.update code pressed).2.mask ≠ s.mask := by
  unfold ModifierState.update
  cases modifierBit code with
  | none => simp
  | some b => simp [ne_comm]

/-- The trackers of the modifier keys. After every sequence of key events the router and both
captures have the same mask, in which the bit of a key is set precisely when the last event of the
key was a press; an event of another key leaves the bit alone, and the update of the router says
whether it has changed the mask. -/
theorem trackers_agree (events : List (HidUsage × Bool)) :
    ((routerState events).mask = x11Mask events ∧ (routerState events).mask = windowsMask events) ∧
    (∀ i < 8, (routerState events).mask.bit i = true ↔
      lastWrite (modifierUsage i) events = some true) ∧
    (∀ code pressed, ∀ i < 8, code ≠ modifierUsage i →
      ((routerState events).update code pressed).2.mask.bit i = (routerState events).mask.bit i) ∧
    (∀ code pressed, ((routerState events).update code pressed).1 = true ↔
      ((routerState events).update code pressed).2.mask ≠ (routerState events).mask) := by
  refine ⟨⟨mask_routerState events, ?_⟩, ?_, ?_, ?_⟩
  · rw [windowsMask_eq]
    exact mask_routerState events
  · intro i hi
    rw [mask_routerState]
    exact bit_x11Mask hi
  · intro code pressed i hi hne
    exact bit_update_of_ne _ hi hne pressed
  · exact update_fst_iff _

end Runs

end Borderless.Input
