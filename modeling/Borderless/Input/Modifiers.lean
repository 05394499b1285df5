import Borderless.Core
import Borderless.Lib.LastWrite

/-!
# Modifier keys

The modifiers of `crates/core/src/hid.rs`, and the two functions that keep track of them: the
`ModifierState` of the router (`crates/input-router/src/modifier.rs`) and `update_modifiers` of the
X11 capture (`crates/pal-x11/src/capture.rs`). A mask holds a modifier key when its bit is set;
after a sequence of key events it holds the keys whose last event was a press.
-/

namespace Borderless

open LastWrite

/-! ## The bits of a mask -/

namespace HidUsage

/-- `HidUsage::KEY_A`. -/
def keyA : HidUsage := ⟨0x04⟩

/-- `HidUsage::LCTRL`. -/
def lctrl : HidUsage := ⟨0xE0⟩

/-- `HidUsage::LSHIFT`. -/
def lshift : HidUsage := ⟨0xE1⟩

/-- `HidUsage::LALT`. -/
def lalt : HidUsage := ⟨0xE2⟩

/-- `HidUsage::LGUI`. -/
def lgui : HidUsage := ⟨0xE3⟩

/-- `HidUsage::RCTRL`. -/
def rctrl : HidUsage := ⟨0xE4⟩

/-- `HidUsage::RSHIFT`. -/
def rshift : HidUsage := ⟨0xE5⟩

/-- `HidUsage::RALT`. -/
def ralt : HidUsage := ⟨0xE6⟩

/-- `HidUsage::RGUI`. -/
def rgui : HidUsage := ⟨0xE7⟩

end HidUsage

namespace ModifierMask

/-- `ModifierMask::empty`: no key is held. -/
def empty : ModifierMask := ⟨0⟩

/-- `ModifierMask::LCTRL`. -/
def lctrl : ModifierMask := ⟨0b00000001⟩

/-- `ModifierMask::LSHIFT`. -/
def lshift : ModifierMask := ⟨0b00000010⟩

/-- `ModifierMask::LALT`. -/
def lalt : ModifierMask := ⟨0b00000100⟩

/-- `ModifierMask::LGUI`. -/
def lgui : ModifierMask := ⟨0b00001000⟩

/-- `ModifierMask::RCTRL`. -/
def rctrl : ModifierMask := ⟨0b00010000⟩

/-- `ModifierMask::RSHIFT`. -/
def rshift : ModifierMask := ⟨0b00100000⟩

/-- `ModifierMask::RALT`. -/
def ralt : ModifierMask := ⟨0b01000000⟩

/-- `ModifierMask::RGUI`. -/
def rgui : ModifierMask := ⟨0b10000000⟩

/-- `insert`, which is also `|=`. -/
def insert (m bit : ModifierMask) : ModifierMask := ⟨m.bits ||| bit.bits⟩

/-- `remove`, which is also `-=`. -/
def remove (m bit : ModifierMask) : ModifierMask := ⟨m.bits &&& ~~~bit.bits⟩

/-- `contains`: all bits of the second mask are set in the first. -/
def contains (m bit : ModifierMask) : Bool := m.bits &&& bit.bits == bit.bits

/-- The bit at a position. -/
def bit (m : ModifierMask) (i : ℕ) : Bool := m.bits.toBitVec.getLsbD i

end ModifierMask

/-- The modifier keys, each with its bit. -/
def modifierKeys : List (HidUsage × ModifierMask) :=
  [(.lctrl, .lctrl), (.lshift, .lshift), (.lalt, .lalt), (.lgui, .lgui),
    (.rctrl, .rctrl), (.rshift, .rshift), (.ralt, .ralt), (.rgui, .rgui)]

/-- The bit of a key, if it is a modifier. This is the `match` of both functions. -/
def modifierBit (code : HidUsage) : Option ModifierMask := modifierKeys.lookup code

namespace ModifierMask

variable {m m' b b' : ModifierMask} {c c' : HidUsage}

/-- The bits of both masks are set. -/
theorem bit_insert (i : ℕ) : (m.insert b).bit i = (m.bit i || b.bit i) := by
  simp [bit, insert]

/-- The bits of the second mask are cleared. -/
theorem bit_remove {i : ℕ} (hi : i < 8) : (m.remove b).bit i = (m.bit i && !b.bit i) := by
  simp [bit, remove, hi]

/-- A mask contains another when it has its bits. -/
theorem contains_iff : m.contains b = true ↔ ∀ i < 8, b.bit i = true → m.bit i = true := by
  unfold contains
  rw [beq_iff_eq]
  constructor
  · intro h i _ hb
    unfold bit at hb ⊢
    rw [← h] at hb
    simp only [UInt8.toBitVec_and, BitVec.getLsbD_and, Bool.and_eq_true] at hb
    exact hb.1
  · intro h
    refine UInt8.toBitVec_inj.1 (BitVec.eq_of_getLsbD_eq fun i hi => ?_)
    have himp := h i hi
    unfold bit at himp
    rw [UInt8.toBitVec_and, BitVec.getLsbD_and]
    cases hb : b.bits.toBitVec.getLsbD i with
    | false => rw [Bool.and_false]
    | true => rw [himp hb, Bool.and_true]

end ModifierMask

section Bits

variable {m m' b b' : ModifierMask} {c c' code : HidUsage} {pressed : Bool}

/-- The table has the bit of each modifier key. -/
theorem mem_modifierKeys (h : modifierBit c = some b) : (c, b) ∈ modifierKeys := by
  unfold modifierBit at h
  exact mem_of_lookup_eq_some h

/-- Two modifier keys have no bit in common. -/
theorem modifierBit_disjoint (h : modifierBit c = some b) (h' : modifierBit c' = some b') :
    c = c' ∨ ∀ i < 8, b.bit i = true → b'.bit i = false := by
  have hall : ∀ p ∈ modifierKeys, ∀ q ∈ modifierKeys,
      p.1 = q.1 ∨ ∀ i < 8, p.2.bit i = true → q.2.bit i = false := by decide
  exact hall _ (mem_modifierKeys h) _ (mem_modifierKeys h')

/-- A modifier key has one bit. -/
theorem exists_bit (h : modifierBit c = some b) : ∃ i < 8, b.bit i = true := by
  have hall : ∀ p ∈ modifierKeys, ∃ i < 8, p.2.bit i = true := by decide
  exact hall _ (mem_modifierKeys h)

end Bits

/-! ## The keys that a mask holds -/

/-- The mask holds the modifier key. -/
def ModifierMask.Holds (m : ModifierMask) (code : HidUsage) : Prop :=
  ∃ b, modifierBit code = some b ∧ m.contains b = true

instance (m : ModifierMask) : DecidablePred m.Holds := fun code =>
  match h : modifierBit code with
  | some b => decidable_of_iff (m.contains b = true) (by simp [ModifierMask.Holds, h])
  | none => .isFalse (by simp [ModifierMask.Holds, h])

section Holds

variable {m m' b : ModifierMask} {c code : HidUsage} {pressed : Bool}

/-- The empty mask holds no key. -/
theorem not_holds_empty (c : HidUsage) : ¬ ModifierMask.empty.Holds c := by
  rintro ⟨b, hb, hcontains⟩
  obtain ⟨i, hi, hbit⟩ := exists_bit hb
  have hset := ModifierMask.contains_iff.1 hcontains i hi hbit
  simp [ModifierMask.bit, ModifierMask.empty] at hset

/-- A key that is inserted is held. -/
theorem holds_insert (h : modifierBit code = some b) :
    (m.insert b).Holds c ↔ code = c ∨ m.Holds c := by
  constructor
  · rintro ⟨b', hb', hcontains⟩
    rcases modifierBit_disjoint hb' h with rfl | hdisjoint
    · exact .inl rfl
    · refine .inr ⟨b', hb', ModifierMask.contains_iff.2 fun i hi hbit => ?_⟩
      have hor := ModifierMask.contains_iff.1 hcontains i hi hbit
      rwa [ModifierMask.bit_insert, hdisjoint i hi hbit, Bool.or_false] at hor
  · rintro (rfl | ⟨b', hb', hcontains⟩)
    · refine ⟨b, h, ModifierMask.contains_iff.2 fun i hi hbit => ?_⟩
      rw [ModifierMask.bit_insert, hbit, Bool.or_true]
    · refine ⟨b', hb', ModifierMask.contains_iff.2 fun i hi hbit => ?_⟩
      rw [ModifierMask.bit_insert, ModifierMask.contains_iff.1 hcontains i hi hbit, Bool.true_or]

/-- A key that is removed is not held. -/
theorem holds_remove (h : modifierBit code = some b) :
    (m.remove b).Holds c ↔ code ≠ c ∧ m.Holds c := by
  constructor
  · rintro ⟨b', hb', hcontains⟩
    have hand : ∀ i < 8, b'.bit i = true → m.bit i = true ∧ b.bit i = false := by
      intro i hi hbit
      have hset := ModifierMask.contains_iff.1 hcontains i hi hbit
      rwa [ModifierMask.bit_remove hi, Bool.and_eq_true, Bool.not_eq_true'] at hset
    refine ⟨?_, b', hb', ModifierMask.contains_iff.2 fun i hi hbit => (hand i hi hbit).1⟩
    rintro rfl
    obtain rfl := Option.some.inj (h.symm.trans hb')
    obtain ⟨i, hi, hbit⟩ := exists_bit h
    rw [(hand i hi hbit).2] at hbit
    cases hbit
  · rintro ⟨hne, b', hb', hcontains⟩
    refine ⟨b', hb', ModifierMask.contains_iff.2 fun i hi hbit => ?_⟩
    have hfree := ((modifierBit_disjoint hb' h).resolve_left (Ne.symm hne)) i hi hbit
    rw [ModifierMask.bit_remove hi, hfree, ModifierMask.contains_iff.1 hcontains i hi hbit]
    rfl

/-- The usages of the modifier keys are consecutive, in the order of their bits. -/
def modifierUsage (i : ℕ) : HidUsage := ⟨0xE0 + UInt16.ofNat i⟩

/-- A modifier key is held exactly where its bit is set. -/
theorem holds_modifierUsage {i : ℕ} (hi : i < 8) (m : ModifierMask) :
    m.Holds (modifierUsage i) ↔ m.bit i = true := by
  have hkeys : ∀ i < 8, ∃ b, modifierBit (modifierUsage i) = some b ∧
      ∀ j < 8, b.bit j = decide (j = i) := by decide
  obtain ⟨b, hb, hbit⟩ := hkeys i hi
  constructor
  · rintro ⟨b', hb', hcontains⟩
    obtain rfl := Option.some.inj (hb.symm.trans hb')
    exact ModifierMask.contains_iff.1 hcontains i hi (by simp [hbit i hi])
  · intro hset
    refine ⟨b, hb, ModifierMask.contains_iff.2 fun j hj hj' => ?_⟩
    have hji : j = i := by simpa [hbit j hj] using hj'
    rwa [hji]

end Holds

/-! ## Keeping track of the keys -/

/-- `update_modifiers` of the X11 capture. -/
def updateModifiers (hid : HidUsage) (pressed : Bool) (m : ModifierMask) : ModifierMask :=
  match modifierBit hid with
  | some b => if pressed then m.insert b else m.remove b
  | none => m

/-- `ModifierState`: the mask of the keys that are held. -/
structure ModifierState where
  /-- The current mask. -/
  mask : ModifierMask
deriving DecidableEq

/-- `ModifierState::new`: no key is held. -/
def ModifierState.new : ModifierState := ⟨.empty⟩

/-- `ModifierState::update`: whether the mask changed, and the state after it. -/
def ModifierState.update (s : ModifierState) (code : HidUsage) (pressed : Bool) :
    Bool × ModifierState :=
  match modifierBit code with
  | none => (false, s)
  | some b =>
    let mask := if pressed then s.mask.insert b else s.mask.remove b
    (decide (s.mask ≠ mask), ⟨mask⟩)

section Track

variable {m : ModifierMask} {c code : HidUsage} {pressed : Bool} {events : List (HidUsage × Bool)}

/-- Both functions make the same mask. -/
theorem mask_update (s : ModifierState) (code : HidUsage) (pressed : Bool) :
    (s.update code pressed).2.mask = updateModifiers code pressed s.mask := by
  unfold ModifierState.update updateModifiers
  cases modifierBit code <;> rfl

/-- After an event of a modifier key the mask holds the key if it was pressed, and it holds the
other keys as before. -/
theorem holds_updateModifiers :
    (updateModifiers code pressed m).Holds c ↔
      if code = c ∧ (modifierBit c).isSome then pressed = true else m.Holds c := by
  unfold updateModifiers
  cases h : modifierBit code with
  | none =>
    have hother : ¬ (code = c ∧ (modifierBit c).isSome) := by
      rintro ⟨rfl, hsome⟩
      rw [h] at hsome
      cases hsome
    rw [if_neg hother]
  | some b =>
    cases pressed with
    | true =>
      show (m.insert b).Holds c ↔ _
      rw [holds_insert h]
      by_cases hc : code = c
      · subst hc
        simp [h]
      · simp [hc]
    | false =>
      show (m.remove b).Holds c ↔ _
      rw [holds_remove h]
      by_cases hc : code = c
      · subst hc
        simp [h]
      · simp [hc]

/-- The mask holds exactly the modifier keys whose last event was a press. -/
def ModifierMask.Tracks (m : ModifierMask) (events : List (HidUsage × Bool)) : Prop :=
  ∀ c, m.Holds c ↔ (modifierBit c).isSome ∧ lastWrite c events = some true

/-- The empty mask holds no key. -/
theorem tracks_empty : ModifierMask.empty.Tracks [] := fun c =>
  ⟨fun h => absurd h (not_holds_empty c), fun h => nomatch h.2⟩

/-- An update keeps track of one more event. -/
theorem ModifierMask.Tracks.update (h : m.Tracks events) (code : HidUsage) (pressed : Bool) :
    (updateModifiers code pressed m).Tracks (events ++ [(code, pressed)]) := by
  intro c
  rw [holds_updateModifiers, lastWrite_concat]
  by_cases hc : code = c
  · by_cases hmod : (modifierBit c).isSome
    · simp [hc, hmod]
    · rw [if_neg fun hand => hmod hand.2, h c]
      simp [hmod]
  · rw [if_neg fun hand => hc hand.1, if_neg hc]
    exact h c

end Track

end Borderless
