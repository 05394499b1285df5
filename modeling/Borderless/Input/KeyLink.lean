import Borderless.Input.X11
import Borderless.Lib.Transition

/-!
# The modifiers on a spoke

A hub captures key events, and a spoke that joins and leaves injects the events that it receives in
between (`reader_loop` of `crates/cli/src/runtime/client.rs`). A frame that is lost with its session
counts as captured after the session. An event carries the modifiers that the capture holds, but the
emitter does not use them: the modifiers that are down on the spoke are those that its fake inputs
have left down.
-/

namespace Borderless.Input

open LastWrite Transition

/-- The capture on the hub and one spoke. -/
structure KeyLink where
  /-- The modifiers of the capture. -/
  modifiers : ModifierMask
  /-- The spoke has a session. -/
  connected : Bool
  /-- The events that the spoke has received, each with what the spoke has injected for it. -/
  log : List (InputEvent × List FakeInput)

/-- What can happen. -/
inductive KeyStep
  /-- A raw key event on the hub. -/
  | rawKey (keycode : UInt32) (pressed : Bool)
  /-- The spoke joins. -/
  | join
  /-- The spoke leaves. -/
  | leave
deriving DecidableEq

/-- One step, with the keyboard of the hub and the emitter of the spoke. -/
def KeyLink.step (hub : KeyMap) (em : X11Emit) (s : KeyLink) : KeyStep → Option KeyLink
  | .rawKey keycode pressed =>
    let (event, modifiers) := handleKey hub keycode pressed s.modifiers
    match event with
    | some event =>
      if s.connected then some ⟨modifiers, true, s.log ++ [(event, em.emit event)]⟩
      else some ⟨modifiers, false, s.log⟩
    | none => some ⟨modifiers, s.connected, s.log⟩
  | .join => if s.connected then none else some ⟨s.modifiers, true, s.log⟩
  | .leave => if s.connected then some ⟨s.modifiers, false, s.log⟩ else none

/-- The runs. -/
def keyLink (hub : KeyMap) (em : X11Emit) : System KeyLink KeyStep where
  init s := s = ⟨.empty, false, []⟩
  step := KeyLink.step hub em

/-! ## The keys that are down on the spoke -/

/-- The key changes of what was injected. -/
def keyChanges (log : List (InputEvent × List FakeInput)) : List (UInt8 × Bool) :=
  log.flatMap fun p => p.2.filterMap FakeInput.keyChange

/-- The key is down on the spoke: the last change of its keycode was a press. -/
def HeldOn (em : X11Emit) (changes : List (UInt8 × Bool)) (c : HidUsage) : Prop :=
  ∃ kc, em.hidToKeycode c = some kc ∧ lastWrite kc changes = some true

/-- The modifier keys of the mask are those that are down on the spoke. -/
def Matches (em : X11Emit) (m : ModifierMask) (changes : List (UInt8 × Bool)) : Prop :=
  ∀ c, (modifierBit c).isSome → (m.Holds c ↔ HeldOn em changes c)

/-- At every injected press of another key, the modifier keys that are down on the spoke are those
of the event. -/
def ModifiersMatch (em : X11Emit) (s : KeyLink) : Prop :=
  ∀ pre code m out post, s.log = pre ++ (.key code true m, out) :: post →
    modifierBit code = none → out ≠ [] → Matches em m (keyChanges (pre ++ [(.key code true m, out)]))

/-- A key event changes the same modifiers in the mask as on the spoke. A key without a keycode
there is no modifier, or in the mask it already is as the event says; and so are other modifiers
that share the key's keycode. -/
def SameChange (em : X11Emit) (m : ModifierMask) (code : HidUsage) (pressed : Bool) : Prop :=
  match em.hidToKeycode code with
  | none => (modifierBit code).isSome → (m.Holds code ↔ pressed = true)
  | some kc => ∀ c, (modifierBit c).isSome → em.hidToKeycode c = some kc → c ≠ code →
      (m.Holds c ↔ pressed = true)

/-- A step keeps the modifiers alike: a spoke that joins has those down that the hub holds, and an
event during a session makes the same change on both. -/
def KeyLink.InStep (hub : KeyMap) (em : X11Emit) (s : KeyLink) : KeyStep → Prop
  | .rawKey keycode pressed =>
    s.connected = true → ∀ code, hub.usage keycode = some code → SameChange em s.modifiers code pressed
  | .join => Matches em s.modifiers (keyChanges s.log)
  | .leave => True

section Held

variable {em : X11Emit} {m : ModifierMask} {changes : List (UInt8 × Bool)} {c code : HidUsage}
  {pressed : Bool}

/-- The key changes after one more emitted key. -/
theorem keyChanges_concat (log : List (InputEvent × List FakeInput)) :
    keyChanges (log ++ [(.key code pressed m, em.emit (.key code pressed m))]) =
      keyChanges log ++ ((em.hidToKeycode code).map fun kc => (kc, pressed)).toList := by
  unfold keyChanges
  rw [List.flatMap_append, List.flatMap_singleton, keyChange_emit]

/-- A change of a keycode sets all keys that have it. -/
theorem heldOn_concat (kc : UInt8) : HeldOn em (changes ++ [(kc, pressed)]) c ↔
    if em.hidToKeycode c = some kc then pressed = true else HeldOn em changes c := by
  unfold HeldOn
  cases h : em.hidToKeycode c with
  | none => simp
  | some kc' =>
    simp only [Option.some.injEq, exists_eq_left', lastWrite_concat]
    by_cases hkc : kc = kc'
    · simp [hkc]
    · simp [hkc, Ne.symm hkc]

/-- The mask and the spoke stay alike precisely when an event makes the same change on both. -/
theorem matches_concat_iff (h : Matches em m changes) :
    Matches em (updateModifiers code pressed m)
      (changes ++ ((em.hidToKeycode code).map fun kc => (kc, pressed)).toList) ↔
        SameChange em m code pressed := by
  unfold SameChange
  cases hcode : em.hidToKeycode code with
  | none =>
    rw [Option.map_none, Option.toList_none, List.append_nil]
    constructor
    · intro h' hmod
      rw [h code hmod, ← h' code hmod, holds_updateModifiers, if_pos ⟨rfl, hmod⟩]
    · intro hsame c hmod
      rw [holds_updateModifiers, ← h c hmod]
      by_cases hc : code = c
      · subst hc
        rw [if_pos ⟨rfl, hmod⟩, hsame hmod]
      · rw [if_neg fun hand => hc hand.1]
  | some kc =>
    rw [Option.map_some, Option.toList_some]
    constructor
    · intro h' c hmod hkc hne
      have hc := h' c hmod
      rwa [holds_updateModifiers, if_neg fun hand => hne hand.1.symm, heldOn_concat,
        if_pos hkc] at hc
    · intro hsame c hmod
      rw [holds_updateModifiers, heldOn_concat]
      by_cases hc : code = c
      · subst hc
        rw [if_pos ⟨rfl, hmod⟩, if_pos hcode]
      · rw [if_neg fun hand => hc hand.1]
        by_cases hkc : em.hidToKeycode c = some kc
        · rw [if_pos hkc, hsame c hmod hkc (Ne.symm hc)]
        · rw [if_neg hkc, h c hmod]

end Held

/-! ## The modifiers stay alike -/

/-- A step joins, leaves, drops a key that has no usage, or captures a key event, which the spoke
gets if it has a session. -/
theorem keyLink_step_cases {hub : KeyMap} {em : X11Emit} {s t : KeyLink} {a : KeyStep}
    (h : s.step hub em a = some t) :
    (a = .join ∧ s.connected = false ∧ t = ⟨s.modifiers, true, s.log⟩) ∨
    (a = .leave ∧ s.connected = true ∧ t = ⟨s.modifiers, false, s.log⟩) ∨
    (∃ keycode pressed, a = .rawKey keycode pressed ∧ hub.usage keycode = none ∧ t = s) ∨
    ∃ keycode pressed code m, a = .rawKey keycode pressed ∧ hub.usage keycode = some code ∧
      m = updateModifiers code pressed s.modifiers ∧
      (s.connected = true ∧
          t = ⟨m, true, s.log ++ [(.key code pressed m, em.emit (.key code pressed m))]⟩ ∨
        s.connected = false ∧ t = ⟨m, false, s.log⟩) := by
  cases a with
  | join =>
    unfold KeyLink.step at h
    cases hc : s.connected with
    | false =>
      rw [hc, if_neg Bool.false_ne_true] at h
      exact .inl ⟨rfl, rfl, (Option.some.inj h).symm⟩
    | true =>
      rw [hc, if_pos rfl] at h
      cases h
  | leave =>
    unfold KeyLink.step at h
    cases hc : s.connected with
    | false =>
      rw [hc, if_neg Bool.false_ne_true] at h
      cases h
    | true =>
      rw [hc, if_pos rfl] at h
      exact .inr (.inl ⟨rfl, rfl, (Option.some.inj h).symm⟩)
  | rawKey keycode pressed =>
    unfold KeyLink.step handleKey at h
    cases husage : hub.usage keycode with
    | none =>
      simp only [husage, Option.some.injEq] at h
      exact .inr (.inr (.inl ⟨keycode, pressed, rfl, husage, h.symm⟩))
    | some code =>
      simp only [husage] at h
      refine .inr (.inr (.inr ⟨keycode, pressed, code, _, rfl, husage, rfl, ?_⟩))
      cases hc : s.connected with
      | false =>
        rw [hc, if_neg Bool.false_ne_true] at h
        exact .inr ⟨rfl, (Option.some.inj h).symm⟩
      | true =>
        rw [hc, if_pos rfl] at h
        exact .inl ⟨rfl, (Option.some.inj h).symm⟩

/-- The modifiers are alike during a session. -/
def KeyLink.Alike (em : X11Emit) (s : KeyLink) : Prop :=
  s.connected = true → Matches em s.modifiers (keyChanges s.log)

section Alike

variable {hub : KeyMap} {em : X11Emit} {s t : KeyLink} {a : KeyStep}

/-- The modifiers are still alike after a step precisely when the step keeps them alike. -/
theorem alike_step_iff (hs : s.Alike em) (h : s.step hub em a = some t) :
    t.Alike em ↔ s.InStep hub em a := by
  unfold KeyLink.Alike KeyLink.InStep
  rcases keyLink_step_cases h with ⟨rfl, -, rfl⟩ | ⟨rfl, -, rfl⟩ |
    ⟨keycode, pressed, rfl, husage, rfl⟩ |
    ⟨keycode, pressed, code, m, rfl, husage, rfl, ⟨hc, rfl⟩ | ⟨hc, rfl⟩⟩
  · simp
  · simp
  · simp only [husage, reduceCtorEq, false_imp_iff, implies_true, iff_true]
    exact hs
  · simp only [forall_const, keyChanges_concat, hc, husage, Option.some.injEq, forall_eq']
    exact matches_concat_iff (hs hc)
  · simp [hc]

/-- A press that is injected while the modifiers are alike has the right ones. -/
theorem modifiersMatch_step (hs : ModifiersMatch em s) (h : s.step hub em a = some t)
    (ht : t.Alike em) : ModifiersMatch em t := by
  rcases keyLink_step_cases h with ⟨-, -, rfl⟩ | ⟨-, -, rfl⟩ | ⟨-, -, -, -, rfl⟩ |
    ⟨keycode, pressed, code, m, rfl, -, -, ⟨-, rfl⟩ | ⟨-, rfl⟩⟩
  · exact hs
  · exact hs
  · exact hs
  · intro pre code' m' out post hlog hmod hout
    rcases append_singleton_eq_split hlog with ⟨post', hlog⟩ | ⟨rfl, hlast⟩
    · exact hs pre code' m' out post' hlog hmod hout
    · obtain ⟨hevent, rfl⟩ := Prod.mk.inj hlast
      obtain ⟨rfl, rfl, rfl⟩ := InputEvent.key.inj hevent
      exact ht rfl
  · exact hs

/-- The hub's keyboard has a key that is no modifier, and the spoke has a keycode for it that no
modifier has. -/
def Typeable (hub : KeyMap) (em : X11Emit) (keycode : UInt32) : Prop :=
  ∃ code kc, hub.usage keycode = some code ∧ modifierBit code = none ∧
    em.hidToKeycode code = some kc ∧ ∀ c, (modifierBit c).isSome → em.hidToKeycode c ≠ some kc

/-- Where the modifiers are not alike, the next such press has the wrong ones. -/
theorem exists_mismatch {keycode : UInt32} (hkey : Typeable hub em keycode) (hs : ¬ s.Alike em) :
    ∃ t, s.step hub em (.rawKey keycode true) = some t ∧ ¬ ModifiersMatch em t := by
  obtain ⟨code, kc, husage, hmod, hkc, hfree⟩ := hkey
  obtain ⟨hc, hdiffer⟩ := Classical.not_imp.1 hs
  have hm : updateModifiers code true s.modifiers = s.modifiers := by
    unfold updateModifiers
    rw [hmod]
  have hout : em.emit (.key code true s.modifiers) = [⟨.keyPress, kc, 0, 0⟩] := by
    unfold X11Emit.emit
    simp [hkc]
  refine ⟨⟨s.modifiers, true, s.log ++ [(.key code true s.modifiers, [⟨.keyPress, kc, 0, 0⟩])]⟩,
    ?_, ?_⟩
  · unfold KeyLink.step handleKey
    simp [husage, hm, hc, hout]
  · intro hmatch
    have hafter := hmatch s.log code s.modifiers _ [] rfl hmod (by simp)
    rw [← hout, keyChanges_concat, hkc] at hafter
    refine hdiffer fun c hcmod => ?_
    rw [hafter c hcmod, Option.map_some, Option.toList_some, heldOn_concat, if_neg (hfree c hcmod)]

/-- The modifiers on the spoke. In a run whose steps keep the modifiers alike, the modifier keys
that are down on the spoke at an injected press of another key are those of the event. No weaker
condition on the steps will do if there is a key to press: after a step that does not keep the
modifiers alike, the next press of the key has the wrong ones. -/
theorem modifiers_match (hub : KeyMap) (em : X11Emit) :
    (∀ s, (keyLink hub em).Reach (KeyLink.InStep hub em) s → ModifiersMatch em s) ∧
    ∀ s a t keycode, (keyLink hub em).Reach (KeyLink.InStep hub em) s →
      (keyLink hub em).step s a = some t → ¬ s.InStep hub em a → Typeable hub em keycode →
      ∃ u, (keyLink hub em).step t (.rawKey keycode true) = some u ∧ ¬ ModifiersMatch em u := by
  have hinv : ∀ s, (keyLink hub em).Reach (KeyLink.InStep hub em) s →
      s.Alike em ∧ ModifiersMatch em s := by
    intro s hs
    refine hs.invariant (I := fun s => s.Alike em ∧ ModifiersMatch em s) ?_ ?_
    · rintro _ rfl
      constructor
      · intro hc
        cases hc
      · intro pre code m out post hlog
        exact absurd hlog.symm (by simp)
    · intro s a t hI hguard hstep
      have ht := (alike_step_iff hI.1 hstep).2 hguard
      exact ⟨ht, modifiersMatch_step hI.2 hstep ht⟩
  refine ⟨fun s hs => (hinv s hs).2, fun s a t keycode hs hstep hnot hkey => ?_⟩
  exact exists_mismatch hkey fun ht => hnot ((alike_step_iff (hinv s hs).1 hstep).1 ht)

end Alike

section Example

/-- A keyboard with a Shift and an A. -/
def shiftAndA : KeyMap := ⟨8, 9, 1, [0xffe1, 0x0061]⟩

/-- Shift is pressed, then the spoke joins, then A is pressed. -/
def shiftJoinA : List KeyStep := [.rawKey 8 true, .join, .rawKey 9 true]

/-- The spoke injects A although the event says Shift-A. -/
theorem modifiers_differ :
    ¬ ∀ hub spoke s, (keyLink hub (.new spoke)).Reachable s → ModifiersMatch (.new spoke) s := by
  intro h
  have hrun : ∃ s, (keyLink shiftAndA (.new shiftAndA)).Reachable s ∧
      s.log = [(.key .keyA true .lshift, [⟨.keyPress, 9, 0, 0⟩])] :=
    System.exists_reach_of_run rfl shiftJoinA (fun _ _ => trivial) (by decide)
  obtain ⟨s, hs, hlog⟩ := hrun
  have hmatch := h shiftAndA shiftAndA s hs [] .keyA .lshift _ [] hlog (by decide) (by simp)
  obtain ⟨kc, hkc, hdown⟩ := (hmatch .lshift (by decide)).1 (by decide)
  have hshift : (X11Emit.new shiftAndA).hidToKeycode .lshift = some 8 := by decide
  obtain rfl := Option.some.inj (hkc.symm.trans hshift)
  exact absurd hdown (by decide)

end Example

end Borderless.Input
