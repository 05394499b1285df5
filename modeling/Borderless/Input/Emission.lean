import Borderless.Input.Windows
import Borderless.Input.X11
import Borderless.Lib.MachineInt

/-!
# The arithmetic of the emission

The fields of an event are `i32` values from the wire. The X11 backend narrows a motion to 16 bits,
and the Windows backend multiplies the notches of the wheel by 120. `emission_exact_iff` gives the
events that survive both.
-/

namespace Borderless.Input

open MachineInt

/-- What the emission is to do with an event, on both backends. -/
structure ExactEmission (em : X11Emit) (event : InputEvent) : Prop where
  /-- A relative motion of the X11 backend goes in the direction of the event on each axis. -/
  direction : ∀ dx dy ts, event = .mouseMove dx dy ts → ∀ fake ∈ em.emit event,
    fake.rootX.toInt.sign = dx.toInt.sign ∧ fake.rootY.toInt.sign = dy.toInt.sign
  /-- The vertical wheel of the Windows backend does not overflow. -/
  wheel : ∀ dx dy, event = .scroll dx dy → dy ≠ 0 → Fits (-dy.toInt) ∧ Fits ((-dy).toInt * 120)
  /-- The horizontal wheel does not overflow. -/
  hWheel : ∀ dx dy, event = .scroll dx dy → dx ≠ 0 → Fits (dx.toInt * 120)
  /-- The inputs for the wheel carry the exact products. -/
  data : ∀ dx dy, event = .scroll dx dy → ∀ mi, .mouse mi ∈ WindowsEmit.emit event →
    (mi.dwFlags = [.wheel] → mi.mouseData.toInt32.toInt = -dy.toInt * 120) ∧
    (mi.dwFlags = [.hWheel] → mi.mouseData.toInt32.toInt = dx.toInt * 120)

/-- The fields that a backend computes with are in range: of a motion the low bits have the sign of
the whole, and of a scroll the products are below `2^31`. -/
def EmissionInRange : InputEvent → Prop
  | .mouseMove dx dy _ => KeepsSign16 dx.toInt ∧ KeepsSign16 dy.toInt
  | .scroll dx dy => |dx.toInt| ≤ 17895697 ∧ |dy.toInt| ≤ 17895697
  | _ => True

/-- A product with 120 fits up to this bound. -/
theorem fits_mul_iff {z : ℤ} : Fits (z * 120) ↔ |z| ≤ 17895697 := by
  unfold Fits
  rw [abs_le]
  omega

/-- The data of an input for the wheel. -/
theorem mem_emit_scroll {dx dy : Int32} {mi : MouseInput}
    (h : .mouse mi ∈ WindowsEmit.emit (.scroll dx dy)) :
    (dy ≠ 0 ∧ mi.dwFlags = [.wheel] ∧ mi.mouseData.toInt32 = -dy * 120) ∨
    (dx ≠ 0 ∧ mi.dwFlags = [.hWheel] ∧ mi.mouseData.toInt32 = dx * 120) := by
  unfold WindowsEmit.emit at h
  rcases List.mem_append.1 h with hwheel | hhwheel
  · split_ifs at hwheel with hdy
    · obtain rfl := WinInput.mouse.inj (List.mem_singleton.1 hwheel)
      exact .inl ⟨hdy, rfl, Int32.toInt32_toUInt32 _⟩
    · cases hwheel
  · split_ifs at hhwheel with hdx
    · obtain rfl := WinInput.mouse.inj (List.mem_singleton.1 hhwheel)
      exact .inr ⟨hdx, rfl, Int32.toInt32_toUInt32 _⟩
    · cases hhwheel

/-- A motion of the X11 backend keeps its direction when its low bits do. -/
theorem direction_mouseMove_iff (em : X11Emit) (dx dy : Int32) (ts : UInt64) :
    (∀ fake ∈ em.emit (.mouseMove dx dy ts),
      fake.rootX.toInt.sign = dx.toInt.sign ∧ fake.rootY.toInt.sign = dy.toInt.sign) ↔
      KeepsSign16 dx.toInt ∧ KeepsSign16 dy.toInt := by
  unfold X11Emit.emit
  rw [List.forall_mem_singleton, Int32.toInt_toInt16, Int32.toInt_toInt16, sign_bmod_eq_iff,
    sign_bmod_eq_iff]

/-- The inputs for the wheel are exact when the products fit. -/
theorem exactEmission_scroll (em : X11Emit) {dx dy : Int32} (hdx : |dx.toInt| ≤ 17895697)
    (hdy : |dy.toInt| ≤ 17895697) : ExactEmission em (.scroll dx dy) := by
  -- the bound leaves room for the negation, too
  have hneg : (-dy).toInt = -dy.toInt := by
    rw [toInt_neg_eq_iff]
    rw [abs_le] at hdy
    unfold Fits
    omega
  have hnotch : (120 : Int32).toInt = 120 := by decide
  have hwheel : Fits ((-dy).toInt * 120) := by
    rw [hneg, fits_mul_iff, abs_neg]
    exact hdy
  have hhwheel : Fits (dx.toInt * 120) := fits_mul_iff.2 hdx
  refine ⟨nofun, ?_, ?_, ?_⟩
  · rintro _ _ ⟨⟩ -
    rw [← toInt_neg_eq_iff]
    exact ⟨hneg, hwheel⟩
  · rintro _ _ ⟨⟩ -
    exact hhwheel
  · rintro _ _ ⟨⟩ mi hmi
    rcases mem_emit_scroll hmi with ⟨-, hflags, hdata⟩ | ⟨-, hflags, hdata⟩
    · rw [hflags, hdata, ← hneg, ← hnotch, toInt_mul_eq_iff, hnotch]
      exact ⟨fun _ => hwheel, nofun⟩
    · rw [hflags, hdata, ← hnotch, toInt_mul_eq_iff, hnotch]
      exact ⟨nofun, fun _ => hhwheel⟩

/-- Emission arithmetic. For every event and every table of the X11 backend: the motion goes in the
direction of the event and the products for the wheel do not overflow, precisely when the low 16
bits of each delta of a motion have its sign and the notches of a scroll are at most 17895697. -/
theorem emission_exact_iff (em : X11Emit) (event : InputEvent) :
    ExactEmission em event ↔ EmissionInRange event := by
  cases event with
  | mouseMove dx dy ts =>
    refine Iff.trans ?_ (direction_mouseMove_iff em dx dy ts)
    constructor
    · intro h
      exact h.direction dx dy ts rfl
    · intro h
      refine ⟨?_, nofun, nofun, nofun⟩
      rintro _ _ _ ⟨⟩
      exact h
  | scroll dx dy =>
    constructor
    · intro h
      constructor
      · by_cases hdx : dx = 0
        · subst hdx
          decide
        · exact fits_mul_iff.1 (h.hWheel dx dy rfl hdx)
      · by_cases hdy : dy = 0
        · subst hdy
          decide
        · obtain ⟨hneg, hmul⟩ := h.wheel dx dy rfl hdy
          rw [(toInt_neg_eq_iff dy).2 hneg, fits_mul_iff, abs_neg] at hmul
          exact hmul
    · rintro ⟨hdx, hdy⟩
      exact exactEmission_scroll em hdx hdy
  | _ => exact iff_of_true ⟨nofun, nofun, nofun, nofun⟩ trivial

section Example

/-- A motion to the right by `2^15` goes to the left. -/
theorem largeMove_not_exact : ¬ ∀ em event, ExactEmission em event := by
  intro h
  have hdirection := (h ⟨∅⟩ (.mouseMove 32768 0 0)).direction 32768 0 0 rfl
  exact absurd ((direction_mouseMove_iff _ _ _ _).1 hdirection) (by decide)

end Example

end Borderless.Input
