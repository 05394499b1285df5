import Mathlib.Tactic.Common

/-!
# Data refinement of objects

An object answers a call and changes its state: a function `σ → γ → ρ × σ` from the state and the
call to the answer and the next state. `calls` runs a list of calls. An object refines another one
by a relation on their states if related states answer every call alike and stay related
(`Simulates`), and then they answer every list of calls alike (`Simulates.calls`).
-/

namespace Refinement

variable {σ τ γ ρ : Type*}

/-- The answers to a list of calls, and the state after them. -/
def calls (f : σ → γ → ρ × σ) : σ → List γ → List ρ × σ
  | s, [] => ([], s)
  | s, c :: cs => ((f s c).1 :: (calls f (f s c).2 cs).1, (calls f (f s c).2 cs).2)

/-- Related states answer every call alike, and stay related. -/
def Simulates (R : σ → τ → Prop) (f : σ → γ → ρ × σ) (g : τ → γ → ρ × τ) : Prop :=
  ∀ s t c, R s t → (f s c).1 = (g t c).1 ∧ R (f s c).2 (g t c).2

/-- Related states answer every list of calls alike, and are related after it. -/
theorem Simulates.calls {R : σ → τ → Prop} {f : σ → γ → ρ × σ} {g : τ → γ → ρ × τ}
    (h : Simulates R f g) {s : σ} {t : τ} (hR : R s t) (cs : List γ) :
    (calls f s cs).1 = (Refinement.calls g t cs).1 ∧
      R (Refinement.calls f s cs).2 (Refinement.calls g t cs).2 := by
  induction cs generalizing s t with
  | nil => exact ⟨rfl, hR⟩
  | cons c cs ih =>
    obtain ⟨hanswer, hnext⟩ := h s t c hR
    obtain ⟨hanswers, hlast⟩ := ih hnext
    refine ⟨?_, hlast⟩
    show (f s c).1 :: _ = (g t c).1 :: _
    rw [hanswer, hanswers]

end Refinement
