import Mathlib.Tactic.Common

/-!
# Programs that change a state and can fail

A `Prog` reads and changes a state and ends with a value or an error. A failure does not undo the
changes that were made before it, as with a file on disk. The rules take a run of a sequence apart:
into its first part and its rest (`Prog.bind_ok_iff`, `Prog.bind_error`), or for a property of the
state that each part keeps (`Prog.Keeps`). A result without a state is taken apart in the same way
(`Results.bind_ok_iff`, `Results.bind_error`).
-/

universe u v w

namespace Results

variable {ε δ α β : Type} {x : Except ε α} {g : α → Except ε β} {b : β}

/-- A sequence succeeds when both parts do. -/
theorem bind_ok_iff : x >>= g = .ok b ↔ ∃ a, x = .ok a ∧ g a = .ok b := by
  cases x <;> simp [bind, Except.bind]

/-- A sequence fails in its first part, or in the rest. -/
theorem bind_error {e : ε} (h : x >>= g = .error e) :
    x = .error e ∨ ∃ a, x = .ok a ∧ g a = .error e := by
  cases x with
  | error e' => exact .inl (congrArg Except.error (Except.error.inj h))
  | ok a => exact .inr ⟨a, rfl, h⟩

/-- A result with another error succeeds as before. -/
theorem mapError_ok_iff {f : ε → δ} {a : α} : x.mapError f = .ok a ↔ x = .ok a := by
  cases x <;> simp [Except.mapError]

/-- A result with another error fails as before. -/
theorem mapError_error {f : ε → δ} {e : δ} (h : x.mapError f = .error e) :
    ∃ e', x = .error e' ∧ f e' = e := by
  cases x with
  | error e' => exact ⟨e', rfl, Except.error.inj h⟩
  | ok a => cases h

end Results

/-- A program with errors in `ε` on a state in `σ`. -/
def Prog (ε : Type u) (σ : Type v) (α : Type w) := σ → Except ε α × σ

namespace Prog

variable {ε σ α β : Type}

instance : Monad (Prog ε σ) where
  pure a s := (.ok a, s)
  bind x g s :=
    match x s with
    | (.ok a, t) => g a t
    | (.error e, t) => (.error e, t)

/-- The state. -/
def get : Prog ε σ σ := fun s => (.ok s, s)

/-- A new state. -/
def set (s : σ) : Prog ε σ Unit := fun _ => (.ok (), s)

/-- A failure. -/
def throw (e : ε) : Prog ε σ α := fun s => (.error e, s)

/-- A result that does not depend on the state. -/
def lift (x : Except ε α) : Prog ε σ α := fun s => (x, s)

section Run

variable {x : Prog ε σ α} {g : α → Prog ε σ β} {s t u : σ} {a : α} {b : β} {e : ε}

/-- A value succeeds, and the state is the same. -/
theorem pure_ok_iff {a' : α} : (pure a : Prog ε σ α) s = (.ok a', t) ↔ a = a' ∧ s = t := by
  simp [pure]

/-- A failure does not succeed. -/
theorem throw_ok : (throw e : Prog ε σ α) s ≠ (.ok a, t) := by
  simp [throw]

/-- A result succeeds by itself, and the state is the same. -/
theorem lift_ok_iff {y : Except ε α} :
    (lift y : Prog ε σ α) s = (.ok a, t) ↔ y = .ok a ∧ s = t := by
  simp [lift]

/-- Reading the state succeeds, and the state is the same. -/
theorem get_ok_iff : (get : Prog ε σ σ) s = (.ok t, u) ↔ s = t ∧ s = u := by
  simp [get]

/-- Writing the state succeeds. -/
theorem set_ok_iff {y : Unit} : (set s : Prog ε σ Unit) t = (.ok y, u) ↔ s = u := by
  simp [set]

/-- A sequence succeeds when both parts do. -/
theorem bind_ok_iff :
    (x >>= g) s = (.ok b, u) ↔ ∃ a t, x s = (.ok a, t) ∧ g a t = (.ok b, u) := by
  simp only [bind]
  rcases h : x s with ⟨_ | a, t⟩
  · simp
  · simp

/-- A sequence whose first part succeeds goes on with the rest. -/
theorem bind_of_ok (h : x s = (.ok a, t)) : (x >>= g) s = g a t := by
  simp only [bind, h]

/-- A sequence whose first part fails has failed. -/
theorem bind_of_error (h : x s = (.error e, t)) : (x >>= g) s = (.error e, t) := by
  simp only [bind, h]

/-- A result that is only changed leaves the state as it is. -/
theorem bind_pure_snd (x : Prog ε σ α) (f : α → β) (s : σ) :
    ((x >>= fun a => pure (f a)) s).2 = (x s).2 := by
  simp only [bind]
  rcases x s with ⟨_ | a, t⟩
  · rfl
  · rfl

/-- A sequence fails in its first part, or in the rest. -/
theorem bind_error (h : (x >>= g) s = (.error e, u)) :
    x s = (.error e, u) ∨ ∃ a t, x s = (.ok a, t) ∧ g a t = (.error e, u) := by
  simp only [bind] at h
  rcases hx : x s with ⟨e' | a, t⟩
  · simp only [hx] at h
    obtain ⟨herror, rfl⟩ := Prod.mk.inj h
    exact .inl (by rw [Except.error.inj herror])
  · simp only [hx] at h
    exact .inr ⟨a, t, rfl, h⟩

end Run

/-- The program keeps a property of the state, whether it fails or not. -/
def Keeps (I : σ → Prop) (x : Prog ε σ α) : Prop := ∀ s, I s → I (x s).2

section Keeps

variable {I : σ → Prop} {x : Prog ε σ α} {g : α → Prog ε σ β}

/-- A value keeps everything. -/
theorem Keeps.pure (a : α) : Keeps I (pure a : Prog ε σ α) := fun _ hs => hs

/-- A result that does not depend on the state keeps everything. -/
theorem Keeps.lift (y : Except ε α) : Keeps I (lift y : Prog ε σ α) := fun _ hs => hs

/-- A sequence keeps what its first part keeps, and its rest after each result of the first part. -/
theorem Keeps.bind (hx : Keeps I x) (hg : ∀ s a t, x s = (.ok a, t) → I t → Keeps I (g a)) :
    Keeps I (x >>= g) := by
  intro s hs
  have ht := hx s hs
  simp only [Bind.bind]
  rcases h : x s with ⟨_ | a, t⟩
  · rwa [h] at ht
  · rw [h] at ht
    exact hg s a t h ht t ht

/-- A sequence keeps what both parts keep. -/
theorem Keeps.seq (hx : Keeps I x) (hg : ∀ a, Keeps I (g a)) : Keeps I (x >>= g) :=
  hx.bind fun _ a _ _ _ => hg a

end Keeps

/-- From this state the program ends in a state with a property, whether it fails or not, and has such
a result. -/
def Yields (I : σ → Prop) (Q : α → Prop) (x : Prog ε σ α) (s : σ) : Prop :=
  I (x s).2 ∧ ∀ a, (x s).1 = .ok a → Q a

section Yields

variable {I : σ → Prop} {Q : α → Prop} {R : β → Prop} {x : Prog ε σ α} {g : α → Prog ε σ β} {s : σ}

/-- A value is a result, and the state is the same. -/
theorem Yields.pure {a : α} (hs : I s) (ha : Q a) : Yields I Q (pure a : Prog ε σ α) s := by
  refine ⟨hs, fun a' h => ?_⟩
  rwa [← Except.ok.inj h]

/-- A result that does not depend on the state leaves the state alone. -/
theorem Yields.lift {y : Except ε α} (hs : I s) (hy : ∀ a, y = .ok a → Q a) :
    Yields I Q (lift y : Prog ε σ α) s := ⟨hs, hy⟩

/-- A failure has no result. -/
theorem Yields.throw (hs : I s) (e : ε) : Yields I Q (throw e : Prog ε σ α) s := by
  refine ⟨hs, fun a h => ?_⟩
  cases h

/-- A sequence yields what its rest yields after each success of its first part. -/
theorem Yields.bind (hx : Yields I Q x s)
    (hg : ∀ a t, x s = (.ok a, t) → I t → Q a → Yields I R (g a) t) : Yields I R (x >>= g) s := by
  obtain ⟨ht, hresult⟩ := hx
  rcases h : x s with ⟨e | a, t⟩
  · rw [h] at ht
    rw [Yields, bind_of_error h]
    refine ⟨ht, fun b hb => ?_⟩
    cases hb
  · rw [h] at ht hresult
    rw [Yields, bind_of_ok h]
    exact hg a t h ht (hresult a rfl)

end Yields

/-- The program fails with errors of this kind only. -/
def FailsWith (E : ε → Prop) (x : Prog ε σ α) : Prop := ∀ s e t, x s = (.error e, t) → E e

section FailsWith

variable {E : ε → Prop} {x : Prog ε σ α} {g : α → Prog ε σ β}

/-- A value does not fail. -/
theorem FailsWith.pure (a : α) : FailsWith E (pure a : Prog ε σ α) := fun _ _ _ h => nomatch h

/-- Reading the state does not fail. -/
theorem FailsWith.get : FailsWith E (get : Prog ε σ σ) := fun _ _ _ h => nomatch h

/-- Writing the state does not fail. -/
theorem FailsWith.set (s : σ) : FailsWith E (set s : Prog ε σ Unit) := fun _ _ _ h => nomatch h

/-- A failure has its error. -/
theorem FailsWith.throw {e : ε} (he : E e) : FailsWith E (throw e : Prog ε σ α) := by
  intro s e' t h
  rwa [← Except.error.inj (Prod.mk.inj h).1]

/-- A result has its own errors. -/
theorem FailsWith.lift {y : Except ε α} (hy : ∀ e, y = .error e → E e) :
    FailsWith E (lift y : Prog ε σ α) := fun _ e _ h => hy e (Prod.mk.inj h).1

/-- A sequence has the errors of its parts. -/
theorem FailsWith.bind (hx : FailsWith E x) (hg : ∀ a, FailsWith E (g a)) :
    FailsWith E (x >>= g) := by
  intro s e u h
  rcases bind_error h with hfirst | ⟨a, t, -, hrest⟩
  · exact hx s e u hfirst
  · exact hg a t e u hrest

end FailsWith

end Prog
