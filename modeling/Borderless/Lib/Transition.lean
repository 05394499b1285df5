import Mathlib.Order.Lattice.Nat
import Mathlib.Tactic.Common

/-!
# Labelled transition systems

A `System` steps by a partial function on states and labels. All of its nondeterminism is in the
label, so a finite run is replayed by evaluation (`System.run`), and a counterexample is a list of
labels that the kernel runs.

`System.Reach P` is the set of states that are reached by steps which all meet the guard `P`, a
condition on the state before a step and on its label. A property of every run is `Reach` with the
guard `fun _ _ => True`; a property of the runs that avoid a faulty step is `Reach` with the guard
that excludes the step. `Reach.invariant` is the induction rule, and `System.steps_forall_iff` is
its exact form, for a guard that a step meets precisely when it has the property in question.
-/

namespace Transition

universe u v w

/-- A labelled transition system whose step is a partial function. -/
structure System (σ : Type u) (α : Type v) where
  /-- The states in which a run starts. -/
  init : σ → Prop
  /-- The state after a label, or `none` where the label is not enabled. -/
  step : σ → α → Option σ

variable {σ : Type u} {α : Type v} {τ : Type w}

namespace System

/-- The state after a list of labels, or `none` if one of them is not enabled. -/
def run (M : System σ α) : σ → List α → Option σ
  | s, [] => some s
  | s, a :: as => (M.step s a).bind fun t => M.run t as

/-- The steps of a list of labels, each with the state before it and the state after it, up to
the first label that is not enabled. -/
def steps (M : System σ α) : σ → List α → List (σ × α × σ)
  | _, [] => []
  | s, a :: as =>
    match M.step s a with
    | some t => (s, a, t) :: M.steps t as
    | none => []

/-- The states reached from an initial state by steps that all meet the guard `P`. -/
inductive Reach (M : System σ α) (P : σ → α → Prop) : σ → Prop
  /-- An initial state is reached. -/
  | init {s : σ} : M.init s → M.Reach P s
  /-- A guarded step from a reached state reaches its result. -/
  | step {s t : σ} {a : α} : M.Reach P s → P s a → M.step s a = some t → M.Reach P t

/-- The states of all runs. -/
abbrev Reachable (M : System σ α) : σ → Prop := M.Reach fun _ _ => True

/-- An infinite run. -/
structure Execution (M : System σ α) where
  /-- The states in order. -/
  state : ℕ → σ
  /-- The labels in order. -/
  label : ℕ → α
  /-- The run starts in an initial state. -/
  init : M.init (state 0)
  /-- Each state steps to the next by its label. -/
  next : ∀ n, M.step (state n) (label n) = some (state (n + 1))

variable {M : System σ α} {P Q : σ → α → Prop}

/-- A weaker guard reaches more states. -/
theorem Reach.mono (h : ∀ s a, P s a → Q s a) {s : σ} (hs : M.Reach P s) : M.Reach Q s := by
  induction hs with
  | init hi => exact .init hi
  | step _ hP hstep ih => exact .step ih (h _ _ hP) hstep

/-- A guarded run reaches a state of some run. -/
theorem Reach.reachable {s : σ} (hs : M.Reach P s) : M.Reachable s :=
  hs.mono fun _ _ _ => trivial

/-- The induction rule: a predicate that holds initially and that guarded steps keep holds of
every state reached. -/
theorem Reach.invariant {I : σ → Prop} (hinit : ∀ s, M.init s → I s)
    (hstep : ∀ s a t, I s → P s a → M.step s a = some t → I t) {s : σ} (hs : M.Reach P s) :
    I s := by
  induction hs with
  | init hi => exact hinit _ hi
  | step _ hP hstep' ih => exact hstep _ _ _ ih hP hstep'

/-- Replaying labels from a reached state reaches the result when every step meets the guard. -/
theorem Reach.run {s t : σ} {as : List α} (hs : M.Reach P s)
    (hP : ∀ p ∈ M.steps s as, P p.1 p.2.1) (h : M.run s as = some t) : M.Reach P t := by
  induction as generalizing s with
  | nil =>
    obtain rfl : s = t := by simpa [System.run] using h
    exact hs
  | cons a as ih =>
    simp only [System.run, Option.bind_eq_some_iff] at h
    obtain ⟨u, hu, hrun⟩ := h
    simp only [steps, hu, List.forall_mem_cons] at hP
    exact ih (hs.step hP.1 hu) hP.2 hrun

/-- A replay whose result satisfies a decidable predicate gives a reached state that does. -/
theorem exists_reach_of_run {p : σ → Prop} [DecidablePred p] {s : σ} (hs : M.init s)
    (as : List α) (hP : ∀ q ∈ M.steps s as, P q.1 q.2.1)
    (h : (M.run s as).any (fun t => decide (p t)) = true) : ∃ t, M.Reach P t ∧ p t := by
  obtain ⟨t, ht, hp⟩ := (Option.any_eq_true ..).1 h
  exact ⟨t, (Reach.init hs).run hP ht, of_decide_eq_true hp⟩

/-- Every state of an infinite run whose steps meet the guard is reached. -/
theorem Execution.reach (e : M.Execution) (hP : ∀ n, P (e.state n) (e.label n)) (n : ℕ) :
    M.Reach P (e.state n) := by
  induction n with
  | zero => exact .init e.init
  | succ n ih => exact .step ih (hP n) (e.next n)

/-- The steps of a list of labels are steps. -/
theorem step_of_mem_steps {s : σ} {as : List α} {p : σ × α × σ} (hp : p ∈ M.steps s as) :
    M.step p.1 p.2.1 = some p.2.2 := by
  induction as generalizing s with
  | nil => cases hp
  | cons a as ih =>
    cases h : M.step s a with
    | none => simp [steps, h] at hp
    | some t =>
      simp only [steps, h, List.mem_cons] at hp
      rcases hp with rfl | hp
      · exact h
      · exact ih hp

/-- The steps of a list of labels from a state of some run are of some run. -/
theorem Reach.of_mem_steps {s : σ} (hs : M.Reachable s) {as : List α} {p : σ × α × σ}
    (hp : p ∈ M.steps s as) : M.Reachable p.1 := by
  induction as generalizing s with
  | nil => cases hp
  | cons a as ih =>
    cases h : M.step s a with
    | none => simp [steps, h] at hp
    | some t =>
      simp only [steps, h, List.mem_cons] at hp
      rcases hp with rfl | hp
      · exact hs
      · exact ih (hs.step trivial h) hp

/-- The steps of a list of labels are by its labels. -/
theorem label_mem_of_mem_steps {s : σ} {as : List α} {p : σ × α × σ} (hp : p ∈ M.steps s as) :
    p.2.1 ∈ as := by
  induction as generalizing s with
  | nil => cases hp
  | cons a as ih =>
    cases h : M.step s a with
    | none => simp [steps, h] at hp
    | some t =>
      simp only [steps, h, List.mem_cons] at hp
      rcases hp with rfl | hp
      · exact List.mem_cons_self
      · exact List.mem_cons_of_mem _ (ih hp)

/-- The induction rule along a list of labels: if guarded steps from states in `I` keep `I` and have
the property `Q`, then all steps of a guarded run that starts in `I` have it. -/
theorem steps_forall {I : σ → Prop} {Q : σ → α → σ → Prop}
    (hkeep : ∀ s a t, I s → P s a → M.step s a = some t → I t)
    (hQ : ∀ s a t, I s → P s a → M.step s a = some t → Q s a t) {s : σ} (hs : I s) {as : List α}
    (hP : ∀ p ∈ M.steps s as, P p.1 p.2.1) : ∀ p ∈ M.steps s as, Q p.1 p.2.1 p.2.2 := by
  induction as generalizing s with
  | nil => simp [steps]
  | cons a as ih =>
    cases h : M.step s a with
    | none => simp [steps, h]
    | some t =>
      simp only [steps, h, List.forall_mem_cons] at hP ⊢
      exact ⟨hQ s a t hs hP.1 h, ih (hkeep s a t hs hP.1 h) hP.2⟩

/-- A predicate that guarded steps keep holds after each step when all of them are guarded. -/
theorem steps_invariant {I : σ → Prop}
    (hstep : ∀ s a t, I s → P s a → M.step s a = some t → I t) {s : σ} (hs : I s) {as : List α}
    (hP : ∀ p ∈ M.steps s as, P p.1 p.2.1) : ∀ p ∈ M.steps s as, I p.2.2 :=
  steps_forall (Q := fun _ _ t => I t) hstep hstep hs hP

/-- The exact form of the induction rule. If a step from a state in `I` has the property `Q`
precisely when it meets the guard, and then keeps `I`, then all steps of a run that starts in `I`
have the property precisely when all of them meet the guard. -/
theorem steps_forall_iff {I : σ → Prop} {Q : σ → α → σ → Prop} {as : List α}
    (hiff : ∀ a ∈ as, ∀ s t, I s → M.step s a = some t → (Q s a t ↔ P s a))
    (hkeep : ∀ a ∈ as, ∀ s t, I s → M.step s a = some t → P s a → I t) {s : σ} (hs : I s) :
    (∀ p ∈ M.steps s as, Q p.1 p.2.1 p.2.2) ↔ ∀ p ∈ M.steps s as, P p.1 p.2.1 := by
  induction as generalizing s with
  | nil => simp [steps]
  | cons a as ih =>
    cases h : M.step s a with
    | none => simp [steps, h]
    | some t =>
      rw [List.forall_mem_cons] at hiff hkeep
      simp only [steps, h, List.forall_mem_cons]
      rw [hiff.1 s t hs h]
      exact and_congr_right fun hP => ih hiff.2 hkeep.2 (hkeep.1 s t hs h hP)

/-- If a step from a state in `I` keeps `I` precisely when it meets the guard, then a run that
starts in `I` stays in `I` precisely when all of its steps meet the guard. -/
theorem steps_invariant_iff {I : σ → Prop}
    (hstep : ∀ s a t, I s → M.step s a = some t → (I t ↔ P s a)) {s : σ} (hs : I s)
    (as : List α) :
    (∀ p ∈ M.steps s as, I p.2.2) ↔ ∀ p ∈ M.steps s as, P p.1 p.2.1 :=
  steps_forall_iff (Q := fun _ _ t => I t) (fun a _ s t => hstep s a t)
    (fun a _ s t hs h hP => (hstep s a t hs h).2 hP) hs

/-- What an invariant of the guarded steps is worth at the end of a run. -/
theorem run_invariant {I : σ → Prop} (hstep : ∀ s a t, I s → P s a → M.step s a = some t → I t)
    {s t : σ} (hs : I s) {as : List α} (hP : ∀ p ∈ M.steps s as, P p.1 p.2.1)
    (h : M.run s as = some t) : I t := by
  induction as generalizing s with
  | nil =>
    obtain rfl : s = t := by simpa [run] using h
    exact hs
  | cons a as ih =>
    simp only [run, Option.bind_eq_some_iff] at h
    obtain ⟨u, hu, hrun⟩ := h
    simp only [steps, hu, List.forall_mem_cons] at hP
    exact ih (hstep s a u hs hP.1 hu) hP.2 hrun

/-- The labels of a run are those of its steps. -/
theorem map_label_steps {s t : σ} {as : List α} (h : M.run s as = some t) :
    (M.steps s as).map (fun p => p.2.1) = as := by
  induction as generalizing s with
  | nil => rfl
  | cons a as ih =>
    simp only [run, Option.bind_eq_some_iff] at h
    obtain ⟨u, hu, hrun⟩ := h
    simp only [steps, hu, List.map_cons, ih hrun]

/-- The induction rule for a property of a state and of the steps that have led to it. -/
theorem run_log {I : List (σ × α × σ) → σ → Prop}
    (hstep : ∀ log s a t, I log s → P s a → M.step s a = some t → I (log ++ [(s, a, t)]) t)
    {log : List (σ × α × σ)} {s t : σ} {as : List α} (hs : I log s)
    (hP : ∀ p ∈ M.steps s as, P p.1 p.2.1) (h : M.run s as = some t) :
    I (log ++ M.steps s as) t := by
  induction as generalizing log s with
  | nil =>
    obtain rfl : s = t := by simpa [run] using h
    simpa [steps] using hs
  | cons a as ih =>
    simp only [run, Option.bind_eq_some_iff] at h
    obtain ⟨u, hu, hrun⟩ := h
    simp only [steps, hu, List.forall_mem_cons] at hP ⊢
    have hrest := ih (hstep log s a u hs hP.1 hu) hP.2 hrun
    rwa [List.append_assoc] at hrest

/-- The step after a run is the last one of the longer run. -/
theorem mem_steps_of_run {s u t : σ} {as : List α} {a : α} (hrun : M.run s as = some u)
    (h : M.step u a = some t) : (u, a, t) ∈ M.steps s (as ++ [a]) := by
  induction as generalizing s with
  | nil =>
    obtain rfl : s = u := by simpa [run] using hrun
    simp [steps, h]
  | cons b as ih =>
    simp only [run, Option.bind_eq_some_iff] at hrun
    obtain ⟨v, hv, hrun⟩ := hrun
    simp only [List.cons_append, steps, hv]
    exact List.mem_cons_of_mem _ (ih hrun)

/-- A run of at least one step ends with a step. -/
theorem exists_mem_steps_of_run {s u t : σ} {a : α} {as : List α} (h : M.step s a = some u)
    (hrun : M.run u as = some t) : ∃ p ∈ M.steps s (a :: as), p.2.2 = t := by
  simp only [steps, h]
  induction as generalizing s u a with
  | nil =>
    obtain rfl : u = t := by simpa [run] using hrun
    exact ⟨_, List.mem_cons_self, rfl⟩
  | cons b as ih =>
    simp only [run, Option.bind_eq_some_iff] at hrun
    obtain ⟨v, hv, hrun⟩ := hrun
    obtain ⟨p, hp, hlast⟩ := ih hv hrun
    refine ⟨p, List.mem_cons_of_mem _ ?_, hlast⟩
    simpa only [steps, hv] using hp

/-- The guard says exactly which steps may be taken if a run from `s₀` is to have the property `Q`
at all of its steps: runs that keep to it do, and a run that leaves it can go on so that a step does
not. -/
structure SharpGuard (M : System σ α) (s₀ : σ) (P : σ → α → Prop) (Q : σ → α → σ → Prop) : Prop where
  /-- Each step of a guarded run has the property. -/
  holds : ∀ as, (∀ p ∈ M.steps s₀ as, P p.1 p.2.1) → ∀ p ∈ M.steps s₀ as, Q p.1 p.2.1 p.2.2
  /-- After a guarded run, a step against the guard can lead to a step without the property. -/
  fails : ∀ as s a t, (∀ p ∈ M.steps s₀ as, P p.1 p.2.1) → M.run s₀ as = some s →
    M.step s a = some t → ¬ P s a → ∃ bs, ∃ p ∈ M.steps s (a :: bs), ¬ Q p.1 p.2.1 p.2.2

/-- A guard is sharp when its steps keep an invariant and have the property, and from a state in the
invariant a step against it leads to one without the property. -/
theorem sharpGuard_of_invariant {I : σ → Prop} {Q : σ → α → σ → Prop} {s₀ : σ} (h₀ : I s₀)
    (hkeep : ∀ s a t, I s → P s a → M.step s a = some t → I t)
    (hQ : ∀ s a t, I s → P s a → M.step s a = some t → Q s a t)
    (hfails : ∀ s a t, I s → M.step s a = some t → ¬ P s a →
      ∃ bs, ∃ p ∈ M.steps s (a :: bs), ¬ Q p.1 p.2.1 p.2.2) : M.SharpGuard s₀ P Q := by
  constructor
  · intro as hP
    exact steps_forall hkeep hQ h₀ hP
  · intro as s a t hP hrun hstep hnot
    exact hfails s a t (run_invariant hkeep h₀ hP hrun) hstep hnot

/-- A sharp guard stays sharp where the property is asked for under a condition only. -/
theorem SharpGuard.imp {Q : σ → α → σ → Prop} {s₀ : σ} (h : M.SharpGuard s₀ P Q) (p : Prop) :
    M.SharpGuard s₀ (fun s a => p → P s a) (fun s a t => p → Q s a t) := by
  by_cases hp : p
  · simpa only [hp, forall_const] using h
  · constructor
    · exact fun _ _ _ _ hp' => absurd hp' hp
    · exact fun _ _ _ _ _ _ _ hnot => absurd (fun hp' => absurd hp' hp) hnot

end System

/-- A nondecreasing bounded sequence of natural numbers is constant from some index on. -/
theorem eventually_constant {f : ℕ → ℕ} (hmono : ∀ n, f n ≤ f (n + 1)) {b : ℕ}
    (hb : ∀ n, f n ≤ b) : ∃ N, ∀ n, N ≤ n → f n = f N := by
  have hbdd : BddAbove (Set.range f) := ⟨b, by rintro _ ⟨n, rfl⟩; exact hb n⟩
  obtain ⟨N, hN⟩ := Nat.sSup_mem (Set.range_nonempty f) hbdd
  refine ⟨N, fun n hn => le_antisymm ?_ (monotone_nat_of_le_succ hmono hn)⟩
  rw [hN]
  exact le_csSup hbdd ⟨n, rfl⟩

end Transition
