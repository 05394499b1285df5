import Borderless.Lib.Transition
import Mathlib.Algebra.GroupWithZero.Nat

/-!
# Simulation of systems

A system implements another one when each of its steps is a list of steps of the other, none for an
internal step, and related states stay related (`Simulates`). Then a run is a run of the other
system over its events (`Simulates.run`), and what holds of the event lists of all runs of the other
system holds of the events of every run. A state is related to one that the other system reaches by
steps that meet a guard (`Simulates.reach`). Where only the steps that meet a guard are simulated,
the system is cut down to them (`System.guard`).

Such a property comes from a `Buffer`: what goes into a part of the state comes out of it in order,
until the part is shut and what it holds is lost. Runs are finite where a measure of the state falls
with each step (`System.length_add_le`).
-/

namespace Transition

universe u v w x

variable {σ : Type u} {α : Type v} {τ : Type w} {β : Type x} {M : System σ α} {N : System τ β}

namespace System

/-- A run over two lists of labels is one after the other. -/
theorem run_append (M : System σ α) (s : σ) (as bs : List α) :
    M.run s (as ++ bs) = (M.run s as).bind fun t => M.run t bs := by
  induction as generalizing s with
  | nil => rfl
  | cons a as ih =>
    show (M.step s a).bind (fun t => M.run t (as ++ bs)) =
      ((M.step s a).bind fun t => M.run t as).bind fun t => M.run t bs
    rw [Option.bind_assoc]
    exact Option.bind_congr fun t _ => ih t

/-- The steps of a run over two lists of labels are those of one after those of the other. -/
theorem steps_append {s t : σ} {as : List α} (h : M.run s as = some t) (bs : List α) :
    M.steps s (as ++ bs) = M.steps s as ++ M.steps t bs := by
  induction as generalizing s with
  | nil =>
    obtain rfl := Option.some.inj h
    rfl
  | cons a as ih =>
    simp only [run, Option.bind_eq_some_iff] at h
    obtain ⟨u, hu, hrun⟩ := h
    simp only [List.cons_append, steps, hu, ih hrun]

/-- What can be reached from a state that can be reached can be reached. -/
theorem exists_run_trans {s t u : σ} (h : ∃ as, M.run s as = some t)
    (h' : ∃ as, M.run t as = some u) : ∃ as, M.run s as = some u := by
  obtain ⟨as, has⟩ := h
  obtain ⟨bs, hbs⟩ := h'
  exact ⟨as ++ bs, by rw [run_append, has, Option.bind_some, hbs]⟩

/-- A run over one label is a step. -/
theorem run_singleton (M : System σ α) (s : σ) (a : α) : M.run s [a] = M.step s a := by
  show (M.step s a).bind some = M.step s a
  cases M.step s a <;> rfl

/-- After each of its steps a run goes on with the steps that are left. -/
theorem rest_of_mem_steps {s t : σ} {as : List α} {p : σ × α × σ} (hp : p ∈ M.steps s as)
    (hrun : M.run s as = some t) :
    ∃ bs, M.run p.2.2 bs = some t ∧ ∀ q ∈ M.steps p.2.2 bs, q ∈ M.steps s as := by
  induction as generalizing s with
  | nil => cases hp
  | cons a as ih =>
    obtain ⟨u, hu, hrest⟩ := Option.bind_eq_some_iff.1 hrun
    have hsteps : M.steps s (a :: as) = (s, a, u) :: M.steps u as := by
      simp only [steps, hu]
    rw [hsteps, List.mem_cons] at hp
    rw [hsteps]
    rcases hp with rfl | hp
    · exact ⟨as, hrest, fun q hq => List.mem_cons_of_mem _ hq⟩
    · obtain ⟨bs, hbs, hmem⟩ := ih hp hrest
      exact ⟨bs, hbs, fun q hq => List.mem_cons_of_mem _ (hmem q hq)⟩

/-- A measure that falls with each step bounds the length of a run. -/
theorem length_add_le {I : σ → Prop} {m : σ → ℕ}
    (hstep : ∀ s a t, I s → M.step s a = some t → I t ∧ m t < m s) {s t : σ} (hs : I s)
    {as : List α} (hrun : M.run s as = some t) : as.length + m t ≤ m s := by
  induction as generalizing s with
  | nil =>
    obtain rfl : s = t := Option.some.inj hrun
    simp
  | cons a as ih =>
    obtain ⟨u, hu, hrun⟩ := Option.bind_eq_some_iff.1 hrun
    obtain ⟨hI, hlt⟩ := hstep s a u hs hu
    have hrest := ih hI hrun
    rw [List.length_cons]
    omega

/-- If each step pays for its cost out of its budget and of what the potential falls by, then so
does a run. -/
theorem cost_le {cost budget : α → ℕ} {Φ : σ → ℕ}
    (hstep : ∀ s a t, M.step s a = some t → cost a + Φ t ≤ Φ s + budget a) {s t : σ} {as : List α}
    (hrun : M.run s as = some t) : (as.map cost).sum + Φ t ≤ Φ s + (as.map budget).sum := by
  induction as generalizing s with
  | nil =>
    obtain rfl : s = t := Option.some.inj hrun
    simp
  | cons a as ih =>
    obtain ⟨u, hu, hrun⟩ := Option.bind_eq_some_iff.1 hrun
    have hfirst := hstep s a u hu
    have hrest := ih hrun
    rw [List.map_cons, List.map_cons, List.sum_cons, List.sum_cons]
    omega

/-- The events of a run. -/
def trace (M : System σ α) (events : σ → α → List β) (s : σ) (as : List α) : List β :=
  (M.steps s as).flatMap fun p => events p.1 p.2.1

/-- The events of a run are those of its first step and of the rest. -/
theorem trace_cons {s t : σ} {a : α} (h : M.step s a = some t) (events : σ → α → List β)
    (as : List α) : M.trace events s (a :: as) = events s a ++ M.trace events t as := by
  simp only [trace, steps, h, List.flatMap_cons]

/-- The events of a run of one step. -/
theorem trace_singleton {s t : σ} {a : α} (h : M.step s a = some t) (events : σ → α → List β) :
    M.trace events s [a] = events s a := by
  rw [trace_cons h]
  exact List.append_nil _

/-- The events of a run over two lists of labels. -/
theorem trace_append {s t : σ} {as : List α} (h : M.run s as = some t) (events : σ → α → List β)
    (bs : List α) : M.trace events s (as ++ bs) = M.trace events s as ++ M.trace events t bs := by
  unfold trace
  rw [steps_append h, List.flatMap_append]

end System

/-! ## Cutting a system down -/

namespace System

variable {P : σ → α → Prop} [∀ s a, Decidable (P s a)]

/-- The system with the steps that meet the guard. -/
def guard (M : System σ α) (P : σ → α → Prop) [∀ s a, Decidable (P s a)] : System σ α where
  init := M.init
  step s a := if P s a then M.step s a else none

/-- A step of the cut-down system is a step that meets the guard. -/
theorem guard_step_eq_some {s t : σ} {a : α} :
    (M.guard P).step s a = some t ↔ P s a ∧ M.step s a = some t := by
  show (if P s a then M.step s a else none) = some t ↔ _
  split_ifs with h
  · simp [h]
  · simp [h]

/-- A state that is reached by steps which meet both guards is reached in the cut-down system. -/
theorem Reach.guard {Q : σ → α → Prop} {s : σ} (h : M.Reach (fun s a => P s a ∧ Q s a) s) :
    (M.guard P).Reach Q s := by
  induction h with
  | init hs => exact .init hs
  | step _ hPQ hstep ih => exact ih.step hPQ.2 (guard_step_eq_some.2 ⟨hPQ.1, hstep⟩)

end System

/-! ## Simulation -/

/-- Each step of `M` is a run of `N` over the events of the step, and keeps the relation. -/
structure Simulates (M : System σ α) (N : System τ β) (R : σ → τ → Prop)
    (events : σ → α → List β) : Prop where
  /-- Where a run may start. -/
  init : ∀ s, M.init s → ∃ s', N.init s' ∧ R s s'
  /-- A step. -/
  step : ∀ s a t s', R s s' → M.step s a = some t → ∃ t', N.run s' (events s a) = some t' ∧ R t t'

/-- A run of `M` is a run of `N` over its events. -/
theorem Simulates.run {R : σ → τ → Prop} {events : σ → α → List β} (h : Simulates M N R events)
    {s t : σ} {s' : τ} {as : List α} (hR : R s s') (hrun : M.run s as = some t) :
    ∃ t', N.run s' (M.trace events s as) = some t' ∧ R t t' := by
  induction as generalizing s s' with
  | nil =>
    obtain rfl : s = t := Option.some.inj hrun
    exact ⟨s', rfl, hR⟩
  | cons a as ih =>
    obtain ⟨u, hu, hrun⟩ := Option.bind_eq_some_iff.1 hrun
    obtain ⟨u', hfirst, hR⟩ := h.step s a u s' hR hu
    obtain ⟨t', hrest, hR⟩ := ih hR hrun
    refine ⟨t', ?_, hR⟩
    rw [System.trace_cons hu, N.run_append, hfirst]
    exact hrest

/-- Every run of `M` is a run of `N` over its events. -/
theorem Simulates.exists_run {R : σ → τ → Prop} {events : σ → α → List β}
    (h : Simulates M N R events) {s t : σ} {as : List α} (hs : M.init s)
    (hrun : M.run s as = some t) :
    ∃ s' t', N.init s' ∧ N.run s' (M.trace events s as) = some t' ∧ R t t' := by
  obtain ⟨s', hs', hR⟩ := h.init s hs
  obtain ⟨t', hrun', hR⟩ := h.run hR hrun
  exact ⟨s', t', hs', hrun', hR⟩

/-- If the events of guarded steps meet a guard of `N`, then a state that is reached by guarded
steps is related to one that is reached by guarded steps of `N`. -/
theorem Simulates.reach {R : σ → τ → Prop} {events : σ → α → List β} (h : Simulates M N R events)
    {G : σ → α → Prop} {P : τ → β → Prop}
    (hguard : ∀ s a t s', R s s' → G s a → M.step s a = some t →
      ∀ p ∈ N.steps s' (events s a), P p.1 p.2.1) {s : σ} (hs : M.Reach G s) :
    ∃ s', N.Reach P s' ∧ R s s' := by
  induction hs with
  | init hs =>
    obtain ⟨s', hs', hR⟩ := h.init _ hs
    exact ⟨s', .init hs', hR⟩
  | @step s t a _ hG hstep ih =>
    obtain ⟨s', hs', hR⟩ := ih
    obtain ⟨t', hrun, hR'⟩ := h.step s a t s' hR hstep
    exact ⟨t', hs'.run (hguard s a t s' hR hG hstep) hrun, hR'⟩

/-! ## Buffers -/

/-- A part of the state is a buffer: while it is open, the elements that a step puts into it follow
those that it holds, and those that a step takes out are the first. Once it is shut nothing is taken
out of it, and it stays shut. -/
structure Buffer {μ : Type*} (M : System σ α) (isOpen : σ → Prop) (held : σ → List μ)
    (into out : α → List μ) : Prop where
  /-- A step after which it is open. -/
  keeps : ∀ s a t, M.step s a = some t → isOpen t →
    isOpen s ∧ held s ++ into a = out a ++ held t
  /-- A step before which it is open. -/
  takes : ∀ s a t, M.step s a = some t → isOpen s → out a <+: held s ++ into a
  /-- A step before which it is shut. -/
  shut : ∀ s a t, M.step s a = some t → ¬ isOpen s → out a = []

section Buffer

variable {μ : Type*} {isOpen : σ → Prop} {held : σ → List μ} {into out : α → List μ} {s t : σ}
  {as : List α}

/-- Nothing is taken out of a buffer that is shut. -/
theorem Buffer.run_shut (h : Buffer M isOpen held into out) (hs : ¬ isOpen s)
    (hrun : M.run s as = some t) : as.flatMap out = [] := by
  induction as generalizing s with
  | nil => rfl
  | cons a as ih =>
    obtain ⟨u, hu, hrun⟩ := Option.bind_eq_some_iff.1 hrun
    have hshut : ¬ isOpen u := fun hopen => hs (h.keeps s a u hu hopen).1
    rw [List.flatMap_cons, h.shut s a u hu hs, ih hshut hrun]
    rfl

/-- What has gone into a buffer that is still open has come out of it in order, or is held. -/
theorem Buffer.run_open (h : Buffer M isOpen held into out) (ht : isOpen t)
    (hrun : M.run s as = some t) :
    isOpen s ∧ held s ++ as.flatMap into = as.flatMap out ++ held t := by
  induction as generalizing s with
  | nil =>
    obtain rfl : s = t := Option.some.inj hrun
    exact ⟨ht, by simp⟩
  | cons a as ih =>
    obtain ⟨u, hu, hrun⟩ := Option.bind_eq_some_iff.1 hrun
    obtain ⟨hopen, hrest⟩ := ih hrun
    obtain ⟨hs, hfirst⟩ := h.keeps s a u hu hopen
    refine ⟨hs, ?_⟩
    calc held s ++ (a :: as).flatMap into = (held s ++ into a) ++ as.flatMap into := by
          rw [List.flatMap_cons, List.append_assoc]
      _ = out a ++ (held u ++ as.flatMap into) := by rw [hfirst, List.append_assoc]
      _ = (a :: as).flatMap out ++ held t := by
          rw [hrest, List.flatMap_cons, List.append_assoc]

/-- What comes out of a buffer is a first part of what it held and what has gone into it. -/
theorem Buffer.run_first (h : Buffer M isOpen held into out) (hs : isOpen s)
    (hrun : M.run s as = some t) : as.flatMap out <+: held s ++ as.flatMap into := by
  induction as generalizing s with
  | nil => exact List.nil_prefix
  | cons a as ih =>
    obtain ⟨u, hu, hrun⟩ := Option.bind_eq_some_iff.1 hrun
    rw [List.flatMap_cons, List.flatMap_cons]
    by_cases hopen : isOpen u
    · obtain ⟨-, hfirst⟩ := h.keeps s a u hu hopen
      rw [← List.append_assoc, hfirst, List.append_assoc]
      exact (List.prefix_append_right_inj (out a)).2 (ih hopen hrun)
    · -- what the buffer held is lost
      rw [h.run_shut hopen hrun, List.append_nil, ← List.append_assoc]
      exact (h.takes s a u hu hs).trans (List.prefix_append _ _)

end Buffer

end Transition
