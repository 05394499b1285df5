import Mathlib.Tactic.Common

/-!
# Events over a relay

A capture turns raw events into messages and keeps a state meanwhile; an emitter turns each message
into actions. Only some of the messages are of interest: `wire` says what a message reports. The
capture `Reports` what it sees when the reports of its messages are those of the raw events, whatever
its state, and the emitter `Performs` a report when it acts as the report says. Then the actions at
the far end are those of the raw events, in their order (`Reports.relay`).
-/

namespace EventRelay

universe u v w x y z

variable {ρ : Type u} {ε : Type v} {χ : Type w} {φ : Type x} {ψ : Type y} {σ : Type z}
  {raw : ρ → Option χ} {wire : ε → Option χ} {perform : χ → Option ψ} {native : φ → Option ψ}

/-- The messages of a capture report what its raw events say. -/
def Reports (capture : σ → List ρ → List ε) (raw : ρ → Option χ) (wire : ε → Option χ) : Prop :=
  ∀ s rs, (capture s rs).filterMap wire = rs.filterMap raw

/-- An emitter performs what a message reports, and nothing else of this kind. -/
def Performs (emit : ε → List φ) (wire : ε → Option χ) (perform : χ → Option ψ)
    (native : φ → Option ψ) : Prop :=
  ∀ e, (emit e).filterMap native = ((wire e).bind perform).toList

/-- A capture that goes through its raw events one by one reports them when each step does. -/
theorem Reports.of_steps {capture : σ → List ρ → List ε} {f : σ → ρ → List ε × σ}
    (hnil : ∀ s, capture s [] = [])
    (hcons : ∀ s r rs, capture s (r :: rs) = (f s r).1 ++ capture (f s r).2 rs)
    (hstep : ∀ s r, (f s r).1.filterMap wire = (raw r).toList) : Reports capture raw wire := by
  intro s rs
  induction rs generalizing s with
  | nil => rw [hnil, List.filterMap_nil, List.filterMap_nil]
  | cons r rs ih =>
    rw [hcons, List.filterMap_append, hstep, ih]
    cases hraw : raw r <;> simp [hraw]

/-- The same where each step gives one message or none. -/
theorem Reports.of_step {capture : σ → List ρ → List ε} {f : σ → ρ → Option ε × σ}
    (hnil : ∀ s, capture s [] = [])
    (hcons : ∀ s r rs, capture s (r :: rs) = (f s r).1.toList ++ capture (f s r).2 rs)
    (hstep : ∀ s r, (f s r).1.bind wire = raw r) : Reports capture raw wire := by
  apply Reports.of_steps (f := fun s r => ((f s r).1.toList, (f s r).2)) hnil hcons
  intro s r
  rw [← hstep s r]
  cases (f s r).1 with
  | none => rfl
  | some e => cases hwire : wire e <;> simp [hwire]

/-- The first messages of a capture are those of its first raw events. -/
theorem capture_prefix {capture : σ → List ρ → List ε} {f : σ → ρ → Option ε × σ}
    (hnil : ∀ s, capture s [] = [])
    (hcons : ∀ s r rs, capture s (r :: rs) = (f s r).1.toList ++ capture (f s r).2 rs) {s : σ}
    {rs : List ρ} {pre : List ε} (hpre : pre <+: capture s rs) :
    ∃ first, first <+: rs ∧ pre = capture s first := by
  -- on the raw events, for every state of the capture
  induction rs generalizing s pre with
  | nil =>
    rw [hnil] at hpre
    exact ⟨[], List.nil_prefix, by rw [hnil, List.prefix_nil.1 hpre]⟩
  | cons r rs ih =>
    rw [hcons] at hpre
    cases hevent : (f s r).1 with
    | none =>
      -- the messages are those of the events after this one
      rw [hevent] at hpre
      obtain ⟨first, hfirst, rfl⟩ := ih hpre
      refine ⟨r :: first, List.cons_prefix_cons.2 ⟨rfl, hfirst⟩, ?_⟩
      rw [hcons, hevent]
      rfl
    | some e =>
      rw [hevent] at hpre
      cases pre with
      -- no message is the first one of no event
      | nil => exact ⟨[], List.nil_prefix, (hnil s).symm⟩
      | cons e' pre =>
        rw [Option.toList_some, List.singleton_append] at hpre
        obtain ⟨rfl, hrest⟩ := List.cons_prefix_cons.1 hpre
        obtain ⟨first, hfirst, rfl⟩ := ih hrest
        refine ⟨r :: first, List.cons_prefix_cons.2 ⟨rfl, hfirst⟩, ?_⟩
        rw [hcons, hevent]
        rfl

/-- What is performed for a list of messages. -/
theorem Performs.flatMap {emit : ε → List φ} (h : Performs emit wire perform native) (es : List ε) :
    (es.flatMap emit).filterMap native = (es.filterMap wire).filterMap perform := by
  induction es with
  | nil => rfl
  | cons e es ih =>
    rw [List.flatMap_cons, List.filterMap_append, h e, ih]
    cases hwire : wire e with
    | none => simp [hwire]
    | some c => cases hperform : perform c <;> simp [hwire, hperform]

/-- What is performed at the far end is what the raw events say, in their order. -/
theorem Reports.relay {capture : σ → List ρ → List ε} {emit : ε → List φ}
    (hcapture : Reports capture raw wire) (hemit : Performs emit wire perform native) (s : σ)
    (rs : List ρ) :
    ((capture s rs).flatMap emit).filterMap native =
      rs.filterMap fun r => (raw r).bind perform := by
  rw [hemit.flatMap, hcapture s rs, List.filterMap_filterMap]

end EventRelay
