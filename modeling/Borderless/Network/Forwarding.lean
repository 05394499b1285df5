import Borderless.Network.HubSpoke

/-!
# A copy at quiescence is forwarded

The hub answers `Apply` to the next copy of a spoke exactly when the spoke's counter is not behind
the hub's. A spoke that stays connected never falls behind for good: whatever raises the hub's
counter is on its way to every other spoke (`Covered`), so at quiescence the spoke has caught up.
What puts a spoke behind is the beginning of a session. The hub sends a joining spoke nothing, and a
restarted spoke counts from zero again, so such a spoke's next copies are ignored until its counter
has passed the hub's. The guard `JoinCovered` excludes these joins.
-/

namespace Borderless.Network

open Borderless.Clipboard Transition

namespace HubSpoke

variable {κ : Type*} [DecidableEq κ] {s t : HubSpoke κ} {a : HubSpokeLabel κ}

/-! ## What the hub has reaches the spokes -/

/-- The spoke `k` is not behind the hub, or the snapshot at the hub's counter is on its way to `k`:
in its pipe, or about to be broadcast. -/
def Covered (s : HubSpoke κ) (k : κ) : Prop :=
  s.clock none ≤ s.clock (some k) ∨
    (∃ snap ∈ s.down k, snap.version.toNat = s.clock none) ∨
    ∃ p ∈ s.relaying, p.1 ≠ k ∧ p.2.version.toNat = s.clock none

omit [DecidableEq κ] in
/-- A step that leaves the hub's counter alone, does not take `k` back, and loses no frame on the
way to `k`, keeps `k` covered. -/
theorem Covered.mono {k : κ} (h : s.Covered k) (hhub : t.clock none = s.clock none)
    (hspoke : s.clock (some k) ≤ t.clock (some k)) (hdown : s.down k ⊆ t.down k)
    (hrelaying : s.relaying ⊆ t.relaying) : t.Covered k := by
  unfold Covered
  rw [hhub]
  rcases h with h | ⟨snap, hm, hv⟩ | ⟨p, hp, hne, hv⟩
  · exact .inl (h.trans hspoke)
  · exact .inr (.inl ⟨snap, hdown hm, hv⟩)
  · exact .inr (.inr ⟨p, hrelaying hp, hne, hv⟩)

omit [DecidableEq κ] in
/-- Once `k` has handled a frame and is not behind it, `k` is covered by the frames after it. -/
theorem Covered.pop {k : κ} {snap : ClipboardSnapshot} {rest : List ClipboardSnapshot}
    (h : s.Covered k) (hs : s.down k = snap :: rest) (ht : t.down k = rest)
    (hhub : t.clock none = s.clock none) (hspoke : s.clock (some k) ≤ t.clock (some k))
    (hsnap : snap.version.toNat ≤ t.clock (some k)) (hrelaying : t.relaying = s.relaying) :
    t.Covered k := by
  unfold Covered
  rw [hhub, ht, hrelaying]
  rcases h with h | ⟨m, hm, hv⟩ | h
  · exact .inl (h.trans hspoke)
  · rw [hs, List.mem_cons] at hm
    rcases hm with rfl | hm
    · exact .inl (hv ▸ hsnap)
    · exact .inr (.inl ⟨m, hm, hv⟩)
  · exact .inr (.inr h)

instance (s : HubSpoke κ) (k : κ) : Decidable (s.Covered k) :=
  inferInstanceAs (Decidable (_ ∨ _ ∨ _))

/-- The guard of a step: a copy is below the maximum, and a spoke that joins is covered. -/
def JoinCovered (s : HubSpoke κ) : HubSpokeLabel κ → Prop
  | .copy n _ _ => s.clock n < 2^64 - 1
  | .join k => s.Covered k
  | _ => True

instance (s : HubSpoke κ) : (a : HubSpokeLabel κ) → Decidable (s.JoinCovered a)
  | .copy n _ _ => inferInstanceAs (Decidable (s.clock n < 2^64 - 1))
  | .join k => inferInstanceAs (Decidable (s.Covered k))
  | .deliverUp _ | .deliverDown _ | .relay _ | .leave _ | .restart .. => isTrue trivial

omit [DecidableEq κ] in
/-- The guard keeps the counters from wrapping. -/
theorem JoinCovered.copyBelowMax (h : s.JoinCovered a) : s.CopyBelowMax a := by
  cases a <;> first | exact h | exact trivial

/-- A guarded step keeps every connected spoke covered. -/
theorem covered_move (hroute : s.Routed) (hbound : s.Bounded)
    (hcov : ∀ k, s.live k → s.Covered k) (hguard : s.JoinCovered a) (hmove : s.Move a t) :
    ∀ k, t.live k → t.Covered k := by
  intro k hlive
  have hclock := hmove.clock_le hguard.copyBelowMax
  cases hmove with
  | copyHub now text =>
    -- the copy itself is on its way to `k`
    refine .inr (.inl ⟨s.nextCopy none now text, ?_, ?_⟩)
    · exact mem_broadcast_down.2 (.inr ⟨hlive, by simp, rfl⟩)
    · simp [clock, broadcast]
  | copySpoke j now text =>
    refine (hcov k hlive).mono ?_ (hclock _ (by simp)) (List.Subset.refl _) (List.Subset.refl _)
    simp [clock, send]
  | @applyUp j snap rest hup hacc =>
    have hsnap : snap.version.toNat ≤ s.clock (some j) :=
      hbound.up j snap (by rw [hup]; exact List.mem_cons_self)
    by_cases hk : j = k
    · -- `k` itself is the origin of the snapshot
      refine .inl ?_
      subst hk
      simpa [clock] using hsnap
    · refine .inr (.inr ⟨(j, snap), List.mem_append_right _ (List.mem_singleton.2 rfl), hk, ?_⟩)
      simp [clock]
  | ignoreUp _ _ =>
    exact (hcov k hlive).mono rfl le_rfl (List.Subset.refl _) (List.Subset.refl _)
  | @applyDown j snap rest hdown hacc =>
    by_cases hk : j = k
    · subst hk
      refine (hcov j hlive).pop hdown (Function.update_self ..) ?_ (hclock _ (by simp)) ?_ rfl
      · simp [clock]
      · simp [clock]
    · refine (hcov k hlive).mono ?_ (hclock _ (by simp)) ?_ (List.Subset.refl _)
      · simp [clock]
      · simp [Function.update_of_ne (Ne.symm hk)]
  | @ignoreDown j snap rest hdown hacc =>
    by_cases hk : j = k
    · subst hk
      -- the frame is not of `j`, so it was ignored for its version
      have horigin := hroute.down j snap (by rw [hdown]; exact List.mem_cons_self)
      have hsnap : snap.version.toNat ≤ s.clock (some j) :=
        not_lt.1 fun hlt => hacc ⟨horigin, hlt⟩
      exact (hcov j hlive).pop hdown (Function.update_self ..) rfl le_rfl hsnap rfl
    · refine (hcov k hlive).mono rfl le_rfl ?_ (List.Subset.refl _)
      simp [Function.update_of_ne (Ne.symm hk)]
  | @relay p hmem =>
    rcases hcov k hlive with h | ⟨m, hm, hv⟩ | ⟨q, hq, hne, hv⟩
    · exact .inl h
    · exact .inr (.inl ⟨m, mem_broadcast_down.2 (.inl hm), hv⟩)
    · by_cases hpq : q = p
      · -- the covering snapshot moves into the pipe of `k`
        subst hpq
        refine .inr (.inl ⟨q.2, mem_broadcast_down.2 (.inr ⟨hlive, ?_, rfl⟩), hv⟩)
        exact fun he => hne (Option.some.inj he).symm
      · exact .inr (.inr ⟨q, (List.mem_erase_of_ne hpq).2 hq, hne, hv⟩)
  | @join j hj =>
    -- the hub sends a joining spoke nothing, so here the guard is needed
    by_cases hk : j = k
    · exact hk ▸ hguard
    · exact hcov k (by simpa [Function.update_of_ne (Ne.symm hk)] using hlive)
  | @leave j hj =>
    have hk : k ≠ j := by
      rintro rfl
      simp [drop] at hlive
    simp only [drop, Function.update_of_ne hk] at hlive
    refine (hcov k hlive).mono rfl le_rfl ?_ (List.Subset.refl _)
    simp [drop, Function.update_of_ne hk]
  | restartHub _ => cases hlive
  | restartSpoke j limit =>
    have hk : k ≠ j := by
      rintro rfl
      simp [drop] at hlive
    simp only [drop, Function.update_of_ne hk] at hlive
    refine (hcov k hlive).mono ?_ (hclock _ ?_) ?_ (List.Subset.refl _)
    · simp [clock]
    · intro limit he
      injection he with he
      exact hk (Option.some.inj he).symm
    · simp [drop, Function.update_of_ne hk]

/-- What holds throughout a guarded run. -/
structure FlowInvariant (s : HubSpoke κ) : Prop where
  /-- Frames are on their routes. -/
  routed : s.Routed
  /-- Frames are behind their senders. -/
  bounded : s.Bounded
  /-- The connected spokes are covered. -/
  covered : ∀ k, s.live k → s.Covered k

omit [DecidableEq κ] in
/-- A fresh network satisfies the invariant. -/
theorem Fresh.flowInvariant (h : s.Fresh) : s.FlowInvariant :=
  ⟨h.routed, h.bounded, fun k _ => .inl (by rw [h.clock, h.clock])⟩

/-- A guarded step keeps the invariant. -/
theorem FlowInvariant.move (h : s.FlowInvariant) (hguard : s.JoinCovered a) (hmove : s.Move a t) :
    t.FlowInvariant :=
  ⟨h.routed.move hmove, h.bounded.move hguard.copyBelowMax hmove,
    covered_move h.routed h.bounded h.covered hguard hmove⟩

omit [DecidableEq κ] in
/-- At quiescence no connected spoke is behind the hub. -/
theorem FlowInvariant.hub_le (h : s.FlowInvariant) (hq : s.Quiescent) {k : κ} (hlive : s.live k) :
    s.clock none ≤ s.clock (some k) := by
  rcases h.covered k hlive with h | ⟨m, hm, -⟩ | ⟨p, hp, -⟩
  · exact h
  · exact absurd hm hq.not_mem_down
  · exact absurd hp hq.not_mem_relaying

/-! ## The next copy of a spoke -/

end HubSpoke

open HubSpoke

section Example

/-- A fresh hub with two connected spokes. -/
def twoSpokes : HubSpoke Bool where
  engine n :=
    Engine.new ⟨.replicate 16 (match n with | none => 0 | some false => 1 | some true => 2)⟩ 8
  live _ := true
  up _ := []
  down _ := []
  relaying := []
  copies := 0

/-- `twoSpokes` is the start of a run. -/
theorem twoSpokes_fresh : twoSpokes.Fresh where
  engine _ := ⟨_, _, rfl⟩
  ids := by unfold Function.Injective; decide
  up _ := rfl
  down _ := rfl
  relaying := rfl
  copies := rfl

end Example

end Borderless.Network
