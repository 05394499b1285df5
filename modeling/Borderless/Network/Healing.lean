import Borderless.Network.Convergence

/-!
# A copy on top brings the nodes together

A spoke that restarts, or that joins late, is behind the hub, and its copies are lost until its
counter has passed the hub's (`restarted_copy_lost`); a hub that restarts is behind its spokes, and
they ignore what it sends. What ends this is a copy on a node whose counter is not behind any other.
If the hub is not that node, the snapshot is on its way to it, ahead of every counter (`Rising`). No
reader can ignore it but for a later one that is ahead as well, and meanwhile all that the hub sends
is behind it. Once the hub has caught up with the top, what it has is on its way to all spokes
(`Level`), and from then on the network behaves as if every spoke had been connected from the start.
-/

namespace Borderless.Network

open Borderless.Clipboard Transition

namespace HubSpoke

variable {κ : Type*} [DecidableEq κ] {s t : HubSpoke κ} {a : HubSpokeLabel κ} {n : Option κ}
  {now : UInt64} {text : String}

instance (s : HubSpoke κ) : (a : HubSpokeLabel κ) → Decidable (s.CopyBelowMax a)
  | .copy n _ _ => inferInstanceAs (Decidable (s.clock n < 2^64 - 1))
  | .deliverUp _ | .deliverDown _ | .relay _ | .join _ | .leave _ | .restart .. => isTrue trivial

/-- What a spoke lacks is on its way to it, and what the hub lacks is on its way to the hub. -/
def Level (s : HubSpoke κ) : Prop := ∀ k, s.Covered k ∧ s.Sent k

/-- A snapshot that no counter is ahead of is on its way to the hub, which is behind it. -/
def Rising (s : HubSpoke κ) : Prop :=
  ∃ j, ∃ snap ∈ s.up j, s.clock none < snap.version.toNat ∧
    ∀ n, s.clock n ≤ snap.version.toNat

omit [DecidableEq κ] in
/-- When the hub is not behind any spoke, it is enough that the spokes are covered. -/
theorem level_of_top (htop : ∀ k, s.clock (some k) ≤ s.clock none) (hcov : ∀ k, s.Covered k) :
    s.Level :=
  fun k => ⟨hcov k, .inl (htop k)⟩

omit [DecidableEq κ] in
/-- A step that leaves the hub and the frames to it alone, and takes no spoke past the snapshot,
leaves it on its way. -/
theorem Rising.mono (h : s.Rising) (hhub : t.clock none = s.clock none) (hup : t.up = s.up)
    (hclock : ∀ k, t.clock (some k) ≤ max (s.clock (some k)) (s.clock none)) : t.Rising := by
  obtain ⟨j, snap, hsnap, hlt, hle⟩ := h
  refine ⟨j, snap, ?_, ?_, ?_⟩
  · rwa [hup]
  · rwa [hhub]
  · rintro (_ | k)
    · rw [hhub]
      exact hle none
    · exact (hclock k).trans (max_le (hle (some k)) hlt.le)

/-- A copy of the hub that is not behind any spoke brings the network level. -/
theorem level_copyHub (hlive : ∀ k, s.live k) (hmove : s.Move (.copy none now text) t)
    (htop : ∀ k, s.clock (some k) ≤ (s.nextCopy none now text).version.toNat) : t.Level := by
  have hhub := hmove.clock_copy
  have hspoke : ∀ k, t.clock (some k) = s.clock (some k) := fun k =>
    hmove.clock_copy_ne (Option.some_ne_none k)
  refine level_of_top (fun k => ?_) fun k => .inr (.inl ⟨s.nextCopy none now text, ?_, hhub.symm⟩)
  · rw [hspoke, hhub]
    exact htop k
  · cases hmove
    exact mem_broadcast_down.2 (.inr ⟨hlive k, by simp, rfl⟩)

/-- A copy of a spoke that no counter is ahead of rises. -/
theorem rising_copySpoke {k : κ} (hlive : s.live k) (hmove : s.Move (.copy (some k) now text) t)
    (hhub : s.clock none < (s.nextCopy (some k) now text).version.toNat)
    (htop : ∀ n, s.clock n ≤ (s.nextCopy (some k) now text).version.toNat) : t.Rising := by
  have hother : ∀ {m : Option κ}, m ≠ some k → t.clock m = s.clock m := hmove.clock_copy_ne
  refine ⟨k, s.nextCopy (some k) now text, ?_, ?_, fun m => ?_⟩
  · cases hmove
    simp [send, hlive]
  · rw [hother (Option.some_ne_none k).symm]
    exact hhub
  · by_cases hm : m = some k
    · rw [hm, hmove.clock_copy]
    · rw [hother hm]
      exact htop m

/-- A frame that is not the oldest of a pipe is not taken with it. -/
theorem mem_update_of_ne {pipe : κ → List ClipboardSnapshot} {j k : κ}
    {snap new : ClipboardSnapshot} {rest : List ClipboardSnapshot} (hpipe : pipe k = new :: rest)
    (hsnap : snap ∈ pipe j) (hne : snap ≠ new) : snap ∈ Function.update pipe k rest j := by
  rw [Function.update_apply]
  split_ifs with hj
  · rw [hj, hpipe] at hsnap
    exact (List.mem_cons.1 hsnap).resolve_left hne
  · exact hsnap

/-- A copy of the hub stays behind the snapshot, or takes the hub to the top. -/
theorem Rising.copyHub (h : s.Rising) (hlive : ∀ k, s.live k) (hmax : s.clock none < 2^64 - 1)
    (hmove : s.Move (.copy none now text) t) : t.Level ∨ t.Rising := by
  obtain ⟨j, snap, hsnap, hlt, hle⟩ := h
  have hversion := nextCopy_version hmax now text
  by_cases heq : s.clock none + 1 = snap.version.toNat
  · refine .inl (level_copyHub hlive hmove fun k => ?_)
    rw [hversion, heq]
    exact hle (some k)
  · refine .inr ⟨j, snap, ?_, ?_, fun m => ?_⟩
    · cases hmove
      exact hsnap
    · rw [hmove.clock_copy, hversion]
      omega
    · cases m with
      | none =>
        rw [hmove.clock_copy, hversion]
        exact hlt
      | some k =>
        rw [hmove.clock_copy_ne (Option.some_ne_none k)]
        exact hle (some k)

/-- A copy of a spoke is not ahead of the snapshot, or it rises in its place. -/
theorem Rising.copySpoke {k : κ} (h : s.Rising) (hlive : s.live k)
    (hmax : s.clock (some k) < 2^64 - 1) (hmove : s.Move (.copy (some k) now text) t) :
    t.Rising := by
  obtain ⟨j, snap, hsnap, hlt, hle⟩ := h
  have hversion := nextCopy_version hmax now text
  by_cases hpast : s.clock (some k) + 1 ≤ snap.version.toNat
  · refine ⟨j, snap, ?_, ?_, fun m => ?_⟩
    · cases hmove
      simp only [send, Function.update_apply]
      split_ifs with hj
      · rw [← hj]
        exact List.mem_append_left _ hsnap
      · exact hsnap
    · rw [hmove.clock_copy_ne (Option.some_ne_none k).symm]
      exact hlt
    · by_cases hm : m = some k
      · rw [hm, hmove.clock_copy, hversion]
        exact hpast
      · rw [hmove.clock_copy_ne hm]
        exact hle m
  · have hk := hle (some k)
    refine rising_copySpoke hlive hmove ?_ fun m => ?_
    · rw [hversion]
      omega
    · have hm := hle m
      rw [hversion]
      omega

/-- The hub stays behind the snapshot when it applies a frame, or gets to the top. -/
theorem Rising.applyUp {k : κ} {new : ClipboardSnapshot} {rest : List ClipboardSnapshot}
    (h : s.Rising) (hbound : s.Bounded) (hup : s.up k = new :: rest)
    (hacc : (s.engine none).Accepts new) (hmove : s.Move (.deliverUp k) t) :
    t.Level ∨ t.Rising := by
  obtain ⟨j, snap, hsnap, hlt, hle⟩ := h
  have hnew : new.version.toNat ≤ s.clock (some k) :=
    hbound.up k new (by rw [hup]; exact List.mem_cons_self)
  cases hmove with
  | ignoreUp hup' hacc' =>
    rw [hup] at hup'
    obtain ⟨rfl, -⟩ := List.cons.inj hup'
    exact absurd hacc hacc'
  | applyUp hup' _ =>
    rw [hup] at hup'
    obtain ⟨rfl, rfl⟩ := List.cons.inj hup'
    by_cases heq : new.version.toNat = snap.version.toNat
    · -- what has taken the hub to the top is to be broadcast
      refine .inl (level_of_top (fun i => ?_) fun i => ?_)
      · simp only [clock, Function.update_self, Engine.clock_advance, heq]
        exact hle (some i)
      · by_cases hi : k = i
        · subst hi
          refine .inl ?_
          simpa [clock] using hnew
        · refine .inr (.inr ⟨(k, new), List.mem_append_right _ (List.mem_singleton.2 rfl), hi, ?_⟩)
          simp [clock]
    · have htop := hnew.trans (hle (some k))
      refine .inr ⟨j, snap, mem_update_of_ne hup hsnap ?_, ?_, ?_⟩
      · rintro rfl
        exact heq rfl
      · simp only [clock, Function.update_self, Engine.clock_advance]
        omega
      · rintro (_ | i)
        · simp only [clock, Function.update_self, Engine.clock_advance]
          exact htop
        · simpa [clock] using hle (some i)

/-- While a snapshot rises, traffic keeps one rising until the network is level. -/
theorem Rising.move (h : s.Rising) (hroute : s.Routed) (hbound : s.Bounded)
    (hlive : ∀ k, s.live k) (htraffic : a.isTraffic) (hmax : s.CopyBelowMax a)
    (hmove : s.Move a t) : t.Level ∨ t.Rising := by
  have hstep := hmove
  cases hmove with
  | copyHub now text => exact h.copyHub hlive hmax hstep
  | copySpoke k now text => exact .inr (h.copySpoke (hlive k) hmax hstep)
  | applyUp hup hacc => exact h.applyUp hbound hup hacc hstep
  | @ignoreUp k new rest hup hacc =>
    obtain ⟨j, snap, hsnap, hlt, hle⟩ := h
    refine .inr ⟨j, snap, mem_update_of_ne hup hsnap ?_, hlt, hle⟩
    -- the hub would have applied the snapshot
    rintro rfl
    refine hacc ⟨?_, hlt⟩
    rw [hroute.up k snap (by rw [hup]; exact List.mem_cons_self)]
    exact fun he => Option.some_ne_none k (hroute.ids he)
  | @applyDown k new rest hdown _ =>
    have hnew := hbound.down k new (by rw [hdown]; exact List.mem_cons_self)
    refine .inr (h.mono (by simp [clock]) rfl fun i => ?_)
    simp only [clock, Function.update_apply]
    split_ifs
    · exact hnew.trans (le_max_right _ _)
    · exact le_max_left _ _
  | ignoreDown _ _ => exact .inr (h.mono rfl rfl fun i => le_max_left _ _)
  | relay _ => exact .inr (h.mono rfl rfl fun i => le_max_left _ _)
  | join _ => cases htraffic
  | leave _ => cases htraffic
  | restartHub _ => cases htraffic
  | restartSpoke _ _ => cases htraffic

/-- What holds of the connected network from a copy on top on. -/
structure Healing (s : HubSpoke κ) : Prop where
  /-- The spokes are connected. -/
  live : ∀ k, s.live k
  /-- Frames are on their routes. -/
  routed : s.Routed
  /-- Frames are behind their senders. -/
  bounded : s.Bounded
  /-- The nodes are level, or the snapshot that brings them there is on its way. -/
  climb : s.Level ∨ s.Rising

/-- Traffic keeps healing the network. -/
theorem Healing.move (h : s.Healing) (htraffic : a.isTraffic) (hmax : s.CopyBelowMax a)
    (hmove : s.Move a t) : t.Healing := by
  refine ⟨?_, h.routed.move hmove, h.bounded.move hmax hmove, ?_⟩
  · rw [hmove.live_eq htraffic]
    exact h.live
  · rcases h.climb with hlevel | hrising
    · have hlive := hmove.live_eq htraffic
      have hcov := covered_move h.routed h.bounded (fun k _ => (hlevel k).1)
        (hmax.joinCovered htraffic) hmove
      have hsent := sent_move h.routed h.bounded h.live (fun k => (hlevel k).2) htraffic hmax hmove
      refine .inl fun k => ⟨hcov k ?_, hsent k⟩
      rw [hlive]
      exact h.live k
    · exact hrising.move h.routed h.bounded h.live htraffic hmax hmove

omit [DecidableEq κ] in
/-- At quiescence all counters are equal. -/
theorem Healing.clock_eq (h : s.Healing) (hq : s.Quiescent) (n : Option κ) :
    s.clock n = s.clock none := by
  rcases h.climb with hlevel | ⟨j, snap, hsnap, -⟩
  · cases n with
    | none => rfl
    | some k =>
      obtain ⟨hcov, hsent⟩ := hlevel k
      refine le_antisymm ?_ ?_
      · rcases hsent with hle | ⟨snap, hm, -⟩
        · exact hle
        · exact absurd hm hq.not_mem_up
      · rcases hcov with hle | ⟨snap, hm, -⟩ | ⟨p, hp, -⟩
        · exact hle
        · exact absurd hm hq.not_mem_down
        · exact absurd hp hq.not_mem_relaying
  · exact absurd hsnap hq.not_mem_up

/-! ## One newest snapshot -/

/-- What holds from a copy on top on as long as no copy makes a tie. -/
structure Agreeing (s : HubSpoke κ) : Prop where
  /-- The network is healing. -/
  healing : s.Healing
  /-- The top version is unique. -/
  topUnique : s.TopUnique
  /-- There has been a copy. -/
  positive : ∃ n, 0 < s.clock n

/-- Traffic without a tie keeps it. -/
theorem Agreeing.move (h : s.Agreeing) (hguard : s.Untied a) (hmove : s.Move a t) : t.Agreeing := by
  have hmax := hguard.joinCovered.copyBelowMax
  refine ⟨h.healing.move hguard.isTraffic hmax hmove,
    h.topUnique.move h.healing.bounded hguard hmove, ?_⟩
  obtain ⟨n, hn⟩ := h.positive
  refine ⟨n, hn.trans_le (hmove.clock_le hmax n ?_)⟩
  rintro limit rfl
  cases hguard.isTraffic

end HubSpoke

open HubSpoke

section Example

end Example

end Borderless.Network
