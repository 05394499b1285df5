import Borderless.Network.Forwarding

/-!
# Agreement at quiescence

With every spoke connected from the start, what raises the hub's counter is on its way to the spokes
(`Covered`), and what raises a spoke's counter is on its way to the hub (`Sent`), so at quiescence
all counters are equal. The counter is the version of the newest snapshot, so all nodes agree if
the top version belongs to one snapshot.

It need not: the engine compares versions only, and two nodes that copy at the same counter produce
two snapshots of one version, which the other side then ignores as stale. The guard `Untied`
excludes a copy whose version is at that moment the top counter of another node.
-/

namespace Borderless.Network

open Borderless.Clipboard Transition

namespace HubSpoke

variable {κ : Type*} [DecidableEq κ] {s t : HubSpoke κ} {a : HubSpokeLabel κ}

/-! ## What a spoke has reaches the hub -/

/-- The spoke `k` is not ahead of the hub, or the snapshot at its counter is on its way to the
hub. -/
def Sent (s : HubSpoke κ) (k : κ) : Prop :=
  s.clock (some k) ≤ s.clock none ∨ ∃ snap ∈ s.up k, snap.version.toNat = s.clock (some k)

omit [DecidableEq κ] in
/-- A step that leaves the counter and the frames of `k` alone, and does not take the hub back,
keeps `k` sent. -/
theorem Sent.mono {k : κ} (h : s.Sent k) (hspoke : t.clock (some k) = s.clock (some k))
    (hhub : s.clock none ≤ t.clock none) (hup : t.up k = s.up k) : t.Sent k := by
  unfold Sent
  rw [hspoke, hup]
  exact h.imp_left fun h => h.trans hhub

omit [DecidableEq κ] in
/-- Once the hub has handled a frame of `k` and is not behind it, `k` is sent by the frames after
it. -/
theorem Sent.pop {k : κ} {snap : ClipboardSnapshot} {rest : List ClipboardSnapshot} (h : s.Sent k)
    (hs : s.up k = snap :: rest) (ht : t.up k = rest)
    (hspoke : t.clock (some k) = s.clock (some k)) (hhub : s.clock none ≤ t.clock none)
    (hsnap : snap.version.toNat ≤ t.clock none) : t.Sent k := by
  unfold Sent
  rw [hspoke, ht]
  rcases h with h | ⟨m, hm, hv⟩
  · exact .inl (h.trans hhub)
  · rw [hs, List.mem_cons] at hm
    rcases hm with rfl | hm
    · exact .inl (hv ▸ hsnap)
    · exact .inr ⟨m, hm, hv⟩

/-- With every spoke connected, traffic keeps every spoke sent. -/
theorem sent_move (hroute : s.Routed) (hbound : s.Bounded) (hlive : ∀ k, s.live k)
    (hsent : ∀ k, s.Sent k) (htraffic : a.isTraffic) (hmax : s.CopyBelowMax a)
    (hmove : s.Move a t) (k : κ) : t.Sent k := by
  have hclock := hmove.clock_le hmax
  cases hmove with
  | copyHub now text =>
    exact (hsent k).mono rfl (hclock none (by simp)) rfl
  | copySpoke j now text =>
    by_cases hk : k = j
    · -- the copy itself is on its way to the hub
      subst hk
      refine .inr ⟨s.nextCopy (some k) now text, ?_, ?_⟩
      · simp [send, hlive]
      · simp [clock, send]
    · refine (hsent k).mono ?_ (hclock none (by simp)) ?_
      · simp [clock, send, Function.update_of_ne (Option.some_injective κ |>.ne hk)]
      · simp [send, Function.update_of_ne hk]
  | @applyUp j snap rest hup hacc =>
    by_cases hk : k = j
    · subst hk
      refine (hsent k).pop hup (Function.update_self ..) ?_ (hclock none (by simp)) ?_
      · simp [clock]
      · simp [clock]
    · refine (hsent k).mono ?_ (hclock none (by simp)) (Function.update_of_ne hk ..)
      simp [clock]
  | @ignoreUp j snap rest hup hacc =>
    by_cases hk : k = j
    · subst hk
      -- the frame is not of the hub, so it was ignored for its version
      have horigin : snap.origin ≠ (s.engine none).selfId := by
        rw [hroute.up k snap (by rw [hup]; exact List.mem_cons_self)]
        exact fun he => Option.some_ne_none k (hroute.ids he)
      have hsnap : snap.version.toNat ≤ s.clock none :=
        not_lt.1 fun hlt => hacc ⟨horigin, hlt⟩
      exact (hsent k).pop hup (Function.update_self ..) rfl le_rfl hsnap
    · exact (hsent k).mono rfl le_rfl (Function.update_of_ne hk ..)
  | @applyDown j snap rest hdown hacc =>
    have hle := hbound.down j snap (by rw [hdown]; exact List.mem_cons_self)
    by_cases hk : k = j
    · -- what comes from the hub is not ahead of it
      subst hk
      refine .inl ?_
      simpa [clock] using hle
    · refine (hsent k).mono ?_ (hclock none (by simp)) rfl
      simp [clock, Function.update_of_ne (Option.some_injective κ |>.ne hk)]
  | ignoreDown _ _ => exact (hsent k).mono rfl le_rfl rfl
  | relay _ => exact (hsent k).mono rfl le_rfl rfl
  | join _ => cases htraffic
  | leave _ => cases htraffic
  | restartHub _ => cases htraffic
  | restartSpoke _ _ => cases htraffic

/-! ## One snapshot at the top version -/

/-- The snapshot is the newest of a node, or in flight. -/
def Held (s : HubSpoke κ) (snap : ClipboardSnapshot) : Prop :=
  (∃ n, (s.engine n).newest = some snap) ∨ (∃ k, snap ∈ s.up k) ∨
    (∃ p ∈ s.relaying, p.2 = snap) ∨ ∃ k, snap ∈ s.down k

/-- The newest snapshot of a node was so before, or it is the node's copy, or it was delivered. -/
theorem Move.newest (h : s.Move a t) {n : Option κ} {snap : ClipboardSnapshot}
    (hn : (t.engine n).newest = some snap) :
    s.Held snap ∨ ∃ now text, a = .copy n now text ∧ snap = s.nextCopy n now text := by
  have hset : ∀ {m : Option κ} {new : ClipboardSnapshot},
      (Function.update s.engine m ((s.engine m).advance new) n).newest = some snap →
      (s.engine n).newest = some snap ∨ n = m ∧ snap = new := by
    intro m _ hnew
    rw [Function.update_apply] at hnew
    split_ifs at hnew with hm
    · rw [Engine.newest_advance] at hnew
      exact .inr ⟨hm, (Option.some.inj hnew).symm⟩
    · exact .inl hnew
  cases h with
  | copyHub now text =>
    rcases hset hn with hold | ⟨rfl, rfl⟩
    · exact .inl (.inl ⟨n, hold⟩)
    · exact .inr ⟨now, text, rfl, rfl⟩
  | copySpoke k now text =>
    rcases hset hn with hold | ⟨rfl, rfl⟩
    · exact .inl (.inl ⟨n, hold⟩)
    · exact .inr ⟨now, text, rfl, rfl⟩
  | @applyUp k _ _ hup _ =>
    rcases hset hn with hold | ⟨-, rfl⟩
    · exact .inl (.inl ⟨n, hold⟩)
    · exact .inl (.inr (.inl ⟨k, by rw [hup]; exact List.mem_cons_self⟩))
  | @applyDown k _ _ hdown _ =>
    rcases hset hn with hold | ⟨-, rfl⟩
    · exact .inl (.inl ⟨n, hold⟩)
    · exact .inl (.inr (.inr (.inr ⟨k, by rw [hdown]; exact List.mem_cons_self⟩)))
  | restartHub limit =>
    simp only [Function.update_apply] at hn
    split_ifs at hn
    · cases hn
    · exact .inl (.inl ⟨n, hn⟩)
  | restartSpoke k limit =>
    simp only [Function.update_apply] at hn
    split_ifs at hn
    · cases hn
    · exact .inl (.inl ⟨n, hn⟩)
  | _ => exact .inl (.inl ⟨n, hn⟩)

/-- A held snapshot was held before, or it is a copy. -/
theorem Move.held (h : s.Move a t) {snap : ClipboardSnapshot} (ht : t.Held snap) :
    s.Held snap ∨ ∃ n now text, a = .copy n now text ∧ snap = s.nextCopy n now text := by
  rcases ht with ⟨n, hn⟩ | ⟨k, hm⟩ | ⟨p, hp, rfl⟩ | ⟨k, hm⟩
  · exact (h.newest hn).imp_right fun hcopy => ⟨_, hcopy⟩
  · rcases h.mem_up hm with hm | hcopy
    · exact .inl (.inr (.inl ⟨k, hm⟩))
    · exact .inr ⟨some k, hcopy⟩
  · rcases h.mem_relaying hp with hp | ⟨hm, -⟩
    · exact .inl (.inr (.inr (.inl ⟨p, hp, rfl⟩)))
    · exact .inl (.inr (.inl ⟨p.1, hm⟩))
  · rcases h.mem_down hm with hm | hcopy | ⟨j, -, hp⟩
    · exact .inl (.inr (.inr (.inr ⟨k, hm⟩)))
    · exact .inr ⟨none, hcopy⟩
    · exact .inl (.inr (.inr (.inl ⟨_, hp, rfl⟩)))

omit [DecidableEq κ] in
/-- A held snapshot is not ahead of every counter. -/
theorem Bounded.held (h : s.Bounded) {snap : ClipboardSnapshot} (hs : s.Held snap) :
    ∃ n, snap.version.toNat ≤ s.clock n := by
  rcases hs with ⟨n, hn⟩ | ⟨k, hm⟩ | ⟨p, hp, rfl⟩ | ⟨k, hm⟩
  · refine ⟨n, le_of_eq ?_⟩
    rw [clock, Engine.clock_eq_newest, hn]
    rfl
  · exact ⟨some k, h.up k snap hm⟩
  · exact ⟨none, h.relaying p hp⟩
  · exact ⟨none, h.down k snap hm⟩

/-- The guard of a step: it is traffic, and the version of a copy neither wraps nor is the top
counter, that of another node. -/
def Untied (s : HubSpoke κ) : HubSpokeLabel κ → Prop
  | .copy n _ _ => s.clock n < 2^64 - 1 ∧
      ((∀ m, s.clock m ≠ s.clock n + 1) ∨ ∃ m, s.clock n + 1 < s.clock m)
  | a => a.isTraffic

instance [Fintype κ] (s : HubSpoke κ) : (a : HubSpokeLabel κ) → Decidable (s.Untied a)
  | .copy .. => inferInstanceAs (Decidable (_ < _ ∧ ((∀ _, _ ≠ _) ∨ ∃ _, _ < _)))
  | .deliverUp _ | .deliverDown _ | .relay _ => isTrue rfl
  | .join _ | .leave _ | .restart .. => isFalse Bool.false_ne_true

omit [DecidableEq κ] in
/-- The guarded steps are traffic. -/
theorem Untied.isTraffic (h : s.Untied a) : a.isTraffic := by
  cases a <;> first | exact h | rfl

omit [DecidableEq κ] in
/-- The guard of the flow is weaker. -/
theorem Untied.joinCovered (h : s.Untied a) : s.JoinCovered a := by
  cases a with
  | copy n now text => exact h.1
  | join k => cases h.isTraffic
  | _ => exact trivial

/-- The snapshots at the top version are one. -/
def TopUnique (s : HubSpoke κ) : Prop :=
  ∀ x y, s.Held x → s.Held y → x.version.toNat = y.version.toNat →
    (∀ n, s.clock n ≤ x.version.toNat) → x = y

omit [DecidableEq κ] in
/-- An untied copy at the top version is not the version of a held snapshot. -/
theorem copy_version_ne (hbound : s.Bounded) {n : Option κ} {now : UInt64} {text : String}
    (hguard : s.Untied (.copy n now text)) {y : ClipboardSnapshot} (hy : s.Held y)
    (htop : ∀ m, s.clock m ≤ (s.nextCopy n now text).version.toNat) :
    (s.nextCopy n now text).version.toNat ≠ y.version.toNat := by
  obtain ⟨hmax, htie⟩ := hguard
  rw [nextCopy_version hmax] at htop ⊢
  intro he
  obtain ⟨m, hm⟩ := hbound.held hy
  have hle := htop m
  rcases htie with hne | ⟨m', hlt⟩
  · exact hne m (by omega)
  · have hle' := htop m'
    omega

/-- A guarded step keeps the top version unique. -/
theorem TopUnique.move (h : s.TopUnique) (hbound : s.Bounded) (hguard : s.Untied a)
    (hmove : s.Move a t) : t.TopUnique := by
  intro x y hx hy hxy htop
  have hmax := hguard.joinCovered.copyBelowMax
  have htop' : ∀ n, s.clock n ≤ x.version.toNat := by
    intro n
    refine (hmove.clock_le hmax n ?_).trans (htop n)
    rintro limit rfl
    cases hguard.isTraffic
  -- each of the two was held before, or it is the copy of this step
  rcases hmove.held hx with hx | ⟨n, now, text, rfl, rfl⟩
  · rcases hmove.held hy with hy | ⟨n, now, text, rfl, rfl⟩
    · exact h x y hx hy hxy htop'
    · rw [hxy] at htop'
      exact absurd hxy.symm (copy_version_ne hbound hguard hx htop')
  · rcases hmove.held hy with hy | ⟨m, now', text', he, rfl⟩
    · exact absurd hxy (copy_version_ne hbound hguard hy htop')
    · injection he with hn hnow htext
      rw [hn, hnow, htext]

/-! ## Agreement -/

/-- What holds throughout a run of the connected network without ties. -/
structure AgreementInvariant (s : HubSpoke κ) : Prop where
  /-- The spokes are connected. -/
  live : ∀ k, s.live k
  /-- What the hub has reaches the spokes. -/
  flow : s.FlowInvariant
  /-- What the spokes have reaches the hub. -/
  sent : ∀ k, s.Sent k
  /-- The top version is unique. -/
  topUnique : s.TopUnique
  /-- After a copy a counter is positive. -/
  positive : 0 < s.copies → ∃ n, 0 < s.clock n

/-- Traffic leaves the sessions alone. -/
theorem Move.live_eq (h : s.Move a t) (htraffic : a.isTraffic) : t.live = s.live := by
  cases h <;> first | rfl | cases htraffic

/-- Only a copy raises the number of copies. -/
theorem Move.copies_eq (h : s.Move a t) :
    t.copies = s.copies ∨ ∃ n now text, a = .copy n now text := by
  cases h <;> first | exact .inl rfl | exact .inr ⟨_, _, _, rfl⟩

omit [DecidableEq κ] in
/-- A fresh connected network satisfies the invariant. -/
theorem Fresh.agreementInvariant (h : s.Fresh) (hlive : ∀ k, s.live k) :
    s.AgreementInvariant := by
  refine ⟨hlive, h.flowInvariant, fun k => .inl ?_, ?_, ?_⟩
  · rw [h.clock, h.clock]
  · intro x y hx
    have hquiet := h.quiescent
    rcases hx with ⟨n, hn⟩ | ⟨k, hm⟩ | ⟨p, hp, -⟩ | ⟨k, hm⟩
    · obtain ⟨selfId, limit, he⟩ := h.engine n
      rw [he, Engine.newest_new] at hn
      cases hn
    · exact absurd hm hquiet.not_mem_up
    · exact absurd hp hquiet.not_mem_relaying
    · exact absurd hm hquiet.not_mem_down
  · rw [h.copies]
    exact fun hpos => absurd hpos (lt_irrefl 0)

/-- A guarded step keeps the invariant. -/
theorem AgreementInvariant.move (h : s.AgreementInvariant) (hguard : s.Untied a)
    (hmove : s.Move a t) : t.AgreementInvariant := by
  have htraffic := hguard.isTraffic
  have hmax := hguard.joinCovered.copyBelowMax
  refine ⟨?_, h.flow.move hguard.joinCovered hmove, ?_,
    h.topUnique.move h.flow.bounded hguard hmove, fun hpos => ?_⟩
  · rw [hmove.live_eq htraffic]
    exact h.live
  · exact sent_move h.flow.routed h.flow.bounded h.live h.sent htraffic hmax hmove
  · rcases hmove.copies_eq with he | ⟨n, now, text, rfl⟩
    · rw [he] at hpos
      obtain ⟨n, hn⟩ := h.positive hpos
      refine ⟨n, hn.trans_le (hmove.clock_le hmax n ?_)⟩
      rintro limit rfl
      cases htraffic
    · refine ⟨n, ?_⟩
      rw [hmove.clock_copy, nextCopy_version hmax]
      exact Nat.succ_pos _

/-- The invariant holds of every state that a run without ties reaches. -/
theorem agreementInvariant_of_reach (h : (connectedHubSpoke κ).Reach Untied s) :
    s.AgreementInvariant := by
  refine h.invariant (fun s hs => ?_) fun s a t hs hguard hstep => ?_
  · obtain ⟨hfresh, hlive⟩ := hs
    exact hfresh.agreementInvariant hlive
  · exact hs.move hguard (.of_step hstep)

omit [DecidableEq κ] in
/-- At quiescence all counters are equal. -/
theorem AgreementInvariant.clock_eq (h : s.AgreementInvariant) (hq : s.Quiescent)
    (n : Option κ) : s.clock n = s.clock none := by
  cases n with
  | none => rfl
  | some k =>
    refine le_antisymm ?_ (h.flow.hub_le hq (h.live k))
    rcases h.sent k with hle | ⟨snap, hm, -⟩
    · exact hle
    · exact absurd hm hq.not_mem_up

omit [DecidableEq κ] in
/-- If no frame is in flight and a counter is positive, then all nodes have the same newest
snapshot. -/
theorem AgreementInvariant.exists_newest (h : s.AgreementInvariant) (hq : s.Quiescent)
    {m : Option κ} (hm : 0 < s.clock m) : ∃ snap, ∀ n, (s.engine n).newest = some snap := by
  have hclock := h.clock_eq hq
  -- the common counter is positive, so every node has a newest snapshot at it
  have hnewest : ∀ n, ∃ snap, (s.engine n).newest = some snap ∧
      snap.version.toNat = s.clock none := by
    intro n
    have hn : (s.engine n).clock = s.clock none := hclock n
    rw [Engine.clock_eq_newest] at hn
    cases he : (s.engine n).newest with
    | none =>
      rw [he] at hn
      have hzero : s.clock none = 0 := hn.symm
      have hm' := hclock m
      omega
    | some snap =>
      rw [he] at hn
      exact ⟨snap, rfl, hn⟩
  obtain ⟨snap, hsnap, hver⟩ := hnewest none
  refine ⟨snap, fun n => ?_⟩
  obtain ⟨snap', hsnap', hver'⟩ := hnewest n
  rw [hsnap']
  congr 1
  refine h.topUnique snap' snap (.inl ⟨n, hsnap'⟩) (.inl ⟨none, hsnap⟩) ?_ fun k => ?_
  · rw [hver', hver]
  · rw [hver', hclock k]

end HubSpoke

open HubSpoke

/-- Clipboard agreement at quiescence. In every run of the connected network in which no copy takes
a version that is the top counter of another node, and no counter wraps: if no frame is in flight
and there has been a copy, then all nodes have the same newest snapshot. -/
theorem agreement_at_quiescence (κ : Type*) [DecidableEq κ] (s : HubSpoke κ)
    (hs : (connectedHubSpoke κ).Reach Untied s) (hq : s.Quiescent) (hcopies : 0 < s.copies) :
    ∃ snap, ∀ n, (s.engine n).newest = some snap := by
  have hinv := agreementInvariant_of_reach hs
  obtain ⟨m, hm⟩ := hinv.positive hcopies
  exact hinv.exists_newest hq hm

section Example

/-- The hub copies, `false` applies the copy and answers with one of its own, and both reach every
node. -/
def answeredRun : List (HubSpokeLabel Bool) :=
  let hi := twoSpokes.nextCopy none 0 "hi"
  [.copy none 0 "hi", .deliverDown false, .deliverDown true, .copy (some false) 0 "re",
    .deliverUp false,
    .relay (false, (((twoSpokes.engine (some false)).advance hi).produceText 0 "re").1),
    .deliverDown true]

/-- After `answeredRun` the hub and its spokes agree. -/
theorem agreement_at_quiescence_twoSpokes : ∃ s : HubSpoke Bool, s.copies = 2 ∧
    ∃ snap, ∀ n, (s.engine n).newest = some snap := by
  obtain ⟨s, hs, hq, hcopies⟩ : ∃ s, (connectedHubSpoke Bool).Reach Untied s ∧ s.Quiescent ∧
      s.copies = 2 :=
    System.exists_reach_of_run ⟨twoSpokes_fresh, fun _ => rfl⟩ answeredRun (by decide +kernel)
      (by decide +kernel)
  exact ⟨s, hcopies, agreement_at_quiescence Bool s hs hq (by omega)⟩

/-- The hub and the spoke `false` copy before either has heard of the other. -/
def tiedRun : List (HubSpokeLabel Bool) :=
  [.copy none 0 "hub", .copy (some false) 0 "spoke", .deliverUp false, .deliverDown false,
    .deliverDown true]

/-- Concurrent copies end in disagreement: after `tiedRun` nothing is in flight, and the hub and the
spoke `false` each have their own copy as the newest. -/
theorem tied_copies_disagree : ¬ ∀ s : HubSpoke Bool,
    (connectedHubSpoke Bool).Reach (fun _ a => a.isTraffic) s → s.Quiescent → 0 < s.copies →
    ∃ snap, ∀ n, (s.engine n).newest = some snap := by
  intro hall
  obtain ⟨s, hs, hq, hcopies, hhub, hspoke⟩ : ∃ s,
      (connectedHubSpoke Bool).Reach (fun _ a => a.isTraffic) s ∧ s.Quiescent ∧ s.copies = 2 ∧
      (s.engine none).newest = some (twoSpokes.nextCopy none 0 "hub") ∧
      (s.engine (some false)).newest = some (twoSpokes.nextCopy (some false) 0 "spoke") :=
    System.exists_reach_of_run ⟨twoSpokes_fresh, fun _ => rfl⟩ tiedRun (by decide +kernel)
      (by decide +kernel)
  obtain ⟨snap, hsnap⟩ := hall s hs hq (by omega)
  have heq : twoSpokes.nextCopy none 0 "hub" = twoSpokes.nextCopy (some false) 0 "spoke" :=
    Option.some.inj (hhub.symm.trans ((hsnap none).trans ((hsnap (some false)).symm.trans hspoke)))
  exact absurd heq (by decide)

end Example

end Borderless.Network
