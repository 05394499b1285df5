import Borderless.Lib.Simulation
import Borderless.Network.Agreement
import Mathlib.Algebra.BigOperators.Fin
import Mathlib.Algebra.Order.BigOperators.Group.Finset

/-!
# How much traffic a copy makes

The hub forwards what it applies, and a forwarded frame reaches other nodes that apply it. Nothing
comes back: a spoke forwards nothing, and the hub leaves out the spoke that a snapshot came from. So
the traffic of the network is paid for by its copies. With `n` spokes a copy at the hub pays for `n`
frames, and a copy at a spoke for one frame to the hub, one broadcast and `n - 1` frames, however
sessions begin and end meanwhile (`traffic_le`).
-/

namespace Borderless.Network

open Transition Finset

variable {κ : Type*}

/-- The hub or a spoke handles a frame, or the hub broadcasts one. -/
def HubSpokeLabel.isDelivery : HubSpokeLabel κ → Bool
  | .deliverUp _ | .deliverDown _ | .relay _ => true
  | .copy .. | .join _ | .leave _ | .restart .. => false

/-- The cost of a step. -/
def HubSpokeLabel.cost (a : HubSpokeLabel κ) : ℕ := if a.isDelivery then 1 else 0

variable [Fintype κ]

/-- What a step may cost later. -/
def HubSpokeLabel.budget : HubSpokeLabel κ → ℕ
  | .copy none _ _ => Fintype.card κ
  | .copy (some _) _ _ => Fintype.card κ + 1
  | _ => 0

namespace HubSpoke

/-- The deliveries that are left to do, at most: for a frame to the hub its delivery, its broadcast
and the frames of it. -/
def pending (s : HubSpoke κ) : ℕ :=
  (Fintype.card κ + 1) * ∑ k, (s.up k).length + Fintype.card κ * s.relaying.length +
    ∑ k, (s.down k).length

variable [DecidableEq κ] {s t : HubSpoke κ} {a : HubSpokeLabel κ}

/-- The frames of a pipe that changes at one spoke. -/
theorem sum_update (pipe : κ → List ClipboardSnapshot) (k : κ) (l : List ClipboardSnapshot) :
    ∑ j, (Function.update pipe k l j).length + (pipe k).length =
      ∑ j, (pipe j).length + l.length := by
  have hold := add_sum_erase univ (fun j => (pipe j).length) (mem_univ k)
  have hnew := add_sum_erase univ (fun j => (Function.update pipe k l j).length) (mem_univ k)
  have hrest : ∑ j ∈ univ.erase k, (Function.update pipe k l j).length =
      ∑ j ∈ univ.erase k, (pipe j).length := by
    refine sum_congr rfl fun j hj => ?_
    rw [Function.update_of_ne (ne_of_mem_erase hj)]
  rw [Function.update_self, hrest] at hnew
  omega

/-- Taking a frame from a pipe. -/
theorem sum_pop {pipe : κ → List ClipboardSnapshot} {k : κ} {snap : ClipboardSnapshot}
    {rest : List ClipboardSnapshot} (h : pipe k = snap :: rest) :
    ∑ j, (Function.update pipe k rest j).length + 1 = ∑ j, (pipe j).length := by
  have hsum := sum_update pipe k rest
  rw [h, List.length_cons] at hsum
  omega

/-- A broadcast puts one frame at most into each pipe, and none into the one that is left out. -/
theorem sum_broadcast (s : HubSpoke κ) (snap : ClipboardSnapshot) (exclude : Option κ) :
    ∑ k, ((s.broadcast snap exclude).down k).length + (if exclude.isSome then 1 else 0) ≤
      ∑ k, (s.down k).length + Fintype.card κ := by
  have hone : ∀ k, ((s.broadcast snap exclude).down k).length +
      (if some k = exclude then 1 else 0) ≤ (s.down k).length + 1 := by
    intro k
    unfold broadcast
    dsimp only
    by_cases hk : some k = exclude
    · rw [if_pos hk, if_neg fun h => h.2 hk]
    · rw [if_neg hk]
      split_ifs
      · simp
      · omega
  have hexcluded : ∑ k : κ, (if some k = exclude then 1 else 0) =
      if exclude.isSome then 1 else 0 := by
    cases exclude with
    | none => simp
    | some j => simp
  calc ∑ k, ((s.broadcast snap exclude).down k).length + (if exclude.isSome then 1 else 0)
      = ∑ k, (((s.broadcast snap exclude).down k).length +
          (if some k = exclude then 1 else 0)) := by
        rw [sum_add_distrib, hexcluded]
    _ ≤ ∑ k, ((s.down k).length + 1) := sum_le_sum fun k _ => hone k
    _ = ∑ k, (s.down k).length + Fintype.card κ := by
        rw [sum_add_distrib, sum_const, card_univ, smul_eq_mul, mul_one]

/-- Losing the pipes of a spoke leaves less to do. -/
theorem pending_drop_le (s : HubSpoke κ) (k : κ) : (s.drop k).pending ≤ s.pending := by
  have hup := sum_update s.up k []
  have hdown := sum_update s.down k []
  unfold pending drop
  dsimp only
  have hup' : ∑ j, (Function.update s.up k [] j).length ≤ ∑ j, (s.up j).length := by
    simp only [List.length_nil] at hup
    omega
  have hdown' : ∑ j, (Function.update s.down k [] j).length ≤ ∑ j, (s.down j).length := by
    simp only [List.length_nil] at hdown
    omega
  have hmul := Nat.mul_le_mul_left (Fintype.card κ + 1) hup'
  omega

/-- Each step is paid for: a delivery by what is left to do, and a copy by its budget. -/
theorem Move.cost_le (h : s.Move a t) : a.cost + t.pending ≤ s.pending + a.budget := by
  have hone : ∀ {m n : ℕ}, m ≤ n + 1 →
      (Fintype.card κ + 1) * m ≤ (Fintype.card κ + 1) * n + (Fintype.card κ + 1) := by
    intro m n hle
    have hmul := Nat.mul_le_mul_left (Fintype.card κ + 1) hle
    rwa [Nat.mul_succ] at hmul
  cases h with
  | copyHub now text =>
    have hdown := sum_broadcast { s with
      engine := Function.update s.engine none ((s.engine none).advance (s.nextCopy none now text))
      copies := s.copies + 1 } (s.nextCopy none now text) none
    show 0 + ((Fintype.card κ + 1) * ∑ k, (s.up k).length + Fintype.card κ * s.relaying.length + _) ≤
      (Fintype.card κ + 1) * ∑ k, (s.up k).length + Fintype.card κ * s.relaying.length +
        ∑ k, (s.down k).length + Fintype.card κ
    simp only [Option.isSome_none, Bool.false_eq_true, if_false, add_zero] at hdown
    omega
  | copySpoke k now text =>
    have hup := sum_update s.up k
      (if s.live k then s.up k ++ [s.nextCopy (some k) now text] else s.up k)
    have hlen : (if s.live k then s.up k ++ [s.nextCopy (some k) now text] else s.up k).length ≤
        (s.up k).length + 1 := by
      split_ifs
      · simp
      · omega
    have hpaid := hone (m := ∑ j, (Function.update s.up k
      (if s.live k then s.up k ++ [s.nextCopy (some k) now text] else s.up k) j).length)
      (n := ∑ j, (s.up j).length) (by omega)
    show 0 + ((Fintype.card κ + 1) * ∑ j, (Function.update s.up k
      (if s.live k then s.up k ++ [s.nextCopy (some k) now text] else s.up k) j).length +
        Fintype.card κ * s.relaying.length + ∑ k, (s.down k).length) ≤
      s.pending + (Fintype.card κ + 1)
    unfold pending
    omega
  | @applyUp k snap rest hup hacc =>
    have hpop := sum_pop hup
    show 1 + ((Fintype.card κ + 1) * ∑ j, (Function.update s.up k rest j).length +
      Fintype.card κ * (s.relaying ++ [(k, snap)]).length + ∑ k, (s.down k).length) ≤ s.pending + 0
    unfold pending
    rw [← hpop, List.length_append, List.length_singleton, Nat.mul_succ, Nat.mul_succ]
    omega
  | @ignoreUp k snap rest hup hacc =>
    have hpop := sum_pop hup
    show 1 + ((Fintype.card κ + 1) * ∑ j, (Function.update s.up k rest j).length +
      Fintype.card κ * s.relaying.length + ∑ k, (s.down k).length) ≤ s.pending + 0
    unfold pending
    rw [← hpop, Nat.mul_succ]
    omega
  | @applyDown k snap rest hdown hacc =>
    have hpop := sum_pop hdown
    show 1 + ((Fintype.card κ + 1) * ∑ k, (s.up k).length + Fintype.card κ * s.relaying.length +
      ∑ j, (Function.update s.down k rest j).length) ≤ s.pending + 0
    unfold pending
    omega
  | @ignoreDown k snap rest hdown hacc =>
    have hpop := sum_pop hdown
    show 1 + ((Fintype.card κ + 1) * ∑ k, (s.up k).length + Fintype.card κ * s.relaying.length +
      ∑ j, (Function.update s.down k rest j).length) ≤ s.pending + 0
    unfold pending
    omega
  | @relay p hmem =>
    have hdown := sum_broadcast { s with relaying := s.relaying.erase p } p.2 (some p.1)
    have hlen : s.relaying.length = (s.relaying.erase p).length + 1 := by
      rw [List.length_erase_of_mem hmem]
      have hpos := List.length_pos_of_mem hmem
      omega
    show 1 + ((Fintype.card κ + 1) * ∑ k, (s.up k).length +
      Fintype.card κ * (s.relaying.erase p).length + _) ≤ s.pending + 0
    unfold pending
    rw [hlen, Nat.mul_succ]
    simp only [Option.isSome_some, if_true] at hdown
    omega
  | join hlive => exact (Nat.zero_add _).le
  | leave hlive =>
    have hdrop := pending_drop_le s
    exact (Nat.zero_add _).trans_le (hdrop _)
  | restartHub limit => simp [HubSpokeLabel.cost, HubSpokeLabel.isDelivery, pending]
  | restartSpoke k limit => exact (Nat.zero_add _).trans_le (pending_drop_le s k)

end HubSpoke

/-- The traffic of a network from its start, where nodes copy, sessions begin and end and processes
restart at any time. The deliveries and broadcasts that have been made, and those that are left, are
paid for by the copies: by `n` for a copy at the hub and `n + 1` for a copy at one of the `n` spokes.
From any state, deliveries and broadcasts without a further copy are at most as many as are left. -/
theorem traffic_le [DecidableEq κ] (s t : HubSpoke κ) (as : List (HubSpokeLabel κ)) (hs : s.Fresh)
    (hrun : (hubSpoke κ).run s as = some t) :
    (as.map HubSpokeLabel.cost).sum + t.pending ≤ (as.map HubSpokeLabel.budget).sum ∧
    ∀ bs u, (∀ b ∈ bs, b.isDelivery) → (hubSpoke κ).run t bs = some u →
      bs.length + u.pending ≤ t.pending := by
  have hstep : ∀ s a t, (hubSpoke κ).step s a = some t → a.cost + t.pending ≤ s.pending + a.budget :=
    fun s a t h => (HubSpoke.Move.of_step h).cost_le
  constructor
  · have hcost := System.cost_le hstep hrun
    have hzero : s.pending = 0 := by
      unfold HubSpoke.pending
      simp [hs.up, hs.down, hs.relaying]
    omega
  · intro bs u hbs hrest
    have hcost := System.cost_le hstep hrest
    have hlen : (bs.map HubSpokeLabel.cost).sum = bs.length := by
      have hone : bs.map HubSpokeLabel.cost = bs.map fun _ => 1 :=
        List.map_congr_left fun b hb => if_pos (hbs b hb)
      rw [hone, List.map_const', List.sum_replicate, smul_eq_mul, mul_one]
    have hbudget : (bs.map HubSpokeLabel.budget).sum = 0 := by
      rw [List.sum_eq_zero_iff]
      intro n hn
      obtain ⟨b, hb, rfl⟩ := List.mem_map.1 hn
      have hdelivery := hbs b hb
      cases b <;> first | rfl | cases hdelivery
    omega

section Example

/-- A copy at the hub and an answer of a spoke use up what they pay for. -/
theorem traffic_le_answeredRun : ∃ t, (hubSpoke Bool).run twoSpokes answeredRun = some t ∧
    t.pending = 0 ∧ (answeredRun.map HubSpokeLabel.cost).sum = 5 ∧
    (answeredRun.map HubSpokeLabel.budget).sum = 5 := by
  obtain ⟨t, hrun⟩ := Option.isSome_iff_exists.1
    (show ((hubSpoke Bool).run twoSpokes answeredRun).isSome by decide +kernel)
  have hcost : (answeredRun.map HubSpokeLabel.cost).sum = 5 := by decide
  have hbudget : (answeredRun.map HubSpokeLabel.budget).sum = 5 := by decide
  have hle := (traffic_le twoSpokes t answeredRun twoSpokes_fresh hrun).1
  exact ⟨t, hrun, by omega, hcost, hbudget⟩

end Example

end Borderless.Network
