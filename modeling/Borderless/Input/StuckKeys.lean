import Borderless.Input.Cursor
import Borderless.Input.Handoff

/-!
# Stuck keys

Presses and releases go to the node that has the focus at their time. `handed` lists what the output
of a router hands to the nodes: a press and a release of a key each, and an `Enter` as a press of
the modifiers that it carries. A node that got a press last is left with a stuck key.
`noStuckKeys_iff` says when this happens: a key that is held while the focus goes to another node
stays down here, since the router sends its release after the focus.
-/

namespace Borderless.Input

open LastWrite Transition

/-- The presses and releases of keys that an output hands to nodes. -/
def Routed.handed (selfId : NodeId) : Routed → List ((NodeId × HidUsage) × Bool)
  | .localEvent (.key code pressed _) => [((selfId, code), pressed)]
  | .remote target (.key code pressed _) => [((target, code), pressed)]
  | .remote target (.enter _ m) =>
    ((modifierKeys.map Prod.fst).filter fun c => m.Holds c).map fun c => ((target, c), true)
  | _ => []

/-- The presses and releases of keys that some output hands to nodes, in order. -/
def handed (selfId : NodeId) (out : List Routed) : List ((NodeId × HidUsage) × Bool) :=
  out.flatMap (Routed.handed selfId)

/-- Every press of a key that is handed to a node is followed by a release that is handed to it. -/
def NoStuckKeys (selfId : NodeId) (out : List Routed) : Prop :=
  ∀ n c before after, handed selfId out = before ++ ((n, c), true) :: after →
    ((n, c), false) ∈ after

/-- Every key is up: its last event was a release, or there was none. -/
def AllUp (log : List (RouterCall × List Routed)) : Prop :=
  ∀ c, lastWrite c (keyEvents log) ≠ some true

/-- A call that gives the focus to another node finds all keys up. -/
def RouterRun.CrossesClean (layout : Layout) (s : RouterRun) (call : RouterCall) : Prop :=
  ∀ dx dy ts n, call = .mouseMove dx dy ts → s.router.active = s.router.selfId →
    s.router.crossing layout dx dy = some n → n ≠ s.router.selfId → AllUp s.log

/-! ## What a call hands to the nodes -/

/-- A key is down at a node: the last that was handed to the node for it was a press. -/
def Down (selfId : NodeId) (out : List Routed) (n : NodeId) (c : HidUsage) : Prop :=
  lastWrite (n, c) (handed selfId out) = some true

/-- Presses are followed by releases where the last one of a key is a release. -/
theorem followed_iff {κ : Type*} [DecidableEq κ] {k : κ} {l : List (κ × Bool)} :
    (∀ before after, l = before ++ (k, true) :: after → (k, false) ∈ after) ↔
      lastWrite k l ≠ some true := by
  constructor
  · intro h hlast
    obtain ⟨before, after, rfl, hfree⟩ := lastWrite_eq_some_iff.1 hlast
    exact hfree _ (h before after rfl) rfl
  · rintro h before after rfl
    rw [lastWrite_append, lastWrite, if_pos rfl] at h
    cases hafter : lastWrite k after with
    | none => simp [hafter] at h
    | some pressed =>
      cases pressed with
      | true => simp [hafter] at h
      | false =>
        obtain ⟨pre, post, rfl, -⟩ := lastWrite_eq_some_iff.1 hafter
        simp

/-- No key is stuck where none is down. -/
theorem noStuckKeys_iff_not_down (selfId : NodeId) (out : List Routed) :
    NoStuckKeys selfId out ↔ ∀ n c, ¬ Down selfId out n c :=
  forall_congr' fun _ => forall_congr' fun _ => followed_iff

section Handed

variable {selfId n n' : NodeId} {c : HidUsage} {call : RouterCall} {e : Option (HidUsage × Bool)}
  {l : List ((NodeId × HidUsage) × Bool)} {events : List (HidUsage × Bool)} {m : ModifierMask}

/-- What is handed over in two sequences of outputs. -/
theorem handed_append (out out' : List Routed) :
    handed selfId (out ++ out') = handed selfId out ++ handed selfId out' := List.flatMap_append

/-- A key event that is delivered here. -/
theorem handed_local (h : call.CarriesKey) : handed selfId [.localEvent call.event] =
    (call.keyEvent.map fun e => ((selfId, e.1), e.2)).toList := by
  cases call with
  | mouseMove dx dy ts => rfl
  | key event =>
    obtain ⟨code, pressed, m, rfl⟩ := h
    rfl

/-- A key event that is forwarded. -/
theorem handed_remote (h : call.CarriesKey) : handed selfId [.remote n call.event] =
    (call.keyEvent.map fun e => ((n, e.1), e.2)).toList := by
  cases call with
  | mouseMove dx dy ts => rfl
  | key event =>
    obtain ⟨code, pressed, m, rfl⟩ := h
    rfl

/-- An event that is handed to a node counts for the node as it counts for the history. -/
theorem lastWrite_event (n : NodeId) (c : HidUsage) (l : List ((NodeId × HidUsage) × Bool))
    (events : List (HidUsage × Bool)) (e : Option (HidUsage × Bool)) :
    lastWrite (n, c) (l ++ (e.map fun e => ((n, e.1), e.2)).toList) = lastWrite (n, c) l ∧
        lastWrite c (events ++ e.toList) = lastWrite c events ∨
      ∃ pressed, lastWrite (n, c) (l ++ (e.map fun e => ((n, e.1), e.2)).toList) = some pressed ∧
        lastWrite c (events ++ e.toList) = some pressed := by
  cases e with
  | none => simp
  | some e =>
    obtain ⟨code, pressed⟩ := e
    simp only [Option.map_some, Option.toList_some, lastWrite_concat, Prod.mk.injEq, true_and]
    by_cases hc : code = c
    · exact .inr ⟨pressed, by rw [if_pos hc], by rw [if_pos hc]⟩
    · exact .inl ⟨by rw [if_neg hc], by rw [if_neg hc]⟩

/-- It does not count for another node. -/
theorem lastWrite_event_ne (hn : n' ≠ n) : lastWrite (n', c)
    (l ++ (e.map fun e => ((n, e.1), e.2)).toList) = lastWrite (n', c) l := by
  cases e with
  | none => simp
  | some e =>
    rw [Option.map_some, Option.toList_some, lastWrite_concat, if_neg]
    exact fun heq => hn (Prod.mk.inj heq).1.symm

/-- A crossing hands the modifiers that are held to the node that is entered. -/
theorem lastWrite_crossing (fromNode : NodeId) :
    lastWrite (n', c) (handed selfId [.remote fromNode (.leave n), .remote n (.enter fromNode m)]) =
      if n = n' ∧ m.Holds c then some true else none := by
  have hhanded : handed selfId [.remote fromNode (.leave n), .remote n (.enter fromNode m)] =
      ((modifierKeys.map Prod.fst).filter fun c => m.Holds c).map fun c => ((n, c), true) := by
    simp [handed, Routed.handed]
  rw [hhanded]
  split_ifs with h
  · obtain ⟨rfl, hholds⟩ := h
    obtain ⟨b, hb, -⟩ := id hholds
    have hkey : c ∈ modifierKeys.map Prod.fst := List.mem_map.2 ⟨_, mem_modifierKeys hb, rfl⟩
    have hmem : ((n, c), true) ∈
        ((modifierKeys.map Prod.fst).filter fun c => m.Holds c).map fun c => ((n, c), true) :=
      List.mem_map.2 ⟨c, List.mem_filter.2 ⟨hkey, decide_eq_true hholds⟩, rfl⟩
    -- the key is among them, and all of them are presses
    cases hlast : lastWrite (n, c)
        (((modifierKeys.map Prod.fst).filter fun c => m.Holds c).map fun c => ((n, c), true)) with
    | none => exact absurd rfl (lastWrite_eq_none_iff.1 hlast _ hmem)
    | some pressed =>
      obtain ⟨before, after, heq, -⟩ := lastWrite_eq_some_iff.1 hlast
      have hin : ((n, c), pressed) ∈
          ((modifierKeys.map Prod.fst).filter fun c => m.Holds c).map fun c => ((n, c), true) := by
        rw [heq]
        simp
      obtain ⟨c', -, hpair⟩ := List.mem_map.1 hin
      rw [(Prod.mk.inj hpair).2]
  · rw [lastWrite_eq_none_iff]
    intro p hp
    obtain ⟨c', hc', rfl⟩ := List.mem_map.1 hp
    rintro heq
    obtain ⟨rfl, rfl⟩ := Prod.mk.inj heq
    exact h ⟨rfl, of_decide_eq_true (List.mem_filter.1 hc').2⟩

end Handed

/-! ## Which keys are down -/

/-- What is known of the keys that are down, here and at other nodes. -/
structure KeyInv (selfId : NodeId) (s : RouterRun) : Prop where
  /-- The router keeps its own id. -/
  selfId_eq : s.router.selfId = selfId
  /-- The router knows which modifiers are held. -/
  mask_tracks : s.router.modifiers.mask.Tracks (keyEvents s.log)
  /-- While the focus is here, the keys that are down here are those that are held. -/
  here : s.router.active = selfId →
    ∀ c, Down selfId s.output selfId c ↔ lastWrite c (keyEvents s.log) = some true
  /-- A key that is down at another node is held, and the node has the focus. -/
  elsewhere : ∀ n c, n ≠ selfId → Down selfId s.output n c →
    s.router.active = n ∧ lastWrite c (keyEvents s.log) = some true

/-- Keys are down here only while the focus is here. -/
def HereClean (selfId : NodeId) (s : RouterRun) : Prop :=
  ∀ c, Down selfId s.output selfId c → s.router.active = selfId

section Step

variable {layout : Layout} {selfId : NodeId} {width height : UInt32} {s t : RouterRun}
  {call : RouterCall}

/-- A new router has handed over no key. -/
theorem keyInv_init (h : (routerRuns layout selfId width height).init s) : KeyInv selfId s := by
  obtain rfl : s = .start (.new selfId width height) := h
  have hnone : ∀ n c, ¬ Down selfId (RouterRun.start (.new selfId width height)).output n c :=
    fun n c hdown => nomatch hdown
  refine ⟨rfl, tracks_empty, fun _ c => ?_, fun n c _ hdown => absurd hdown (hnone n c)⟩
  exact iff_of_false (hnone _ c) fun hheld => nomatch hheld

/-- A call keeps what is known of the keys. -/
theorem keyInv_step (hI : KeyInv selfId s) (hcall : call.CarriesKey)
    (h : s.step layout call = some t) : KeyInv selfId t := by
  obtain ⟨hself, hmask, out, hlog, hcases⟩ := step_cases h
  rw [hI.selfId_eq] at hself hcases
  have htracks : t.router.modifiers.mask.Tracks (keyEvents t.log) := by
    rw [hmask, hlog]
    exact tracks_step hI.mask_tracks
  have hout := output_concat hlog
  have hevents := keyEvents_concat s.log call out
  rw [← hlog] at hevents
  rcases hcases with ⟨hne, hactive, rfl⟩ | ⟨heq, hactive, rfl⟩ | ⟨heq, hnokey, rfl⟩
  · -- the event goes to the node with the focus
    refine ⟨hself, htracks, fun hhome => absurd (hactive.symm.trans hhome) hne, fun n c hn => ?_⟩
    unfold Down
    rw [hout, handed_append, handed_remote hcall, hevents, hactive]
    by_cases hfocus : n = s.router.active
    · subst hfocus
      intro hdown
      refine ⟨rfl, ?_⟩
      rcases lastWrite_event s.router.active c (handed selfId s.output) (keyEvents s.log)
        call.keyEvent with ⟨hsame, hsame'⟩ | ⟨pressed, hnew, hnew'⟩
      · rw [hsame] at hdown
        rw [hsame']
        exact (hI.elsewhere _ c hn hdown).2
      · rw [hnew', ← hnew, hdown]
    · intro hdown
      -- at the other nodes nothing changes
      rw [lastWrite_event_ne hfocus] at hdown
      exact absurd (hI.elsewhere n c hn hdown).1.symm hfocus
  · -- the event is delivered here
    refine ⟨hself, htracks, fun _ c => ?_, fun n c hn hdown => ?_⟩
    · unfold Down
      rw [hout, handed_append, handed_local hcall, hevents]
      rcases lastWrite_event selfId c (handed selfId s.output) (keyEvents s.log) call.keyEvent with
        ⟨hsame, hsame'⟩ | ⟨pressed, hnew, hnew'⟩
      · rw [hsame, hsame']
        exact hI.here heq c
      · rw [hnew, hnew']
    · unfold Down at hdown
      rw [hout, handed_append, handed_local hcall, lastWrite_event_ne hn] at hdown
      exact absurd ((hI.elsewhere n c hn hdown).1.symm.trans heq) hn
  · -- the cursor crosses an edge of this screen
    have hsame : keyEvents t.log = keyEvents s.log := by
      rw [hevents, hnokey]
      simp
    have hheld : ∀ c, s.router.modifiers.mask.Holds c →
        lastWrite c (keyEvents s.log) = some true := fun c hholds => ((hI.mask_tracks c).1 hholds).2
    have hlast : ∀ n c, lastWrite (n, c) (handed selfId t.output) =
        (if t.router.active = n ∧ s.router.modifiers.mask.Holds c then some true else none).or
          (lastWrite (n, c) (handed selfId s.output)) := by
      intro n c
      rw [hout, handed_append, lastWrite_append, lastWrite_crossing]
    refine ⟨hself, htracks, fun hhome c => ?_, fun n c hn hdown => ?_⟩
    · unfold Down
      rw [hlast, hsame]
      -- the node that is entered gets the modifiers that are held
      split_ifs with hmod
      · simp [hheld c hmod.2]
      · rw [Option.none_or]
        exact hI.here heq c
    · unfold Down at hdown
      rw [hlast] at hdown
      rw [hsame]
      split_ifs at hdown with hmod
      · exact ⟨hmod.1, hheld c hmod.2⟩
      · rw [Option.none_or] at hdown
        exact absurd ((hI.elsewhere n c hn hdown).1.symm.trans heq) hn

/-- What is down here does not change by a call after which the focus is at another node. -/
theorem down_here_of_away (hself : s.router.selfId = selfId) (hcall : call.CarriesKey)
    (h : s.step layout call = some t) (haway : t.router.active ≠ selfId) (c : HidUsage) :
    Down selfId t.output selfId c ↔ Down selfId s.output selfId c := by
  obtain ⟨-, -, out, hlog, hcases⟩ := step_cases h
  rw [hself] at hcases
  unfold Down
  rw [output_concat hlog, handed_append]
  -- an event for another node, one for this node, and a crossing
  rcases hcases with ⟨hne, -, rfl⟩ | ⟨heq, hactive, -⟩ | ⟨-, -, rfl⟩
  · rw [handed_remote hcall, lastWrite_event_ne (Ne.symm hne)]
  · exact absurd (hactive.trans heq) haway
  · rw [lastWrite_append, lastWrite_crossing, if_neg fun hand => haway hand.1, Option.none_or]

/-- A move on the own screen gives the focus to the neighbour at the edge that it picks. -/
theorem active_of_move {dx dy : Int32} {ts : UInt64} (hhome : s.router.active = s.router.selfId)
    (h : s.step layout (.mouseMove dx dy ts) = some t) :
    t.router.active = (s.router.crossing layout dx dy).getD s.router.active := by
  obtain ⟨⟨out, r⟩, hmove, rfl⟩ := Option.map_eq_some_iff.1 h
  cases hcross : s.router.crossing layout dx dy with
  | some n =>
    rw [Router.onMouseMove_cross ts hhome hcross] at hmove
    obtain ⟨-, rfl⟩ := Prod.mk.inj (Option.some.inj hmove)
    rfl
  | none =>
    rw [Router.onMouseMove_clamp ts hhome hcross, Option.bind_eq_some_iff] at hmove
    obtain ⟨x, -, hmove⟩ := hmove
    obtain ⟨y, -, hmove⟩ := Option.bind_eq_some_iff.1 hmove
    obtain ⟨-, rfl⟩ := Prod.mk.inj (Option.some.inj hmove)
    rfl

/-- After a call no key is down here that should not be, precisely when the call crosses clean. -/
theorem hereClean_step_iff (hI : KeyInv selfId s) (hclean : HereClean selfId s)
    (hcall : call.CarriesKey) (h : s.step layout call = some t) :
    HereClean selfId t ↔ s.CrossesClean layout call := by
  by_cases hback : t.router.active = selfId
  · -- the focus is here, so the call does not give it to another node
    refine iff_of_true (fun _ _ => hback) ?_
    rintro dx dy ts n rfl hhome hcross hne
    have hactive := active_of_move hhome h
    rw [hcross, Option.getD_some, hback] at hactive
    exact absurd (hactive.symm.trans hI.selfId_eq.symm) hne
  · have hdown : HereClean selfId t ↔ ∀ c, ¬ Down selfId s.output selfId c := by
      refine forall_congr' fun c => ?_
      rw [down_here_of_away hI.selfId_eq hcall h hback c]
      exact imp_congr_right fun _ => iff_false_intro hback
    rw [hdown]
    by_cases hhome : s.router.active = selfId
    · -- the call crosses, and the keys that are down are those that are held
      have hup : (∀ c, ¬ Down selfId s.output selfId c) ↔ AllUp s.log :=
        forall_congr' fun c => not_congr (hI.here hhome c)
      rw [hup]
      have hhome' : s.router.active = s.router.selfId := hhome.trans hI.selfId_eq.symm
      refine ⟨fun hup dx dy ts n _ _ _ _ => hup, fun hcross => ?_⟩
      cases call with
      | key event =>
        obtain rfl := Option.some.inj h
        have hstays : (s.router.onKey event).2.active = s.router.active :=
          (onKey_spec s.router event).2.2.1
        exact absurd (hstays.trans hhome) hback
      | mouseMove dx dy ts =>
        have hactive := active_of_move hhome' h
        cases hn : s.router.crossing layout dx dy with
        | none =>
          rw [hn, Option.getD_none] at hactive
          exact absurd (hactive.trans hhome) hback
        | some n =>
          rw [hn, Option.getD_some] at hactive
          refine hcross dx dy ts n rfl hhome' hn ?_
          rw [← hactive, hI.selfId_eq]
          exact hback
    · refine iff_of_true (fun c hc => hhome (hclean c hc)) ?_
      rintro dx dy ts n - hhome'
      exact absurd (hhome'.trans hI.selfId_eq) hhome

/-- A key that has stayed down here after a crossing stays down. -/
theorem not_hereClean_step (hself : s.router.selfId = selfId) (hcall : call.CarriesKey)
    (h : s.step layout call = some t) (hs : ¬ HereClean selfId s) : ¬ HereClean selfId t := by
  obtain ⟨c, hc⟩ := not_forall.1 hs
  obtain ⟨hdown, haway⟩ := Classical.not_imp.1 hc
  have haway' := (away_step h ⟨hself, haway⟩).2
  intro hclean
  exact haway' (hclean c ((down_here_of_away hself hcall h haway' c).2 hdown))

/-- At the end of a run no key is down here that should not be, precisely when all of its calls
crossed clean. -/
theorem hereClean_run_iff {calls : List RouterCall} (hI : KeyInv selfId s)
    (hclean : HereClean selfId s) (hcalls : ∀ call ∈ calls, call.CarriesKey)
    (hrun : (routerRuns layout selfId width height).run s calls = some t) :
    HereClean selfId t ↔ ∀ p ∈ (routerRuns layout selfId width height).steps s calls,
      p.1.CrossesClean layout p.2.1 := by
  -- on the calls, from every state with the invariant: the step lemma settles the first call
  induction calls generalizing s with
  | nil =>
    obtain rfl : s = t := by simpa [System.run] using hrun
    simpa [System.steps] using hclean
  | cons call calls ih =>
    rw [List.forall_mem_cons] at hcalls
    obtain ⟨u, hu, hrun⟩ := Option.bind_eq_some_iff.1 hrun
    have hstep : s.step layout call = some u := hu
    have hiff := hereClean_step_iff hI hclean hcalls.1 hstep
    have hIu := keyInv_step hI hcalls.1 hstep
    simp only [System.steps, hu, List.forall_mem_cons]
    rw [← hiff]
    by_cases hclean' : HereClean selfId u
    · rw [ih hIu hclean' hcalls.2 hrun]
      exact (and_iff_right hclean').symm
    · -- what is down here after a crossing stays down to the end
      refine iff_of_false ?_ fun hand => hclean' hand.1
      refine (System.run_invariant (P := fun _ call => call.CarriesKey)
        (I := fun s => KeyInv selfId s ∧ ¬ HereClean selfId s) ?_ ⟨hIu, hclean'⟩ ?_ hrun).2
      · rintro s call v ⟨hI, hnot⟩ hcall hstep
        exact ⟨keyInv_step hI hcall hstep, not_hereClean_step hI.selfId_eq hcall hstep hnot⟩
      · exact fun p hp => hcalls.2 _ (System.label_mem_of_mem_steps hp)

end Step

/-- Stuck keys. In a run of a router with moves and key events, at whose end every key is up, no
node is left with a stuck key precisely when all keys were up at every move that gave the focus to
another node. -/
theorem noStuckKeys_iff (layout : Layout) (selfId : NodeId) (width height : UInt32)
    (calls : List RouterCall) (hcalls : ∀ call ∈ calls, call.CarriesKey) (t : RouterRun)
    (hrun : (routerRuns layout selfId width height).run
      (.start (.new selfId width height)) calls = some t) (hup : AllUp t.log) :
    NoStuckKeys selfId t.output ↔
      ∀ p ∈ (routerRuns layout selfId width height).steps (.start (.new selfId width height)) calls,
        p.1.CrossesClean layout p.2.1 := by
  have hinit : KeyInv selfId (.start (.new selfId width height)) :=
    keyInv_init (show (routerRuns layout selfId width height).init _ from rfl)
  have hclean : HereClean selfId (.start (.new selfId width height)) := fun _ _ => rfl
  rw [← hereClean_run_iff hinit hclean hcalls hrun, noStuckKeys_iff_not_down]
  have hI : KeyInv selfId t := by
    refine System.run_invariant (P := fun _ call => call.CarriesKey) (I := KeyInv selfId)
      (fun s call u hI hcall hstep => keyInv_step hI hcall hstep) hinit ?_ hrun
    exact fun p hp => hcalls _ (System.label_mem_of_mem_steps hp)
  constructor
  · exact fun hnone c hdown => absurd hdown (hnone selfId c)
  · intro hhere n c hdown
    by_cases hn : n = selfId
    · subst hn
      exact hup c ((hI.here (hhere c hdown) c).1 hdown)
    · exact hup c (hI.elsewhere n c hn hdown).2

section Example

/-- The cursor walks off the right edge, and A is pressed and released there. -/
def typeRight : List RouterCall :=
  [.mouseMove 60 0 0, .key (.key .keyA true .empty), .key (.key .keyA false .empty)]

/-- A is pressed, the cursor walks off the right edge, and A is released. -/
def carryRight : List RouterCall :=
  [.key (.key .keyA true .empty), .mouseMove 60 0 0, .key (.key .keyA false .empty)]

/-- A key that is pressed and released is up. -/
theorem allUp_of_typed {log : List (RouterCall × List Routed)} {c : HidUsage}
    (h : keyEvents log = [(c, true), (c, false)]) : AllUp log := by
  intro c'
  rw [h]
  by_cases hc : c = c' <;> simp [lastWrite, hc]

/-- Typing on the right screen is subject to the rule. -/
theorem typeRight_noStuckKeys_iff : ∃ t,
    (routerRuns twoScreens (node 1) 100 100).run (.start (.new (node 1) 100 100)) typeRight =
        some t ∧
      (NoStuckKeys (node 1) t.output ↔
        ∀ p ∈ (routerRuns twoScreens (node 1) 100 100).steps (.start (.new (node 1) 100 100))
          typeRight, p.1.CrossesClean twoScreens p.2.1) := by
  have hevents : ((routerRuns twoScreens (node 1) 100 100).run (.start (.new (node 1) 100 100))
      typeRight).any (fun t => decide (keyEvents t.log = [(.keyA, true), (.keyA, false)])) =
        true := by
    decide
  obtain ⟨t, hrun, ht⟩ := (Option.any_eq_true ..).1 hevents
  refine ⟨t, hrun, noStuckKeys_iff twoScreens (node 1) 100 100 typeRight ?_ t hrun
    (allUp_of_typed (of_decide_eq_true ht))⟩
  unfold typeRight
  rw [List.forall_mem_cons, List.forall_mem_cons, List.forall_mem_singleton]
  exact ⟨trivial, ⟨_, _, _, rfl⟩, ⟨_, _, _, rfl⟩⟩

/-- What the walk with a held key hands to the nodes: the press to one, the release to the other. -/
def carryRightHanded : List ((NodeId × HidUsage) × Bool) :=
  [((node 1, .keyA), true), ((node 2, .keyA), false)]

/-- The key that is held over the edge stays down on the left screen. -/
theorem carryRight_sticks :
    ¬ ∀ (layout : Layout) (selfId : NodeId) (width height : UInt32) (calls : List RouterCall),
      (∀ call ∈ calls, call.CarriesKey) → ∀ t,
        (routerRuns layout selfId width height).run (.start (.new selfId width height)) calls =
          some t → AllUp t.log → NoStuckKeys selfId t.output := by
  intro h
  have hrun : ((routerRuns twoScreens (node 1) 100 100).run (.start (.new (node 1) 100 100))
      carryRight).any (fun t => decide (keyEvents t.log = [(.keyA, true), (.keyA, false)] ∧
        handed (node 1) t.output = carryRightHanded)) = true := by decide
  obtain ⟨t, hrun, ht⟩ := (Option.any_eq_true ..).1 hrun
  obtain ⟨hevents, hhanded⟩ := of_decide_eq_true ht
  have hcalls : ∀ call ∈ carryRight, call.CarriesKey := by
    unfold carryRight
    rw [List.forall_mem_cons, List.forall_mem_cons, List.forall_mem_singleton]
    exact ⟨⟨_, _, _, rfl⟩, trivial, ⟨_, _, _, rfl⟩⟩
  have hstuck := h twoScreens (node 1) 100 100 carryRight hcalls t hrun (allUp_of_typed hevents)
    (node 1) .keyA [] [((node 2, .keyA), false)] hhanded
  exact absurd hstuck (by decide)

end Example

end Borderless.Input
