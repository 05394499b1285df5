import Borderless.Input.Router

/-!
# Handing the input to another node

What the router's output looks like over a whole run. A node gets mouse and key events only after an
`Enter` that tells it the held modifiers, and nothing is delivered here while another node has the
focus. But the focus does not come back: a router that has handed it over forwards every later call.
-/

namespace Borderless.Input

open LastWrite Transition

/-! ## The output of a run -/

/-- An `Enter` or a `Leave`. -/
def Routed.IsBoundary : Routed → Prop
  | .remote _ (.enter ..) => True
  | .remote _ (.leave ..) => True
  | _ => False

/-- The node that has the focus after some output: the target of the last `Enter`. -/
def focus (selfId : NodeId) (out : List Routed) : NodeId :=
  out.foldl (fun n r => match r with | .remote target (.enter ..) => target | _ => n) selfId

/-- The key events of some calls. -/
def keyEvents (log : List (RouterCall × List Routed)) : List (HidUsage × Bool) :=
  log.filterMap fun p => p.1.keyEvent

/-- The last boundary in the output is an `Enter` for the node from this one, right after the
`Leave` that announces it. -/
def Entered (selfId n : NodeId) (out : List Routed) : Prop :=
  ∃ pre m mid,
    out = pre ++ .remote selfId (.leave n) :: .remote n (.enter selfId m) :: mid ∧
      ∀ r ∈ mid, ¬ r.IsBoundary

/-- The event is for a node that has been entered. -/
def IsInput : InputEvent → Prop
  | .mouseMove .. => True
  | .key .. => True
  | _ => False

/-- The rules of handing the input over. -/
structure HandsOver (selfId : NodeId) (s : RouterRun) : Prop where
  /-- Another node gets an event only after it was entered. -/
  entered : ∀ before n event after, s.output = before ++ .remote n event :: after → n ≠ selfId →
    IsInput event → Entered selfId n before
  /-- An `Enter` follows the `Leave` that announces it, and holds the modifiers whose last key event
  before it was a press. -/
  enter : ∀ pre call out post n fromNode m, s.log = pre ++ (call, out) :: post →
    .remote n (.enter fromNode m) ∈ out →
      out = [.remote selfId (.leave n), .remote n (.enter selfId m)] ∧ fromNode = selfId ∧
        m.Tracks (keyEvents pre)
  /-- An event is delivered here only while the focus is here. -/
  home : ∀ before event after, s.output = before ++ .localEvent event :: after →
    focus selfId before = selfId

/-- A call of `on_key` carries a key event. -/
def RouterCall.CarriesKey : RouterCall → Prop
  | .mouseMove .. => True
  | .key event => ∃ code pressed m, event = .key code pressed m

section Output

variable {layout : Layout} {selfId : NodeId} {width height : UInt32} {s t : RouterRun}
  {call : RouterCall} {out : List Routed} {n : NodeId}

/-- The focus after two sequences of outputs. -/
theorem focus_append (out' : List Routed) :
    focus selfId (out ++ out') = focus (focus selfId out) out' := by
  unfold focus
  rw [List.foldl_append]

/-- A call that carries a key is no boundary. -/
theorem not_isBoundary_event (h : call.CarriesKey) :
    ¬ (Routed.remote n call.event).IsBoundary := by
  cases call with
  | mouseMove dx dy ts => exact not_false
  | key event =>
    obtain ⟨code, pressed, m, rfl⟩ := h
    exact not_false

/-- What is not a boundary leaves the focus where it is. -/
theorem focus_singleton {r : Routed} (h : ¬ r.IsBoundary) : focus selfId [r] = selfId := by
  unfold focus
  rw [List.foldl_cons, List.foldl_nil]
  split
  · exact absurd trivial h
  · rfl

/-- The output after one more call. -/
theorem output_concat (h : t.log = s.log ++ [(call, out)]) : t.output = s.output ++ out := by
  unfold RouterRun.output
  rw [h]
  simp

/-- The keys after one more call. -/
theorem keyEvents_concat (log : List (RouterCall × List Routed)) (call : RouterCall)
    (out : List Routed) :
    keyEvents (log ++ [(call, out)]) = keyEvents log ++ call.keyEvent.toList := by
  unfold keyEvents
  rw [List.filterMap_append]
  cases h : call.keyEvent <;> simp [h]

/-- A node stays entered until the next boundary. -/
theorem Entered.concat (h : Entered selfId n out) {r : Routed}
    (hr : ¬ r.IsBoundary) : Entered selfId n (out ++ [r]) := by
  obtain ⟨pre, m, mid, rfl, hmid⟩ := h
  refine ⟨pre, m, mid ++ [r], by simp, ?_⟩
  rw [List.forall_mem_append, List.forall_mem_singleton]
  exact ⟨hmid, hr⟩

/-- One more event for the node with the focus. -/
theorem HandsOver.concat_event {r : Routed} (h : HandsOver selfId s)
    (hlog : t.log = s.log ++ [(call, [r])]) (hr : ¬ r.IsBoundary)
    (hremote : ∀ n event, r = .remote n event → n ≠ selfId → Entered selfId n s.output)
    (hlocal : ∀ event, r = .localEvent event → focus selfId s.output = selfId) :
    HandsOver selfId t where
  entered before n event after hout hn hinput := by
    rw [output_concat hlog] at hout
    rcases append_singleton_eq_split hout with ⟨after', hout⟩ | ⟨rfl, hlast⟩
    · exact h.entered before n event after' hout hn hinput
    · exact hremote n event hlast hn
  enter pre call' out post n fromNode m hsplit hmem := by
    rw [hlog] at hsplit
    rcases append_singleton_eq_split hsplit with ⟨post', hsplit⟩ | ⟨rfl, hlast⟩
    · exact h.enter pre call' out post' n fromNode m hsplit hmem
    · obtain ⟨rfl, rfl⟩ := Prod.mk.inj hlast
      obtain rfl := List.mem_singleton.1 hmem
      exact absurd trivial hr
  home before event after hout := by
    rw [output_concat hlog] at hout
    rcases append_singleton_eq_split hout with ⟨after', hout⟩ | ⟨rfl, hlast⟩
    · exact h.home before event after' hout
    · exact hlocal event hlast

/-- One more crossing. -/
theorem HandsOver.concat_crossing {m : ModifierMask} (h : HandsOver selfId s)
    (hlog : t.log =
      s.log ++ [(call, [.remote selfId (.leave n), .remote n (.enter selfId m)])])
    (hm : m.Tracks (keyEvents s.log)) : HandsOver selfId t := by
  have hsplit : ∀ before r after, t.output = before ++ r :: after → ¬ r.IsBoundary →
      ∃ after', s.output = before ++ r :: after' := by
    intro before r after hout hr
    rw [output_concat hlog, List.append_cons] at hout
    rcases append_singleton_eq_split hout with ⟨after', hout⟩ | ⟨-, rfl⟩
    · rcases append_singleton_eq_split hout with hold | ⟨-, rfl⟩
      · exact hold
      · exact absurd trivial hr
    · exact absurd trivial hr
  constructor
  · intro before n' event after hout hn hinput
    have hr : ¬ (Routed.remote n' event).IsBoundary := by
      cases event with
      | mouseMove | key => exact not_false
      | _ => exact absurd hinput not_false
    obtain ⟨after', hout⟩ := hsplit before _ after hout hr
    exact h.entered before n' event after' hout hn hinput
  · intro pre call' out post n' fromNode m' hpre hmem
    rw [hlog] at hpre
    rcases append_singleton_eq_split hpre with ⟨post', hpre⟩ | ⟨rfl, hlast⟩
    · exact h.enter pre call' out post' n' fromNode m' hpre hmem
    · obtain ⟨rfl, rfl⟩ := Prod.mk.inj hlast
      obtain ⟨rfl, rfl, rfl⟩ : n' = n ∧ fromNode = selfId ∧ m' = m := by simpa using hmem
      exact ⟨rfl, rfl, hm⟩
  · intro before event after hout
    obtain ⟨after', hout⟩ := hsplit before _ after hout not_false
    exact h.home before event after' hout

end Output

/-! ## The rules hold -/

/-- What is known of a router and of its output so far. -/
structure RouterInv (selfId : NodeId) (s : RouterRun) : Prop where
  /-- The router keeps its own id. -/
  selfId_eq : s.router.selfId = selfId
  /-- The router knows which node has the focus. -/
  active_eq : s.router.active = focus selfId s.output
  /-- The router knows which modifiers are held. -/
  mask_tracks : s.router.modifiers.mask.Tracks (keyEvents s.log)
  /-- Another node that has the focus was entered. -/
  entered : s.router.active ≠ selfId → Entered selfId s.router.active s.output
  /-- The rules hold so far. -/
  handsOver : HandsOver selfId s

section Rules

variable {layout : Layout} {selfId : NodeId} {width height : UInt32} {s t : RouterRun}
  {call : RouterCall}

/-- A new router has neither output nor keys. -/
theorem routerInv_init (h : (routerRuns layout selfId width height).init s) :
    RouterInv selfId s := by
  obtain rfl : s = .start (.new selfId width height) := h
  refine ⟨rfl, rfl, tracks_empty, fun hne => absurd rfl hne, ?_, ?_, ?_⟩
  · intro before n event after hout
    exact absurd hout (by simp [RouterRun.output, RouterRun.start])
  · intro pre call out post n fromNode m hlog
    exact absurd hlog (by simp [RouterRun.start])
  · intro before event after hout
    exact absurd hout (by simp [RouterRun.output, RouterRun.start])

/-- A call keeps track of its key event. -/
theorem tracks_step {m : ModifierMask} {log : List (RouterCall × List Routed)} {out : List Routed}
    (h : m.Tracks (keyEvents log)) :
    (call.modifiers m).Tracks (keyEvents (log ++ [(call, out)])) := by
  rw [keyEvents_concat]
  unfold RouterCall.modifiers
  cases call.keyEvent with
  | none => simpa using h
  | some e => exact h.update e.1 e.2

/-- A call with a key event or a move keeps the invariant. -/
theorem routerInv_step (hI : RouterInv selfId s) (hcall : call.CarriesKey)
    (h : s.step layout call = some t) : RouterInv selfId t := by
  obtain ⟨hself, hmask, out, hlog, hcases⟩ := step_cases h
  rw [hI.selfId_eq] at hself hcases
  have htracks : t.router.modifiers.mask.Tracks (keyEvents t.log) := by
    rw [hmask, hlog]
    exact tracks_step hI.mask_tracks
  have hout := output_concat hlog
  rcases hcases with ⟨hne, hactive, rfl⟩ | ⟨heq, hactive, rfl⟩ | ⟨heq, -, rfl⟩
  · -- the event goes to another node
    have hr := not_isBoundary_event (n := s.router.active) hcall
    have hentered := hI.entered hne
    refine ⟨hself, ?_, htracks, ?_, hI.handsOver.concat_event hlog hr ?_ ?_⟩
    · rw [hactive, hout, focus_append, focus_singleton hr, hI.active_eq]
    · intro _
      rw [hactive, hout]
      exact hentered.concat hr
    · rintro n event heq -
      obtain ⟨rfl, -⟩ := Routed.remote.inj heq
      exact hentered
    · exact fun event heq => nomatch heq
  · -- the event is delivered here
    have hr : ¬ (Routed.localEvent call.event).IsBoundary := not_false
    refine ⟨hself, ?_, htracks, ?_, hI.handsOver.concat_event hlog hr ?_ ?_⟩
    · rw [hactive, hout, focus_append, focus_singleton hr, hI.active_eq]
    · intro hne
      exact absurd (hactive.trans heq) hne
    · exact fun n event heq => nomatch heq
    · intro event _
      rw [← hI.active_eq, heq]
  · -- the cursor crosses an edge of this screen
    have hm : s.router.modifiers.mask.Tracks (keyEvents s.log) := hI.mask_tracks
    refine ⟨hself, ?_, htracks, ?_, hI.handsOver.concat_crossing hlog hm⟩
    · rw [hout, focus_append]
      rfl
    · intro _
      exact ⟨s.output, _, [], hout, by simp⟩

/-- Enter precedes remote input. In the output of a router over any layout, whatever moves and key
events it gets: a node gets a move or a key only after an `Enter` from this node with no boundary in
between; an `Enter` comes right after the `Leave` for it and holds exactly the modifiers whose last
key event before the crossing was a press; and nothing is delivered here while the focus is at
another node. -/
theorem enter_precedes_input
    (h : (routerRuns layout selfId width height).Reach (fun _ call => call.CarriesKey) s) :
    HandsOver selfId s :=
  (h.invariant (fun _ => routerInv_init) fun _ _ _ hI hcall => routerInv_step hI hcall).handsOver

end Rules

section Example

/-- Two screens side by side. -/
def twoScreens : Layout := .ofCalls [⟨node 1, .right, node 2⟩]

/-- Shift is pressed, the cursor walks off the right edge, and A is pressed. -/
def walkRight : List RouterCall :=
  [.key (.key .lshift true .lshift), .mouseMove 60 0 0, .key (.key .keyA true .lshift)]

/-- What the router says to that. -/
def walkRightOutput : List Routed :=
  [.localEvent (.key .lshift true .lshift), .remote (node 1) (.leave (node 2)),
    .remote (node 2) (.enter (node 1) .lshift), .remote (node 2) (.key .keyA true .lshift)]

/-- The other node gets the key after an `Enter` that says that Shift is held. -/
theorem walkRight_hands_over :
    ∃ s, (routerRuns twoScreens (node 1) 100 100).Reach (fun _ call => call.CarriesKey) s ∧
      s.output = walkRightOutput ∧ HandsOver (node 1) s := by
  have hcalls : ∀ call ∈ walkRight, call.CarriesKey := by
    unfold walkRight
    rw [List.forall_mem_cons, List.forall_mem_cons, List.forall_mem_singleton]
    exact ⟨⟨_, _, _, rfl⟩, trivial, ⟨_, _, _, rfl⟩⟩
  obtain ⟨s, hs, hout⟩ := System.exists_reach_of_run (M := routerRuns twoScreens (node 1) 100 100)
    (P := fun _ call => call.CarriesKey) (p := fun s => s.output = walkRightOutput) rfl walkRight
    (fun p hp => hcalls _ (System.label_mem_of_mem_steps hp)) (by decide)
  exact ⟨s, hs, hout, enter_precedes_input hs⟩

end Example

/-! ## The way back -/

/-- Some further calls give the focus back to this node. -/
def ComesHome (layout : Layout) (selfId : NodeId) (width height : UInt32) (s : RouterRun) : Prop :=
  ∃ calls t, (routerRuns layout selfId width height).run s calls = some t ∧
    t.router.active = selfId

/-- A router without the focus does not get it back by a call. -/
theorem away_step {layout : Layout} {selfId : NodeId} {s t : RouterRun} {call : RouterCall}
    (h : s.step layout call = some t)
    (hs : s.router.selfId = selfId ∧ s.router.active ≠ selfId) :
    t.router.selfId = selfId ∧ t.router.active ≠ selfId := by
  obtain ⟨hself, hne⟩ := hs
  obtain ⟨hself', -, out, -, hcases⟩ := step_cases h
  refine ⟨hself'.trans hself, ?_⟩
  rw [hself] at hcases
  rcases hcases with ⟨-, hactive, -⟩ | ⟨heq, -⟩ | ⟨heq, -⟩
  · rwa [hactive]
  · exact absurd heq hne
  · exact absurd heq hne

/-- The router keeps its own id. -/
theorem selfId_eq {layout : Layout} {selfId : NodeId} {width height : UInt32} {s : RouterRun}
    (hs : (routerRuns layout selfId width height).Reachable s) : s.router.selfId = selfId := by
  refine hs.invariant (I := fun s => s.router.selfId = selfId) ?_ ?_
  · rintro _ rfl
    rfl
  · intro s call t hself _ hstep
    exact (step_cases hstep).1.trans hself

/-- A router without the focus does not get it back by any number of calls. -/
theorem away_run {layout : Layout} {selfId : NodeId} {width height : UInt32} {s t : RouterRun}
    {calls : List RouterCall} (hs : (routerRuns layout selfId width height).Reachable s)
    (hn : s.router.active ≠ selfId)
    (hrun : (routerRuns layout selfId width height).run s calls = some t) :
    t.router.active ≠ selfId := by
  have hstays := System.run_invariant (P := fun _ _ => True)
    (I := fun s : RouterRun => s.router.selfId = selfId ∧ s.router.active ≠ selfId)
    (fun _ _ _ hI _ hstep => away_step hstep hI) ⟨selfId_eq hs, hn⟩ (fun _ _ => trivial) hrun
  exact hstays.2

/-- The cursor never comes home. Over any layout, once a run has given the focus to another node, no
further calls give it back, even where an edge of that node leads to this one. -/
theorem never_comes_home (layout : Layout) (selfId : NodeId) (width height : UInt32)
    (s : RouterRun) (hs : (routerRuns layout selfId width height).Reachable s)
    (hn : s.router.active ≠ selfId) : ¬ ComesHome layout selfId width height s := by
  rintro ⟨calls, t, hrun, hhome⟩
  exact away_run hs hn hrun hhome

section Example

/-- The walk to the right gives the focus to the other node. -/
theorem walkRight_leaves : ∃ s, (routerRuns twoScreens (node 1) 100 100).Reachable s ∧
    s.router.active = node 2 :=
  System.exists_reach_of_run rfl walkRight (fun _ _ => trivial) (by decide)

/-- The left edge of that node leads back, and still the focus stays there. -/
theorem walkRight_stays :
    twoScreens.neighbor (node 2) .left = some (node 1) ∧
      ∃ s, s.router.active = node 2 ∧ ¬ ComesHome twoScreens (node 1) 100 100 s := by
  obtain ⟨s, hs, hactive⟩ := walkRight_leaves
  have hn : s.router.active ≠ node 1 := by
    rw [hactive]
    decide
  exact ⟨by decide, s, hactive, never_comes_home twoScreens (node 1) 100 100 s hs hn⟩

/-- So the cursor cannot always come home. -/
theorem cannot_always_come_home :
    ¬ ∀ (calls : List Connect) (selfId : NodeId) (width height : UInt32) (s : RouterRun),
      (routerRuns (Layout.ofCalls calls) selfId width height).Reachable s →
      ∀ n e, s.router.active = n → n ≠ selfId →
        (Layout.ofCalls calls).neighbor n e = some selfId →
        ComesHome (Layout.ofCalls calls) selfId width height s := by
  intro h
  obtain ⟨s, hs, hactive⟩ := walkRight_leaves
  have hn : s.router.active ≠ node 1 := by
    rw [hactive]
    decide
  obtain ⟨calls, t, hrun, hhome⟩ :=
    h [⟨node 1, .right, node 2⟩] (node 1) 100 100 s hs (node 2) .left hactive (by decide) (by decide)
  exact away_run hs hn hrun hhome

end Example

end Borderless.Input
