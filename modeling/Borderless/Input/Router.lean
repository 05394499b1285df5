import Borderless.Input.Layout
import Borderless.Input.Modifiers
import Borderless.Lib.Transition

/-!
# The edge-crossing router

`crates/input-router/src/router.rs`: the router of the node whose keyboard and mouse are in use. It
delivers events locally until the cursor leaves the screen over an edge with a neighbour; then it
emits a `Leave` for itself and an `Enter` for the neighbour, and forwards every event from there on.
A run is a sequence of calls. The additions of the cursor wrap, as in a release build, and a call
that panics ends the run.
-/

namespace Borderless.Input

open LastWrite Transition

/-- One routing decision. -/
inductive Routed
  /-- `Routed::Local`: the event is delivered here. -/
  | localEvent (event : InputEvent)
  /-- `Routed::Remote`: the event goes to the node. -/
  | remote (target : NodeId) (event : InputEvent)
deriving DecidableEq

/-- `Router`: the node with the focus, the modifiers, and where the cursor is on its screen. -/
structure Router where
  /-- Self id. -/
  selfId : NodeId
  /-- The node with the focus. -/
  active : NodeId
  /-- Modifier-key state, shipped with Enter events. -/
  modifiers : ModifierState
  /-- Cursor position on the screen of the active node. -/
  x : Int32
  /-- Cursor position on the screen of the active node. -/
  y : Int32
  /-- Width of the local screen. -/
  width : Int32
  /-- Height of the local screen. -/
  height : Int32
deriving DecidableEq

/-- `i32::saturating_sub`: the difference, or the nearest `i32`. -/
def saturatingSub (a b : Int32) : Int32 := Int32.ofIntClamp (a.toInt - b.toInt)

/-- `Ord::clamp`, which panics when the bounds are the wrong way round. -/
def clamp (a min max : Int32) : Option Int32 :=
  if min ≤ max then some (if a < min then min else if max < a then max else a) else none

namespace Router

/-- `Router::new`: the focus is here, and the cursor in the middle of the screen. -/
def new (selfId : NodeId) (width height : UInt32) : Router where
  selfId := selfId
  active := selfId
  modifiers := .new
  x := width.toInt32 / 2
  y := height.toInt32 / 2
  width := width.toInt32
  height := height.toInt32

/-- The edge over which the cursor has left the screen. -/
def crossedEdge (r : Router) : Option Edge :=
  if r.x < 0 then some .left
  else if r.x ≥ r.width then some .right
  else if r.y < 0 then some .top
  else if r.y ≥ r.height then some .bottom
  else none

/-- `Router::on_mouse_move`: a delta for the node with the focus, or a hand-over to the neighbor
behind the edge that the cursor crosses. Without a neighbor the cursor stays on the screen. -/
def onMouseMove (r : Router) (dx dy : Int32) (ts : UInt64) (layout : Layout) :
    Option (List Routed × Router) :=
  -- a remote node gets the delta as it is
  if r.active ≠ r.selfId then some ([.remote r.active (.mouseMove dx dy ts)], r)
  else
    let r : Router := { r with x := r.x + dx, y := r.y + dy }
    match r.crossedEdge.bind fun e => layout.neighbor r.selfId e with
    | none => do
      let x ← clamp r.x 0 (saturatingSub r.width 1)
      let y ← clamp r.y 0 (saturatingSub r.height 1)
      some ([.localEvent (.mouseMove dx dy ts)], { r with x := x, y := y })
    | some nextNode =>
      let modifiers := r.modifiers.mask
      some ([.remote r.selfId (.leave nextNode), .remote nextNode (.enter r.selfId modifiers)],
        { r with active := nextNode, x := r.width / 2, y := r.height / 2 })

/-- `Router::on_key`: the modifiers follow the key, and the event goes to the node with the focus.
-/
def onKey (r : Router) (event : InputEvent) : Routed × Router :=
  let r : Router :=
    match event with
    | .key code pressed _ => { r with modifiers := (r.modifiers.update code pressed).2 }
    | _ => r
  if r.active = r.selfId then (.localEvent event, r) else (.remote r.active event, r)

end Router

/-- A call of the router. -/
inductive RouterCall
  /-- `on_mouse_move`. -/
  | mouseMove (dx dy : Int32) (ts : UInt64)
  /-- `on_key`. -/
  | key (event : InputEvent)
deriving DecidableEq

/-- A run of the router: the router, and all calls so far with what they returned. -/
structure RouterRun where
  /-- The router. -/
  router : Router
  /-- The calls, oldest first, each with its output. -/
  log : List (RouterCall × List Routed)

namespace RouterRun

/-- The run that starts with a router. -/
def start (router : Router) : RouterRun := ⟨router, []⟩

/-- The concatenated output. -/
def output (s : RouterRun) : List Routed := s.log.flatMap Prod.snd

/-- One call. -/
def step (layout : Layout) (s : RouterRun) (call : RouterCall) : Option RouterRun :=
  match call with
  | .mouseMove dx dy ts =>
    (s.router.onMouseMove dx dy ts layout).map fun (out, r) => ⟨r, s.log ++ [(call, out)]⟩
  | .key event =>
    let (out, r) := s.router.onKey event
    some ⟨r, s.log ++ [(call, [out])]⟩

end RouterRun

/-- The runs of a new router over a layout. -/
def routerRuns (layout : Layout) (selfId : NodeId) (width height : UInt32) :
    System RouterRun RouterCall where
  init s := s = .start (.new selfId width height)
  step := RouterRun.step layout

/-! ## What a call does -/

section Calls

variable {layout : Layout} {s t : RouterRun} {call : RouterCall}

/-- The event that a call hands on. -/
def RouterCall.event : RouterCall → InputEvent
  | .mouseMove dx dy ts => .mouseMove dx dy ts
  | .key event => event

/-- The key event of a call. -/
def RouterCall.keyEvent : RouterCall → Option (HidUsage × Bool)
  | .key (.key code pressed _) => some (code, pressed)
  | _ => none

/-- What a call leaves of the modifiers. -/
def RouterCall.modifiers (call : RouterCall) (m : ModifierMask) : ModifierMask :=
  match call.keyEvent with
  | some (code, pressed) => updateModifiers code pressed m
  | none => m

/-- A key event goes to the node with the focus, which stays where it is. -/
theorem onKey_spec (r : Router) (event : InputEvent) :
    (r.onKey event).1 =
      (if r.active = r.selfId then .localEvent event else .remote r.active event) ∧
    (r.onKey event).2.selfId = r.selfId ∧ (r.onKey event).2.active = r.active ∧
    (r.onKey event).2.modifiers.mask = (RouterCall.key event).modifiers r.modifiers.mask := by
  cases event with
  | key code pressed m =>
    unfold Router.onKey
    dsimp only
    split_ifs
    · exact ⟨rfl, rfl, rfl, mask_update ..⟩
    · exact ⟨rfl, rfl, rfl, mask_update ..⟩
  | _ =>
    unfold Router.onKey
    dsimp only
    split_ifs
    · exact ⟨rfl, rfl, rfl, rfl⟩
    · exact ⟨rfl, rfl, rfl, rfl⟩

/-- A call hands its event on to the node with the focus, or it crosses an edge of this node. -/
theorem step_cases (h : s.step layout call = some t) :
    t.router.selfId = s.router.selfId ∧
    t.router.modifiers.mask = call.modifiers s.router.modifiers.mask ∧
    ∃ out, t.log = s.log ++ [(call, out)] ∧
      (s.router.active ≠ s.router.selfId ∧ t.router.active = s.router.active ∧
          out = [.remote s.router.active call.event] ∨
        s.router.active = s.router.selfId ∧ t.router.active = s.router.active ∧
          out = [.localEvent call.event] ∨
        s.router.active = s.router.selfId ∧ call.keyEvent = none ∧
          out = [.remote s.router.selfId (.leave t.router.active),
            .remote t.router.active (.enter s.router.selfId s.router.modifiers.mask)]) := by
  cases call with
  | mouseMove dx dy ts =>
    simp only [RouterRun.step, Router.onMouseMove] at h
    by_cases hactive : s.router.active = s.router.selfId
    · rw [if_neg (not_not.2 hactive)] at h
      split at h
      · -- the cursor stays
        obtain ⟨⟨out, r⟩, hmove, rfl⟩ := Option.map_eq_some_iff.1 h
        obtain ⟨x, hx, hmove⟩ := Option.bind_eq_some_iff.1 hmove
        obtain ⟨y, hy, hmove⟩ := Option.bind_eq_some_iff.1 hmove
        obtain ⟨rfl, rfl⟩ := Prod.mk.inj (Option.some.inj hmove)
        exact ⟨rfl, rfl, _, rfl, .inr (.inl ⟨hactive, rfl, rfl⟩)⟩
      · obtain rfl := Option.some.inj h
        exact ⟨rfl, rfl, _, rfl, .inr (.inr ⟨hactive, rfl, rfl⟩)⟩
    · rw [if_pos hactive] at h
      obtain rfl := Option.some.inj h
      exact ⟨rfl, rfl, _, rfl, .inl ⟨hactive, rfl, rfl⟩⟩
  | key event =>
    obtain ⟨hout, hself, hactive, hmask⟩ := onKey_spec s.router event
    have ht : t = ⟨(s.router.onKey event).2, s.log ++ [(.key event, [(s.router.onKey event).1])]⟩ :=
      (Option.some.inj h).symm
    subst ht
    refine ⟨hself, hmask, [(s.router.onKey event).1], rfl, ?_⟩
    rw [hout]
    by_cases heq : s.router.active = s.router.selfId
    · exact .inr (.inl ⟨heq, hactive, by rw [if_pos heq]; rfl⟩)
    · exact .inl ⟨heq, hactive, by rw [if_neg heq]; rfl⟩

end Calls

end Borderless.Input
