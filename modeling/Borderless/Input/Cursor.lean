import Borderless.Input.Router
import Borderless.Lib.MachineInt

/-!
# The cursor in exact arithmetic

What the integers say of a move: where the cursor is to be after it, and through which edges of the
screen it has left. `cursor_exact_iff` compares the machine arithmetic of the router with this over
whole runs, and `handOff_exact_iff` its choice of a neighbour in one move. The sums are exact while
they fit into an `i32`, and a screen has to be below `2^31` pixels each way. The choice goes wrong
in a corner, where the cursor leaves through two edges: `on_mouse_move` picks the left or right edge
before it asks for a neighbour.
-/

namespace Borderless.Input

open MachineInt Transition

/-- The exact position has left a screen through the edge. -/
def LeftThrough (width height x y : ℤ) : Edge → Prop
  | .left => x < 0
  | .right => width ≤ x
  | .top => y < 0
  | .bottom => height ≤ y

/-- The edge is on the left or on the right. -/
def Edge.IsSide : Edge → Prop
  | .left | .right => True
  | .top | .bottom => False

/-- A position leaves through at most one side, and through at most one of the top and the bottom.
-/
theorem LeftThrough.unique {width height x y : ℤ} (hwidth : 0 < width) (hheight : 0 < height)
    {e e' : Edge} (h : LeftThrough width height x y e) (h' : LeftThrough width height x y e')
    (hside : e.IsSide ↔ e'.IsSide) : e = e' := by
  cases e <;> cases e' <;> simp [LeftThrough, Edge.IsSide] at h h' hside ⊢ <;> omega

namespace Router

/-- The exact abscissa after a move. -/
def exactX (r : Router) (dx : Int32) : ℤ := r.x.toInt + dx.toInt

/-- The exact ordinate after a move. -/
def exactY (r : Router) (dy : Int32) : ℤ := r.y.toInt + dy.toInt

/-- The router after the additions of `on_mouse_move`. -/
def moved (r : Router) (dx dy : Int32) : Router := { r with x := r.x + dx, y := r.y + dy }

/-- The neighbour at the edge that a move picks. -/
def crossing (layout : Layout) (r : Router) (dx dy : Int32) : Option NodeId :=
  (r.moved dx dy).crossedEdge.bind fun e => layout.neighbor r.selfId e

/-- The cursor is on a screen. -/
def Inside (width height : ℤ) (r : Router) : Prop :=
  0 ≤ r.x.toInt ∧ r.x.toInt < width ∧ 0 ≤ r.y.toInt ∧ r.y.toInt < height

instance (width height : ℤ) : DecidablePred (Inside width height) := fun _ =>
  inferInstanceAs (Decidable (_ ∧ _))

/-- The additions of a move do not overflow. -/
def SumsFit (r : Router) (dx dy : Int32) : Prop := Fits (r.exactX dx) ∧ Fits (r.exactY dy)

instance (r : Router) (dx dy : Int32) : Decidable (r.SumsFit dx dy) :=
  inferInstanceAs (Decidable (_ ∧ _))

/-- The exact position after a move has left the screen of the router through the edge. -/
def LeavesThrough (r : Router) (dx dy : Int32) : Edge → Prop :=
  LeftThrough r.width.toInt r.height.toInt (r.exactX dx) (r.exactY dy)

variable {r : Router} {dx dy : Int32} {layout : Layout} {n : NodeId}

/-- The sums are exact precisely when they fit. -/
theorem moved_exact_iff :
    (r.moved dx dy).x.toInt = r.exactX dx ∧ (r.moved dx dy).y.toInt = r.exactY dy ↔
      r.SumsFit dx dy :=
  and_congr (toInt_add_eq_iff r.x dx) (toInt_add_eq_iff r.y dy)

/-- Where the sums fit, the edge that is picked is one through which the exact position has left, a
side if there is one. -/
theorem crossedEdge_cases (hfit : r.SumsFit dx dy) :
    (∃ e, (r.moved dx dy).crossedEdge = some e ∧ r.LeavesThrough dx dy e ∧
      (e.IsSide ∨ ∀ e', e'.IsSide → ¬ r.LeavesThrough dx dy e')) ∨
    (r.moved dx dy).crossedEdge = none ∧ ∀ e, ¬ r.LeavesThrough dx dy e := by
  obtain ⟨hx, hy⟩ := moved_exact_iff.2 hfit
  have hzero : (0 : Int32).toInt = 0 := by decide
  have hwidth : (r.moved dx dy).width = r.width := rfl
  have hheight : (r.moved dx dy).height = r.height := rfl
  unfold crossedEdge
  simp only [ge_iff_le, Int32.lt_iff_toInt_lt, Int32.le_iff_toInt_le, hzero, hx, hy, hwidth,
    hheight]
  split_ifs with hleft hright htop hbottom
  · exact .inl ⟨.left, rfl, hleft, .inl trivial⟩
  · exact .inl ⟨.right, rfl, hright, .inl trivial⟩
  · refine .inl ⟨.top, rfl, htop, .inr fun e he => ?_⟩
    cases e <;> simp_all [LeavesThrough, LeftThrough, Edge.IsSide]
  · refine .inl ⟨.bottom, rfl, hbottom, .inr fun e he => ?_⟩
    cases e <;> simp_all [LeavesThrough, LeftThrough, Edge.IsSide]
  · refine .inr ⟨rfl, fun e => ?_⟩
    cases e <;> simp_all [LeavesThrough, LeftThrough]

/-- On a screen of positive size the clamp returns, and it is the exact one. -/
theorem clamp_exact (a : Int32) {size : Int32} (hsize : 0 < size.toInt) :
    ∃ c, clamp a 0 (saturatingSub size 1) = some c ∧
      c.toInt = max 0 (min a.toInt (size.toInt - 1)) := by
  have hzero : (0 : Int32).toInt = 0 := by decide
  have hlt := size.toInt_lt
  have hmax : (saturatingSub size 1).toInt = size.toInt - 1 := by
    have hone : (1 : Int32).toInt = 1 := by decide
    have hle : (Int32.maxValue).toInt = 2^31 - 1 := by decide
    have hge : (Int32.minValue).toInt = -2^31 := by decide
    unfold saturatingSub
    rw [hone, Int32.toInt_ofIntClamp (by omega) (by omega)]
  unfold clamp
  rw [if_pos (by rw [Int32.le_iff_toInt_le]; omega)]
  refine ⟨_, rfl, ?_⟩
  simp only [Int32.lt_iff_toInt_lt]
  split_ifs <;> omega

/-- A move over an edge with a neighbour. -/
theorem onMouseMove_cross (ts : UInt64) (hhome : r.active = r.selfId)
    (hedge : r.crossing layout dx dy = some n) :
    r.onMouseMove dx dy ts layout =
      some ([.remote r.selfId (.leave n), .remote n (.enter r.selfId r.modifiers.mask)],
        { r with active := n, x := r.width / 2, y := r.height / 2 }) := by
  unfold crossing moved at hedge
  unfold onMouseMove
  rw [if_neg (not_not.2 hhome)]
  dsimp only
  rw [hedge]

/-- A move over no edge with a neighbour clamps the cursor. -/
theorem onMouseMove_clamp (ts : UInt64) (hhome : r.active = r.selfId)
    (hedge : r.crossing layout dx dy = none) :
    r.onMouseMove dx dy ts layout =
      (clamp (r.x + dx) 0 (saturatingSub r.width 1)).bind fun x =>
        (clamp (r.y + dy) 0 (saturatingSub r.height 1)).bind fun y =>
          some ([.localEvent (.mouseMove dx dy ts)], { r with x := x, y := y }) := by
  unfold crossing moved at hedge
  unfold onMouseMove
  rw [if_neg (not_not.2 hhome)]
  dsimp only
  rw [hedge]
  rfl

/-- On a screen of positive size such a move returns. -/
theorem onMouseMove_stay (ts : UInt64) (hhome : r.active = r.selfId)
    (hwidth : 0 < r.width.toInt) (hheight : 0 < r.height.toInt)
    (hedge : r.crossing layout dx dy = none) :
    ∃ x y, r.onMouseMove dx dy ts layout =
        some ([.localEvent (.mouseMove dx dy ts)], { r with x := x, y := y }) ∧
      x.toInt = max 0 (min (r.moved dx dy).x.toInt (r.width.toInt - 1)) ∧
      y.toInt = max 0 (min (r.moved dx dy).y.toInt (r.height.toInt - 1)) := by
  obtain ⟨x, hx, hxint⟩ := clamp_exact (r.x + dx) hwidth
  obtain ⟨y, hy, hyint⟩ := clamp_exact (r.y + dy) hheight
  refine ⟨x, y, ?_, hxint, hyint⟩
  rw [onMouseMove_clamp ts hhome hedge, hx, hy]
  rfl

/-- A key event leaves the cursor and the focus alone. -/
theorem onKey_cursor (r : Router) (event : InputEvent) :
    (r.onKey event).2 = { r with modifiers := (r.onKey event).2.modifiers } := by
  unfold onKey
  dsimp only
  cases event <;> split_ifs <;> rfl

end Router

/-! ## Runs -/

/-- The exact position after a call, with what it has returned: a move that stays is made and clamped,
and another one leaves the cursor in the middle. -/
def exactAfter (width height : ℤ) (pos : ℤ × ℤ) : RouterCall × List Routed → ℤ × ℤ
  | (.mouseMove dx dy _, [.localEvent _]) =>
    (max 0 (min (pos.1 + dx.toInt) (width - 1)), max 0 (min (pos.2 + dy.toInt) (height - 1)))
  | (.mouseMove .., _) => (width / 2, height / 2)
  | (.key _, _) => pos

/-- The exact position in a run, which starts in the middle of the screen. -/
def RouterRun.position (width height : ℤ) (s : RouterRun) : ℤ × ℤ :=
  s.log.foldl (exactAfter width height) (width / 2, height / 2)

/-- The cursor arithmetic of a move is safe and exact: no addition overflows, no clamp panics, the
cursor is on the screen if it has stayed, and the edge that is picked is one through which the
exact position, which was at `pos`, has left the screen of the given size. -/
structure Router.ExactMove (layout : Layout) (width height : ℤ) (pos : ℤ × ℤ) (r : Router)
    (dx dy : Int32) (ts : UInt64) : Prop where
  /-- The sums are exact. -/
  sums : (r.moved dx dy).x.toInt = r.exactX dx ∧ (r.moved dx dy).y.toInt = r.exactY dy
  /-- The call returns, and leaves the cursor on the screen. -/
  returns : ∃ out t, r.onMouseMove dx dy ts layout = some (out, t) ∧
    (t.active = t.selfId → t.Inside width height)
  /-- The edge is right. -/
  edge : match (r.moved dx dy).crossedEdge with
    | some e => LeftThrough width height (pos.1 + dx.toInt) (pos.2 + dy.toInt) e
    | none => ∀ e, ¬ LeftThrough width height (pos.1 + dx.toInt) (pos.2 + dy.toInt) e

/-- A call that moves the cursor on the own screen is exact. -/
def RouterRun.ExactCall (layout : Layout) (width height : UInt32) (s : RouterRun)
    (call : RouterCall) : Prop :=
  ∀ dx dy ts, call = .mouseMove dx dy ts → s.router.active = s.router.selfId →
    s.router.ExactMove layout width.toNat height.toNat (s.position width.toNat height.toNat) dx dy ts

/-- The sums of a call that moves the cursor on the own screen do not overflow. -/
def RouterRun.SumsFit (s : RouterRun) (call : RouterCall) : Prop :=
  ∀ dx dy ts, call = .mouseMove dx dy ts → s.router.active = s.router.selfId →
    s.router.SumsFit dx dy

/-- The router has the size of the screen, and as long as the focus is here the cursor is on it. -/
structure Router.OnScreen (width height : ℤ) (r : Router) : Prop where
  /-- The width. -/
  width_eq : r.width.toInt = width
  /-- The height. -/
  height_eq : r.height.toInt = height
  /-- The cursor. -/
  inside : r.active = r.selfId → r.Inside width height

/-- As long as the focus is here the cursor is at this position. -/
def Router.At (r : Router) (pos : ℤ × ℤ) : Prop :=
  r.active = r.selfId → r.x.toInt = pos.1 ∧ r.y.toInt = pos.2

section Runs

variable {layout : Layout} {selfId : NodeId} {width height : UInt32} {r : Router}
  {dx dy : Int32} {ts : UInt64}

/-- A new router is in the middle of the screen. -/
theorem onScreen_new (hw : 1 ≤ width) (hh : 1 ≤ height) (hw' : width.toNat < 2^31)
    (hh' : height.toNat < 2^31) :
    (Router.new selfId width height).OnScreen width.toNat height.toNat := by
  have hwidth := toInt_toInt32 hw'
  have hheight := toInt_toInt32 hh'
  have hone : (1 : UInt32).toNat = 1 := by decide
  rw [UInt32.le_iff_toNat_le, hone] at hw hh
  refine ⟨hwidth, hheight, fun _ => ?_⟩
  unfold Router.new Router.Inside
  dsimp only
  rw [toInt_half _ (by omega), toInt_half _ (by omega), hwidth, hheight]
  omega

/-- It is at the exact position. -/
theorem at_new (hw' : width.toNat < 2^31) (hh' : height.toNat < 2^31) :
    (Router.new selfId width height).At (width.toNat / 2, height.toNat / 2) := by
  intro _
  unfold Router.new
  dsimp only
  rw [toInt_half _ (by rw [toInt_toInt32 hw']; omega), toInt_toInt32 hw',
    toInt_half _ (by rw [toInt_toInt32 hh']; omega), toInt_toInt32 hh']
  exact ⟨rfl, rfl⟩

/-- A move whose sums fit is exact, and leaves the cursor on the screen, at the exact position. -/
theorem exactMove_of_sumsFit {w h : ℤ} (hw : 0 < w) (hh : 0 < h) (hr : r.OnScreen w h) {pos : ℤ × ℤ}
    (hpos : r.At pos) (hhome : r.active = r.selfId) (hfit : r.SumsFit dx dy) :
    r.ExactMove layout w h pos dx dy ts ∧
      ∀ out t, r.onMouseMove dx dy ts layout = some (out, t) →
        t.OnScreen w h ∧ t.At (exactAfter w h pos (.mouseMove dx dy ts, out)) := by
  obtain ⟨hposX, hposY⟩ := hpos hhome
  have hsums := Router.moved_exact_iff.2 hfit
  have hcases := Router.crossedEdge_cases hfit
  unfold Router.LeavesThrough at hcases
  rw [hr.width_eq, hr.height_eq] at hcases
  have hedge : match (r.moved dx dy).crossedEdge with
      | some e => LeftThrough w h (pos.1 + dx.toInt) (pos.2 + dy.toInt) e
      | none => ∀ e, ¬ LeftThrough w h (pos.1 + dx.toInt) (pos.2 + dy.toInt) e := by
    rw [← hposX, ← hposY]
    rcases hcases with ⟨e, he, hleft, -⟩ | ⟨hnone, hinside⟩
    · rw [he]
      exact hleft
    · rw [hnone]
      exact hinside
  have hwpos : 0 < r.width.toInt := by
    rw [hr.width_eq]
    exact hw
  have hhpos : 0 < r.height.toInt := by
    rw [hr.height_eq]
    exact hh
  cases hneighbor : r.crossing layout dx dy with
  | none =>
    -- the cursor is clamped
    obtain ⟨x, y, hmove, hx, hy⟩ := Router.onMouseMove_stay ts hhome hwpos hhpos hneighbor
    rw [hr.width_eq] at hx
    rw [hr.height_eq] at hy
    have hin : ({ r with x := x, y := y } : Router).Inside w h := by
      show 0 ≤ x.toInt ∧ x.toInt < w ∧ 0 ≤ y.toInt ∧ y.toInt < h
      omega
    refine ⟨⟨hsums, ⟨_, _, hmove, fun _ => hin⟩, hedge⟩, fun out t ht => ?_⟩
    obtain ⟨rfl, rfl⟩ := Prod.mk.inj (Option.some.inj (hmove.symm.trans ht))
    refine ⟨⟨hr.width_eq, hr.height_eq, fun _ => hin⟩, fun _ => ?_⟩
    rw [hsums.1] at hx
    rw [hsums.2] at hy
    show x.toInt = max 0 (min (pos.1 + dx.toInt) (w - 1)) ∧
      y.toInt = max 0 (min (pos.2 + dy.toInt) (h - 1))
    rw [hx, hy, ← hposX, ← hposY]
    exact ⟨rfl, rfl⟩
  | some n =>
    -- the cursor goes back to the middle
    have hmove := Router.onMouseMove_cross ts hhome hneighbor
    have hin :
        ({ r with active := n, x := r.width / 2, y := r.height / 2 } : Router).Inside w h := by
      show 0 ≤ (r.width / 2).toInt ∧ (r.width / 2).toInt < w ∧ 0 ≤ (r.height / 2).toInt ∧
        (r.height / 2).toInt < h
      rw [toInt_half _ hwpos.le, toInt_half _ hhpos.le, hr.width_eq, hr.height_eq]
      omega
    refine ⟨⟨hsums, ⟨_, _, hmove, fun _ => hin⟩, hedge⟩, fun out t ht => ?_⟩
    obtain ⟨rfl, rfl⟩ := Prod.mk.inj (Option.some.inj (hmove.symm.trans ht))
    refine ⟨⟨hr.width_eq, hr.height_eq, fun _ => hin⟩, fun _ => ?_⟩
    show (r.width / 2).toInt = w / 2 ∧ (r.height / 2).toInt = h / 2
    rw [toInt_half _ hwpos.le, toInt_half _ hhpos.le, hr.width_eq, hr.height_eq]
    exact ⟨rfl, rfl⟩

/-- A call whose sums fit keeps the cursor on the screen, at the exact position. -/
theorem onScreen_step {w h : ℤ} (hw : 0 < w) (hh : 0 < h) {s t : RouterRun} {call : RouterCall}
    (hs : s.router.OnScreen w h) (hpos : s.router.At (s.position w h)) (hfit : s.SumsFit call)
    (hstep : s.step layout call = some t) :
    t.router.OnScreen w h ∧ t.router.At (t.position w h) := by
  have hposition : ∀ router out, RouterRun.position w h ⟨router, s.log ++ [(call, out)]⟩ =
      exactAfter w h (s.position w h) (call, out) := by
    intro router out
    unfold RouterRun.position
    rw [List.foldl_append]
    rfl
  cases call with
  | key event =>
    obtain rfl := Option.some.inj hstep
    rw [hposition]
    show (s.router.onKey event).2.OnScreen w h ∧ (s.router.onKey event).2.At (s.position w h)
    rw [Router.onKey_cursor]
    exact ⟨⟨hs.width_eq, hs.height_eq, hs.inside⟩, hpos⟩
  | mouseMove dx dy ts =>
    obtain ⟨⟨out, r⟩, hmove, rfl⟩ := Option.map_eq_some_iff.1 hstep
    rw [hposition]
    by_cases hhome : s.router.active = s.router.selfId
    · exact (exactMove_of_sumsFit hw hh hs hpos hhome (hfit dx dy ts rfl hhome)).2 out r hmove
    · unfold Router.onMouseMove at hmove
      rw [if_pos hhome] at hmove
      obtain ⟨-, rfl⟩ := Prod.mk.inj (Option.some.inj hmove)
      exact ⟨hs, fun hback => absurd hback hhome⟩

/-- A clamp to a screen that is too large panics. -/
theorem clamp_of_large (a : Int32) {size : UInt32} (hsize : 2^31 ≤ size.toNat) :
    clamp a 0 (saturatingSub size.toInt32 1) = none := by
  -- the cast makes the size negative, and then the upper end of the clamp is below the lower one
  have hneg := toInt_toInt32_neg hsize
  have hone : (1 : Int32).toInt = 1 := by decide
  have hzero : (0 : Int32).toInt = 0 := by decide
  have hsub : (saturatingSub size.toInt32 1).toInt < 0 := by
    unfold saturatingSub Int32.ofIntClamp
    rw [hone]
    split_ifs with hmin hmax
    · rw [Int32.toInt_ofIntLE]
      omega
    · have hmax' : Int32.maxValue.toInt = 2^31 - 1 := by decide
      omega
    · decide
  unfold clamp
  rw [if_neg]
  rw [Int32.le_iff_toInt_le, hzero]
  omega

/-- Without neighbours, the first move on a screen that is too large panics. -/
theorem not_exactMove_of_alone (hlarge : 2^31 ≤ width.toNat ∨ 2^31 ≤ height.toNat)
    (halone : ∀ e, layout.neighbor selfId e = none) (w h : ℤ) (pos : ℤ × ℤ) :
    ¬ (Router.new selfId width height).ExactMove layout w h pos dx dy ts := by
  intro hexact
  obtain ⟨out, t, hmove, -⟩ := hexact.returns
  have hedge : (Router.new selfId width height).crossing layout dx dy = none := by
    unfold Router.crossing
    cases ((Router.new selfId width height).moved dx dy).crossedEdge with
    | none => rfl
    | some e => exact halone e
  rw [Router.onMouseMove_clamp ts rfl hedge, Option.bind_eq_some_iff] at hmove
  obtain ⟨x, hx, hmove⟩ := hmove
  obtain ⟨y, hy, -⟩ := Option.bind_eq_some_iff.1 hmove
  rcases hlarge with hwidth | hheight
  · exact absurd (hx.symm.trans (clamp_of_large _ hwidth)) (by simp)
  · exact absurd (hy.symm.trans (clamp_of_large _ hheight)) (by simp)

/-- On a screen that is too large some edge is picked, also for a move that stays on the screen. -/
theorem not_exactMove_of_inside (hlarge : 2^31 ≤ width.toNat ∨ 2^31 ≤ height.toNat) {w h : ℤ}
    {pos : ℤ × ℤ} (hinside : ∀ e, ¬ LeftThrough w h (pos.1 + dx.toInt) (pos.2 + dy.toInt) e) :
    ¬ (Router.new selfId width height).ExactMove layout w h pos dx dy ts := by
  intro hexact
  have hedge := hexact.edge
  cases hcrossed : ((Router.new selfId width height).moved dx dy).crossedEdge with
  | some e =>
    rw [hcrossed] at hedge
    exact hinside e hedge
  | none =>
    -- the cursor is between 0 and the size, which the cast has made negative
    unfold Router.crossedEdge at hcrossed
    have hzero : (0 : Int32).toInt = 0 := by decide
    simp only [ge_iff_le, Int32.lt_iff_toInt_lt, Int32.le_iff_toInt_le, hzero] at hcrossed
    split_ifs at hcrossed with hleft hright htop hbottom
    rcases hlarge with hwidth | hheight
    · have hneg : ((Router.new selfId width height).moved dx dy).width.toInt < 0 :=
        toInt_toInt32_neg hwidth
      omega
    · have hneg : ((Router.new selfId width height).moved dx dy).height.toInt < 0 :=
        toInt_toInt32_neg hheight
      omega

/-- Cursor arithmetic. On a screen below `2^31` pixels each way, over any layout: in a state that is
reached by calls whose sums did not overflow, a call is safe and exact precisely when its sums do
not overflow. On a larger screen no first move is safe and exact that stays on the screen, over any
layout, and none at all if the node has no neighbours. -/
theorem cursor_exact_iff (layout : Layout) (selfId : NodeId) (width height : UInt32)
    (hw : 1 ≤ width) (hh : 1 ≤ height) :
    (width.toNat < 2^31 ∧ height.toNat < 2^31 → ∀ s,
      (routerRuns layout selfId width height).Reach RouterRun.SumsFit s →
        ∀ call, s.ExactCall layout width height call ↔ s.SumsFit call) ∧
    (2^31 ≤ width.toNat ∨ 2^31 ≤ height.toNat → ∀ dx dy ts,
      ((∀ e, ¬ LeftThrough width.toNat height.toNat (width.toNat / 2 + dx.toInt)
          (height.toNat / 2 + dy.toInt) e) ∨ ∀ e, layout.neighbor selfId e = none) →
        ¬ (RouterRun.start (.new selfId width height)).ExactCall layout width height
          (.mouseMove dx dy ts)) := by
  constructor
  · rintro ⟨hw', hh'⟩ s hs call
    have hone : (1 : UInt32).toNat = 1 := by decide
    have hwpos : (0 : ℤ) < width.toNat := by
      rw [UInt32.le_iff_toNat_le, hone] at hw
      omega
    have hhpos : (0 : ℤ) < height.toNat := by
      rw [UInt32.le_iff_toNat_le, hone] at hh
      omega
    -- the invariant of the runs whose sums fit
    have hscreen : s.router.OnScreen width.toNat height.toNat ∧
        s.router.At (s.position width.toNat height.toNat) := by
      refine hs.invariant (I := fun s => s.router.OnScreen width.toNat height.toNat ∧
        s.router.At (s.position width.toNat height.toNat)) ?_ ?_
      · rintro _ rfl
        exact ⟨onScreen_new hw hh hw' hh', at_new hw' hh'⟩
      · intro s call t hI hfit hstep
        exact onScreen_step hwpos hhpos hI.1 hI.2 hfit hstep
    constructor
    · intro hexact dx dy ts hcall hhome
      exact Router.moved_exact_iff.1 (hexact dx dy ts hcall hhome).sums
    · intro hfit dx dy ts hcall hhome
      exact (exactMove_of_sumsFit hwpos hhpos hscreen.1 hscreen.2 hhome
        (hfit dx dy ts hcall hhome)).1
  · rintro hlarge dx dy ts (hinside | halone) hexact
    · exact not_exactMove_of_inside hlarge hinside (hexact dx dy ts rfl rfl)
    · exact not_exactMove_of_alone hlarge halone _ _ _ (hexact dx dy ts rfl rfl)

end Runs

section Example

/-- A move to the right on a screen of 100 by 100 pixels without neighbours. -/
theorem cursor_exact_alone :
    (RouterRun.start (.new ⟨.replicate 16 1⟩ 100 100)).ExactCall .new 100 100 (.mouseMove 60 0 0) ↔
      (RouterRun.start (.new ⟨.replicate 16 1⟩ 100 100)).SumsFit (.mouseMove 60 0 0) :=
  (cursor_exact_iff .new ⟨.replicate 16 1⟩ 100 100 (by decide) (by decide)).1
    ⟨by decide, by decide⟩ _ (.init rfl) (.mouseMove 60 0 0)

/-- A move to the right by `i32::MAX` overflows. -/
theorem cursor_not_exact :
    ¬ ∀ (layout : Layout) (selfId : NodeId) (width height : UInt32), 1 ≤ width → 1 ≤ height →
      ∀ s, (routerRuns layout selfId width height).Reachable s →
        ∀ call, s.ExactCall layout width height call := by
  intro h
  have hexact := h .new ⟨.replicate 16 1⟩ 100 100 (by decide) (by decide) _ (.init rfl)
    (.mouseMove Int32.maxValue 0 0) Int32.maxValue 0 0 rfl rfl
  exact absurd (Router.moved_exact_iff.1 hexact.sums) (by decide)

end Example

/-! ## Handing the cursor over -/

/-- A move hands the focus over to a node. -/
def Router.HandsOffTo (layout : Layout) (r : Router) (dx dy : Int32) (ts : UInt64) (n : NodeId) :
    Prop :=
  ∃ t, r.onMouseMove dx dy ts layout =
      some ([.remote r.selfId (.leave n), .remote n (.enter r.selfId r.modifiers.mask)], t) ∧
    t.active = n

/-- A move leaves the screen through an edge with the neighbour. -/
def Router.LeavesFor (layout : Layout) (r : Router) (dx dy : Int32) (n : NodeId) : Prop :=
  ∃ e, r.LeavesThrough dx dy e ∧ layout.neighbor r.selfId e = some n

/-- A move delivers its event here, and clamps the cursor. -/
def Router.StaysHere (layout : Layout) (r : Router) (dx dy : Int32) (ts : UInt64) : Prop :=
  ∃ t, r.onMouseMove dx dy ts layout = some ([.localEvent (.mouseMove dx dy ts)], t) ∧
    t.active = r.selfId ∧ t.x.toInt = max 0 (min (r.exactX dx) (r.width.toInt - 1)) ∧
    t.y.toInt = max 0 (min (r.exactY dy) (r.height.toInt - 1))

/-- A move hands the focus over precisely when it leaves through an edge with a neighbour, to the
neighbour of such an edge, and otherwise the cursor stays. -/
structure Router.ExactHandOff (layout : Layout) (r : Router) (dx dy : Int32) (ts : UInt64) :
    Prop where
  /-- When it hands over. -/
  iff : (∃ n, r.HandsOffTo layout dx dy ts n) ↔ ∃ n, r.LeavesFor layout dx dy n
  /-- To which node. -/
  target : ∀ n, r.HandsOffTo layout dx dy ts n → r.LeavesFor layout dx dy n
  /-- What happens otherwise. -/
  stays : (¬ ∃ n, r.LeavesFor layout dx dy n) → r.StaysHere layout dx dy ts

/-- A move leaves through a side without a neighbour and, at the same time, through the top or the
bottom, where there is one. -/
def Router.SideHidesNeighbor (layout : Layout) (r : Router) (dx dy : Int32) : Prop :=
  (∃ e : Edge, e.IsSide ∧ r.LeavesThrough dx dy e ∧ layout.neighbor r.selfId e = none) ∧
  ∃ e : Edge, ¬ e.IsSide ∧ r.LeavesThrough dx dy e ∧ (layout.neighbor r.selfId e).isSome

/-- The choice of a neighbour. From a cursor inside the screen, a move whose sums do not overflow
hands the focus over as it is to, if and only if it does not leave through a side without a
neighbour and through the top or the bottom with one. -/
theorem handOff_exact_iff (layout : Layout) (r : Router) (hhome : r.active = r.selfId)
    (hin : r.Inside r.width.toInt r.height.toInt) (dx dy : Int32) (hfit : r.SumsFit dx dy)
    (ts : UInt64) : r.ExactHandOff layout dx dy ts ↔ ¬ r.SideHidesNeighbor layout dx dy := by
  have hsums := Router.moved_exact_iff.2 hfit
  have hwpos : 0 < r.width.toInt := lt_of_le_of_lt hin.1 hin.2.1
  have hhpos : 0 < r.height.toInt := lt_of_le_of_lt hin.2.2.1 hin.2.2.2
  have hcases := Router.crossedEdge_cases hfit
  cases hneighbor : r.crossing layout dx dy with
  | some n =>
    -- the edge that is picked has a neighbour, so both sides hold
    have hmove := Router.onMouseMove_cross ts hhome hneighbor
    obtain ⟨e, he, hn⟩ := Option.bind_eq_some_iff.1 hneighbor
    obtain ⟨e', he', hleft, hfirst⟩ := hcases.resolve_right fun hnone => by
      cases he.symm.trans hnone.1
    obtain rfl := Option.some.inj (he.symm.trans he')
    have hleaves : r.LeavesFor layout dx dy n := ⟨e, hleft, hn⟩
    constructor
    · rintro - ⟨⟨side, hside, hthrough, hnone⟩, -⟩
      rcases hfirst with hpicked | hno
      · obtain rfl := hleft.unique hwpos hhpos hthrough (iff_of_true hpicked hside)
        cases hn.symm.trans hnone
      · exact hno side hside hthrough
    · intro _
      refine ⟨⟨fun _ => ⟨n, hleaves⟩, fun _ => ⟨n, _, hmove, rfl⟩⟩, ?_,
        fun hno => absurd ⟨n, hleaves⟩ hno⟩
      rintro n' ⟨t, hmove', -⟩
      obtain ⟨hout, -⟩ := Prod.mk.inj (Option.some.inj (hmove.symm.trans hmove'))
      obtain rfl : n = n' := by simpa using hout
      exact hleaves
  | none =>
    obtain ⟨x, y, hmove, hx, hy⟩ := Router.onMouseMove_stay ts hhome hwpos hhpos hneighbor
    have hstays : r.StaysHere layout dx dy ts := by
      rw [hsums.1] at hx
      rw [hsums.2] at hy
      exact ⟨_, hmove, hhome, hx, hy⟩
    have hnot : ∀ n, ¬ r.HandsOffTo layout dx dy ts n := by
      rintro n ⟨t, hmove', -⟩
      obtain ⟨hout, -⟩ := Prod.mk.inj (Option.some.inj (hmove.symm.trans hmove'))
      simp at hout
    constructor
    · rintro hexact ⟨-, e, -, hthrough, hsome⟩
      obtain ⟨n, hn⟩ := Option.isSome_iff_exists.1 hsome
      obtain ⟨n', hn'⟩ := hexact.iff.2 ⟨n, e, hthrough, hn⟩
      exact hnot n' hn'
    · intro hfree
      have hleaves : ¬ ∃ n, r.LeavesFor layout dx dy n := by
        rintro ⟨n, e, hthrough, hn⟩
        obtain ⟨e', he', hleft, hfirst⟩ := hcases.resolve_right fun hnone => hnone.2 e hthrough
        unfold Router.crossing at hneighbor
        rw [he', Option.bind_some] at hneighbor
        -- the edge that is picked has no neighbour, so it is another one than `e`
        have hne : ¬ (e.IsSide ↔ e'.IsSide) := by
          intro hside
          obtain rfl := hthrough.unique hwpos hhpos hleft hside
          cases hn.symm.trans hneighbor
        rcases hfirst with hpicked | hno
        · have htop : ¬ e.IsSide := fun hside => hne (iff_of_true hside hpicked)
          exact hfree ⟨⟨e', hpicked, hleft, hneighbor⟩, e, htop, hthrough, by rw [hn]; rfl⟩
        · exact hne (iff_of_false (fun hside => hno e hside hthrough)
            fun hside => hno e' hside hleft)
      exact ⟨⟨fun ⟨n, hn⟩ => absurd hn (hnot n), fun hn => absurd hn hleaves⟩,
        fun n hn => absurd hn (hnot n), fun _ => hstays⟩

section Example

/-- A router on a screen of 100 by 100 pixels, whose top edge leads to another node. -/
def belowNeighbor : Layout := .ofCalls [⟨node 1, .top, node 2⟩]

/-- A move straight up hands over. -/
theorem up_hands_off :
    (Router.new (node 1) 100 100).ExactHandOff belowNeighbor 0 (-60) 0 ↔
      ¬ (Router.new (node 1) 100 100).SideHidesNeighbor belowNeighbor 0 (-60) :=
  handOff_exact_iff belowNeighbor (.new (node 1) 100 100) rfl (by decide) 0 (-60) (by decide) 0

/-- A move up and to the left does not. -/
theorem corner_hides_neighbor :
    ¬ ∀ (layout : Layout) (r : Router), r.active = r.selfId →
      r.Inside r.width.toInt r.height.toInt → ∀ dx dy, r.SumsFit dx dy → ∀ ts,
        r.ExactHandOff layout dx dy ts := by
  intro h
  have hexact := h belowNeighbor (.new (node 1) 100 100) rfl (by decide) (-60) (-60) (by decide) 0
  have htop : (Router.new (node 1) 100 100).exactY (-60) < 0 := by decide
  obtain ⟨n, t, hmove, -⟩ := hexact.iff.2 ⟨node 2, .top, htop, by decide⟩
  have hstay : ((Router.new (node 1) 100 100).onMouseMove (-60) (-60) 0 belowNeighbor).map
      Prod.fst = some [.localEvent (.mouseMove (-60) (-60) 0)] := by decide
  rw [hmove] at hstay
  simp at hstay

end Example

end Borderless.Input
