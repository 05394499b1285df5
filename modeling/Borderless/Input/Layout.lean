import Borderless.Core
import Borderless.Lib.Links

/-!
# The layout of the screens

`crates/input-router/src/layout.rs`: which node is reached by walking off an edge of a screen. An
edge of a node is a port (`Borderless.Lib.Links`), and `connect` is a link between an edge of one
node and the opposite edge of another. `connect` overwrites what its two edges led to, but not the
way back from there.
-/

namespace Borderless.Input

open Links

/-- One side of a screen rectangle. -/
inductive Edge
  | left
  | right
  | top
  | bottom
deriving DecidableEq

/-- `Edge::opposite`, the edge from which the cursor enters the other screen. -/
def Edge.opposite : Edge → Edge
  | .left => .right
  | .right => .left
  | .top => .bottom
  | .bottom => .top

/-- The opposite of the opposite edge is the edge. -/
@[simp] theorem Edge.opposite_opposite (e : Edge) : e.opposite.opposite = e := by cases e <;> rfl

/-- No edge is its own opposite. -/
theorem Edge.ne_opposite (e : Edge) : e ≠ e.opposite := by cases e <;> decide

/-- `Layout`, its adjacencies. -/
structure Layout where
  /-- The node that is reached by walking off an edge. -/
  adjacency : Finmap fun _ : NodeId × Edge => NodeId

namespace Layout

/-- `Layout::new`: no screen has a neighbor. -/
def new : Layout := ⟨∅⟩

/-- `Layout::connect`: each of the two nodes is reached from the other, over opposite edges. -/
def connect (l : Layout) (fromNode : NodeId) (edge : Edge) (toNode : NodeId) : Layout :=
  ⟨(l.adjacency.insert (fromNode, edge) toNode).insert (toNode, edge.opposite) fromNode⟩

/-- `Layout::neighbor`: the node that is reached over an edge, if any. -/
def neighbor (l : Layout) (node : NodeId) (edge : Edge) : Option NodeId :=
  l.adjacency.lookup (node, edge)

end Layout

/-- The arguments of a call of `connect`. -/
structure Connect where
  /-- The node whose edge is given. -/
  fromNode : NodeId
  /-- The edge. -/
  edge : Edge
  /-- The other node. -/
  toNode : NodeId
deriving DecidableEq

/-- The layout after some calls of `connect` on an empty one. -/
def Layout.ofCalls (calls : List Connect) : Layout :=
  calls.foldl (fun l c => l.connect c.fromNode c.edge c.toNode) .new

/-- The call as a link between two ports. -/
def Connect.link (c : Connect) : (NodeId × Edge) × (NodeId × Edge) :=
  ((c.fromNode, c.edge), (c.toNode, c.edge.opposite))

/-- A port is one of the two that the call connects. -/
def Connect.Uses (c : Connect) (port : NodeId × Edge) : Prop := port = c.link.1 ∨ port = c.link.2

/-- A later call connects the port again. -/
def Reused (port : NodeId × Edge) (calls : List Connect) : Prop := ∃ c ∈ calls, c.Uses port

/-- Every step from one screen to another can be taken back. -/
def Layout.Symmetric (l : Layout) : Prop :=
  ∀ a b e, l.neighbor a e = some b ↔ l.neighbor b e.opposite = some a

variable {calls : List Connect}

/-- The neighbors after a call of `connect`, whose second entry is made last. -/
theorem neighbor_connect (l : Layout) (c : Connect) (n : NodeId) (e : Edge) :
    (l.connect c.fromNode c.edge c.toNode).neighbor n e =
      if c.link.2 = (n, e) then some c.fromNode
      else if c.link.1 = (n, e) then some c.toNode else l.neighbor n e := by
  unfold Layout.neighbor Layout.connect Connect.link
  split_ifs with hto hfrom
  · rw [← hto, Finmap.lookup_insert]
  · rw [Finmap.lookup_insert_of_ne _ (Ne.symm hto), ← hfrom, Finmap.lookup_insert]
  · rw [Finmap.lookup_insert_of_ne _ (Ne.symm hto), Finmap.lookup_insert_of_ne _ (Ne.symm hfrom)]

/-- The layout holds the node of each port's partner. -/
theorem neighbor_ofCalls (n : NodeId) (e : Edge) :
    (Layout.ofCalls calls).neighbor n e =
      (partner (calls.map Connect.link) (n, e)).map Prod.fst := by
  induction calls using List.reverseRecOn with
  | nil => rfl
  | append_singleton calls c ih =>
    have hlast : Layout.ofCalls (calls ++ [c]) =
        (Layout.ofCalls calls).connect c.fromNode c.edge c.toNode := by
      simp [Layout.ofCalls]
    rw [hlast, neighbor_connect, List.map_append, List.map_singleton, partner_concat, ih]
    split_ifs <;> rfl

/-- Partners are opposite edges. -/
theorem opposite_of_partner {p q : NodeId × Edge}
    (h : partner (calls.map Connect.link) p = some q) : q.2 = p.2.opposite := by
  obtain ⟨pre, a, post, heq, ha, -⟩ := partner_eq_some h
  have hmem : a ∈ calls.map Connect.link := by simp [heq]
  obtain ⟨c, -, rfl⟩ := List.mem_map.1 hmem
  rcases ha with ha | ha
  · obtain ⟨rfl, rfl⟩ := Prod.mk.inj ha
    rfl
  · obtain ⟨rfl, rfl⟩ := Prod.mk.inj ha
    exact (c.edge.opposite_opposite).symm

/-- A neighbour is a partner at the opposite edge. -/
theorem neighbor_eq_some_iff {a b : NodeId} {e : Edge} :
    (Layout.ofCalls calls).neighbor a e = some b ↔
      partner (calls.map Connect.link) (a, e) = some (b, e.opposite) := by
  rw [neighbor_ofCalls, Option.map_eq_some_iff]
  constructor
  · rintro ⟨⟨b', e'⟩, h, rfl⟩
    obtain rfl := opposite_of_partner h
    exact h
  · intro h
    exact ⟨_, h, rfl⟩

/-- The layout is symmetric when the links of its calls are mutual. -/
theorem symmetric_iff_mutual :
    (Layout.ofCalls calls).Symmetric ↔ Mutual (calls.map Connect.link) := by
  constructor
  · rintro h ⟨a, e⟩ ⟨b, e'⟩ hpartner
    obtain rfl := opposite_of_partner hpartner
    have hback := neighbor_eq_some_iff.1 ((h a b e).1 (neighbor_eq_some_iff.2 hpartner))
    rwa [Edge.opposite_opposite] at hback
  · intro h a b e
    constructor
    · intro hab
      rw [neighbor_eq_some_iff, Edge.opposite_opposite]
      exact h _ _ (neighbor_eq_some_iff.1 hab)
    · intro hba
      have hab := h _ _ (neighbor_eq_some_iff.1 hba)
      rw [Edge.opposite_opposite] at hab
      exact neighbor_eq_some_iff.2 hab

/-- A port is taken by the links of some calls when one of the calls uses it. -/
theorem taken_iff_reused {p : NodeId × Edge} : Taken p (calls.map Connect.link) ↔ Reused p calls := by
  unfold Taken Reused Connect.Uses
  simp

/-- The symmetry of a layout. Going over an edge of a screen and back over the opposite edge of the
next one leads home, for all screens of a layout that is built by any calls of `connect`, if and
only if of each call both ports or neither are connected again by later calls. -/
theorem layout_symmetric_iff (calls : List Connect) :
    (Layout.ofCalls calls).Symmetric ↔
      ∀ pre c post, calls = pre ++ c :: post →
        (Reused (c.fromNode, c.edge) post ↔ Reused (c.toNode, c.edge.opposite) post) := by
  have hne : ∀ a ∈ calls.map Connect.link, a.1 ≠ a.2 := by
    intro a ha heq
    obtain ⟨c, -, rfl⟩ := List.mem_map.1 ha
    exact c.edge.ne_opposite (Prod.mk.inj heq).2
  rw [symmetric_iff_mutual, mutual_iff_whole hne]
  constructor
  · rintro h pre c post rfl
    have hiff := h (pre.map Connect.link) c.link (post.map Connect.link) (by simp)
    rwa [taken_iff_reused, taken_iff_reused] at hiff
  · intro h pre a post heq
    obtain ⟨pre, rest, rfl, rfl, hrest⟩ := List.map_eq_append_iff.1 heq
    obtain ⟨c, post, rfl, rfl, rfl⟩ := List.map_eq_cons_iff.1 hrest
    rw [taken_iff_reused, taken_iff_reused]
    exact h pre c post rfl

section Example

/-- A node with the bytes `b`. -/
def node (b : UInt8) : NodeId := ⟨.replicate 16 b⟩

/-- After a node's edge is connected to a second node, the first one still leads back to it. -/
theorem layout_not_symmetric : ¬ ∀ calls : List Connect, (Layout.ofCalls calls).Symmetric := by
  intro h
  have hback := (h [⟨node 1, .right, node 2⟩, ⟨node 1, .right, node 3⟩] (node 1) (node 2) .right).2
    (by decide)
  exact absurd hback (by decide)

end Example

end Borderless.Input
