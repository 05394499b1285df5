import Borderless.Lib.Simulation
import Borderless.Network.Agreement
import Borderless.Runtime.Lasting

/-!
# The processes behind the network

`HubSpoke` is the traffic of snapshots. A `Deployment` is what makes it: the hub of `Runtime.Server`
with its readers, writers and channels, a spoke of `Runtime.SpokeSession` for each of its sessions,
and the frames on the connections between them. Input, fetch and control frames go over the same
connections. `deployment_simulates` shows that a step of a process is a step of `connectedHubSpoke`
or none: a snapshot that the producer of a spoke has made is on its way to the hub, whether it is in
a channel, with the writer or on the connection, and one that a reader of the hub has accepted waits
to be broadcast, whether or not it is written to the OS clipboard yet. So the results about the
network are results about the processes.

Three things are assumed. Sessions last, as those of `connectedHubSpoke` do. A connection hands
frames over whole and in order: that its four tasks do so is shown in `Runtime.FrameOrder`, and in
`Runtime.Duplex` when they stop. And no reader of the hub broadcasts while a copy of the hub itself
waits to be broadcast (`Deployment.InOrder`): otherwise the spokes get the two in the other order,
where the network has the copy first.
-/

namespace Borderless.Network

open Borderless.Clipboard Borderless.Runtime Transition

/-! ## The processes and their connections -/

/-- A hub, its spokes, and the frames on the connections between them. -/
structure Deployment (n : ℕ) where
  /-- The hub. Its session `k` is the one of the spoke `k`. -/
  hub : Hub
  /-- The spokes. -/
  spoke : Fin n → Spoke
  /-- The frames on the connection from a spoke to the hub, oldest first. -/
  up : Fin n → List WireFrame
  /-- The frames on the connection from the hub to a spoke, oldest first. -/
  down : Fin n → List WireFrame

/-- The steps of the processes. -/
inductive DeploymentLabel (n : ℕ)
  /-- A task of the hub takes a step on its own. -/
  | hub (a : HubLabel)
  /-- The hub's reader of `k` broadcasts what it has applied. -/
  | relay (k : Fin n)
  /-- The hub's writer of `k` sends its next frame. -/
  | sendDown (k : Fin n)
  /-- The hub's reader of `k` handles the next frame. -/
  | receiveUp (k : Fin n)
  /-- A task of the spoke `k` takes a step on its own. -/
  | spoke (k : Fin n) (a : SpokeLabel)
  /-- The writer of the spoke `k` sends its frame. -/
  | sendUp (k : Fin n)
  /-- The reader of the spoke `k` handles the next frame. -/
  | receiveDown (k : Fin n)

/-- The steps that move on what is on its way: the hub broadcasts its own copies, frames are passed
on to a writer, sent and handled, and a reader that has applied a snapshot writes and broadcasts it.
-/
def DeploymentLabel.isDelivery {n : ℕ} : DeploymentLabel n → Bool
  | .hub (.write ..) | .hub .broadcastLocal | .relay _ | .sendDown _ | .receiveUp _ | .sendUp _
  | .receiveDown _ => true
  | .spoke _ (.task 0 .forward) | .spoke _ (.task 0 .take) | .spoke _ (.task 0 (.write _)) => true
  | _ => false

/-- The node whose copy a step produces. -/
def DeploymentLabel.copying {n : ℕ} : DeploymentLabel n → Option (Option (Fin n))
  | .hub (.produce ..) => some none
  | .spoke k (.task 0 (.produce _)) => some (some k)
  | _ => none

/-- What the reader of a spoke sends itself in reply: it hosts no payloads. -/
def spokeReply : WireFrame → List WireFrame
  | .fetchRequest hash => [.fetchMiss hash]
  | .clipboard _ | .input _ | .fetchResponse .. | .fetchMiss _ | .control _ => []

/-- A reply of a spoke holds no snapshot. -/
theorem snapshots_spokeReply (frame : WireFrame) : snapshots (spokeReply frame) = [] := by
  cases frame <;> rfl

namespace Deployment

variable {n : ℕ}

/-- One step. -/
def step (s : Deployment n) : DeploymentLabel n → Option (Deployment n)
  | .hub a => if a.isLocal then (s.hub.step a).map fun h => { s with hub := h } else none
  | .relay k => (s.hub.step (.relay k)).map fun h => { s with hub := h }
  | .sendDown k =>
    match s.hub.queue k with
    | frame :: _ => (s.hub.step (.writerSend k)).map fun h =>
      { s with hub := h, down := Function.update s.down k (s.down k ++ [frame]) }
    | [] => none
  | .receiveUp k =>
    match s.up k with
    | frame :: rest => (s.hub.step (.recv k frame)).map fun h =>
      { s with hub := h, up := Function.update s.up k rest }
    | [] => none
  | .spoke k a =>
    if a.isLocal then
      ((s.spoke k).step a).map fun p => { s with spoke := Function.update s.spoke k p }
    else none
  | .sendUp k =>
    match (s.spoke k).inHand with
    | some frame => ((s.spoke k).step (.task 0 .sent)).map fun p =>
      { s with
        spoke := Function.update s.spoke k p
        up := Function.update s.up k (s.up k ++ [frame]) }
    | none => none
  | .receiveDown k =>
    match s.down k with
    | frame :: rest => ((s.spoke k).step (.task 0 (.recv frame))).map fun p =>
      { s with
        spoke := Function.update s.spoke k p
        -- a reply goes to the connection, and not through the writer
        up := Function.update s.up k (s.up k ++ spokeReply frame)
        down := Function.update s.down k rest }
    | [] => none

/-- The engine of each node. -/
def engine (s : Deployment n) : Option (Fin n) → Engine
  | none => s.hub.engine
  | some k => (s.spoke k).engine

/-- Processes that have just started and connected: the hub has accepted the spokes one by one, and
nothing is on the connections. -/
structure Starts (s : Deployment n) : Prop where
  /-- The hub has accepted the spokes. -/
  hub : ∃ selfId limit lazy clipboard,
    Runtime.hub.run (Hub.start (Engine.new selfId limit) lazy clipboard)
      (List.ofFn fun k => .accept (s.spoke k).engine.selfId) = some s.hub
  /-- The spokes have connected. -/
  spoke : ∀ k, ∃ selfId limit clipboard,
    Runtime.spoke.run (Spoke.start (Engine.new selfId limit) clipboard) [.connect] =
      some (s.spoke k)
  /-- The identifiers are distinct. -/
  ids : Function.Injective fun i => (s.engine i).selfId
  /-- Nothing is on the way to the hub. -/
  up : ∀ k, s.up k = []
  /-- Nothing is on the way to the spokes. -/
  down : ∀ k, s.down k = []

/-- The steps of the network that a step of the processes is. -/
def events (s : Deployment n) : DeploymentLabel n → List (HubSpokeLabel (Fin n))
  | .hub (.produce now text) => [.copy none now text]
  | .relay k =>
    ((s.hub.readers[(k : ℕ)]?.bind Reader.applied).map fun snap => .relay (k, snap)).toList
  | .receiveUp k => ((s.up k).head?.bind WireFrame.snapshot).toList.map fun _ => .deliverUp k
  | .spoke k (.task 0 (.produce now)) =>
    (s.spoke k).nextText.toList.map fun text => .copy (some k) now text
  | .receiveDown k => ((s.down k).head?.bind WireFrame.snapshot).toList.map fun _ => .deliverDown k
  | _ => []

/-- A reader broadcasts only when the copies of the hub itself have been broadcast. -/
def InOrder (s : Deployment n) : DeploymentLabel n → Prop
  | .relay _ => s.hub.localFrames = []
  | _ => True

instance (s : Deployment n) : (a : DeploymentLabel n) → Decidable (s.InOrder a)
  | .relay _ => inferInstanceAs (Decidable (_ = _))
  | .hub _ | .sendDown _ | .receiveUp _ | .spoke .. | .sendUp _ | .receiveDown _ => isTrue trivial

end Deployment

/-- The processes of a hub and `n` spokes. -/
def deployment (n : ℕ) : System (Deployment n) (DeploymentLabel n) where
  init := Deployment.Starts
  step := Deployment.step

namespace Deployment

variable {n : ℕ} {s t : Deployment n} {s' : HubSpoke (Fin n)}

/-- What is on its way from a spoke to the hub: on the connection, with the writer, or in a
channel. -/
def upstream (s : Deployment n) (k : Fin n) : List WireFrame := s.up k ++ (s.spoke k).outgoing

/-- What is on its way from the hub to a spoke: on the connection, in the channel of its writer, or
to be broadcast to all. -/
def downstream (s : Deployment n) (k : Fin n) : List WireFrame :=
  s.down k ++ s.hub.queue k ++ s.hub.localFrames

/-- What the hub's reader of `k` has accepted and is still to broadcast. -/
def applied (s : Deployment n) (k : Fin n) : Option ClipboardSnapshot :=
  s.hub.readers[(k : ℕ)]?.bind Reader.applied

/-- The processes as a state of the network. -/
structure Abstracts (s : Deployment n) (s' : HubSpoke (Fin n)) : Prop where
  /-- The engines are those of the processes. -/
  engine : s'.engine = s.engine
  /-- Every spoke has a session. -/
  live : ∀ k, s'.live k = true
  /-- The snapshots on their way to the hub. -/
  up : ∀ k, s'.up k = snapshots (s.upstream k)
  /-- The snapshots on their way to a spoke. -/
  down : ∀ k, s'.down k = snapshots (s.downstream k)
  /-- A reader has one snapshot at a time. -/
  nodup : s'.relaying.Nodup
  /-- The snapshots that the readers are to broadcast. -/
  relaying : ∀ k snap, (k, snap) ∈ s'.relaying ↔ s.applied k = some snap

/-- All sessions last. -/
structure Connected (s : Deployment n) : Prop where
  /-- The hub is in a state of a run. -/
  reachable : Runtime.hub.Reachable s.hub
  /-- Each spoke has a session at the hub, whose reader goes on and whose sender the map holds. -/
  session : ∀ k : Fin n, ∃ x, s.hub.sessions[(k : ℕ)]? = some x ∧ x.reader.isLive = true ∧
    s.hub.Holds x.peer k
  /-- Each spoke has one session. -/
  spoke : ∀ k, (s.spoke k).Lasting

/-! ## Sessions last -/

/-- A lasting step of the hub keeps the sessions. -/
theorem Connected.hub (h : s.Connected) {a : HubLabel} (ha : a.isLasting)
    (hstep : s.hub.step a = some t.hub) (hspoke : t.spoke = s.spoke) : t.Connected := by
  refine ⟨h.reachable.step trivial hstep, fun k => ?_, fun k => by rw [hspoke]; exact h.spoke k⟩
  obtain ⟨x, hx, hreader, hholds⟩ := h.session k
  -- the table still shows the session, its peer, and that its reader goes on
  have hrow : t.hub.table.sessions[(k : ℕ)]? = some x.row := by
    rw [Hub.table_lasting ha hstep]
    exact Hub.table_sessions hx
  obtain ⟨y, hy, hyrow⟩ : ∃ y, t.hub.sessions[(k : ℕ)]? = some y ∧ y.row = x.row := by
    simp only [Hub.table, List.getElem?_map, Option.map_eq_some_iff] at hrow
    exact hrow
  obtain ⟨hpeer, hlive⟩ := Prod.mk.inj hyrow
  refine ⟨y, hy, hlive.trans hreader, ?_⟩
  rw [hpeer]
  exact Hub.holds_lasting ha hstep hholds

/-- A step of a spoke whose session lasts keeps the sessions. -/
theorem Connected.spoke_update (h : s.Connected) {k : Fin n} {p : Spoke} (hp : p.Lasting)
    (hhub : t.hub = s.hub) (hspoke : t.spoke = Function.update s.spoke k p) : t.Connected := by
  refine ⟨by rw [hhub]; exact h.reachable, by rw [hhub]; exact h.session, fun j => ?_⟩
  rw [hspoke, Function.update_apply]
  split_ifs
  · exact hp
  · exact h.spoke j

/-- The sessions of two spokes have distinct peers. -/
theorem Connected.peer_inj (h : s.Connected) {j k : Fin n} {x y : Session}
    (hx : s.hub.sessions[(j : ℕ)]? = some x) (hy : s.hub.sessions[(k : ℕ)]? = some y)
    (hpeer : x.peer = y.peer) : j = k := by
  obtain ⟨x', hx', -, hholds⟩ := h.session j
  obtain ⟨y', hy', -, hholds'⟩ := h.session k
  obtain rfl : x = x' := Option.some.inj (hx.symm.trans hx')
  obtain rfl : y = y' := Option.some.inj (hy.symm.trans hy')
  have hlookup := hholds.1.symm.trans ((congrArg s.hub.writers.lookup hpeer).trans hholds'.1)
  exact Fin.ext (Option.some.inj hlookup)

/-- What a lasting step of the hub does to the channel of a spoke. -/
theorem Connected.queue (h : s.Connected) {a : HubLabel} (ha : a.isLasting) {hub' : Hub}
    (hstep : s.hub.step a = some hub') (k : Fin n) : ∃ x, s.hub.sessions[(k : ℕ)]? = some x ∧
      s.hub.taken k a ++ hub'.queue k = s.hub.queue k ++ s.hub.routed x.peer a := by
  obtain ⟨x, hx, -, hholds⟩ := h.session k
  have hreceives := (Hub.holds_lasting ha hstep hholds).2
  exact ⟨x, hx, Hub.queue_step (Hub.owned_of_reachable h.reachable) hholds hreceives hstep⟩

/-! ## Single steps -/

/-- A step of the network is a run. -/
theorem run_move {b : HubSpokeLabel (Fin n)} {t' : HubSpoke (Fin n)} (h : s'.Move b t') :
    (connectedHubSpoke (Fin n)).run s' [b] = some t' := by
  rw [System.run_singleton]
  exact h.step

/-- The engines after a step of the hub. -/
theorem engine_hub (s : Deployment n) (hub' : Hub) (up down : Fin n → List WireFrame) :
    Deployment.engine { s with hub := hub', up := up, down := down } =
      Function.update s.engine none hub'.engine := by
  funext i
  cases i with
  | none => rw [Function.update_self]; rfl
  | some k => rw [Function.update_of_ne (Option.some_ne_none k)]; rfl

/-- The engines after a step of a spoke. -/
theorem engine_spoke (s : Deployment n) (k : Fin n) (p : Spoke) (up down : Fin n → List WireFrame) :
    Deployment.engine { s with spoke := Function.update s.spoke k p, up := up, down := down } =
      Function.update s.engine (some k) p.engine := by
  funext i
  cases i with
  | none => rw [Function.update_of_ne (Option.some_ne_none k).symm]; rfl
  | some j =>
    show (Function.update s.spoke k p j).engine = _
    by_cases hj : j = k
    · rw [hj, Function.update_self, Function.update_self]
    · have hne : some j ≠ some k := fun he => hj (Option.some.inj he)
      rw [Function.update_of_ne hj, Function.update_of_ne hne]
      rfl

/-- What the readers have accepted, after one of them has moved on. -/
theorem applied_set {readers : List Reader} {i : ℕ} {old : Reader} (h : readers[i]? = some old)
    (new : Reader) (j : ℕ) : (readers.set i new)[j]?.bind Reader.applied =
      if i = j then new.applied else readers[j]?.bind Reader.applied := by
  have hlt := (List.getElem?_eq_some_iff.1 h).1
  rw [List.getElem?_set]
  split_ifs
  · rfl
  · rfl

/-- A step of the hub that leaves the engine alone, the accepted snapshots, and the snapshots on
their way is none of the network. -/
theorem Abstracts.hub_quiet (h : s.Abstracts s') {hub' : Hub} {up down : Fin n → List WireFrame}
    (hengine : hub'.engine = s.hub.engine)
    (happlied : ∀ k : Fin n, hub'.readers[(k : ℕ)]?.bind Reader.applied = s.applied k)
    (hup : ∀ k, snapshots (up k) = snapshots (s.up k))
    (hdown : ∀ k, snapshots (down k ++ hub'.queue k ++ hub'.localFrames) =
      snapshots (s.downstream k)) :
    Deployment.Abstracts { s with hub := hub', up := up, down := down } s' := by
  refine ⟨?_, h.live, fun k => ?_, fun k => ?_, h.nodup, fun k snap => ?_⟩
  · rw [engine_hub, hengine, h.engine]
    exact (Function.update_eq_self none s.engine).symm
  · rw [h.up k, upstream, upstream, snapshots_append, snapshots_append, hup]
  · rw [h.down k, ← hdown k]
    rfl
  · rw [h.relaying k snap, ← happlied k]
    rfl

/-- A step of a spoke that leaves the engine alone, and the snapshots on their way, is none of the
network. -/
theorem Abstracts.spoke_quiet (h : s.Abstracts s') {k : Fin n} {p : Spoke}
    {up down : Fin n → List WireFrame} (hengine : p.engine = (s.spoke k).engine)
    (hup : snapshots (up k ++ p.outgoing) = snapshots (s.upstream k))
    (hupne : ∀ j, j ≠ k → up j = s.up j) (hdown : ∀ j, snapshots (down j) = snapshots (s.down j)) :
    Deployment.Abstracts
      { s with spoke := Function.update s.spoke k p, up := up, down := down } s' := by
  refine ⟨?_, h.live, fun j => ?_, fun j => ?_, h.nodup, h.relaying⟩
  · rw [engine_spoke, hengine, h.engine]
    exact (Function.update_eq_self (some k) s.engine).symm
  · rw [h.up j]
    show _ = snapshots (up j ++ (Function.update s.spoke k p j).outgoing)
    by_cases hj : j = k
    · rw [hj, Function.update_self, hup]
    · rw [Function.update_of_ne hj, hupne j hj]
      rfl
  · rw [h.down j, downstream, downstream]
    simp only [snapshots_append, hdown]

/-! ## The tasks of the hub -/

/-- A step of the hub on its own is a copy at the hub, or none of the network. -/
theorem Abstracts.step_hub (h : s.Abstracts s') (hc : s.Connected) {a : HubLabel}
    (ha : a.isLocal) {hub' : Hub} (hstep : s.hub.step a = some hub') :
    ∃ t', (connectedHubSpoke (Fin n)).run s' (s.events (.hub a)) = some t' ∧
      Deployment.Abstracts { s with hub := hub' } t' := by
  have hlasting : a.isLasting := by
    cases a <;> first | rfl | cases ha
  have hqueue := hc.queue hlasting hstep
  cases a with
  | write i ok =>
    obtain ⟨snap, hread, hcore⟩ := Hub.core_write hstep
    have hlocal : hub'.localFrames = s.hub.localFrames := congrArg Hub.Core.localFrames hcore
    have hreaders : hub'.readers = s.hub.readers.set i (.relaying snap) :=
      congrArg Hub.Core.readers hcore
    refine ⟨s', rfl, h.hub_quiet (congrArg Hub.Core.engine hcore) (fun k => ?_) (fun _ => rfl)
      fun k => ?_⟩
    · rw [hreaders, applied_set hread]
      unfold applied
      split_ifs with hi
      · rw [← hi, hread]
        rfl
      · rfl
    · obtain ⟨x, -, hk⟩ := hqueue k
      have hsame : hub'.queue k = s.hub.queue k := by
        simpa [Hub.taken, Hub.routed, Hub.broadcast, Hub.replyTo] using hk
      rw [hsame, hlocal]
      rfl
  | produce now text =>
    obtain rfl := Option.some.inj hstep
    refine ⟨_, run_move (.copyHub now text), ?_⟩
    have he : s'.engine none = s.hub.engine := congrFun h.engine none
    refine ⟨?_, h.live, h.up, fun k => ?_, h.nodup, h.relaying⟩
    · rw [engine_hub, ← h.engine]
      show Function.update s'.engine none ((s'.engine none).advance _) = _
      simp only [HubSpoke.nextCopy, he]
      rfl
    · -- the copy is behind what the hub has sent
      show (if s'.live k ∧ some k ≠ none then s'.down k ++ [s'.nextCopy none now text]
        else s'.down k) = _
      rw [if_pos ⟨h.live k, Option.some_ne_none k⟩, h.down k, HubSpoke.nextCopy, he]
      simp only [downstream, snapshots_append, List.append_assoc]
      rfl
  | broadcastLocal =>
    obtain ⟨frame, hlocal, hcore⟩ := Hub.core_broadcastLocal hstep
    have hreaders : hub'.readers = s.hub.readers := congrArg Hub.Core.readers hcore
    refine ⟨s', rfl, h.hub_quiet (congrArg Hub.Core.engine hcore) (fun k => ?_) (fun _ => rfl)
      fun k => ?_⟩
    · rw [hreaders]
      rfl
    · -- the frame moves from the head of one list to the end of the other
      obtain ⟨x, -, hk⟩ := hqueue k
      have hmoved : hub'.queue k = s.hub.queue k ++ [frame] := by
        simpa [Hub.taken, Hub.routed, Hub.broadcast, hlocal] using hk
      rw [downstream, hmoved, hlocal]
      simp only [List.append_assoc, List.singleton_append]
  | capture event =>
    obtain rfl := Option.some.inj hstep
    exact ⟨s', rfl, h.hub_quiet rfl (fun _ => rfl) (fun _ => rfl) fun _ => rfl⟩
  | broadcastInput =>
    have hcore := Hub.core_broadcastInput hstep
    have hlocal : hub'.localFrames = s.hub.localFrames := congrArg Hub.Core.localFrames hcore
    have hreaders : hub'.readers = s.hub.readers := congrArg Hub.Core.readers hcore
    obtain ⟨event, rest, hcaptured, -⟩ := Hub.step_broadcastInput hstep
    refine ⟨s', rfl, h.hub_quiet (congrArg Hub.Core.engine hcore) (fun k => ?_) (fun _ => rfl)
      fun k => ?_⟩
    · rw [hreaders]
      rfl
    · obtain ⟨x, -, hk⟩ := hqueue k
      have hmoved : hub'.queue k = s.hub.queue k ++ [.input event] := by
        simpa [Hub.taken, Hub.routed, Hub.broadcast, hcaptured] using hk
      rw [downstream, hmoved, hlocal]
      simp only [snapshots_append, snapshots_singleton, WireFrame.snapshot, Option.toList_none,
        List.append_nil]
  | _ => cases ha

/-- A broadcast of a reader is the broadcast of the network, if no copy of the hub waits. -/
theorem Abstracts.step_relay (h : s.Abstracts s') (hc : s.Connected) {k : Fin n}
    (horder : s.hub.localFrames = []) {hub' : Hub} (hstep : s.hub.step (.relay k) = some hub') :
    ∃ t', (connectedHubSpoke (Fin n)).run s' (s.events (.relay k)) = some t' ∧
      Deployment.Abstracts { s with hub := hub' } t' := by
  obtain ⟨x, snap, hx, hreader, hcore⟩ := Hub.core_relay hstep
  have hread := Hub.readers_getElem? hx hreader
  have happlied : s.applied k = some snap := by
    unfold applied
    rw [hread]
    rfl
  have hevents : s.events (.relay k) = [.relay (k, snap)] := by
    show ((s.applied k).map fun snap => HubSpokeLabel.relay (k, snap)).toList = _
    rw [happlied]
    rfl
  have hlocal : hub'.localFrames = [] := (congrArg Hub.Core.localFrames hcore).trans horder
  have hreaders : hub'.readers = s.hub.readers.set k .reading := congrArg Hub.Core.readers hcore
  have hengine : hub'.engine = s.hub.engine := congrArg Hub.Core.engine hcore
  rw [hevents]
  refine ⟨_, run_move (.relay ((h.relaying k snap).2 happlied)), ?_⟩
  refine ⟨?_, h.live, h.up, fun j => ?_, h.nodup.erase _, fun j snap' => ?_⟩
  · rw [engine_hub, hengine]
    exact h.engine.trans (Function.update_eq_self none s.engine).symm
  · -- the frame goes to every peer but the one of the session
    obtain ⟨y, hy, hqueue⟩ := hc.queue rfl hstep j
    have hsent : hub'.queue j = s.hub.queue j ++ if j = k then [] else [.clipboard snap] := by
      have hrouted : s.hub.routed y.peer (.relay k) =
          if x.peer = y.peer then [] else [.clipboard snap] := by
        obtain ⟨peer, queue, receiver, reader⟩ := x
        obtain rfl : reader = .relaying snap := hreader
        simp only [Hub.routed, Hub.broadcast, hx, Option.some.injEq]
      have hpeer : x.peer = y.peer ↔ j = k :=
        ⟨fun he => (hc.peer_inj hx hy he).symm, fun he => by
          rw [he] at hy
          rw [Option.some.inj (hx.symm.trans hy)]⟩
      rw [hrouted] at hqueue
      simpa only [hpeer, Hub.taken, List.nil_append] using hqueue
    show (if s'.live j ∧ some j ≠ some k then s'.down j ++ [snap] else s'.down j) =
      snapshots (s.down j ++ hub'.queue j ++ hub'.localFrames)
    rw [hsent, hlocal, h.down j, downstream, horder]
    by_cases hj : j = k
    · rw [if_neg (fun hne => hne.2 (congrArg some hj)), if_pos hj]
      simp only [List.append_nil]
    · have hne : some j ≠ some k := fun he => hj (Option.some.inj he)
      rw [if_pos ⟨h.live j, hne⟩, if_neg hj]
      simp [WireFrame.snapshot]
  · show (j, snap') ∈ s'.relaying.erase (k, snap) ↔ hub'.readers[(j : ℕ)]?.bind Reader.applied = _
    rw [h.nodup.mem_erase_iff, h.relaying, hreaders, applied_set hread]
    by_cases hj : j = k
    · -- the reader reads on
      subst hj
      rw [if_pos rfl, happlied]
      simp [Reader.applied, eq_comm]
    · have hne : (k : ℕ) ≠ j := fun he => hj (Fin.ext he.symm)
      rw [if_neg hne]
      simp [hj, applied]

/-- A writer of the hub sends: what is on its way stays in order. -/
theorem Abstracts.step_sendDown (h : s.Abstracts s') (hc : s.Connected) {k : Fin n}
    {frame : WireFrame} {rest : List WireFrame} (hqueue : s.hub.queue k = frame :: rest)
    {hub' : Hub} (hstep : s.hub.step (.writerSend k) = some hub') :
    Deployment.Abstracts
      { s with hub := hub', down := Function.update s.down k (s.down k ++ [frame]) } s' := by
  have hcore := Hub.core_writerSend hstep
  have hlocal : hub'.localFrames = s.hub.localFrames := congrArg Hub.Core.localFrames hcore
  have hreaders : hub'.readers = s.hub.readers := congrArg Hub.Core.readers hcore
  refine h.hub_quiet (congrArg Hub.Core.engine hcore) (fun j => ?_) (fun _ => rfl) fun j => ?_
  · rw [hreaders]
    rfl
  · obtain ⟨x, -, hj⟩ := hc.queue rfl hstep j
    have htaken : (if (k : ℕ) = j then (s.hub.queue j).take 1 else []) ++ hub'.queue j =
        s.hub.queue j := by
      simpa [Hub.taken, Hub.routed, Hub.broadcast, Hub.replyTo] using hj
    rw [downstream, hlocal]
    by_cases hjk : j = k
    · subst hjk
      rw [if_pos rfl, hqueue] at htaken
      have hrest : hub'.queue j = rest := (List.cons.inj htaken).2
      rw [Function.update_self, hrest, hqueue, List.append_assoc (s.down j), List.singleton_append]
    · have hne : (k : ℕ) ≠ j := fun he => hjk (Fin.ext he.symm)
      rw [if_neg hne, List.nil_append] at htaken
      rw [Function.update_of_ne hjk, htaken]

/-- A reader of the hub that handles a frame which is no snapshot is none of the network. -/
theorem Abstracts.step_receiveUp_other (h : s.Abstracts s') (hc : s.Connected) {k : Fin n}
    {frame : WireFrame} {rest : List WireFrame} (hup : s.up k = frame :: rest)
    (hsnap : frame.snapshot = none) {hub' : Hub} (hstep : s.hub.step (.recv k frame) = some hub') :
    Deployment.Abstracts { s with hub := hub', up := Function.update s.up k rest } s' := by
  have hcore := Hub.core_recv hsnap hstep
  have hlocal : hub'.localFrames = s.hub.localFrames := congrArg Hub.Core.localFrames hcore
  have hreaders : hub'.readers = s.hub.readers := congrArg Hub.Core.readers hcore
  refine h.hub_quiet (congrArg Hub.Core.engine hcore) (fun j => ?_) (fun j => ?_) fun j => ?_
  · rw [hreaders]
    rfl
  · by_cases hj : j = k
    · rw [hj, Function.update_self, hup, snapshots_cons, hsnap]
      rfl
    · rw [Function.update_of_ne hj]
  · -- at most a reply to a fetch request is enqueued
    obtain ⟨x, -, hqueue⟩ := hc.queue rfl hstep j
    have hnone : snapshots (s.hub.replyTo x.peer (.recv k frame)) = [] := by
      unfold Hub.replyTo
      split
      · split
        · split_ifs
          · exact s.hub.snapshots_fetchReply _
          · rfl
        · rfl
      · rfl
    have hqueue' : hub'.queue j = s.hub.queue j ++ s.hub.replyTo x.peer (.recv k frame) := hqueue
    rw [downstream, hqueue', hlocal]
    simp only [snapshots_append, hnone, List.append_nil]

/-- A reader of the hub handles a frame: a snapshot is delivered, and any other frame is none of the
network. -/
theorem Abstracts.step_receiveUp (h : s.Abstracts s') (hc : s.Connected) {k : Fin n}
    {frame : WireFrame} {rest : List WireFrame} (hup : s.up k = frame :: rest) {hub' : Hub}
    (hstep : s.hub.step (.recv k frame) = some hub') :
    ∃ t', (connectedHubSpoke (Fin n)).run s' (s.events (.receiveUp k)) = some t' ∧
      Deployment.Abstracts { s with hub := hub', up := Function.update s.up k rest } t' := by
  have hevents : s.events (.receiveUp k) = frame.snapshot.toList.map fun _ => .deliverUp k := by
    show ((s.up k).head?.bind WireFrame.snapshot).toList.map _ = _
    rw [hup]
    rfl
  rw [hevents]
  cases hsnap : frame.snapshot with
  | none => exact ⟨s', rfl, h.step_receiveUp_other hc hup hsnap hstep⟩
  | some snap =>
    obtain rfl : frame = .clipboard snap := by
      cases frame <;> first | cases hsnap; rfl | cases hsnap
    obtain ⟨hread, hcore⟩ := Hub.core_recv_clipboard hstep
    have hpipe : s'.up k = snap :: snapshots (rest ++ (s.spoke k).outgoing) := by
      rw [h.up k, upstream, hup]
      rfl
    -- what is left of the frames to the hub, and to the spokes
    have hup' : ∀ j, Function.update s'.up k (snapshots (rest ++ (s.spoke k).outgoing)) j =
        snapshots (Function.update s.up k rest j ++ (s.spoke j).outgoing) := by
      intro j
      by_cases hj : j = k
      · rw [hj, Function.update_self, Function.update_self]
      · rw [Function.update_of_ne hj, Function.update_of_ne hj, h.up j]
        rfl
    have hdown' : ∀ j, s'.down j = snapshots (s.down j ++ hub'.queue j ++ hub'.localFrames) := by
      intro j
      obtain ⟨x, -, hqueue⟩ := hc.queue rfl hstep j
      have hsame : hub'.queue j = s.hub.queue j := by
        simpa [Hub.taken, Hub.routed, Hub.broadcast, Hub.replyTo] using hqueue
      have hlocal : hub'.localFrames = s.hub.localFrames := by
        refine (congrArg Hub.Core.localFrames hcore).trans ?_
        split_ifs <;> rfl
      rw [h.down j, hsame, hlocal]
      rfl
    have he : s'.engine none = s.hub.engine := congrFun h.engine none
    by_cases haccepts : s.hub.engine.Accepts snap
    · rw [if_pos haccepts] at hcore
      have hengine : hub'.engine = s.hub.engine.advance snap := congrArg Hub.Core.engine hcore
      have hreaders : hub'.readers = s.hub.readers.set k (.writing snap) :=
        congrArg Hub.Core.readers hcore
      have hidle : s.applied k = none := by
        unfold applied
        rw [hread]
        rfl
      refine ⟨_, run_move (.applyUp hpipe (he ▸ haccepts)), ?_⟩
      refine ⟨?_, h.live, hup', hdown', ?_, fun j snap' => ?_⟩
      · rw [engine_hub, hengine, ← h.engine, he]
      · -- the reader had no snapshot before
        refine List.nodup_append.2 ⟨h.nodup, List.nodup_singleton _, fun p hp q hq hpq => ?_⟩
        obtain rfl := List.mem_singleton.1 hq
        have hk := (h.relaying k snap).1 (hpq ▸ hp)
        rw [hidle] at hk
        cases hk
      · show (j, snap') ∈ s'.relaying ++ [(k, snap)] ↔ hub'.readers[(j : ℕ)]?.bind _ = _
        rw [List.mem_append, h.relaying, List.mem_singleton, hreaders, applied_set hread]
        by_cases hj : j = k
        · subst hj
          rw [if_pos rfl, hidle]
          simp [Reader.applied, eq_comm]
        · have hne : (k : ℕ) ≠ j := fun he => hj (Fin.ext he.symm)
          rw [if_neg hne]
          simp [hj, applied]
    · rw [if_neg haccepts] at hcore
      have hengine : hub'.engine = s.hub.engine := congrArg Hub.Core.engine hcore
      have hreaders : hub'.readers = s.hub.readers := congrArg Hub.Core.readers hcore
      refine ⟨_, run_move (.ignoreUp hpipe (he ▸ haccepts)), ?_⟩
      refine ⟨?_, h.live, hup', hdown', h.nodup, fun j snap' => ?_⟩
      · rw [engine_hub, hengine]
        exact h.engine.trans (Function.update_eq_self none s.engine).symm
      · show (j, snap') ∈ s'.relaying ↔ hub'.readers[(j : ℕ)]?.bind _ = _
        rw [h.relaying, hreaders]
        rfl

/-! ## The tasks of a spoke -/

/-- The producer of a spoke makes a snapshot: it is a copy at the spoke. -/
theorem Abstracts.step_produce (h : s.Abstracts s') (hc : s.Connected) {k : Fin n} {now : UInt64}
    {p : Spoke} (hstep : (s.spoke k).step (.task 0 (.produce now)) = some p) :
    (∃ t', (connectedHubSpoke (Fin n)).run s' (s.events (.spoke k (.task 0 (.produce now)))) =
        some t' ∧ Deployment.Abstracts { s with spoke := Function.update s.spoke k p } t') ∧
      p.Lasting := by
  obtain ⟨text, htext, hengine, hout, hlasting⟩ := Spoke.outgoing_produce (hc.spoke k) hstep
  refine ⟨?_, hlasting⟩
  have hevents : s.events (.spoke k (.task 0 (.produce now))) = [.copy (some k) now text] := by
    show (s.spoke k).nextText.toList.map _ = _
    rw [htext]
    rfl
  have he : s'.engine (some k) = (s.spoke k).engine := congrFun h.engine (some k)
  rw [hevents]
  refine ⟨_, run_move (.copySpoke k now text), ?_⟩
  refine ⟨?_, h.live, fun j => ?_, h.down, h.nodup, h.relaying⟩
  · rw [engine_spoke, hengine, ← h.engine, ← he]
    rfl
  · show Function.update s'.up k
      (if s'.live k then s'.up k ++ [s'.nextCopy (some k) now text] else s'.up k) j =
        snapshots (s.up j ++ (Function.update s.spoke k p j).outgoing)
    by_cases hj : j = k
    · rw [hj, Function.update_self, Function.update_self, if_pos (h.live k), h.up k,
        HubSpoke.nextCopy, he, hout, upstream]
      simp [WireFrame.snapshot]
    · rw [Function.update_of_ne hj, Function.update_of_ne hj, h.up j]
      rfl

/-- A step of a spoke on its own is a copy at the spoke, or none of the network. -/
theorem Abstracts.step_spoke (h : s.Abstracts s') (hc : s.Connected) {k : Fin n} {a : SpokeLabel}
    (ha : a.isLocal) {p : Spoke} (hstep : (s.spoke k).step a = some p) :
    (∃ t', (connectedHubSpoke (Fin n)).run s' (s.events (.spoke k a)) = some t' ∧
      Deployment.Abstracts { s with spoke := Function.update s.spoke k p } t') ∧ p.Lasting := by
  have hlasting := hc.spoke k
  -- but for the producer, the engine and the frames on their way stay
  have hquiet : s.events (.spoke k a) = [] →
      p.engine = (s.spoke k).engine ∧ p.outgoing = (s.spoke k).outgoing ∧ p.Lasting →
      (∃ t', (connectedHubSpoke (Fin n)).run s' (s.events (.spoke k a)) = some t' ∧
        Deployment.Abstracts { s with spoke := Function.update s.spoke k p } t') ∧ p.Lasting := by
    rintro hevents ⟨hengine, hout, hlasting'⟩
    refine ⟨⟨s', by rw [hevents]; rfl, ?_⟩, hlasting'⟩
    refine h.spoke_quiet hengine ?_ (fun _ _ => rfl) fun _ => rfl
    rw [hout]
    rfl
  cases a with
  | copy text =>
    obtain rfl := Option.some.inj hstep
    exact hquiet rfl ⟨rfl, rfl, hlasting⟩
  | connect => cases ha
  | task i label =>
    cases i with
    | succ i => cases ha
    | zero =>
      cases label with
      | produce now => exact h.step_produce hc hstep
      | poll => exact hquiet rfl (Spoke.outgoing_quiet hlasting rfl hstep)
      | forward => exact hquiet rfl (Spoke.outgoing_quiet hlasting rfl hstep)
      | take => exact hquiet rfl (Spoke.outgoing_quiet hlasting rfl hstep)
      | write ok => exact hquiet rfl (Spoke.outgoing_quiet hlasting rfl hstep)
      | _ => cases ha

/-- The writer of a spoke sends: what is on its way stays in order. -/
theorem Abstracts.step_sendUp (h : s.Abstracts s') (hc : s.Connected) {k : Fin n}
    {frame : WireFrame} (hframe : (s.spoke k).inHand = some frame) {p : Spoke}
    (hstep : (s.spoke k).step (.task 0 .sent) = some p) : p.Lasting ∧
      Deployment.Abstracts { s with
        spoke := Function.update s.spoke k p
        up := Function.update s.up k (s.up k ++ [frame]) } s' := by
  obtain ⟨frame', hframe', hengine, hout, hlasting⟩ := Spoke.outgoing_sent (hc.spoke k) hstep
  obtain rfl : frame = frame' := Option.some.inj (hframe.symm.trans hframe')
  refine ⟨hlasting, h.spoke_quiet hengine ?_
    (fun j hj => Function.update_of_ne hj ..) fun _ => rfl⟩
  rw [upstream, Function.update_self, hout, List.append_assoc, List.singleton_append]

/-- A reader of a spoke handles a frame: a snapshot is delivered, and any other frame is none of the
network. -/
theorem Abstracts.step_receiveDown (h : s.Abstracts s') (hc : s.Connected) {k : Fin n}
    {frame : WireFrame} {rest : List WireFrame} (hdown : s.down k = frame :: rest) {p : Spoke}
    (hstep : (s.spoke k).step (.task 0 (.recv frame)) = some p) :
    (∃ t', (connectedHubSpoke (Fin n)).run s' (s.events (.receiveDown k)) = some t' ∧
      Deployment.Abstracts { s with
        spoke := Function.update s.spoke k p
        up := Function.update s.up k (s.up k ++ spokeReply frame)
        down := Function.update s.down k rest } t') ∧ p.Lasting := by
  obtain ⟨hengine, hout, hlasting⟩ := Spoke.outgoing_recv (hc.spoke k) hstep
  refine ⟨?_, hlasting⟩
  have hevents : s.events (.receiveDown k) = frame.snapshot.toList.map fun _ => .deliverDown k := by
    show ((s.down k).head?.bind WireFrame.snapshot).toList.map _ = _
    rw [hdown]
    rfl
  rw [hevents]
  -- a reply holds no snapshot
  have hup : ∀ j, snapshots (Function.update s.up k (s.up k ++ spokeReply frame) j ++
      (Function.update s.spoke k p j).outgoing) = snapshots (s.upstream j) := by
    intro j
    rw [upstream]
    by_cases hj : j = k
    · rw [hj, Function.update_self, Function.update_self, hout, snapshots_append, snapshots_append,
        snapshots_append, snapshots_spokeReply, List.append_nil]
    · rw [Function.update_of_ne hj, Function.update_of_ne hj]
  cases hsnap : frame.snapshot with
  | none =>
    rw [hsnap] at hengine
    refine ⟨s', rfl, h.spoke_quiet hengine ?_ (fun j hj => Function.update_of_ne hj ..)
      fun j => ?_⟩
    · have hk := hup k
      rwa [Function.update_self (f := s.spoke)] at hk
    · by_cases hj : j = k
      · rw [hj, Function.update_self, hdown, snapshots_cons, hsnap]
        rfl
      · rw [Function.update_of_ne hj]
  | some snap =>
    rw [hsnap] at hengine
    have hpipe : s'.down k = snap :: snapshots (rest ++ s.hub.queue k ++ s.hub.localFrames) := by
      rw [h.down k, downstream, hdown, List.cons_append, List.cons_append, snapshots_cons, hsnap]
      rfl
    have hdown' : ∀ j, Function.update s'.down k
        (snapshots (rest ++ s.hub.queue k ++ s.hub.localFrames)) j =
          snapshots (Function.update s.down k rest j ++ s.hub.queue j ++ s.hub.localFrames) := by
      intro j
      by_cases hj : j = k
      · rw [hj, Function.update_self, Function.update_self]
      · rw [Function.update_of_ne hj, Function.update_of_ne hj, h.down j]
        rfl
    have he : s'.engine (some k) = (s.spoke k).engine := congrFun h.engine (some k)
    simp only [Engine.observeRemote_eq] at hengine
    by_cases haccepts : (s.spoke k).engine.Accepts snap
    · rw [if_pos haccepts] at hengine
      refine ⟨_, run_move (.applyDown hpipe (he ▸ haccepts)), ?_, h.live,
        fun j => (h.up j).trans (hup j).symm, hdown', h.nodup, h.relaying⟩
      rw [engine_spoke, hengine, ← h.engine, he]
    · rw [if_neg haccepts] at hengine
      refine ⟨_, run_move (.ignoreDown hpipe (he ▸ haccepts)), ?_, h.live,
        fun j => (h.up j).trans (hup j).symm, hdown', h.nodup, h.relaying⟩
      rw [engine_spoke, hengine]
      exact h.engine.trans (Function.update_eq_self (some k) s.engine).symm

/-! ## The start -/

/-- The hub accepts spokes one by one. -/
theorem run_accept {a b : Hub} {peers : List NodeId} (hnodup : peers.Nodup)
    (h : Runtime.hub.run a (peers.map .accept) = some b) :
    b.sessions = a.sessions ++ peers.map (fun peer => ⟨peer, [], true, .reading⟩) ∧
    b.engine = a.engine ∧ b.localFrames = a.localFrames ∧
    (∀ i peer, peers[i]? = some peer → b.writers.lookup peer = some (a.sessions.length + i)) ∧
    ∀ peer, peer ∉ peers → b.writers.lookup peer = a.writers.lookup peer := by
  induction peers generalizing a with
  | nil =>
    obtain rfl : a = b := Option.some.inj h
    exact ⟨(List.append_nil _).symm, rfl, rfl, fun i peer hi => by simp at hi, fun _ _ => rfl⟩
  | cons peer peers ih =>
    obtain ⟨hnew, hnodup'⟩ := List.nodup_cons.1 hnodup
    obtain ⟨hsessions, hengine, hlocal, hlookup, hother⟩ := ih hnodup' h
    refine ⟨?_, hengine, hlocal, fun i peer' hi => ?_, fun peer' hpeer' => ?_⟩
    · rw [hsessions]
      simp
    · cases i with
      | zero =>
        obtain rfl : peer = peer' := Option.some.inj hi
        rw [hother peer hnew, AList.lookup_insert]
        rfl
      | succ i =>
        rw [hlookup i peer' hi, List.length_append, List.length_singleton]
        congr 1
        omega
    · rw [List.mem_cons, not_or] at hpeer'
      rw [hother peer' hpeer'.2, AList.lookup_insert_ne hpeer'.1]

/-- The hub at the start: its engine is fresh, nothing waits to be broadcast, and each spoke has a
session, whose sender the map holds. -/
theorem Starts.hub_eq (h : s.Starts) :
    (∃ selfId limit, s.hub.engine = Engine.new selfId limit) ∧ s.hub.localFrames = [] ∧
    ∀ k : Fin n,
      s.hub.sessions[(k : ℕ)]? = some ⟨(s.spoke k).engine.selfId, [], true, .reading⟩ ∧
      s.hub.writers.lookup (s.spoke k).engine.selfId = some (k : ℕ) := by
  obtain ⟨selfId, limit, lazy, clipboard, hrun⟩ := h.hub
  have hnodup : (List.ofFn fun k => (s.spoke k).engine.selfId).Nodup := by
    refine List.nodup_ofFn.2 fun j k hjk => ?_
    have heq : some j = some k := h.ids hjk
    exact Option.some.inj heq
  have hmap : (List.ofFn fun k => HubLabel.accept (s.spoke k).engine.selfId) =
      (List.ofFn fun k => (s.spoke k).engine.selfId).map .accept := by
    rw [List.map_ofFn]
    rfl
  rw [hmap] at hrun
  obtain ⟨hsessions, hengine, hlocal, hlookup, -⟩ := run_accept hnodup hrun
  refine ⟨⟨selfId, limit, hengine⟩, hlocal, fun k => ?_⟩
  have hk : (List.ofFn fun k => (s.spoke k).engine.selfId)[(k : ℕ)]? =
      some (s.spoke k).engine.selfId := by
    simp
  constructor
  · rw [hsessions]
    show ([] ++ _)[(k : ℕ)]? = _
    rw [List.nil_append, List.getElem?_map, hk]
    rfl
  · rw [hlookup k _ hk]
    exact congrArg some (Nat.zero_add _)

/-- At the start all sessions are there. -/
theorem Starts.connected (h : s.Starts) : s.Connected := by
  refine ⟨?_, fun k => ?_, fun k => ?_⟩
  · obtain ⟨selfId, limit, lazy, clipboard, hrun⟩ := h.hub
    have hinit : Runtime.hub.init (Hub.start (Engine.new selfId limit) lazy clipboard) :=
      ⟨_, lazy, clipboard, rfl⟩
    exact (System.Reach.init hinit).run (fun _ _ => trivial) hrun
  · obtain ⟨hsession, hlookup⟩ := h.hub_eq.2.2 k
    exact ⟨_, hsession, rfl, hlookup, _, hsession, rfl⟩
  · obtain ⟨selfId, limit, clipboard, hrun⟩ := h.spoke k
    exact (Spoke.lasting_connect hrun).1

/-- At the start nothing is on its way, and the network is fresh. -/
theorem Starts.abstracts (h : s.Starts) : ∃ s', (connectedHubSpoke (Fin n)).init s' ∧
    s.Abstracts s' := by
  obtain ⟨hhub, hlocal, hsessions⟩ := h.hub_eq
  have hengine : ∀ i, ∃ selfId limit, s.engine i = Engine.new selfId limit := by
    intro i
    cases i with
    | none => exact hhub
    | some k =>
      obtain ⟨selfId, limit, clipboard, hrun⟩ := h.spoke k
      exact ⟨selfId, limit, (Spoke.lasting_connect hrun).2.1⟩
  refine ⟨⟨s.engine, fun _ => true, fun _ => [], fun _ => [], [], 0⟩,
    ⟨⟨hengine, h.ids, fun _ => rfl, fun _ => rfl, rfl, rfl⟩, fun _ => rfl⟩, ?_⟩
  refine ⟨rfl, fun _ => rfl, fun k => ?_, fun k => ?_, List.nodup_nil, fun k snap => ?_⟩
  · obtain ⟨selfId, limit, clipboard, hrun⟩ := h.spoke k
    rw [upstream, h.up, (Spoke.lasting_connect hrun).2.2]
    rfl
  · rw [downstream, h.down, hlocal, Hub.queue, (hsessions k).1]
    rfl
  · have hread := Hub.readers_getElem? (hsessions k).1 rfl
    rw [applied, hread]
    simp [Reader.applied]

/-! ## What is on its way goes on -/

/-- No snapshot is on its way. -/
structure Quiescent (s : Deployment n) : Prop where
  /-- Nothing is on the way to the hub. -/
  up : ∀ k, snapshots (s.upstream k) = []
  /-- Nothing is on the way to the spokes. -/
  down : ∀ k, snapshots (s.downstream k) = []
  /-- The readers of the hub have nothing to broadcast. -/
  applied : ∀ k, s.applied k = none

/-- The processes are quiescent when the network is. -/
theorem Abstracts.quiescent_iff (h : s.Abstracts s') : s'.Quiescent ↔ s.Quiescent := by
  constructor
  · intro hq
    refine ⟨fun k => ?_, fun k => ?_, fun k => ?_⟩
    · rw [← h.up k, hq.up]
    · rw [← h.down k, hq.down]
    · rw [Option.eq_none_iff_forall_ne_some]
      intro snap hsnap
      exact hq.not_mem_relaying ((h.relaying k snap).2 hsnap)
  · intro hq
    refine ⟨fun k => ?_, fun k => ?_, List.eq_nil_iff_forall_not_mem.2 fun p hp => ?_⟩
    · rw [h.up k, hq.up]
    · rw [h.down k, hq.down]
    · have happlied := (h.relaying p.1 p.2).1 hp
      rw [hq.applied] at happlied
      cases happlied

/-- The counter of a node. -/
def clock (s : Deployment n) (i : Option (Fin n)) : ℕ := (s.engine i).clock

/-- The guard of a step: a copy of the hub is broadcast before what its readers apply, and the
version of a copy neither wraps nor is the top counter, that of another node. -/
def Untied (s : Deployment n) (a : DeploymentLabel n) : Prop :=
  s.InOrder a ∧ ∀ i, a.copying = some i → s.clock i < 2^64 - 1 ∧
    ((∀ m, s.clock m ≠ s.clock i + 1) ∨ ∃ m, s.clock i + 1 < s.clock m)

/-- A step of the processes is at most one step of the network. -/
theorem steps_events {a : DeploymentLabel n}
    {p : HubSpoke (Fin n) × HubSpokeLabel (Fin n) × HubSpoke (Fin n)}
    (hp : p ∈ (connectedHubSpoke (Fin n)).steps s' (s.events a)) :
    p.1 = s' ∧ p.2.1 ∈ s.events a := by
  refine ⟨?_, System.label_mem_of_mem_steps hp⟩
  have hlength : s.events a = [] ∨ ∃ b, s.events a = [b] := by
    have hlist : ∀ {α β : Type} (o : Option α) (f : α → β),
        o.toList.map f = [] ∨ ∃ b, o.toList.map f = [b] := by
      intro α β o f
      cases o with
      | none => exact .inl rfl
      | some x => exact .inr ⟨f x, rfl⟩
    unfold events
    split
    · exact .inr ⟨_, rfl⟩
    · rw [← List.map_id (Option.toList _)]
      exact hlist _ id
    · exact hlist _ _
    · exact hlist _ _
    · exact hlist _ _
    · exact .inl rfl
  rcases hlength with hnil | ⟨b, hb⟩
  · rw [hnil] at hp
    cases hp
  · rw [hb] at hp
    simp only [System.steps] at hp
    split at hp
    · rw [List.mem_singleton.1 hp]
    · cases hp

/-- The steps of the network that an untied step is are untied. -/
theorem Abstracts.untied_events (h : s.Abstracts s') {a : DeploymentLabel n} (ha : s.Untied a)
    {b : HubSpokeLabel (Fin n)} (hb : b ∈ s.events a) : s'.Untied b := by
  have hcopy : ∀ i now text, a.copying = some i → b = .copy i now text → s'.Untied b := by
    rintro i now text hi rfl
    have hclock : ∀ m, s'.clock m = s.clock m := fun m =>
      congrArg Engine.clock (congrFun h.engine m)
    simp only [HubSpoke.Untied, hclock]
    exact ha.2 i hi
  have hmem : ∀ {α β : Type} {o : Option α} {f : α → β} {c : β}, c ∈ o.toList.map f →
      ∃ x, o = some x ∧ c = f x := by
    intro α β o f c hc
    cases o with
    | none => cases hc
    | some x => exact ⟨x, rfl, List.mem_singleton.1 hc⟩
  cases a with
  | hub a =>
    cases a with
    | produce now text => exact hcopy none now text rfl (List.mem_singleton.1 hb)
    | _ => cases hb
  | relay k =>
    simp only [events, Option.mem_toList, Option.map_eq_some_iff] at hb
    obtain ⟨snap, -, rfl⟩ := hb
    rfl
  | receiveUp k =>
    obtain ⟨snap, -, rfl⟩ := hmem hb
    rfl
  | receiveDown k =>
    obtain ⟨snap, -, rfl⟩ := hmem hb
    rfl
  | spoke k a =>
    cases a with
    | task i label =>
      cases i with
      | zero =>
        cases label with
        | produce now =>
          obtain ⟨text, -, he⟩ := hmem hb
          exact hcopy (some k) now text rfl he
        | _ => cases hb
      | succ i => cases hb
    | _ => cases hb
  | _ => cases hb

end Deployment

open Deployment

/-- The processes, as long as the hub's copies are broadcast before what its readers apply, simulate
the network. -/
theorem deployment_simulates (n : ℕ) :
    Simulates ((deployment n).guard InOrder) (connectedHubSpoke (Fin n))
      (fun s s' => s.Connected ∧ s.Abstracts s') events := by
  constructor
  · intro s hs
    obtain ⟨s', hs', habstracts⟩ := hs.abstracts
    exact ⟨s', hs', hs.connected, habstracts⟩
  · rintro s a t s' ⟨hc, habs⟩ hstep
    obtain ⟨horder, hstep⟩ := System.guard_step_eq_some.1 hstep
    cases a with
    | hub a =>
      simp only [deployment, Deployment.step] at hstep
      split_ifs at hstep with ha
      obtain ⟨hub', hhub, rfl⟩ := Option.map_eq_some_iff.1 hstep
      have hlasting : a.isLasting := by
        cases a <;> first | rfl | cases ha
      obtain ⟨t', hrun, habs'⟩ := habs.step_hub hc ha hhub
      exact ⟨t', hrun, hc.hub hlasting hhub rfl, habs'⟩
    | relay k =>
      obtain ⟨hub', hhub, rfl⟩ := Option.map_eq_some_iff.1 hstep
      obtain ⟨t', hrun, habs'⟩ := habs.step_relay hc horder hhub
      exact ⟨t', hrun, hc.hub (a := .relay k) rfl hhub rfl, habs'⟩
    | sendDown k =>
      simp only [deployment, Deployment.step] at hstep
      split at hstep
      · next frame rest hqueue =>
        obtain ⟨hub', hhub, rfl⟩ := Option.map_eq_some_iff.1 hstep
        exact ⟨s', rfl, hc.hub (a := .writerSend k) rfl hhub rfl, habs.step_sendDown hc hqueue hhub⟩
      · cases hstep
    | receiveUp k =>
      simp only [deployment, Deployment.step] at hstep
      split at hstep
      · next frame rest hup =>
        obtain ⟨hub', hhub, rfl⟩ := Option.map_eq_some_iff.1 hstep
        obtain ⟨t', hrun, habs'⟩ := habs.step_receiveUp hc hup hhub
        exact ⟨t', hrun, hc.hub (a := .recv k frame) rfl hhub rfl, habs'⟩
      · cases hstep
    | spoke k a =>
      simp only [deployment, Deployment.step] at hstep
      split_ifs at hstep with ha
      obtain ⟨p, hp, rfl⟩ := Option.map_eq_some_iff.1 hstep
      obtain ⟨⟨t', hrun, habs'⟩, hlasting⟩ := habs.step_spoke hc ha hp
      exact ⟨t', hrun, hc.spoke_update hlasting rfl rfl, habs'⟩
    | sendUp k =>
      simp only [deployment, Deployment.step] at hstep
      split at hstep
      · next frame hframe =>
        obtain ⟨p, hp, rfl⟩ := Option.map_eq_some_iff.1 hstep
        obtain ⟨hlasting, habs'⟩ := habs.step_sendUp hc hframe hp
        exact ⟨s', rfl, hc.spoke_update hlasting rfl rfl, habs'⟩
      · cases hstep
    | receiveDown k =>
      simp only [deployment, Deployment.step] at hstep
      split at hstep
      · next frame rest hdown =>
        obtain ⟨p, hp, rfl⟩ := Option.map_eq_some_iff.1 hstep
        obtain ⟨⟨t', hrun, habs'⟩, hlasting⟩ := habs.step_receiveDown hc hdown hp
        exact ⟨t', hrun, hc.spoke_update hlasting rfl rfl, habs'⟩
      · cases hstep

/-- Clipboard agreement of the processes. In every run in which sessions last, the hub's own copies
are broadcast before what its readers apply, no copy takes a version that is the top counter of
another node, and no counter wraps: if no snapshot is on its way, and a node's counter is positive,
then all nodes have the same newest snapshot. -/
theorem deployment_agrees (n : ℕ) (s : Deployment n) (hs : (deployment n).Reach Untied s)
    (hq : s.Quiescent) (i : Option (Fin n)) (hi : 0 < s.clock i) :
    ∃ snap, ∀ j, (s.engine j).newest = some snap := by
  have hguarded : ((deployment n).guard InOrder).Reach Untied s :=
    System.Reach.guard (hs.mono fun _ _ h => ⟨h.1, h⟩)
  obtain ⟨s', hs', -, habs⟩ := (deployment_simulates n).reach
    (P := HubSpoke.Untied) (fun s a t s' hR hG hstep p hp => by
      obtain ⟨hstate, hlabel⟩ := steps_events hp
      rw [hstate]
      exact hR.2.untied_events hG hlabel) hguarded
  have hpos : 0 < s'.clock i := by
    rw [HubSpoke.clock, habs.engine]
    exact hi
  obtain ⟨snap, hsnap⟩ := (HubSpoke.agreementInvariant_of_reach hs').exists_newest
    (habs.quiescent_iff.2 hq) hpos
  refine ⟨snap, fun j => ?_⟩
  rw [← hsnap j, habs.engine]

section Example

instance {n : ℕ} (s : Deployment n) (a : DeploymentLabel n) : Decidable (s.Untied a) :=
  inferInstanceAs (Decidable (_ ∧ ∀ _, _ → _ ∧ ((∀ _, _) ∨ ∃ _, _)))

instance {n : ℕ} (s : Deployment n) : Decidable s.Quiescent :=
  decidable_of_iff ((∀ k, snapshots (s.upstream k) = []) ∧ (∀ k, snapshots (s.downstream k) = []) ∧
    ∀ k, s.applied k = none) ⟨fun h => ⟨h.1, h.2.1, h.2.2⟩, fun h => ⟨h.up, h.down, h.applied⟩⟩

/-- The identifier of a process. -/
def processId (i : ℕ) : NodeId := ⟨.replicate 16 (UInt8.ofNat i)⟩

/-- A hub that has accepted two spokes. -/
def twoProcesses : Deployment 2 where
  hub := { Hub.start (Engine.new (processId 0) 8) .new none with
    writers := ((∅ : AList fun _ : NodeId => ℕ).insert (processId 1) 0).insert (processId 2) 1
    sessions := [⟨processId 1, [], true, .reading⟩, ⟨processId 2, [], true, .reading⟩] }
  spoke k := ⟨Engine.new (processId (k + 1)) 8, none, [.start none]⟩
  up _ := []
  down _ := []

/-- `twoProcesses` is the start of a run. -/
theorem twoProcesses_starts : twoProcesses.Starts where
  hub := ⟨processId 0, 8, .new, none, rfl⟩
  spoke k := ⟨processId (k + 1), 8, none, rfl⟩
  ids := by unfold Function.Injective; decide +kernel
  up _ := rfl
  down _ := rfl

/-- The hub copies; the first spoke applies the copy and answers with one of its own, which the hub
passes on to the second. -/
def answeredProcesses : List (DeploymentLabel 2) :=
  [.hub (.produce 0 "hi"), .hub .broadcastLocal, .sendDown 0, .sendDown 1, .receiveDown 0,
    .receiveDown 1, .spoke 0 (.task 0 (.write true)), .spoke 1 (.task 0 (.write true)),
    .spoke 0 (.copy (some "re")), .spoke 0 (.task 0 .poll), .spoke 0 (.task 0 (.produce 0)),
    .spoke 0 (.task 0 .forward), .spoke 0 (.task 0 .take), .sendUp 0, .receiveUp 0,
    .hub (.write 0 true), .relay 0, .sendDown 1, .receiveDown 1]

/-- After `answeredProcesses` the hub and its spokes agree. -/
theorem deployment_agrees_answeredProcesses : ∃ s : Deployment 2, s.clock none = 2 ∧
    ∃ snap, ∀ j, (s.engine j).newest = some snap := by
  obtain ⟨s, hs, hq, hclock⟩ : ∃ s, (deployment 2).Reach Deployment.Untied s ∧ s.Quiescent ∧
      s.clock none = 2 :=
    System.exists_reach_of_run twoProcesses_starts answeredProcesses (by decide +kernel)
      (by decide +kernel)
  exact ⟨s, hclock, deployment_agrees 2 s hs hq none (by omega)⟩

end Example

end Borderless.Network
