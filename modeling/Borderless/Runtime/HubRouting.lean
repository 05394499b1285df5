import Borderless.Lib.Chunks
import Borderless.Runtime.Server

/-!
# What the hub sends to a spoke

`HubRouting` follows the queue of one sender over a period of a run in which the map holds the sender
for its peer and the writer task holds the receiver (`Hub.Holds`). `Hub.routed` says which frames a
step is to enqueue: a frame of the local clipboard or of the input capture, a snapshot that was
accepted from a session of another peer, or the whole reply to a fetch request of the peer itself.
`Hub.queue_step` shows that a step enqueues exactly these, and `hub_routing_exact` follows a period.
-/

namespace Borderless.Runtime

open Borderless.Clipboard Transition

namespace Hub

/-- The frames in the channel of the session `i`, oldest first. -/
def queue (s : Hub) (i : ℕ) : List WireFrame := (s.sessions[i]?.map Session.queue).getD []

/-- The writer task of the session `i` still holds the receiver. -/
def Receives (s : Hub) (i : ℕ) : Prop := ∃ x, s.sessions[i]? = some x ∧ x.receiver = true

/-- The map holds the sender `i` for the peer, and its writer task still holds the receiver. -/
def Holds (s : Hub) (peer : NodeId) (i : ℕ) : Prop :=
  s.writers.lookup peer = some i ∧ s.Receives i

/-- Every sender in the map is of a session of its peer. -/
def Owned (s : Hub) : Prop :=
  ∀ peer i, s.writers.lookup peer = some i → ∃ x, s.sessions[i]? = some x ∧ x.peer = peer

/-- The reply to a request for `hash`. -/
def fetchReply (s : Hub) (hash : Bytes 32) : List WireFrame :=
  match s.lazy.get hash with
  | some bytes => chunkFetchResponse hash bytes
  | none => [.fetchMiss hash]

/-- The broadcast of a step: the peer that is left out, and the frame. -/
def broadcast (s : Hub) : HubLabel → Option (Option NodeId × WireFrame)
  | .broadcastLocal => s.localFrames.head?.map fun frame => (none, frame)
  | .broadcastInput => s.captured.head?.map fun event => (none, .input event)
  | .relay j =>
    match s.sessions[j]? with
    | some ⟨sender, _, _, .relaying snap⟩ => some (some sender, .clipboard snap)
    | _ => none
  | _ => none

/-- The reply of a step to a request of the peer. -/
def replyTo (s : Hub) (peer : NodeId) : HubLabel → List WireFrame
  | .recv j (.fetchRequest hash) =>
    match s.sessions[j]? with
    | some ⟨sender, _, _, .reading⟩ => if sender = peer then s.fetchReply hash else []
    | _ => []
  | _ => []

/-- The frames that a step is to enqueue to the sender of the peer. -/
def routed (s : Hub) (peer : NodeId) (a : HubLabel) : List WireFrame :=
  match s.broadcast a with
  | some (exclude, frame) => if exclude = some peer then [] else [frame]
  | none => s.replyTo peer a

/-- The frames that a step takes out of the channel of the session `i`. -/
def taken (s : Hub) (i : ℕ) : HubLabel → List WireFrame
  | .writerSend j => if j = i then (s.queue i).take 1 else []
  | _ => []

/-! ## Queues -/

/-- The queue of a session after a change of sessions one by one. -/
theorem queue_modify (s : Hub) (i j : ℕ) (f : Session → Session) :
    { s with sessions := s.sessions.modify j f : Hub }.queue i =
      if j = i then (s.sessions[i]?.map fun x => (f x).queue).getD [] else s.queue i := by
  unfold queue
  rw [List.getElem?_modify]
  split_ifs with h
  · simp [Function.comp_def]
  · simp

/-- A reader that moves on leaves the queues alone. -/
@[simp] theorem queue_setReader (s : Hub) (i j : ℕ) (reader : Reader) :
    (s.setReader j reader).queue i = s.queue i := by
  unfold setReader
  rw [queue_modify]
  split_ifs with h
  · rfl
  · rfl

/-- A message leaves the receivers alone. -/
@[simp] theorem receives_send (s : Hub) (i j : ℕ) (frame : WireFrame) :
    (s.send j frame).Receives i ↔ s.Receives i := by
  unfold Receives send
  simp only [List.getElem?_modify]
  cases s.sessions[i]? with
  | none => simp
  | some x =>
    simp only [Option.map_eq_map, Option.map_some, Option.some.injEq, exists_eq_left']
    split_ifs <;> simp_all

/-- A message goes to the end of its channel. -/
theorem queue_send {s : Hub} {i : ℕ} (h : s.Receives i) (j : ℕ) (frame : WireFrame) :
    (s.send j frame).queue i = s.queue i ++ if j = i then [frame] else [] := by
  obtain ⟨x, hx, hreceiver⟩ := h
  unfold send
  rw [queue_modify]
  unfold queue
  split_ifs with hj
  · simp [hx, hreceiver]
  · simp

/-- Messages to one channel go to its end in order. -/
theorem queue_foldl_send {s : Hub} {i : ℕ} (h : s.Receives i) (j : ℕ) (frames : List WireFrame) :
    (frames.foldl (fun s frame => s.send j frame) s).queue i =
      s.queue i ++ if j = i then frames else [] := by
  induction frames generalizing s with
  | nil => simp
  | cons frame frames ih =>
    rw [List.foldl_cons, ih ((s.receives_send i j frame).2 h), queue_send h, List.append_assoc]
    split_ifs <;> rfl

/-- A broadcast along some entries goes once to a sender among them. -/
theorem queue_foldl_entries {s : Hub} {i : ℕ} {peer : NodeId} {exclude : Option NodeId}
    {frame : WireFrame} (h : s.Receives i) {entries : List (Σ _ : NodeId, ℕ)}
    (hnodup : entries.NodupKeys) (howner : ∀ e ∈ entries, e.2 = i → e.1 = peer) :
    (entries.foldl
        (fun s entry => if some entry.1 = exclude then s else s.send entry.2 frame) s).queue i =
      s.queue i ++ if ⟨peer, i⟩ ∈ entries ∧ exclude ≠ some peer then [frame] else [] := by
  induction entries generalizing s with
  | nil => simp
  | cons e entries ih =>
    have hrest := fun e he => howner e (List.mem_cons_of_mem _ he)
    obtain ⟨hnew, hnodup'⟩ := List.nodupKeys_cons.1 hnodup
    rw [List.foldl_cons]
    by_cases hi : e.2 = i
    · -- the entry of the peer comes once
      obtain rfl : e = ⟨peer, i⟩ := Sigma.ext (howner e List.mem_cons_self hi) (heq_of_eq hi)
      have hgone : (⟨peer, i⟩ : Σ _ : NodeId, ℕ) ∉ entries := fun hmem =>
        hnew (List.mem_keys_of_mem hmem)
      by_cases hexclude : some peer = exclude
      · rw [if_pos hexclude, ih h hnodup' hrest]
        simp [hgone, ← hexclude]
      · rw [if_neg hexclude, ih ((s.receives_send i i frame).2 h) hnodup' hrest, queue_send h]
        simp [hgone, Ne.symm hexclude]
    · have hne : (⟨peer, i⟩ : Σ _ : NodeId, ℕ) ≠ e := fun heq => hi (by rw [← heq])
      have hhead : ((if some e.1 = exclude then s else s.send e.2 frame).queue i = s.queue i) ∧
          (if some e.1 = exclude then s else s.send e.2 frame).Receives i := by
        split_ifs
        · exact ⟨rfl, h⟩
        · exact ⟨by simp [queue_send h, hi], (s.receives_send i e.2 frame).2 h⟩
      rw [ih hhead.2 hnodup' hrest, hhead.1]
      simp [List.mem_cons, hne]

/-- Every sender in the map is of a session of its peer, in every run. -/
theorem owned_of_reachable {s : Hub} (hs : hub.Reachable s) : s.Owned := by
  have htable : s.table.Owned := by
    refine hs.invariant (I := fun s => s.table.Owned) (fun s hinit => ?_) fun s a t h _ hstep => ?_
    · obtain ⟨engine, lazy, clipboard, rfl⟩ := hinit
      intro peer i hi
      cases hi
    · rcases table_step hstep with ⟨peer, -, ht⟩ | ⟨i, -, ht⟩ | ⟨i, x, -, -, ht⟩ | ⟨-, ht⟩
      · rw [ht]
        exact SessionTable.owned_install h peer
      · rw [ht]
        exact SessionTable.owned_close h i
      · rw [ht]
        exact SessionTable.owned_remove h x.peer
      · rw [ht]
        exact h
  intro peer i hi
  obtain ⟨isOpen, hsession⟩ := htable peer i hi
  simp only [table, List.getElem?_map, Option.map_eq_some_iff] at hsession
  obtain ⟨x, hx, hrow⟩ := hsession
  exact ⟨x, hx, (Prod.mk.inj hrow).1⟩

/-- A sender is in the map for one peer only. -/
theorem Owned.peer_unique {s : Hub} (howned : s.Owned) {peer peer' : NodeId} {i : ℕ}
    (h : s.writers.lookup peer = some i) (h' : s.writers.lookup peer' = some i) :
    peer' = peer := by
  obtain ⟨x, hx, rfl⟩ := howned peer i h
  obtain ⟨x', hx', rfl⟩ := howned peer' i h'
  rw [Option.some.inj (hx'.symm.trans hx)]

/-- A broadcast goes once to the sender of each peer that is not left out. -/
theorem queue_broadcastToAll {s : Hub} {peer : NodeId} {i : ℕ} (howned : s.Owned)
    (h : s.Holds peer i) (frame : WireFrame) (exclude : Option NodeId) :
    (s.broadcastToAll frame exclude).queue i =
      s.queue i ++ if exclude = some peer then [] else [frame] := by
  have howner : ∀ e ∈ s.writers.entries, e.2 = i → e.1 = peer := by
    intro e he hi
    refine howned.peer_unique h.1 ?_
    rw [← hi]
    exact AList.mem_lookup_iff.2 he
  have hmem : (⟨peer, i⟩ : Σ _ : NodeId, ℕ) ∈ s.writers.entries := AList.mem_lookup_iff.1 h.1
  unfold broadcastToAll
  rw [queue_foldl_entries h.2 s.writers.nodupKeys howner]
  congr 1
  split_ifs <;> simp_all

/-- A reply goes as a whole to the sender of the peer that asked. -/
theorem queue_reply {s : Hub} {peer : NodeId} {i : ℕ} (howned : s.Owned) (h : s.Holds peer i)
    (sender : NodeId) (frames : List WireFrame) :
    (s.reply sender frames).queue i = s.queue i ++ if sender = peer then frames else [] := by
  unfold reply
  cases hlookup : s.writers.lookup sender with
  | none =>
    have hne : sender ≠ peer := by
      rintro rfl
      rw [h.1] at hlookup
      cases hlookup
    simp [hne]
  | some j =>
    simp only
    rw [queue_foldl_send h.2]
    congr 1
    by_cases hsender : sender = peer
    · subst hsender
      have hj : j = i := Option.some.inj (hlookup.symm.trans h.1)
      rw [if_pos hj, if_pos rfl]
    · have hj : j ≠ i := by
        rintro rfl
        exact hsender (howned.peer_unique h.1 hlookup)
      rw [if_neg hj, if_neg hsender]

/-- The reader's match on a frame enqueues the reply to a request of the peer, and nothing else. -/
theorem queue_handleFrame {s : Hub} {peer : NodeId} {i : ℕ} (howned : s.Owned)
    (h : s.Holds peer i) (j : ℕ) (sender : NodeId) (frame : WireFrame) :
    (s.handleFrame j sender frame).queue i = s.queue i ++
      match frame with
      | .fetchRequest hash => if sender = peer then s.fetchReply hash else []
      | _ => [] := by
  unfold handleFrame
  cases frame with
  | clipboard snap =>
    simp only [List.append_nil]
    split
    · rw [queue_setReader]
      rfl
    · rfl
  | fetchRequest hash =>
    unfold fetchReply
    simp only
    cases s.lazy.get hash with
    | some bytes => exact queue_reply howned h _ _
    | none => exact queue_reply howned h _ _
  | input event => simp
  | fetchResponse hash chunkIdx total bytes => simp
  | fetchMiss hash => simp
  | control frame => simp

/-- A step takes at most the oldest frame out of a channel, and enqueues exactly the routed frames,
as long as the channel's sender is in the map and its receiver is held on. -/
theorem queue_step {s t : Hub} {peer : NodeId} {i : ℕ} {a : HubLabel} (howned : s.Owned)
    (h : s.Holds peer i) (ht : t.Receives i) (hstep : s.step a = some t) :
    s.taken i a ++ t.queue i = s.queue i ++ s.routed peer a := by
  cases a with
  | accept newPeer =>
    obtain rfl := Option.some.inj hstep
    obtain ⟨x, hx, -⟩ := h.2
    -- the new session comes behind the others
    have hlt := (List.getElem?_eq_some_iff.1 hx).1
    simp [taken, routed, broadcast, replyTo, queue, List.getElem?_append_left hlt]
  | recv j frame =>
    obtain ⟨x, hx, hreader, rfl⟩ := step_recv hstep
    rw [queue_handleFrame howned h]
    rcases x with ⟨sender, queue, receiver, reader⟩
    obtain rfl : reader = .reading := hreader
    cases frame <;> simp [taken, routed, broadcast, replyTo, hx]
  | write j ok =>
    -- a write to the clipboard enqueues nothing
    obtain ⟨x, snap, -, -, rfl⟩ := step_write hstep
    simp only [queue_setReader, taken, routed, broadcast, replyTo, List.append_nil]
    rfl
  | relay j =>
    obtain ⟨x, snap, hx, hreader, rfl⟩ := step_relay hstep
    rcases x with ⟨sender, queue, receiver, reader⟩
    obtain rfl : reader = .relaying snap := hreader
    rw [queue_setReader, queue_broadcastToAll howned h]
    simp [taken, routed, broadcast, hx]
  | readError j =>
    obtain ⟨x, -, -, rfl⟩ := step_readError hstep
    simp [taken, routed, broadcast, replyTo]
  | cleanup j =>
    obtain ⟨x, -, -, rfl⟩ := step_cleanup hstep
    simp only [queue_setReader, taken, routed, broadcast, replyTo, List.append_nil]
    rfl
  | writerSend j =>
    obtain ⟨x, frame, rest, hx, hqueue, rfl⟩ := step_writerSend hstep
    rw [queue_modify]
    simp only [taken, routed, broadcast, replyTo, List.append_nil]
    split_ifs with hj
    · subst hj
      simp [queue, hx, hqueue]
    · rfl
  | writerFail j =>
    obtain ⟨x, hx, rfl⟩ := step_writerFail hstep
    -- the channel of `i` keeps its receiver
    have hj : j ≠ i := by
      rintro rfl
      obtain ⟨y, hy, hreceiver⟩ := ht
      simp only [List.getElem?_modify_eq, hx, Option.map_eq_map, Option.map_some] at hy
      obtain rfl := Option.some.inj hy
      cases hreceiver
    rw [queue_modify, if_neg hj]
    simp [taken, routed, broadcast, replyTo]
  | writerEnd j =>
    obtain rfl := step_writerEnd hstep
    rw [queue_modify]
    simp only [taken, routed, broadcast, replyTo, List.append_nil]
    split_ifs with hj
    · simp [queue]
    · rfl
  | produce now text =>
    obtain rfl := Option.some.inj hstep
    simp only [taken, routed, broadcast, replyTo, List.append_nil]
    rfl
  | broadcastLocal =>
    obtain ⟨frame, rest, hlocal, rfl⟩ := step_broadcastLocal hstep
    have hqueue := queue_broadcastToAll (s := { s with localFrames := rest }) howned h frame none
    simp only [taken, routed, broadcast, hlocal, List.nil_append]
    exact hqueue
  | capture event =>
    obtain rfl := Option.some.inj hstep
    simp only [taken, routed, broadcast, replyTo, List.append_nil]
    rfl
  | broadcastInput =>
    obtain ⟨event, rest, hcaptured, rfl⟩ := step_broadcastInput hstep
    have hqueue := queue_broadcastToAll (s := { s with captured := rest }) howned h
      (.input event) none
    simp only [taken, routed, broadcast, hcaptured, List.nil_append]
    exact hqueue

/-! ## Replies -/

/-- A reply to a request for `hash`: the payload in chunks in the order of their indices, or a miss
when the store does not have it. -/
def IsReply (hash : Bytes 32) (payload : Option (List UInt8)) (frames : List WireFrame) : Prop :=
  match payload with
  | some bytes => ∃ chunks : List (List UInt8), chunks.flatten = bytes ∧
      frames = chunks.zipIdx.map fun (chunk, k) =>
        .fetchResponse hash (.ofNat k) (.ofNat chunks.length) chunk
  | none => frames = [.fetchMiss hash]

/-- A payload is chunked completely. -/
theorem isReply_chunkFetchResponse (hash : Bytes 32) (bytes : List UInt8) :
    IsReply hash (some bytes) (chunkFetchResponse hash bytes) := by
  unfold chunkFetchResponse
  split_ifs with hempty
  · exact ⟨[[]], hempty.symm, rfl⟩
  · refine ⟨bytes.toChunks fetchChunkSize, List.flatten_toChunks _ _, ?_⟩
    rw [List.length_toChunks (by decide)]

/-- The hub replies completely. -/
theorem isReply_fetchReply (s : Hub) (hash : Bytes 32) :
    IsReply hash (s.lazy.get hash) (s.fetchReply hash) := by
  unfold fetchReply
  cases s.lazy.get hash with
  | some bytes => exact isReply_chunkFetchResponse hash bytes
  | none => rfl

/-! ## Periods -/

/-- Before each of the steps the map holds the sender for the peer, and after it the writer task
still holds the receiver. -/
def Period (peer : NodeId) (i : ℕ) (steps : List (Hub × HubLabel × Hub)) : Prop :=
  ∀ p ∈ steps, p.1.Holds peer i ∧ p.2.2.Receives i

/-- The frames that the steps are to enqueue to the sender of the peer, in order. -/
def routedAll (peer : NodeId) (steps : List (Hub × HubLabel × Hub)) : List WireFrame :=
  steps.flatMap fun p => p.1.routed peer p.2.1

/-- The broadcast of a step that goes to both of two peers. -/
def common (s : Hub) (peer peer' : NodeId) (a : HubLabel) : List WireFrame :=
  match s.broadcast a with
  | some (exclude, frame) => if exclude = some peer ∨ exclude = some peer' then [] else [frame]
  | none => []

/-- A frame that the hub only takes note of when a spoke sends it: all but snapshots and fetch
requests. -/
def Inert : WireFrame → Prop
  | .clipboard _ | .fetchRequest _ => False
  | .input _ | .fetchResponse .. | .fetchMiss _ | .control _ => True

/-- What the steps between two states send to the peer over the sender `i`. -/
structure RoutingExact (peer : NodeId) (i : ℕ) (steps : List (Hub × HubLabel × Hub))
    (first last : Hub) : Prop where
  /-- What the writer takes, and then what is left in the channel, is what was in the channel, and
  then the routed frames of the steps in order. -/
  exact : (steps.flatMap fun p => p.1.taken i p.2.1) ++ last.queue i =
    first.queue i ++ routedAll peer steps
  /-- The broadcasts that go to another peer too go to both in the same order. -/
  sameOrder : ∀ peer', (steps.flatMap fun p => p.1.common peer peer' p.2.1).Sublist
    (routedAll peer steps) ∧ (steps.flatMap fun p => p.1.common peer peer' p.2.1).Sublist
    (routedAll peer' steps)
  /-- A request of the peer is answered by a complete reply in one block. -/
  replies : ∀ p ∈ steps, ∀ j x hash, p.2.1 = .recv j (.fetchRequest hash) →
    p.1.sessions[j]? = some x → x.peer = peer →
    ∃ reply, IsReply hash (p.1.lazy.get hash) reply ∧ p.2.2.queue i = p.1.queue i ++ reply
  /-- A snapshot that was accepted from a session of the peer is not broadcast to it. -/
  notBack : ∀ p ∈ steps, ∀ j x, p.2.1 = .relay j → p.1.sessions[j]? = some x → x.peer = peer →
    p.2.2.queue i = p.1.queue i
  /-- A frame of a spoke other than a snapshot or a fetch request changes nothing at the hub, and no
  frame of another spoke is enqueued when it is received. -/
  oneWay : ∀ p ∈ steps, ∀ j x frame, p.2.1 = .recv j frame → p.1.sessions[j]? = some x →
    (Inert frame → p.2.2 = p.1) ∧ (x.peer ≠ peer → p.2.2.queue i = p.1.queue i)

/-- A common broadcast is routed to both peers. -/
theorem common_sublist (s : Hub) (peer peer' : NodeId) (a : HubLabel) :
    (s.common peer peer' a).Sublist (s.routed peer a) ∧
      (s.common peer peer' a).Sublist (s.routed peer' a) := by
  unfold common routed
  cases s.broadcast a with
  | none => exact ⟨List.nil_sublist _, List.nil_sublist _⟩
  | some b =>
    rcases b with ⟨exclude, frame⟩
    simp only
    by_cases hpeer : exclude = some peer
    · rw [if_pos (.inl hpeer)]
      exact ⟨List.nil_sublist _, List.nil_sublist _⟩
    · by_cases hpeer' : exclude = some peer'
      · rw [if_pos (.inr hpeer')]
        exact ⟨List.nil_sublist _, List.nil_sublist _⟩
      · rw [if_neg (not_or.2 ⟨hpeer, hpeer'⟩), if_neg hpeer, if_neg hpeer']
        exact ⟨List.Sublist.refl _, List.Sublist.refl _⟩

/-- Over a period the channel gets exactly the routed frames, in order. -/
theorem queue_run {s t : Hub} {peer : NodeId} {i : ℕ} (hs : hub.Reachable s)
    {as : List HubLabel} (hrun : hub.run s as = some t) (hperiod : Period peer i (hub.steps s as)) :
    ((hub.steps s as).flatMap fun p => p.1.taken i p.2.1) ++ t.queue i =
      s.queue i ++ routedAll peer (hub.steps s as) := by
  induction as generalizing s with
  | nil =>
    obtain rfl : s = t := Option.some.inj hrun
    simp [System.steps, routedAll]
  | cons a as ih =>
    simp only [System.run, Option.bind_eq_some_iff] at hrun
    obtain ⟨u, hu, hrun⟩ := hrun
    unfold routedAll
    unfold Period at hperiod
    simp only [System.steps, hu, List.forall_mem_cons, List.flatMap_cons] at hperiod ⊢
    have hstep := queue_step (owned_of_reachable hs) hperiod.1.1 hperiod.1.2 hu
    have hrest := ih (hs.step trivial hu) hrun hperiod.2
    unfold routedAll at hrest
    rw [List.append_assoc, hrest, ← List.append_assoc, hstep, List.append_assoc]

/-- A request of the peer is to be answered. -/
theorem routed_fetchRequest {s : Hub} {j : ℕ} {x : Session} (hx : s.sessions[j]? = some x)
    (hreader : x.reader = .reading) (hash : Bytes 32) :
    s.routed x.peer (.recv j (.fetchRequest hash)) = s.fetchReply hash := by
  rcases x with ⟨sender, queue, receiver, reader⟩
  obtain rfl : reader = .reading := hreader
  simp [routed, broadcast, replyTo, hx]

/-- A relay leaves the sender out. -/
theorem routed_relay_self {s : Hub} {j : ℕ} {x : Session} (hx : s.sessions[j]? = some x) :
    s.routed x.peer (.relay j) = [] := by
  rcases x with ⟨sender, queue, receiver, reader⟩
  cases reader <;> simp [routed, broadcast, replyTo, hx]

/-- What another spoke sends is not routed when it is received. -/
theorem routed_recv_of_ne {s : Hub} {j : ℕ} {x : Session} (hx : s.sessions[j]? = some x)
    {peer : NodeId} (hne : x.peer ≠ peer) (frame : WireFrame) :
    s.routed peer (.recv j frame) = [] := by
  show s.replyTo peer (.recv j frame) = []
  rcases x with ⟨sender, queue, receiver, reader⟩
  cases frame with
  | fetchRequest hash =>
    unfold replyTo
    simp only [hx]
    cases reader <;> first | rfl | exact if_neg hne
  | _ => rfl

/-- An inert frame changes nothing. -/
theorem handleFrame_inert (s : Hub) (j : ℕ) (peer : NodeId) {frame : WireFrame}
    (h : Inert frame) : s.handleFrame j peer frame = s := by
  cases frame <;> first | rfl | exact h.elim

end Hub

open Hub

/-- The routing of the hub. In every run, over every period in which the map holds a given sender for
a peer and its writer task holds the receiver, the frames enqueued to it are exactly the routed ones
in the order of the steps: common broadcasts reach two peers in one order, a fetch request is
answered by a complete reply in one block, no snapshot goes back to the peer that it was accepted
from, and no other frame of a spoke is forwarded. -/
theorem hub_routing_exact {s t : Hub} (hs : hub.Reachable s) {as : List HubLabel}
    (hrun : hub.run s as = some t) {peer : NodeId} {i : ℕ}
    (hperiod : Period peer i (hub.steps s as)) :
    RoutingExact peer i (hub.steps s as) s t := by
  -- what one step of the period enqueues
  have hqueue : ∀ p ∈ hub.steps s as,
      p.1.taken i p.2.1 ++ p.2.2.queue i = p.1.queue i ++ p.1.routed peer p.2.1 :=
    fun p hp => queue_step (owned_of_reachable (System.Reach.of_mem_steps hs hp))
      (hperiod p hp).1 (hperiod p hp).2 (System.step_of_mem_steps hp)
  constructor
  · exact queue_run hs hrun hperiod
  · intro peer'
    exact ⟨List.Sublist.flatMap_right _ fun p _ => (p.1.common_sublist peer peer' p.2.1).1,
      List.Sublist.flatMap_right _ fun p _ => (p.1.common_sublist peer peer' p.2.1).2⟩
  · intro p hp j x hash hlabel hx hpeer
    have hstep := System.step_of_mem_steps hp
    have hstep' := hqueue p hp
    rw [hlabel] at hstep hstep'
    refine ⟨p.1.fetchReply hash, isReply_fetchReply p.1 hash, ?_⟩
    -- the step is enabled, so the reader waits for a frame
    obtain ⟨x', hx', hreader, -⟩ := step_recv hstep
    obtain rfl : x = x' := Option.some.inj (hx.symm.trans hx')
    rw [← hpeer, routed_fetchRequest hx hreader] at hstep'
    exact hstep'
  · intro p hp j x hlabel hx hpeer
    have hstep' := hqueue p hp
    rw [hlabel, ← hpeer, routed_relay_self hx, List.append_nil] at hstep'
    exact hstep'
  · intro p hp j x frame hlabel hx
    have hstep := System.step_of_mem_steps hp
    have hstep' := hqueue p hp
    rw [hlabel] at hstep hstep'
    constructor
    · intro hinert
      obtain ⟨x', -, -, ht⟩ := step_recv hstep
      rw [ht, handleFrame_inert _ _ _ hinert]
    · intro hne
      rw [routed_recv_of_ne hx hne, List.append_nil] at hstep'
      exact hstep'

section Example

/-- Another spoke. -/
def otherSpokeId : NodeId := ⟨.replicate 16 2⟩

/-- Two spokes are connected. -/
def twoSpokes : List HubLabel := [.accept spokeId, .accept otherSpokeId]

/-- The first spoke sends a snapshot and asks for a payload, and the hub copies a text. -/
def routingRun : List HubLabel :=
  [.recv 0 (.clipboard ⟨1, spokeId, 0, [.text "a"]⟩), .produce 0 "b", .write 0 true, .broadcastLocal,
    .relay 0, .recv 0 (.fetchRequest (.replicate 32 0)), .writerSend 1]

instance (s : Hub) (i : ℕ) : Decidable (s.Receives i) :=
  decidable_of_iff (∃ x ∈ s.sessions[i]?, x.receiver = true) Iff.rfl

instance (s : Hub) (peer : NodeId) (i : ℕ) : Decidable (s.Holds peer i) :=
  inferInstanceAs (Decidable (_ ∧ _))

/-- In `routingRun` the first spoke gets the local snapshot and the reply, and the other spoke gets
both snapshots. -/
theorem hub_routing_exact_routingRun : ∃ s t : Hub,
    RoutingExact spokeId 0 (hub.steps s routingRun) s t ∧
      RoutingExact otherSpokeId 1 (hub.steps s routingRun) s t ∧
      (t.queue 0).length = 2 ∧ (t.queue 1).length = 1 := by
  obtain ⟨s, hs, h⟩ := System.exists_reach_of_run (M := hub) (P := fun _ _ => True)
    (p := fun s => ((hub.run s routingRun).any fun t =>
      (t.queue 0).length = 2 ∧ (t.queue 1).length = 1) = true ∧
      ∀ p ∈ hub.steps s routingRun, (p.1.Holds spokeId 0 ∧ p.2.2.Receives 0) ∧
        p.1.Holds otherSpokeId 1 ∧ p.2.2.Receives 1)
    freshHub_init twoSpokes (fun _ _ => trivial) (by decide +kernel)
  obtain ⟨t, hrun, hlength⟩ := (Option.any_eq_true ..).1 h.1
  exact ⟨s, t, hub_routing_exact hs hrun fun p hp => (h.2 p hp).1,
    hub_routing_exact hs hrun fun p hp => (h.2 p hp).2, of_decide_eq_true hlength⟩

end Example

end Borderless.Runtime
