import Borderless.Input.Relay
import Borderless.Runtime.FrameOrder
import Borderless.Runtime.HubRouting
import Borderless.Transport.WireFormat

/-!
# The way of the input from the hub to a spoke

`ServerRuntime::run` of `crates/cli/src/runtime/server.rs` gives the capture a channel, and a task
broadcasts each event of it to the writer channels of the sessions. The rest of the way is the
session of `Runtime/Duplex.lean`, and at its end `reader_loop` gives each event to the emitter of the
spoke.

The capture sends its events one by one (`capture_tx`), and what it is still to send is part of the
state. `input_arrives` puts the layers together: whatever the tasks do meanwhile, and whether or not
the session lasts, a spoke has at each moment done what it does for the first of the raw events of
the hub.
-/

namespace Borderless.Runtime

open Borderless.Transport Borderless.Input Transition Exchange EventRelay LastWrite

/-! ## The path -/

/-- The input event of a frame. -/
def inputOf : WireFrame → Option InputEvent
  | .input event => some event
  | _ => none

/-- The input events among the frames. -/
def inputs (fs : List WireFrame) : List InputEvent := fs.filterMap inputOf

/-- The path of the input into one session. -/
structure InputPath (c : FrameCodec) where
  /-- What the capture is still to send. -/
  remaining : List InputEvent
  /-- The channel of the capture. -/
  sink : List InputEvent
  /-- The session. -/
  session : Pair c

/-- What happens on the path. -/
inductive InputLabel
  /-- The capture sends its next event. -/
  | capture
  /-- The task of the hub broadcasts the next event. -/
  | broadcast
  /-- Something happens in the session. -/
  | session (a : PairLabel)

/-- Only the task that broadcasts the input sends input frames into the channel of a session. -/
def PairLabel.sendsInput (a : PairLabel) : Bool :=
  match a.act with
  | .enqueue frame => (inputOf frame).isSome
  | _ => false

namespace InputPath

variable {c : FrameCodec}

/-- The path of a session that has just been authenticated. -/
def start (c : FrameCodec) (events : List InputEvent) : InputPath c :=
  ⟨events, [], ⟨fun _ => Half.start c⟩⟩

/-- What a step of the path is in the session. The broadcast of an event reaches the session as long
as the map of the writers has its channel. -/
def labels (s : InputPath c) : InputLabel → List PairLabel
  | .capture => []
  | .broadcast =>
    match s.sink with
    | event :: _ =>
      if (s.session.half .hub).sender then [⟨.hub, .enqueue (.input event)⟩] else []
    | [] => []
  | .session a => [a]

/-- One step. -/
def step (s : InputPath c) : InputLabel → Option (InputPath c)
  | .capture =>
    match s.remaining with
    | event :: rest => some { s with remaining := rest, sink := s.sink ++ [event] }
    | [] => none
  | .broadcast =>
    match s.sink with
    | _ :: rest =>
      ((duplex c).run s.session (s.labels .broadcast)).map fun session =>
        { s with sink := rest, session := session }
    | [] => none
  | .session a =>
    if a.sendsInput then none
    else (s.session.step a).map fun session => { s with session := session }

end InputPath

/-- The path as a system. -/
def inputPath (c : FrameCodec) : System (InputPath c) InputLabel where
  init s := ∃ events, s = .start c events
  step := InputPath.step

/-- The path is a session to which the events are sent. -/
theorem inputPath_simulates (c : FrameCodec) :
    Simulates (inputPath c) (duplex c) (fun s p => s.session = p) InputPath.labels := by
  constructor
  · rintro _ ⟨events, rfl⟩
    exact ⟨_, rfl, rfl⟩
  · rintro s a t _ rfl hstep
    cases a with
    | capture =>
      obtain ⟨remaining, sink, session⟩ := s
      cases remaining with
      | nil => cases hstep
      | cons event rest =>
        obtain rfl := Option.some.inj hstep
        exact ⟨session, rfl, rfl⟩
    | broadcast =>
      obtain ⟨remaining, sink, session⟩ := s
      cases sink with
      | nil => cases hstep
      | cons event rest =>
        obtain ⟨session', hrun, rfl⟩ := Option.map_eq_some_iff.1 hstep
        exact ⟨session', hrun, rfl⟩
    | session a =>
      simp only [inputPath, InputPath.step] at hstep
      split_ifs at hstep
      obtain ⟨session', hsession, rfl⟩ := Option.map_eq_some_iff.1 hstep
      exact ⟨session', by rw [InputPath.labels, System.run_singleton]; exact hsession, rfl⟩

/-! ## The input in the channel of the hub -/

/-- The input among two sequences of frames. -/
theorem inputs_append (fs gs : List WireFrame) : inputs (fs ++ gs) = inputs fs ++ inputs gs :=
  List.filterMap_append

/-- A reply is no input. -/
theorem inputs_channelReply (found : Option (List UInt8)) (side : Side) (frame : WireFrame) :
    inputs (channelReply found side frame) = [] := by
  unfold channelReply
  split
  · next hash =>
    cases found with
    | none => rfl
    | some bytes =>
      obtain ⟨chunks, -, hchunks⟩ := Hub.isReply_chunkFetchResponse hash bytes
      refine List.filterMap_eq_nil_iff.2 fun frame hframe => ?_
      replace hframe : frame ∈ chunkFetchResponse hash bytes := hframe
      rw [hchunks] at hframe
      obtain ⟨⟨chunk, k⟩, -, rfl⟩ := List.mem_map.1 hframe
      rfl
  · rfl

namespace Half

variable {c : FrameCodec} {h h' : Half c} {side : Side} {peerClosed : Bool} {act : Act}
  {bytes : List UInt8}

/-- A message to the channel leaves its sender alone. -/
@[simp] theorem sender_push (h : Half c) (frames : List WireFrame) :
    (h.push frames).sender = h.sender := by
  unfold push
  split_ifs <;> rfl

/-- Handling a frame keeps the channel. -/
@[simp] theorem sender_handleFrame (h : Half c) (side : Side) (found : Option (List UInt8))
    (frame : WireFrame) : (h.handleFrame side found frame).sender = h.sender := by
  cases hdirect : directReply c side frame with
  | none =>
    rw [handleFrame_eq_push h found hdirect, sender_push]
  | some m =>
    obtain ⟨-, payload, -, hreply⟩ := handleFrame_eq_replying h found hdirect
    rw [hreply]

/-- A channel gets no new sender. -/
theorem sender_of_act (hact : h.act side peerClosed act = some (h', bytes))
    (hsender : h'.sender = true) : h.sender = true := by
  cases act with
  | enqueue frame =>
    obtain ⟨rfl, -⟩ := act_enqueue hact
    rwa [sender_push] at hsender
  | dropSender =>
    obtain ⟨rfl, -⟩ := act_dropSender hact
    cases hsender
  | pop =>
    obtain ⟨_, _, _, -, -, -, rfl, -⟩ := act_pop hact
    exact hsender
  | writerEnd =>
    obtain ⟨-, -, -, rfl, -⟩ := act_writerEnd hact
    exact hsender
  | writerLock =>
    obtain ⟨_, -, rfl, -⟩ := act_writerLock hact
    exact hsender
  | close =>
    obtain ⟨-, rfl, -⟩ := act_close hact
    exact hsender
  | replyLock =>
    obtain ⟨_, -, -, rfl | rfl⟩ := act_replyLock hact <;> exact hsender
  | write k =>
    obtain ⟨_, _, -, rfl, -⟩ := act_write hact
    exact hsender
  | unlock =>
    obtain ⟨-, ⟨-, rfl⟩ | ⟨-, rfl⟩⟩ := act_unlock hact <;> exact hsender
  | readLock =>
    obtain ⟨-, rfl, -⟩ := act_readLock hact
    exact hsender
  | read k =>
    obtain ⟨_, _, -, -, -, rfl, -⟩ := act_read hact
    exact hsender
  | received found =>
    obtain ⟨buf, -, -, ⟨-, rfl⟩ | ⟨_, -, rfl⟩⟩ := act_received hact
    · unfold recvFrame at hsender
      split at hsender
      · rwa [sender_handleFrame] at hsender
      · exact hsender
    · exact hsender
  | readEof e =>
    obtain ⟨_, -, -, rfl, -⟩ := act_readEof hact
    exact hsender

/-- The channel of the hub gets input from the task that broadcasts it, and from nothing else. -/
theorem inputs_accepted (h : Half c) (hinput : PairLabel.sendsInput ⟨side, act⟩ = false) :
    inputs ((h.events side act).flatMap (Event.accepted .hub)) = [] := by
  have hsent : ∀ (payload : Payload c) (f : WireFrame → Event Side WireFrame),
      (∀ m, (f m).accepted .hub = []) →
        inputs (((frames payload).map f).flatMap (Event.accepted .hub)) = [] := by
    intro payload f hf
    rw [List.flatMap_map, List.flatMap_eq_nil_iff.2 fun m _ => hf m]
    rfl
  cases act with
  | enqueue frame =>
    have hframe : inputOf frame = none :=
      Option.not_isSome_iff_eq_none.1 (Bool.eq_false_iff.1 hinput)
    cases side <;> simp [events, Event.accepted, inputs, hframe]
  | pop =>
    simp only [events]
    split
    · split <;> rfl
    · rfl
  | writerLock =>
    simp only [events]
    split
    · exact hsent _ _ fun _ => rfl
    · rfl
  | replyLock =>
    simp only [events]
    split
    · split_ifs
      · rfl
      · exact hsent _ _ fun _ => rfl
    · rfl
  | received found =>
    simp only [events]
    split
    · split
      · next frame _ =>
        cases side with
        | spoke => rfl
        | hub =>
          have haccepted : [Event.handle Side.hub frame (directReply c .hub frame),
              .accept .hub (if h.sender then channelReply found .hub frame else [])].flatMap
                (Event.accepted .hub) = if h.sender then channelReply found .hub frame else [] := by
            simp [Event.accepted]
          rw [haccepted]
          split_ifs
          · exact inputs_channelReply found .hub frame
          · rfl
      · rfl
    · rfl
  | writerEnd | dropSender | close | write k | unlock | readLock | read k | readEof e => rfl

end Half

namespace InputPath

variable {c : FrameCodec} {s t : InputPath c} {a : InputLabel} {as : List InputLabel}

/-- The events that are still to be broadcast. -/
def waiting (s : InputPath c) : List InputEvent := s.sink ++ s.remaining

/-- The map of the writers has the channel of the session. -/
def isOpen (s : InputPath c) : Bool := (s.session.half .hub).sender

/-- The events of the session in a run of the path. -/
def exchanged (s : InputPath c) (as : List InputLabel) : List (Event Side WireFrame) :=
  (duplex c).trace Pair.events s.session ((inputPath c).trace labels s as)

/-- The input that the channel of the session gets in a run. -/
def taken (s : InputPath c) (as : List InputLabel) : List InputEvent :=
  inputs ((s.exchanged as).flatMap (Event.accepted .hub))

/-- The input that the spoke has handled in a run. -/
def arrived (s : InputPath c) (as : List InputLabel) : List InputEvent :=
  inputs ((s.exchanged as).flatMap (Event.handled .spoke))

/-- The input of one step. -/
theorem taken_singleton (hstep : (inputPath c).step s a = some t) :
    s.taken [a] = inputs (((duplex c).trace Pair.events s.session (s.labels a)).flatMap
      (Event.accepted .hub)) := by
  unfold taken exchanged
  rw [System.trace_singleton hstep]

/-- A run goes on with the input of its first step. -/
theorem taken_cons (hstep : (inputPath c).step s a = some t) (as : List InputLabel) :
    s.taken (a :: as) = s.taken [a] ++ t.taken as := by
  obtain ⟨_, hrun, rfl⟩ := (inputPath_simulates c).step s a t _ rfl hstep
  rw [taken_singleton hstep]
  unfold taken exchanged
  rw [System.trace_cons hstep, System.trace_append hrun, List.flatMap_append, inputs_append]

/-- A step of the session leaves the events as they are. -/
theorem inputs_session {p q : Pair c} {a : PairLabel} (hinput : a.sendsInput = false)
    (hstep : p.step a = some q) :
    inputs (((duplex c).trace Pair.events p [a]).flatMap (Event.accepted .hub)) = [] := by
  rw [System.trace_singleton (M := duplex c) hstep]
  exact Half.inputs_accepted _ hinput

/-- The channel of the session gets no new sender. -/
theorem sender_of_step {p q : Pair c} {a : PairLabel} (hstep : p.step a = some q) {X : Side}
    (hsender : (q.half X).sender = true) : (p.half X).sender = true := by
  obtain ⟨h', bytes, hact, hside, hother⟩ := Pair.step_eq_some hstep
  rcases Side.eq_or_eq_other a.side X with rfl | rfl
  · rw [hside] at hsender
    exact Half.sender_of_act hact hsender
  · rw [hother] at hsender
    exact hsender

/-- A step broadcasts the next event, or leaves all of them as they are. -/
theorem taken_step (hstep : (inputPath c).step s a = some t) :
    (t.isOpen = true → s.isOpen = true) ∧
      ((s.taken [a] = [] ∧ t.waiting = s.waiting) ∨
        ∃ event, s.waiting = event :: t.waiting ∧
          s.taken [a] = if s.isOpen then [event] else []) := by
  rw [taken_singleton hstep]
  cases a with
  | capture =>
    obtain ⟨remaining, sink, session⟩ := s
    cases remaining with
    | nil => cases hstep
    | cons event rest =>
      obtain rfl := Option.some.inj hstep
      exact ⟨id, .inl ⟨rfl, List.append_assoc _ _ _⟩⟩
  | broadcast =>
    obtain ⟨remaining, sink, session⟩ := s
    cases sink with
    | nil => cases hstep
    | cons event rest =>
      obtain ⟨session', hrun, rfl⟩ := Option.map_eq_some_iff.1 hstep
      by_cases hopen : (session.half .hub).sender = true
      · have hlabels : labels ⟨remaining, event :: rest, session⟩ .broadcast =
            [⟨.hub, .enqueue (.input event)⟩] := if_pos hopen
        rw [hlabels, System.run_singleton] at hrun
        refine ⟨sender_of_step hrun, .inr ⟨event, rfl, ?_⟩⟩
        rw [hlabels, System.trace_singleton hrun]
        unfold isOpen
        rw [if_pos hopen]
        rfl
      · -- the map of the writers has dropped the channel
        have hlabels : labels ⟨remaining, event :: rest, session⟩ .broadcast = [] := if_neg hopen
        rw [hlabels] at hrun
        obtain rfl := Option.some.inj hrun
        refine ⟨id, .inr ⟨event, rfl, ?_⟩⟩
        rw [hlabels]
        unfold isOpen
        rw [if_neg hopen]
        rfl
  | session a =>
    simp only [inputPath, step] at hstep
    split_ifs at hstep with hinput
    obtain ⟨session', hsession, rfl⟩ := Option.map_eq_some_iff.1 hstep
    have hnone := inputs_session (Bool.eq_false_iff.2 hinput) hsession
    exact ⟨sender_of_step hsession, .inl ⟨hnone, rfl⟩⟩

/-- The channel of the session gets the first of the events, in their order, and all of them as long
as the map of the writers has it. -/
theorem taken_run (hrun : (inputPath c).run s as = some t) :
    s.taken as <+: s.waiting ∧ (s.isOpen = false → s.taken as = []) ∧
      (t.isOpen = true → s.isOpen = true ∧ s.waiting = s.taken as ++ t.waiting) := by
  induction as generalizing s with
  | nil =>
    obtain rfl := Option.some.inj hrun
    exact ⟨List.nil_prefix, fun _ => rfl, fun hopen => ⟨hopen, rfl⟩⟩
  | cons a as ih =>
    obtain ⟨u, hstep, hrest⟩ := Option.bind_eq_some_iff.1 hrun
    obtain ⟨hfirst, hshut, hall⟩ := ih hrest
    obtain ⟨hopen, ⟨htaken, hwaiting⟩ | ⟨event, hwaiting, htaken⟩⟩ := taken_step hstep
    · rw [taken_cons hstep, htaken, List.nil_append, ← hwaiting]
      refine ⟨hfirst, fun hclosed => hshut ?_, fun hsender => ?_⟩
      · exact Bool.eq_false_iff.2 fun hu => Bool.eq_false_iff.1 hclosed (hopen hu)
      · exact ⟨hopen (hall hsender).1, (hall hsender).2⟩
    · rw [taken_cons hstep, htaken, hwaiting]
      cases hs : s.isOpen with
      | false =>
        have hu : u.isOpen = false := by
          rw [Bool.eq_false_iff] at hs ⊢
          exact fun hu => hs (hopen hu)
        rw [if_neg Bool.false_ne_true, List.nil_append, hshut hu]
        refine ⟨List.nil_prefix, fun _ => rfl, fun hsender => ?_⟩
        exact absurd (hall hsender).1 (Bool.eq_false_iff.1 hu)
      | true =>
        rw [if_pos rfl]
        refine ⟨List.cons_prefix_cons.2 ⟨rfl, hfirst⟩, nofun, fun hsender => ⟨rfl, ?_⟩⟩
        rw [(hall hsender).2]
        rfl

/-- The spoke handles the first of the input that the channel has got, and all of it when nothing is
under way in the session. -/
theorem arrived_taken (hc : c.RoundTrip) {events : List InputEvent}
    (hrun : (inputPath c).run (.start c events) as = some t) :
    (start c events).arrived as <+: (start c events).taken as ∧
      (t.session.Settled → (start c events).arrived as = (start c events).taken as) := by
  have hstart : (start c events).session = ⟨fun _ => Half.start c⟩ := rfl
  obtain ⟨p, hsession, rfl⟩ := (inputPath_simulates c).run hstart hrun
  obtain ⟨s', t', hs', hrun', himp⟩ := (session_simulates c hc).exists_run rfl hsession
  have hsent : ((start c events).exchanged as).flatMap (Event.sent .hub) =
      ((start c events).exchanged as).flatMap (Event.handled .spoke) ++ (t' .hub).link :=
    handled_sent Side.other_other hs' hrun' .spoke
  have hposted : ((start c events).exchanged as).flatMap (Event.sent .hub) =
      ((start c events).exchanged as).flatMap (Event.posted .hub) := sent_hub hs' hrun'
  have haccepted := posted_accepted hs' hrun' .hub
  constructor
  · have hhandled : ((start c events).exchanged as).flatMap (Event.handled .spoke) <+:
        ((start c events).exchanged as).flatMap (Event.accepted .hub) := by
      refine .trans ?_ haccepted
      show _ <+: ((start c events).exchanged as).flatMap (Event.posted .hub)
      rw [← hposted, hsent]
      exact List.prefix_append _ _
    exact hhandled.filterMap inputOf
  · intro hsettled
    obtain ⟨hlink, ⟨hopen, hqueue⟩, -⟩ := hsettled.party himp .hub
    have hall := accepted_eq hs' hrun' hopen
    rw [hqueue, List.append_nil] at hall
    rw [hlink, List.append_nil] at hsent
    unfold arrived taken
    rw [← hsent, hposted]
    exact congrArg inputs hall.symm

end InputPath

/-! ## The input of the hub -/

/-- A hub with the first of what the capture of another one sees. -/
inductive StartOf : HubCapture → HubCapture → Prop
  /-- The capture of X11. -/
  | x11 {map : KeyMap} {m : ModifierMask} {evs evs' : List (UInt64 × RawEvent)}
    (h : evs <+: evs') : StartOf (.x11 map m evs) (.x11 map m evs')
  /-- The capture of Windows. -/
  | windows {s : Hooks} {calls calls' : List HookCall} (h : calls <+: calls') :
    StartOf (.windows s calls) (.windows s calls')

/-- The first events that a hub sends are those of a hub with the first of what its capture sees. -/
theorem StartOf.of_prefix {hub : HubCapture} {pre : List InputEvent} (h : pre <+: hub.sent) :
    ∃ hub', StartOf hub' hub ∧ pre = hub'.sent := by
  cases hub with
  | x11 map m evs =>
    replace h : pre <+: captured map m evs := h
    obtain ⟨first, hfirst, rfl⟩ := capture_prefix (f := fun m p => dispatchEvent map p.1 p.2 m)
      (fun _ => rfl) (fun _ _ _ => rfl) h
    exact ⟨.x11 map m first, .x11 hfirst, rfl⟩
  | windows s calls =>
    obtain ⟨first, hfirst, rfl⟩ := Hooks.captured_prefix h
    exact ⟨.windows s first, .windows hfirst, rfl⟩

/-- The keys of such a hub have the same usages. -/
theorem StartOf.usage {hub hub' : HubCapture} (h : StartOf hub' hub) : hub'.usage = hub.usage := by
  cases h <;> rfl

/-- The input of a hub on a spoke, in every run of the session and for every pair of systems. What the
spoke has handled is what the hub sends for the first of what its capture sees. So the spoke has
pressed and released the keys that were pressed and released on the hub up to then, in their order,
and no others. When nothing is under way and the hub still has the channel of the session, all input
of the hub has arrived. -/
theorem input_arrives {F : Type} (c : FrameCodec) (hc : c.RoundTrip) (hub : HubCapture)
    (as : List InputLabel) (t : InputPath c)
    (hrun : (inputPath c).run (.start c hub.sent) as = some t) :
    let arrived := (InputPath.start c hub.sent).arrived as
    (∃ hub', StartOf hub' hub ∧ arrived = hub'.sent ∧
      ∀ spoke : SpokeEmit F, spoke.keys arrived =
        hub'.keys.filterMap (rename fun key => (hub.usage key).bind spoke.key)) ∧
    (t.session.Settled → t.waiting = [] → t.isOpen = true → arrived = hub.sent) := by
  intro arrived
  obtain ⟨harrived, hsettled⟩ := InputPath.arrived_taken hc hrun
  obtain ⟨hfirst, -, hall⟩ := InputPath.taken_run hrun
  constructor
  · obtain ⟨hub', hstart, hsent⟩ := StartOf.of_prefix (harrived.trans hfirst)
    refine ⟨hub', hstart, hsent, fun spoke => ?_⟩
    have hkeys : spoke.keys arrived = hub'.keys.filterMap (rename fun key =>
        (hub'.usage key).bind spoke.key) := by
      show spoke.keys ((InputPath.start c hub.sent).arrived as) = _
      rw [hsent, spoke.keys_eq, hub'.wireKey_sent, List.filterMap_filterMap]
      simp only [rename_bind_rename]
    rw [hkeys, hstart.usage]
  · intro hs hwaiting hopen
    have hwhole := (hall hopen).2
    rw [hwaiting, List.append_nil] at hwhole
    exact (hsettled hs).trans hwhole.symm

section Example

/-- A hub with Windows on which the key A is pressed and released. -/
def typedKey : HubCapture :=
  .windows ⟨.empty, none⟩ [.keyboard 0 .keyDown 0x41, .keyboard 0 .keyUp 0x41]

/-- The codec of the frames. -/
def typedCodec : FrameCodec := postcardCodec "Serialize Buffer Full" "Hit the end of buffer"

/-- The press of the key is sent to the spoke, while its release waits in the channel. -/
def typedRun : List InputLabel :=
  [.capture, .broadcast, .session ⟨.hub, .pop⟩, .session ⟨.spoke, .readLock⟩, .capture,
    .session ⟨.hub, .writerLock⟩, .session ⟨.hub, .write 9⟩, .session ⟨.hub, .unlock⟩,
    .session ⟨.spoke, .read 4⟩, .session ⟨.spoke, .read 5⟩, .session ⟨.spoke, .received none⟩]

/-- After `typedRun` the spoke has done what it does for the press of the key. -/
theorem input_arrives_typedRun :
    ∃ hub', StartOf hub' typedKey ∧ hub'.sent = [.key .keyA true .empty] ∧
      hub'.keys.filterMap (rename fun key => (typedKey.usage key).bind
        (SpokeEmit.windows (F := ℤ)).key) = [(.scan 0x1E false, true)] := by
  have hsome : ((inputPath typedCodec).run (.start typedCodec typedKey.sent) typedRun).isSome := by
    decide +kernel
  have harrived : (InputPath.start typedCodec typedKey.sent).arrived typedRun =
      [.key .keyA true .empty] := by
    decide +kernel
  obtain ⟨t, ht⟩ := Option.isSome_iff_exists.1 hsome
  have hcodec : typedCodec.RoundTrip := (isWireFormat_postcardCodec _ _).roundTrip
  obtain ⟨⟨hub', hstart, hsent, hkeys⟩, -⟩ :=
    input_arrives (F := ℤ) typedCodec hcodec typedKey typedRun t ht
  refine ⟨hub', hstart, by rw [← hsent, harrived], ?_⟩
  rw [← hkeys .windows, harrived]
  decide +kernel

end Example

end Borderless.Runtime
