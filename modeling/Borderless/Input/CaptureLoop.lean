import Borderless.Input.X11Capture
import Borderless.Lib.Simulation

/-!
# The threads of the capture on X11

`X11Capture` of `crates/pal-x11/src/capture.rs`: `start` spawns a thread that runs
`run_capture_loop`, and `stop` sets the flag that the loop reads before it waits for the next event.
`stop` does not wait for the thread, which is parked until an event comes, and `start` clears the
flag. So a thread that was stopped and has not seen it goes on after the next `start`, next to the
new one, and both send every event (`events_captured_once`).

The X server reports an event to every connection that has selected it. The events are numbered, and
a thread records which of them it has handled; the code has neither.
-/

namespace Borderless.Input

open Transition

/-- `CaptureMode`: whether input is watched, or taken from the local programs. -/
inductive CaptureMode
  | off
  | listen
  | grab
deriving DecidableEq

/-- Where a thread is in `run_capture_loop`. -/
inductive LoopStage
  /-- It connects to the server, and selects the raw events. -/
  | connecting
  /-- It has selected the events, and asks for the keyboard mapping. -/
  | selected
  /-- It is about to read the flag. -/
  | testing (map : KeyMap) (modifiers : ModifierMask)
  /-- It is in `wait_for_event`. -/
  | waiting (map : KeyMap) (modifiers : ModifierMask)
  /-- It has returned. -/
  | ended

/-- A thread of the capture. -/
structure CaptureThread where
  /-- How far it is. -/
  stage : LoopStage
  /-- The events that its connection has received and it has not handled, oldest first. -/
  queue : List (ℕ × RawEvent)
  /-- The events that it has handled, with the times of it. -/
  handled : List (ℕ × UInt64 × RawEvent)
  /-- What it has sent to its sink. -/
  sent : List InputEvent

/-- What a thread does. -/
inductive ThreadAct
  /-- It connects and selects the events, or fails. -/
  | connect (ok : Bool)
  /-- It receives the keyboard mapping, or fails. -/
  | readMap (map : Option KeyMap)
  /-- It reads the flag. -/
  | test
  /-- It receives the next raw event, and dispatches it at this time. -/
  | receive (now : UInt64)
  /-- It receives an event of another kind, which `dispatch_event` ignores. -/
  | ignore
  /-- Waiting fails. -/
  | fail

namespace CaptureThread

/-- A thread that has been spawned. -/
def spawned : CaptureThread := ⟨.connecting, [], [], []⟩

/-- Whether the thread has returned. -/
def hasEnded (th : CaptureThread) : Bool :=
  match th.stage with
  | .ended => true
  | _ => false

/-- Whether the connection of the thread has selected the events. -/
def hasSelected (th : CaptureThread) : Bool :=
  match th.stage with
  | .connecting | .ended => false
  | _ => true

/-- The server reports the event number `k`. -/
def report (th : CaptureThread) (k : ℕ) (event : RawEvent) : CaptureThread :=
  if th.hasSelected then { th with queue := th.queue ++ [(k, event)] } else th

/-- `run_capture_loop`, with the flag `stop`. -/
def act (th : CaptureThread) (stop : Bool) : ThreadAct → Option CaptureThread
  | .connect ok =>
    match th.stage with
    | .connecting => some { th with stage := if ok then .selected else .ended }
    | _ => none
  | .readMap map =>
    match th.stage with
    | .selected =>
      match map with
      | some map => some { th with stage := .testing map .empty }
      | none => some { th with stage := .ended }
    | _ => none
  | .test =>
    match th.stage with
    | .testing map modifiers =>
      some { th with stage := if stop then .ended else .waiting map modifiers }
    | _ => none
  | .receive now =>
    match th.stage, th.queue with
    | .waiting map modifiers, (k, event) :: rest =>
      let result := dispatchEvent map now event modifiers
      some
        { stage := .testing map result.2
          queue := rest
          handled := th.handled ++ [(k, now, event)]
          sent := th.sent ++ result.1.toList }
    | _, _ => none
  | .ignore =>
    match th.stage with
    | .waiting map modifiers => some { th with stage := .testing map modifiers }
    | _ => none
  | .fail =>
    match th.stage with
    | .waiting _ _ => some { th with stage := .ended }
    | _ => none

end CaptureThread

/-- `X11Capture`, with the threads that it has spawned. -/
structure X11Capture where
  /-- The mode, which nothing reads. -/
  mode : CaptureMode
  /-- The flag that the threads read. -/
  stop : Bool
  /-- Whether the capture has the handle of a thread. -/
  thread : Bool
  /-- The threads, oldest first. -/
  threads : List CaptureThread
  /-- The number of events that the server has reported. -/
  events : ℕ

/-- The calls of a capture, and what its threads and the server do meanwhile. -/
inductive CaptureLabel
  /-- `start`; spawning the thread may fail. -/
  | start (ok : Bool)
  /-- `stop`. -/
  | stop
  /-- `set_mode`. -/
  | setMode (mode : CaptureMode)
  /-- The server reports an event. -/
  | report (event : RawEvent)
  /-- The thread `i` does something. -/
  | thread (i : ℕ) (act : ThreadAct)

namespace X11Capture

/-- `X11Capture::new`: no thread has been started. -/
def new : X11Capture := ⟨.off, false, false, [], 0⟩

/-- The thread `i` becomes `th`. -/
def setThread (s : X11Capture) (i : ℕ) (th : CaptureThread) : X11Capture :=
  { s with threads := s.threads.set i th }

/-- One step. -/
def step (s : X11Capture) : CaptureLabel → Option X11Capture
  | .start ok =>
    if s.thread then some s
    else if ok then
      some { s with stop := false, thread := true, threads := s.threads ++ [.spawned] }
    else some { s with stop := false }
  | .stop => some { s with stop := true, thread := false }
  | .setMode mode => some { s with mode }
  | .report event =>
    some
      { s with
        threads := s.threads.map fun th => th.report s.events event
        events := s.events + 1 }
  | .thread i act => do
    let th ← s.threads[i]?
    let th' ← th.act s.stop act
    return s.setThread i th'

end X11Capture

/-- The capture as a system. -/
def x11Capture : System X11Capture CaptureLabel where
  init s := s = X11Capture.new
  step := X11Capture.step

/-! ## What a thread does -/

namespace CaptureThread

variable {th th' : CaptureThread} {stop : Bool} {a : ThreadAct} {events : ℕ}

/-- What a thread does, case by case. -/
inductive Move (stop : Bool) : CaptureThread → CaptureThread → Prop
  /-- It has selected the events. -/
  | connect {queue handled sent} :
    Move stop ⟨.connecting, queue, handled, sent⟩ ⟨.selected, queue, handled, sent⟩
  /-- It knows the keyboard, and takes all modifier keys to be up. -/
  | readMap (map : KeyMap) {queue handled sent} :
    Move stop ⟨.selected, queue, handled, sent⟩ ⟨.testing map .empty, queue, handled, sent⟩
  /-- It goes on. -/
  | goOn {map modifiers queue handled sent} : stop = false →
    Move stop ⟨.testing map modifiers, queue, handled, sent⟩
      ⟨.waiting map modifiers, queue, handled, sent⟩
  /-- It handles the next event. -/
  | receive (now : UInt64) {map modifiers k event rest handled sent} :
    Move stop ⟨.waiting map modifiers, (k, event) :: rest, handled, sent⟩
      ⟨.testing map (dispatchEvent map now event modifiers).2, rest, handled ++ [(k, now, event)],
        sent ++ (dispatchEvent map now event modifiers).1.toList⟩
  /-- It ignores an event of another kind. -/
  | ignore {map modifiers queue handled sent} :
    Move stop ⟨.waiting map modifiers, queue, handled, sent⟩
      ⟨.testing map modifiers, queue, handled, sent⟩
  /-- It returns. -/
  | finish {stage queue handled sent} :
    hasEnded ⟨stage, queue, handled, sent⟩ = false →
    Move stop ⟨stage, queue, handled, sent⟩ ⟨.ended, queue, handled, sent⟩

/-- A thread does one of these. -/
theorem Move.of_act (h : th.act stop a = some th') : Move stop th th' := by
  obtain ⟨stage, queue, handled, sent⟩ := th
  cases a with
  | connect ok =>
    cases stage with
    | connecting =>
      obtain rfl := Option.some.inj h
      cases ok with
      | true => exact .connect
      | false => exact .finish rfl
    | _ => cases h
  | readMap map =>
    cases stage with
    | selected =>
      cases map with
      | some map =>
        obtain rfl := Option.some.inj h
        exact .readMap map
      | none =>
        obtain rfl := Option.some.inj h
        exact .finish rfl
    | _ => cases h
  | test =>
    cases stage with
    | testing map modifiers =>
      obtain rfl := Option.some.inj h
      cases stop with
      | true => exact .finish rfl
      | false => exact .goOn rfl
    | _ => cases h
  | receive now =>
    cases stage with
    | waiting map modifiers =>
      cases queue with
      | nil => cases h
      | cons p rest =>
        obtain rfl := Option.some.inj h
        exact .receive now
    | _ => cases h
  | ignore =>
    cases stage with
    | waiting map modifiers =>
      obtain rfl := Option.some.inj h
      exact .ignore
    | _ => cases h
  | fail =>
    cases stage with
    | waiting map modifiers =>
      obtain rfl := Option.some.inj h
      exact .finish rfl
    | _ => cases h

/-- A thread that has returned does nothing. -/
theorem Move.not_ended (h : Move stop th th') : th.hasEnded = false := by
  cases h with
  | finish h => exact h
  | _ => rfl

/-- The numbers of the events that the thread has handled. -/
def numbers (th : CaptureThread) : List ℕ := th.handled.map Prod.fst

/-- The numbers of the events that have been reported to the thread. -/
def reported (th : CaptureThread) : List ℕ := th.numbers ++ th.queue.map Prod.fst

/-- A thread handles what has been reported to it. -/
theorem Move.reported (h : Move stop th th') : th'.reported = th.reported := by
  cases h with
  | receive now => simp [CaptureThread.reported, numbers]
  | _ => rfl

/-- The modifiers after a list of events. -/
def modifiersAfter (map : KeyMap) (modifiers : ModifierMask) (evs : List (UInt64 × RawEvent)) :
    ModifierMask :=
  evs.foldl (fun m p => (dispatchEvent map p.1 p.2 m).2) modifiers

/-- What is sent for one more event. -/
theorem captured_concat (map : KeyMap) (modifiers : ModifierMask)
    (evs : List (UInt64 × RawEvent)) (p : UInt64 × RawEvent) :
    captured map modifiers (evs ++ [p]) = captured map modifiers evs ++
      (dispatchEvent map p.1 p.2 (modifiersAfter map modifiers evs)).1.toList := by
  induction evs generalizing modifiers with
  | nil => simp [captured, modifiersAfter]
  | cons q evs ih =>
    rw [List.cons_append, captured, captured, ih, List.append_assoc]
    rfl

/-- The keyboard and the modifiers of a thread that is in its loop. -/
def reading (th : CaptureThread) : Option (KeyMap × ModifierMask) :=
  match th.stage with
  | .testing map modifiers | .waiting map modifiers => some (map, modifiers)
  | _ => none

/-- What holds of a thread when the server has reported this many events. -/
structure Sound (events : ℕ) (th : CaptureThread) : Prop where
  /-- Nothing is reported to a thread that is not connected. -/
  connecting : th.stage = .connecting → th.reported = []
  /-- A thread that has not got to its loop has sent nothing. -/
  outside : th.reading = none → th.hasEnded = false → th.handled = [] ∧ th.sent = []
  /-- What is reported to a thread are all events from one on. -/
  consecutive : ∃ first n, th.reported = List.range' first n ∧ first + n ≤ events ∧
    (th.hasSelected → first + n = events)
  /-- The thread has sent what the events say. -/
  sends : ∃ map, th.sent = captured map .empty (th.handled.map Prod.snd) ∧
    ∀ p, th.reading = some p → p = (map, modifiersAfter map .empty (th.handled.map Prod.snd))

/-- A spawned thread is sound. -/
theorem sound_spawned (map : KeyMap) (events : ℕ) : spawned.Sound events where
  connecting _ := rfl
  outside _ _ := ⟨rfl, rfl⟩
  consecutive := ⟨0, 0, rfl, Nat.zero_le _, nofun⟩
  sends := ⟨map, rfl, nofun⟩

/-- A thread stays sound. -/
theorem Sound.move (h : th.Sound events) (hmove : Move stop th th') : th'.Sound events := by
  have hreported := hmove.reported
  obtain ⟨first, n, hrange, hle, hselected⟩ := h.consecutive
  obtain ⟨map, hsent, hreading⟩ := h.sends
  cases hmove with
  | connect =>
    refine ⟨nofun, fun _ _ => h.outside rfl rfl, ⟨events, 0, ?_, le_rfl, fun _ => rfl⟩,
      map, hsent, nofun⟩
    exact hreported.trans (h.connecting rfl)
  | readMap map' =>
    obtain ⟨hhandled, hnone⟩ := h.outside rfl rfl
    refine ⟨nofun, nofun, ⟨first, n, hreported.trans hrange, hle, fun _ => hselected rfl⟩, map', ?_,
      fun p hp => ?_⟩
    · dsimp only at hhandled hnone ⊢
      rw [hhandled, hnone]
      rfl
    · dsimp only at hhandled ⊢
      rw [hhandled]
      exact (Option.some.inj hp).symm
  | goOn _ =>
    exact ⟨nofun, nofun, ⟨first, n, hrange, hle, hselected⟩, map, hsent, hreading⟩
  | ignore =>
    exact ⟨nofun, nofun, ⟨first, n, hrange, hle, hselected⟩, map, hsent, hreading⟩
  | @receive now map' modifiers k event rest handled sent =>
    have hthread := hreading _ rfl
    dsimp only at hsent hthread
    obtain ⟨rfl, hmodifiers⟩ := Prod.mk.inj hthread
    refine ⟨nofun, nofun, ⟨first, n, hreported.trans hrange, hle, fun _ => hselected rfl⟩, map', ?_,
      fun p hp => ?_⟩
    · dsimp only
      rw [List.map_append, List.map_singleton, captured_concat, ← hsent, ← hmodifiers]
    · rw [← Option.some.inj hp]
      dsimp only
      rw [List.map_append, List.map_singleton, modifiersAfter, List.foldl_append]
      unfold modifiersAfter at hmodifiers
      rw [← hmodifiers]
      rfl
  | finish _ => exact ⟨nofun, nofun, ⟨first, n, hrange, hle, nofun⟩, map, hsent, nofun⟩

/-- A report keeps a thread sound. -/
theorem Sound.report (h : th.Sound events) (event : RawEvent) :
    (th.report events event).Sound (events + 1) := by
  obtain ⟨first, n, hrange, hle, hselected⟩ := h.consecutive
  unfold CaptureThread.report
  split_ifs with hs
  · refine ⟨fun hc => ?_, h.outside, ⟨first, n + 1, ?_, ?_, fun _ => ?_⟩, h.sends⟩
    · dsimp only at hc
      simp [hasSelected, hc] at hs
    · have hfirst := hselected hs
      rw [List.range'_concat, ← hrange, Nat.one_mul, hfirst]
      simp [reported, numbers]
    · rw [← Nat.add_assoc, hselected hs]
    · rw [← Nat.add_assoc, hselected hs]
  · exact ⟨h.connecting, h.outside, ⟨first, n, hrange, hle.trans (Nat.le_succ _),
      fun ht => absurd ht hs⟩, h.sends⟩

/-! ### What a thread can come to -/

/-- A thread does one thing after the other. -/
def acts (stop : Bool) (th : CaptureThread) (as : List ThreadAct) : Option CaptureThread :=
  as.foldlM (fun th a => th.act stop a) th

/-- A thread that finds the flag clear comes to wait for an event. -/
theorem exists_waiting (h : th.hasEnded = false) :
    ∃ as map modifiers, th.acts false as = some { th with stage := .waiting map modifiers } := by
  let map : KeyMap := ⟨8, 255, 1, []⟩
  obtain ⟨stage, queue, handled, sent⟩ := th
  cases stage with
  | connecting => exact ⟨[.connect true, .readMap (some map), .test], map, .empty, rfl⟩
  | selected => exact ⟨[.readMap (some map), .test], map, .empty, rfl⟩
  | testing map modifiers => exact ⟨[.test], map, modifiers, rfl⟩
  | waiting map modifiers => exact ⟨[], map, modifiers, rfl⟩
  | ended => cases h

/-- A thread that waits comes to handle all that is reported to it. -/
theorem exists_drained {map : KeyMap} {modifiers : ModifierMask}
    (h : th.stage = .waiting map modifiers) :
    ∃ as th', th.acts false as = some th' ∧ th'.numbers = th.reported := by
  obtain ⟨stage, queue, handled, sent⟩ := th
  obtain rfl := h
  induction queue generalizing modifiers handled sent with
  | nil => exact ⟨[], _, rfl, (List.append_nil _).symm⟩
  | cons p rest ih =>
    obtain ⟨k, event⟩ := p
    obtain ⟨as, th', hacts, hnumbers⟩ := ih (handled ++ [(k, 0, event)])
      (sent ++ (dispatchEvent map 0 event modifiers).1.toList)
    have hmove : Move false ⟨.waiting map modifiers, (k, event) :: rest, handled, sent⟩ _ :=
      .receive 0
    exact ⟨.receive 0 :: .test :: as, th', hacts, hnumbers.trans hmove.reported⟩

/-- What a stopped thread has handled, and the event that it may wait for. -/
def allowance (th : CaptureThread) : ℕ :=
  th.handled.length + match th.stage with | .waiting _ _ => 1 | _ => 0

/-- A thread that has been stopped handles at most the event that it waits for. -/
theorem Move.allowance_le (h : Move true th th') : th'.allowance ≤ th.allowance := by
  cases h with
  | goOn h => cases h
  | receive now =>
    simp only [allowance, List.length_append, List.length_singleton]
    exact le_rfl
  | ignore => exact Nat.le_succ _
  | finish _ => exact Nat.le_add_right _ _
  | _ => exact le_rfl

end CaptureThread

/-! ## What the capture does -/

namespace X11Capture

variable {s t : X11Capture} {a : CaptureLabel}

/-- What a step does, case by case. -/
inductive Move (s : X11Capture) : CaptureLabel → X11Capture → Prop
  /-- There is a thread already. -/
  | startAgain (ok : Bool) : s.thread = true → Move s (.start ok) s
  /-- A thread is spawned. -/
  | spawn : s.thread = false →
    Move s (.start true)
      { s with stop := false, thread := true, threads := s.threads ++ [.spawned] }
  /-- No thread can be spawned, and the flag is clear all the same. -/
  | spawnFails : s.thread = false → Move s (.start false) { s with stop := false }
  /-- The flag is set, and the thread is let go. -/
  | stop : Move s .stop { s with stop := true, thread := false }
  /-- The mode changes. -/
  | setMode (mode : CaptureMode) : Move s (.setMode mode) { s with mode }
  /-- The server reports an event to all threads that have selected it. -/
  | report (event : RawEvent) :
    Move s (.report event) { s with
      threads := s.threads.map fun th => th.report s.events event
      events := s.events + 1 }
  /-- A thread does something. -/
  | thread {i : ℕ} {act : ThreadAct} {th th' : CaptureThread} : s.threads[i]? = some th →
    CaptureThread.Move s.stop th th' → Move s (.thread i act) (s.setThread i th')

/-- Every step is one of these cases. -/
theorem Move.of_step (h : s.step a = some t) : s.Move a t := by
  cases a with
  | start ok =>
    simp only [step] at h
    split_ifs at h with hthread hok
    · obtain rfl := Option.some.inj h
      exact .startAgain ok hthread
    · obtain rfl := Option.some.inj h
      rw [hok]
      exact .spawn (by simpa using hthread)
    · obtain rfl := Option.some.inj h
      rw [Bool.not_eq_true] at hok
      rw [hok]
      exact .spawnFails (by simpa using hthread)
  | stop =>
    obtain rfl := Option.some.inj h
    exact .stop
  | setMode mode =>
    obtain rfl := Option.some.inj h
    exact .setMode mode
  | report event =>
    obtain rfl := Option.some.inj h
    exact .report event
  | thread i act =>
    simp only [step, Option.bind_eq_bind, Option.bind_eq_some_iff] at h
    obtain ⟨th, hth, th', hact, hset⟩ := h
    obtain rfl := Option.some.inj hset
    exact .thread hth (.of_act hact)

/-- The thread is there. -/
theorem getElem?_setThread_self {i : ℕ} {th : CaptureThread} (th' : CaptureThread)
    (h : s.threads[i]? = some th) : (s.setThread i th').threads[i]? = some th' := by
  obtain ⟨hi, -⟩ := List.getElem?_eq_some_iff.1 h
  exact List.getElem?_set_self hi

/-- The other threads stay. -/
theorem getElem?_setThread_ne {i j : ℕ} (th' : CaptureThread) (h : i ≠ j) :
    (s.setThread i th').threads[j]? = s.threads[j]? :=
  List.getElem?_set_ne h

/-- What a thread does, the capture does. -/
theorem run_acts {i : ℕ} {th th' : CaptureThread} {as : List ThreadAct}
    (hth : s.threads[i]? = some th) (h : th.acts s.stop as = some th') :
    x11Capture.run s (as.map (.thread i)) = some (s.setThread i th') := by
  induction as generalizing s th with
  | nil =>
    obtain rfl := Option.some.inj h
    obtain ⟨_, rfl⟩ := List.getElem?_eq_some_iff.1 hth
    show some s = _
    rw [setThread, List.set_getElem_self]
  | cons a as ih =>
    simp only [CaptureThread.acts, List.foldlM_cons, Option.bind_eq_bind,
      Option.bind_eq_some_iff] at h
    obtain ⟨th₁, hact, hrest⟩ := h
    have hstep : x11Capture.step s (.thread i a) = some (s.setThread i th₁) := by
      simp [x11Capture, step, hth, hact]
    rw [List.map_cons, System.run, hstep, Option.bind_some,
      ih (getElem?_setThread_self th₁ hth) hrest]
    simp [setThread, List.set_set]

/-- Every thread is sound. -/
def Sound (s : X11Capture) : Prop := ∀ th ∈ s.threads, th.Sound s.events

/-- Every event has been handled by one thread at most, and once. -/
def HandledOnce (s : X11Capture) : Prop := (s.threads.flatMap CaptureThread.numbers).Nodup

instance (s : X11Capture) : Decidable s.HandledOnce := inferInstanceAs (Decidable (List.Nodup _))

/-- A thread is spawned only when the threads before it have returned. -/
def SpawnsAlone (s : X11Capture) : CaptureLabel → Prop
  | .start true => s.thread = false → ∀ th ∈ s.threads, th.hasEnded
  | _ => True

instance (s : X11Capture) : (a : CaptureLabel) → Decidable (s.SpawnsAlone a)
  | .start true => inferInstanceAs (Decidable (_ → _))
  | .start false | .stop | .setMode _ | .report _ | .thread .. => isTrue trivial

/-- Threads come one after the other: when a thread has a successor it has returned, and all that it
has handled is before what is reported to the successor. -/
def InTurn (s : X11Capture) : Prop :=
  s.threads.Pairwise fun th th' => th.hasEnded ∧ ∀ x ∈ th.numbers, ∀ y ∈ th'.reported, x < y

/-- All threads stay sound. -/
theorem Sound.move (h : s.Sound) (hmove : s.Move a t) : t.Sound := by
  cases hmove with
  | startAgain _ _ => exact h
  | spawn _ =>
    intro th hth
    rcases List.mem_append.1 hth with hth | hth
    · exact h th hth
    · rw [List.mem_singleton.1 hth]
      exact CaptureThread.sound_spawned ⟨8, 255, 1, []⟩ s.events
  | spawnFails _ => exact h
  | stop => exact h
  | setMode _ => exact h
  | report event =>
    intro th hth
    obtain ⟨th, hmem, rfl⟩ := List.mem_map.1 hth
    exact (h th hmem).report event
  | @thread i _ th th' hth hact =>
    intro u hu
    rcases List.mem_or_eq_of_mem_set hu with hu | rfl
    · exact h u hu
    · exact (h th (List.mem_of_getElem? hth)).move hact

end X11Capture

namespace CaptureThread

variable {th : CaptureThread} {events : ℕ}

/-- What has been reported to a thread has been reported. -/
theorem Sound.reported_lt (h : th.Sound events) {x : ℕ} (hx : x ∈ th.reported) : x < events := by
  obtain ⟨first, n, hrange, hle, -⟩ := h.consecutive
  rw [hrange, List.mem_range'_1] at hx
  omega

/-- A thread handles an event once. -/
theorem Sound.nodup_numbers (h : th.Sound events) : th.numbers.Nodup := by
  obtain ⟨first, n, hrange, -, -⟩ := h.consecutive
  have hnodup : th.reported.Nodup := by
    rw [hrange]
    exact List.nodup_range'
  exact hnodup.sublist (List.sublist_append_left ..)

/-- What a thread has handled are all events from one to another. -/
theorem Sound.numbers_eq (h : th.Sound events) :
    ∃ first, th.numbers = List.range' first th.handled.length := by
  obtain ⟨first, n, hrange, -, -⟩ := h.consecutive
  obtain ⟨k, -, hnumbers, -⟩ := List.range'_eq_append_iff.1 hrange.symm
  have hlen : th.handled.length = k := by
    rw [← List.length_map (f := Prod.fst), ← numbers, hnumbers, List.length_range']
  exact ⟨first, hlen ▸ hnumbers⟩

/-- A report to a thread. -/
theorem mem_reported_report {k x : ℕ} {event : RawEvent} (hx : x ∈ (th.report k event).reported) :
    x ∈ th.reported ∨ x = k := by
  unfold report at hx
  split_ifs at hx with hs
  · simpa [reported, numbers, or_assoc] using hx
  · exact .inl hx

/-- A report to a thread that has returned is lost. -/
theorem report_of_hasEnded (h : th.hasEnded) (k : ℕ) (event : RawEvent) :
    th.report k event = th := by
  obtain ⟨stage, queue, handled, sent⟩ := th
  cases stage with
  | ended => rfl
  | _ => cases h

end CaptureThread

namespace X11Capture

variable {s t : X11Capture} {a : CaptureLabel}

/-- If threads are spawned alone they stay in turn. -/
theorem InTurn.move (h : s.InTurn) (hsound : s.Sound) (halone : s.SpawnsAlone a)
    (hmove : s.Move a t) : t.InTurn := by
  cases hmove with
  | startAgain _ _ => exact h
  | spawn hthread =>
    refine List.pairwise_append.2 ⟨h, List.pairwise_singleton .., fun th hth th' hth' => ?_⟩
    rw [List.mem_singleton.1 hth']
    exact ⟨halone hthread th hth, fun _ _ _ hy => by cases hy⟩
  | spawnFails _ => exact h
  | stop => exact h
  | setMode _ => exact h
  | report event =>
    refine List.pairwise_map.2 (h.imp_of_mem fun {th th'} hth _ hturn => ?_)
    obtain ⟨hended, hlt⟩ := hturn
    rw [CaptureThread.report_of_hasEnded hended]
    refine ⟨hended, fun x hx y hy => ?_⟩
    rcases CaptureThread.mem_reported_report hy with hy | rfl
    · exact hlt x hx y hy
    · exact (hsound th hth).reported_lt (List.mem_append_left _ hx)
  | @thread i _ th th' hth hact =>
    obtain ⟨hi, hget⟩ := List.getElem?_eq_some_iff.1 hth
    obtain ⟨pre, post, hlist, -, hset⟩ := @List.exists_of_set _ i th' _ hi
    rw [hget] at hlist
    unfold InTurn at h ⊢
    rw [hlist, List.pairwise_append, List.pairwise_cons] at h
    rw [setThread, hset, List.pairwise_append, List.pairwise_cons]
    obtain ⟨hpre, ⟨hturn, hpost⟩, hcross⟩ := h
    refine ⟨hpre, ⟨fun u hu => ?_, hpost⟩, fun u hu v hv => ?_⟩
    · -- a thread with a successor has returned, and does nothing
      have hended := (hturn u hu).1
      rw [hact.not_ended] at hended
      cases hended
    · rcases List.mem_cons.1 hv with rfl | hv
      · rw [hact.reported]
        exact hcross u hu th List.mem_cons_self
      · exact hcross u hu v (List.mem_cons_of_mem _ hv)

/-- Threads in turn handle every event once. -/
theorem InTurn.handledOnce (h : s.InTurn) (hsound : s.Sound) : s.HandledOnce := by
  refine List.nodup_flatMap.2 ⟨fun th hth => (hsound th hth).nodup_numbers, h.imp ?_⟩
  rintro th th' ⟨-, hlt⟩ x hx hx'
  exact lt_irrefl x (hlt x hx x (List.mem_append_left _ hx'))

/-- An event that two threads have handled. -/
theorem not_handledOnce {i j k : ℕ} {th th' : CaptureThread} (hij : i < j)
    (hth : s.threads[i]? = some th) (hth' : s.threads[j]? = some th') (hk : k ∈ th.numbers)
    (hk' : k ∈ th'.numbers) : ¬ s.HandledOnce := by
  intro honce
  obtain ⟨hi, rfl⟩ := List.getElem?_eq_some_iff.1 hth
  obtain ⟨hj, rfl⟩ := List.getElem?_eq_some_iff.1 hth'
  obtain ⟨-, hdisjoint⟩ := List.nodup_flatMap.1 honce
  exact List.pairwise_iff_getElem.1 hdisjoint i j hi hj hij hk hk'

/-- A thread that has not returned and finds the flag clear comes to wait. -/
theorem exists_run_waiting {i : ℕ} {th : CaptureThread} (hstop : s.stop = false)
    (hth : s.threads[i]? = some th) (halive : th.hasEnded = false) :
    ∃ map modifiers, ∃ as,
      x11Capture.run s as = some (s.setThread i { th with stage := .waiting map modifiers }) := by
  obtain ⟨as, map, modifiers, hacts⟩ := CaptureThread.exists_waiting halive
  exact ⟨map, modifiers, _, run_acts hth (hstop ▸ hacts)⟩

/-- A thread that waits and finds the flag clear comes to handle all that is reported to it. -/
theorem exists_run_drained {i : ℕ} {th : CaptureThread} {map : KeyMap} {modifiers : ModifierMask}
    (hstop : s.stop = false) (hth : s.threads[i]? = some th)
    (hwaiting : th.stage = .waiting map modifiers) :
    ∃ th', th'.numbers = th.reported ∧ ∃ as, x11Capture.run s as = some (s.setThread i th') := by
  obtain ⟨as, th', hacts, hnumbers⟩ := CaptureThread.exists_drained hwaiting
  exact ⟨th', hnumbers, _, run_acts hth (hstop ▸ hacts)⟩

/-- Where two threads have not returned and the flag is clear, both can come to handle the next
event. -/
theorem exists_not_handledOnce {i j : ℕ} {th th' : CaptureThread} (hstop : s.stop = false)
    (hij : i < j) (hth : s.threads[i]? = some th) (hth' : s.threads[j]? = some th')
    (halive : th.hasEnded = false) (halive' : th'.hasEnded = false) :
    ∃ t, (∃ as, x11Capture.run s as = some t) ∧ ¬ t.HandledOnce := by
  -- first both wait
  obtain ⟨map, modifiers, hrun⟩ := exists_run_waiting hstop hth halive
  set u : CaptureThread := { th with stage := .waiting map modifiers }
  have hget : (s.setThread i u).threads[j]? = some th' := by
    rwa [getElem?_setThread_ne u hij.ne]
  obtain ⟨map', modifiers', hrun'⟩ :=
    exists_run_waiting (s := s.setThread i u) hstop hget halive'
  set u' : CaptureThread := { th' with stage := .waiting map' modifiers' }
  set s₁ := (s.setThread i u).setThread j u'
  have hu : s₁.threads[i]? = some u := by
    rw [getElem?_setThread_ne u' hij.ne', getElem?_setThread_self u hth]
  have hu' : s₁.threads[j]? = some u' := getElem?_setThread_self u' hget
  -- then an event is reported to both
  set event : RawEvent := .buttonPress 1
  set s₂ : X11Capture := { s₁ with
    threads := s₁.threads.map fun th => th.report s₁.events event
    events := s₁.events + 1 }
  have hreport : ∃ as, x11Capture.run s₁ as = some s₂ := ⟨[.report event], rfl⟩
  have hmem : ∀ {v : CaptureThread}, v.hasSelected →
      s₁.events ∈ (v.report s₁.events event).reported := by
    intro v hv
    simp [CaptureThread.report, hv, CaptureThread.reported]
  have hv : s₂.threads[i]? = some (u.report s₁.events event) := by
    rw [List.getElem?_map, hu, Option.map_some]
  have hv' : s₂.threads[j]? = some (u'.report s₁.events event) := by
    rw [List.getElem?_map, hu', Option.map_some]
  -- and both handle it
  have hwaiting : (u.report s₁.events event).stage = .waiting map modifiers := rfl
  have hwaiting' : (u'.report s₁.events event).stage = .waiting map' modifiers' := rfl
  obtain ⟨w, hw, hdrain⟩ := exists_run_drained (s := s₂) hstop hv hwaiting
  have hget' : (s₂.setThread i w).threads[j]? = some (u'.report s₁.events event) := by
    rwa [getElem?_setThread_ne w hij.ne]
  obtain ⟨w', hw', hdrain'⟩ :=
    exists_run_drained (s := s₂.setThread i w) hstop hget' hwaiting'
  refine ⟨(s₂.setThread i w).setThread j w', ?_, ?_⟩
  · exact System.exists_run_trans hrun (System.exists_run_trans hrun'
      (System.exists_run_trans hreport (System.exists_run_trans hdrain hdrain')))
  · have hlast : ((s₂.setThread i w).setThread j w').threads[i]? = some w := by
      rw [getElem?_setThread_ne w' hij.ne', getElem?_setThread_self w hv]
    have hlast' : ((s₂.setThread i w).setThread j w').threads[j]? = some w' :=
      getElem?_setThread_self w' hget'
    exact not_handledOnce hij hlast hlast' (hw ▸ hmem rfl) (hw' ▸ hmem rfl)

/-- A thread that is spawned next to another one. -/
theorem exists_step_not_handledOnce (halone : ¬ s.SpawnsAlone a) :
    ∃ bs, ∃ p ∈ x11Capture.steps s (a :: bs), ¬ p.2.2.HandledOnce := by
  cases a with
  | start ok =>
    cases ok with
    | true =>
      simp only [SpawnsAlone, not_forall] at halone
      obtain ⟨hthread, th, hth, halive⟩ := halone
      obtain ⟨i, hi⟩ := List.mem_iff_getElem?.1 hth
      obtain ⟨hlt, -⟩ := List.getElem?_eq_some_iff.1 hi
      have hspawn : x11Capture.step s (.start true) =
          some { s with stop := false, thread := true, threads := s.threads ++ [.spawned] } := by
        simp [x11Capture, step, hthread]
      have hget : (s.threads ++ [.spawned])[i]? = some th := by
        rw [List.getElem?_append_left hlt, hi]
      have hnew : (s.threads ++ [.spawned])[s.threads.length]? = some CaptureThread.spawned := by
        simp
      obtain ⟨u, ⟨bs, hrun⟩, hu⟩ := exists_not_handledOnce
        (s := { s with stop := false, thread := true, threads := s.threads ++ [.spawned] })
        rfl hlt hget hnew (by simpa using halive) rfl
      obtain ⟨p, hp, hlast⟩ := System.exists_mem_steps_of_run hspawn hrun
      exact ⟨bs, p, hp, hlast ▸ hu⟩
    | false => exact absurd trivial halone
  | _ => exact absurd trivial halone

/-! ## After a stop -/

/-- Each thread has handled at most one event more than before. -/
def AtMostOneMore (s t : X11Capture) : Prop :=
  ∀ (i : ℕ) (th' : CaptureThread), t.threads[i]? = some th' →
    ∃ th : CaptureThread, s.threads[i]? = some th ∧ th'.handled.length ≤ th.handled.length + 1

/-- The flag is set, and no thread has gone past what it was allowed. -/
structure Stopped (s t : X11Capture) : Prop where
  /-- The flag is set. -/
  stop : t.stop = true
  /-- The threads are those of before. -/
  allowance : ∀ (i : ℕ) (th' : CaptureThread), t.threads[i]? = some th' →
    ∃ th : CaptureThread, s.threads[i]? = some th ∧ th'.allowance ≤ th.allowance

/-- It stays so until the next `start`. -/
theorem Stopped.move {u : X11Capture} (h : s.Stopped t) (hmove : t.Move a u)
    (ha : ∀ ok, a ≠ .start ok) : s.Stopped u := by
  cases hmove with
  | startAgain ok _ => exact absurd rfl (ha ok)
  | spawn _ => exact absurd rfl (ha true)
  | spawnFails _ => exact absurd rfl (ha false)
  | stop => exact ⟨rfl, h.allowance⟩
  | setMode _ => exact ⟨h.stop, h.allowance⟩
  | report event =>
    refine ⟨h.stop, fun i th' hth' => ?_⟩
    rw [List.getElem?_map, Option.map_eq_some_iff] at hth'
    obtain ⟨th', hget, rfl⟩ := hth'
    obtain ⟨th, hth, hle⟩ := h.allowance i th' hget
    refine ⟨th, hth, ?_⟩
    unfold CaptureThread.report
    split_ifs <;> exact hle
  | @thread j _ v v' hv hact =>
    refine ⟨h.stop, fun i th' hth' => ?_⟩
    by_cases hij : j = i
    · subst hij
      rw [getElem?_setThread_self v' hv] at hth'
      obtain rfl := Option.some.inj hth'
      obtain ⟨th, hth, hle⟩ := h.allowance j v hv
      rw [h.stop] at hact
      exact ⟨th, hth, hact.allowance_le.trans hle⟩
    · rw [getElem?_setThread_ne v' hij] at hth'
      exact h.allowance i th' hth'

/-- So each thread handles one event more at most. -/
theorem Stopped.atMostOneMore (h : s.Stopped t) : s.AtMostOneMore t := by
  intro i th' hth'
  obtain ⟨th, hth, hle⟩ := h.allowance i th' hth'
  refine ⟨th, hth, ?_⟩
  have hupper : th.allowance ≤ th.handled.length + 1 := by
    unfold CaptureThread.allowance
    split <;> omega
  have hlower : th'.handled.length ≤ th'.allowance := Nat.le_add_right _ _
  omega

end X11Capture

open X11Capture

/-- The threads of the capture, over all calls of `start`, `stop` and `set_mode`, with any events
and failures at any time. What a thread has sent is what `captured` says of the events that it has
handled, with no modifier key held at first, and these are all events from one to another. No event
is handled by two threads, or twice, as long as a thread is only spawned when those before it have
returned; and after a thread has been spawned next to another one, both can come to handle the same
event. After a `stop` and until the next `start`, each thread handles at most one event. -/
theorem events_captured_once :
    (∀ as t, x11Capture.run .new as = some t → ∀ th ∈ t.threads, ∃ map first,
      th.sent = captured map .empty (th.handled.map Prod.snd) ∧
      th.handled.map Prod.fst = List.range' first th.handled.length) ∧
    x11Capture.SharpGuard .new SpawnsAlone (fun _ _ t => t.HandledOnce) ∧
    (∀ s t as, s.stop = true → (∀ ok, .start ok ∉ as) → x11Capture.run s as = some t →
      s.AtMostOneMore t) := by
  have hnew : X11Capture.new.Sound := fun _ hth => absurd hth List.not_mem_nil
  refine ⟨fun as t hrun th hth => ?_, ?_, fun s t as hstop hstart hrun => ?_⟩
  · have hsound : t.Sound := System.run_invariant (P := fun _ _ => True)
      (fun _ _ _ hI _ hstep => hI.move (.of_step hstep)) hnew (fun _ _ => trivial) hrun
    obtain ⟨map, hsent, -⟩ := (hsound th hth).sends
    obtain ⟨first, hnumbers⟩ := (hsound th hth).numbers_eq
    exact ⟨map, first, hsent, hnumbers⟩
  · have hkeep : ∀ s a t, (s.Sound ∧ s.InTurn) → s.SpawnsAlone a → x11Capture.step s a = some t →
        t.Sound ∧ t.InTurn := by
      rintro s a t ⟨hsound, hturn⟩ halone hstep
      have hmove : s.Move a t := .of_step hstep
      exact ⟨hsound.move hmove, hturn.move hsound halone hmove⟩
    refine System.sharpGuard_of_invariant ⟨hnew, List.Pairwise.nil⟩ hkeep ?_ ?_
    · intro s a t hI halone hstep
      obtain ⟨hsound, hturn⟩ := hkeep s a t hI halone hstep
      exact hturn.handledOnce hsound
    · intro s a t _ _ halone
      exact exists_step_not_handledOnce halone
  · have hstart' : ∀ p ∈ x11Capture.steps s as, ∀ ok, p.2.1 ≠ .start ok := by
      intro p hp ok he
      exact hstart ok (he ▸ System.label_mem_of_mem_steps hp)
    have hstopped : s.Stopped t := System.run_invariant (P := fun _ a => ∀ ok, a ≠ .start ok)
      (fun _ _ _ hI ha hstep => hI.move (.of_step hstep) ha)
      ⟨hstop, fun i th hth => ⟨th, hth, le_rfl⟩⟩ hstart' hrun
    exact hstopped.atMostOneMore

section Example

/-- The capture is started, and stopped while its thread waits. -/
def startStop : List CaptureLabel :=
  [.setMode .listen, .start true, .thread 0 (.connect true),
    .thread 0 (.readMap (some ⟨8, 255, 1, []⟩)), .thread 0 .test, .stop]

/-- When the capture is started again before the next event, an event can be handled twice. -/
theorem events_captured_once_startStop :
    ∃ bs, ∃ p ∈ x11Capture.steps .new (startStop ++ .start true :: bs), ¬ p.2.2.HandledOnce := by
  obtain ⟨-, hsharp, -⟩ := events_captured_once
  obtain ⟨s, hrun, hs⟩ := (Option.any_eq_true ..).1
    (show (x11Capture.run .new startStop).any (fun s =>
      decide (¬ s.SpawnsAlone (.start true)) && (x11Capture.step s (.start true)).isSome) = true by
      decide)
  obtain ⟨halone, hstep⟩ := Bool.and_eq_true_iff.1 hs
  obtain ⟨t, hstep⟩ := Option.isSome_iff_exists.1 hstep
  obtain ⟨bs, p, hp, hhandled⟩ :=
    hsharp.fails startStop s (.start true) t (by decide) hrun hstep (of_decide_eq_true halone)
  refine ⟨bs, p, ?_, hhandled⟩
  rw [System.steps_append hrun]
  exact List.mem_append_right _ hp

end Example

end Borderless.Input
