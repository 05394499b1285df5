import Borderless.Clipboard.Engine
import Borderless.Lib.Transition

/-!
# The sessions of a spoke

`run_session` in `crates/cli/src/runtime/client.rs`. A session starts a thread that watches the OS
clipboard, and three tasks behind one another: the producer turns a text into a snapshot, the
forwarding task passes its frame on to the write channel, and the writer sends it. Each of the three
channels closes when its senders are gone, and a send to it fails when its receiver is gone. The main
task of the session reads frames until this fails, drops its own sender of the write channel, and
waits for the writer.

The sessions of a spoke follow one another; they share the engine and the OS clipboard. What a
session leaves behind when it returns (its watcher, its producer and its forwarding task) is still
there during the next ones.
-/

namespace Borderless.Runtime

open Borderless.Clipboard Transition

/-- How far the writer task of a session is. -/
inductive SpokeWriter
  /-- It waits for a frame. -/
  | waiting
  /-- It sends a frame. -/
  | sending (frame : WireFrame)
  /-- It has failed to send, and is to close the connection. -/
  | closing
  /-- It has returned, and dropped the receiver of the write channel. -/
  | ended
deriving DecidableEq

/-- How far the main task of a session is. -/
inductive MainTask
  /-- `reader_loop` waits for a frame. -/
  | reading
  /-- `reader_loop` has applied a snapshot, and is to write it to the OS clipboard. -/
  | writing (snap : ClipboardSnapshot)
  /-- `reader_loop` has returned. -/
  | finished
  /-- The main task has dropped its sender of the write channel, and awaits the writer. -/
  | draining
  /-- `run_session` has returned. -/
  | returned
deriving DecidableEq

/-- A session, with a local clipboard backend that works. -/
structure SpokeSession where
  /-- The text that the watcher saw last. -/
  last : Option String
  /-- Whether the watcher runs. -/
  watching : Bool
  /-- The texts in the watcher's channel, oldest first. -/
  texts : List String
  /-- Whether the producer runs. -/
  producing : Bool
  /-- The frames in the producer's channel, oldest first. -/
  frames : List WireFrame
  /-- Whether the forwarding task runs. -/
  forwarding : Bool
  /-- The frames in the write channel, oldest first. -/
  queue : List WireFrame
  /-- The writer task. -/
  writer : SpokeWriter
  /-- The main task. -/
  main : MainTask
  /-- Whether the connection is lost: sends fail. -/
  lost : Bool
deriving DecidableEq

/-- The steps of a session. -/
inductive TaskLabel
  /-- The watcher polls the OS clipboard. -/
  | poll
  /-- The producer makes a snapshot of the next text. -/
  | produce (now : UInt64)
  /-- The producer finds its channel closed. -/
  | producerEnd
  /-- The forwarding task passes the next frame on. -/
  | forward
  /-- The forwarding task finds its channel closed. -/
  | forwardEnd
  /-- The writer takes the next frame. -/
  | take
  /-- The writer has sent its frame. -/
  | sent
  /-- The writer fails to send its frame. -/
  | sendFail
  /-- The writer closes the connection and returns. -/
  | close
  /-- The writer finds its channel closed, and returns. -/
  | writerEnd
  /-- The main task handles a frame. -/
  | recv (frame : WireFrame)
  /-- The main task writes an applied snapshot; the backend may fail. -/
  | write (ok : Bool)
  /-- The main task fails to read a frame, and `reader_loop` returns. -/
  | readError (lost : Bool)
  /-- The main task drops its sender of the write channel. -/
  | drop
  /-- The main task finds the writer ended, and returns. -/
  | join
deriving DecidableEq

/-- The steps of the main task. -/
def TaskLabel.isMain : TaskLabel → Bool
  | .recv _ | .write _ | .readError _ | .drop | .join => true
  | .poll | .produce _ | .producerEnd | .forward | .forwardEnd | .take | .sent | .sendFail | .close
  | .writerEnd => false

namespace SpokeSession

/-- A session that starts now: the watcher takes the OS clipboard as its baseline. -/
def start (clipboard : Option String) : SpokeSession :=
  ⟨clipboard, true, [], true, [], true, [], .waiting, .reading, false⟩

/-- The watcher's look at the OS clipboard. -/
def poll (x : SpokeSession) (clipboard : Option String) : SpokeSession :=
  match clipboard with
  | some text =>
    if clipboard = x.last then x
    -- without the producer the send fails, and the thread breaks out of its loop
    else if x.producing then { x with texts := x.texts ++ [text], last := clipboard }
    else { x with watching := false }
  | none => x

/-- One step, with the engine and the OS clipboard that the sessions share. -/
def step (x : SpokeSession) (engine : Engine) (clipboard : Option String) :
    TaskLabel → Option (Engine × Option String × SpokeSession)
  | .poll => if x.watching then some (engine, clipboard, x.poll clipboard) else none
  | .produce now =>
    match x.producing, x.texts with
    | true, text :: texts =>
      let (snap, engine') := engine.produceText now text
      -- the snapshot is in the history even where nobody takes its frame
      some (engine', clipboard,
        if x.forwarding then { x with texts := texts, frames := x.frames ++ [.clipboard snap] }
        else { x with texts := [], producing := false })
    | _, _ => none
  | .producerEnd =>
    if x.producing ∧ x.texts = [] ∧ x.watching = false then
      some (engine, clipboard, { x with producing := false })
    else none
  | .forward =>
    match x.forwarding, x.frames with
    | true, frame :: frames =>
      some (engine, clipboard,
        if x.writer = .ended then { x with frames := [], forwarding := false }
        else { x with frames := frames, queue := x.queue ++ [frame] })
    | _, _ => none
  | .forwardEnd =>
    if x.forwarding ∧ x.frames = [] ∧ x.producing = false then
      some (engine, clipboard, { x with forwarding := false })
    else none
  | .take =>
    match x.writer, x.queue with
    | .waiting, frame :: queue =>
      some (engine, clipboard, { x with writer := .sending frame, queue := queue })
    | _, _ => none
  | .sent =>
    match x.writer, x.lost with
    | .sending _, false => some (engine, clipboard, { x with writer := .waiting })
    | _, _ => none
  | .sendFail =>
    match x.writer with
    | .sending _ => some (engine, clipboard, { x with writer := .closing })
    | _ => none
  | .close =>
    match x.writer with
    | .closing => some (engine, clipboard, { x with writer := .ended, queue := [] })
    | _ => none
  | .writerEnd =>
    -- the senders of the write channel are those of the main task and of the forwarding task
    if x.writer = .waiting ∧ x.queue = [] ∧ x.forwarding = false ∧ x.main = .draining then
      some (engine, clipboard, { x with writer := .ended })
    else none
  | .recv frame =>
    match x.main with
    | .reading =>
      match frame with
      | .clipboard snap =>
        match engine.observeRemote snap with
        | (.apply snap', engine') => some (engine', clipboard, { x with main := .writing snap' })
        | (.ignore, engine') => some (engine', clipboard, x)
      -- input is injected, and a fetch is answered on the connection itself
      | .input _ | .fetchRequest _ | .fetchResponse .. | .fetchMiss _ | .control _ =>
        some (engine, clipboard, x)
    | _ => none
  | .write ok =>
    match x.main with
    | .writing snap =>
      let written := if ok then snap.plainText <|> clipboard else clipboard
      some (engine, written, { x with main := .reading })
    | _ => none
  | .readError lost =>
    match x.main with
    | .reading => some (engine, clipboard, { x with main := .finished, lost := lost })
    | _ => none
  | .drop =>
    match x.main with
    | .finished => some (engine, clipboard, { x with main := .draining })
    | _ => none
  | .join =>
    match x.main, x.writer with
    | .draining, .ended => some (engine, clipboard, { x with main := .returned })
    | _, _ => none

end SpokeSession

/-- The state of a spoke. -/
structure Spoke where
  /-- Clipboard sync engine. -/
  engine : Engine
  /-- The text on the OS clipboard. -/
  clipboard : Option String
  /-- All sessions so far. -/
  sessions : List SpokeSession

/-- The steps of a spoke. -/
inductive SpokeLabel
  /-- The OS clipboard changes. -/
  | copy (text : Option String)
  /-- The hub is dialed, and a session starts. -/
  | connect
  /-- The session `i` takes a step. -/
  | task (i : ℕ) (label : TaskLabel)
deriving DecidableEq

namespace Spoke

/-- A spoke that has just started. -/
def start (engine : Engine) (clipboard : Option String) : Spoke := ⟨engine, clipboard, []⟩

/-- One step. -/
def step (s : Spoke) : SpokeLabel → Option Spoke
  | .copy text => some { s with clipboard := text }
  | .connect =>
    -- the reconnect loop awaits the last session
    if ∀ x ∈ s.sessions, x.main = .returned then
      some { s with sessions := s.sessions ++ [.start s.clipboard] }
    else none
  | .task i label =>
    match s.sessions[i]? with
    | some x =>
      match x.step s.engine s.clipboard label with
      | some (engine, clipboard, x') => some ⟨engine, clipboard, s.sessions.set i x'⟩
      | none => none
    | none => none

end Spoke

/-- The spoke. A run starts with no session. -/
def spoke : System Spoke SpokeLabel where
  init s := ∃ engine clipboard, s = Spoke.start engine clipboard
  step := Spoke.step

/-! ## The tasks of a session during its teardown -/

namespace SpokeSession

variable {x y : SpokeSession} {e e' : Engine} {c c' : Option String} {label : TaskLabel}

/-- As long as the writer runs, so do the watcher and the tasks between them. -/
def Upstream (x : SpokeSession) : Prop :=
  x.writer ≠ .ended → x.watching = true ∧ x.producing = true ∧ x.forwarding = true

/-- Something is in a channel or with the writer, or the writer has ended. -/
def Pending (x : SpokeSession) : Prop :=
  x.texts ≠ [] ∨ x.frames ≠ [] ∨ x.queue ≠ [] ∨ x.writer ≠ .waiting

instance (x : SpokeSession) : Decidable x.Upstream := inferInstanceAs (Decidable (_ → _))

instance (x : SpokeSession) : Decidable x.Pending := inferInstanceAs (Decidable (_ ∨ _))

/-- `reader_loop` has returned, `run_session` has not. -/
def TearingDown (x : SpokeSession) : Prop := x.main = .finished ∨ x.main = .draining

/-- Some task of the session can take a step, the watcher left aside. -/
def CanMove (x : SpokeSession) (engine : Engine) (clipboard : Option String) : Prop :=
  ∃ label, label ≠ .poll ∧ (x.step engine clipboard label).isSome

/-- The watcher's look changes its own fields and its channel only. -/
theorem poll_eq (x : SpokeSession) (clipboard : Option String) : ∃ last texts watching,
    x.poll clipboard = { x with last := last, texts := texts, watching := watching } ∧
      (x.texts ≠ [] → texts ≠ []) ∧ (x.producing = true → watching = x.watching) := by
  unfold poll
  split
  · split_ifs with hlast hproducing
    · exact ⟨x.last, x.texts, x.watching, rfl, id, fun _ => rfl⟩
    · exact ⟨_, _, x.watching, rfl, fun _ => by simp, fun _ => rfl⟩
    · exact ⟨x.last, x.texts, false, rfl, id, fun h => absurd h hproducing⟩
  · exact ⟨x.last, x.texts, x.watching, rfl, id, fun _ => rfl⟩

/-- The producer takes a text. -/
theorem produce_step {now : UInt64} (h : x.step e c (.produce now) = some (e', c', y)) :
    ∃ text texts, x.producing = true ∧ x.texts = text :: texts ∧
      e' = (e.produceText now text).2 ∧ c' = c ∧
      y = if x.forwarding then
          { x with texts := texts, frames := x.frames ++ [.clipboard (e.produceText now text).1] }
        else { x with texts := [], producing := false } := by
  simp only [step] at h
  split at h
  · next text texts hproducing htexts =>
    simp only [Option.some.injEq, Prod.mk.injEq] at h
    obtain ⟨rfl, rfl, rfl⟩ := h
    exact ⟨text, texts, hproducing, htexts, rfl, rfl, rfl⟩
  · cases h

/-- The forwarding task takes a frame. -/
theorem forward_step (h : x.step e c .forward = some (e', c', y)) :
    ∃ frame frames, x.forwarding = true ∧ x.frames = frame :: frames ∧ e' = e ∧ c' = c ∧
      y = if x.writer = .ended then { x with frames := [], forwarding := false }
        else { x with frames := frames, queue := x.queue ++ [frame] } := by
  simp only [step] at h
  split at h
  · next frame frames hforwarding hframes =>
    simp only [Option.some.injEq, Prod.mk.injEq] at h
    obtain ⟨rfl, rfl, rfl⟩ := h
    exact ⟨frame, frames, hforwarding, hframes, rfl, rfl, rfl⟩
  · cases h

/-- Each stage ends only after a stage next to it, and the writer is the only one to end first. -/
theorem upstream_step (hx : x.Upstream) (h : x.step e c label = some (e', c', y)) :
    y.Upstream := by
  unfold Upstream at *
  cases label with
  | poll =>
    obtain ⟨last, texts, watching, hpoll, -, hwatching⟩ := x.poll_eq c
    simp only [step, hpoll] at h
    grind
  | produce now =>
    -- the producer ends when the forwarding task has
    obtain ⟨text, texts, -, -, -, -, rfl⟩ := produce_step h
    grind
  | producerEnd =>
    simp only [step] at h
    grind
  | forward =>
    -- the forwarding task ends when the writer has
    obtain ⟨frame, frames, -, -, -, -, rfl⟩ := forward_step h
    grind
  | forwardEnd =>
    simp only [step] at h
    grind
  | take | sent | sendFail | close | writerEnd =>
    simp only [step] at h
    grind
  | recv frame | write ok | readError lost | drop | join =>
    simp only [step] at h
    grind

/-- On a lost connection what is pending stays so, until the session returns. -/
theorem pending_step (hx : x.Upstream) (hpending : x.Pending) (hlost : x.lost = true)
    (h : x.step e c label = some (e', c', y)) : y.Pending := by
  unfold Upstream Pending at *
  cases label with
  | poll =>
    obtain ⟨last, texts, watching, hpoll, htexts, -⟩ := x.poll_eq c
    simp only [step, hpoll] at h
    grind
  | produce now =>
    -- what leaves a channel goes into the next one, or the writer has ended
    obtain ⟨text, texts, -, -, -, -, rfl⟩ := produce_step h
    by_cases hforwarding : x.forwarding = true
    · rw [if_pos hforwarding]
      simp
    · have hended : x.writer = .ended := by
        by_contra hwriter
        exact hforwarding (hx hwriter).2.2
      rw [if_neg hforwarding]
      simp [hended]
  | forward =>
    obtain ⟨frame, frames, -, -, -, -, rfl⟩ := forward_step h
    by_cases hended : x.writer = .ended
    · rw [if_pos hended]
      simp [hended]
    · rw [if_neg hended]
      simp
  | take | sent | sendFail | close | writerEnd =>
    simp only [step] at h
    grind
  | producerEnd | forwardEnd | recv frame | write ok | readError lost | drop | join =>
    simp only [step] at h
    grind

/-- While the session is torn down its tasks can move as long as something is pending. -/
theorem canMove_iff_pending (hx : x.Upstream) (hmain : x.main = .draining) :
    x.CanMove e c ↔ x.Pending := by
  unfold Upstream at hx
  constructor
  · rintro ⟨label, hlabel, hstep⟩
    unfold Pending
    cases label with
    | poll => exact absurd rfl hlabel
    | produce now | producerEnd | forward | forwardEnd =>
      simp only [step] at hstep
      grind
    | take | sent | sendFail | close | writerEnd =>
      simp only [step] at hstep
      grind
    | recv frame | write ok | readError lost | drop | join =>
      simp only [step] at hstep
      grind
  · intro hpending
    by_cases hended : x.writer = .ended
    · exact ⟨.join, nofun, by simp [step, hmain, hended]⟩
    · obtain ⟨-, hproducing, hforwarding⟩ := hx hended
      rcases hpending with htexts | hframes | hqueue | hwriter
      · obtain ⟨text, texts, htexts⟩ := List.exists_cons_of_ne_nil htexts
        exact ⟨.produce 0, nofun, by simp [step, hproducing, htexts]⟩
      · obtain ⟨frame, frames, hframes⟩ := List.exists_cons_of_ne_nil hframes
        exact ⟨.forward, nofun, by simp [step, hforwarding, hframes]⟩
      · obtain ⟨frame, queue, hqueue⟩ := List.exists_cons_of_ne_nil hqueue
        cases hwriter : x.writer with
        | waiting => exact ⟨.take, nofun, by simp [step, hwriter, hqueue]⟩
        | sending frame => exact ⟨.sendFail, nofun, by simp [step, hwriter]⟩
        | closing => exact ⟨.close, nofun, by simp [step, hwriter]⟩
        | ended => exact absurd hwriter hended
      · cases hwriter' : x.writer with
        | waiting => exact absurd hwriter' hwriter
        | sending frame => exact ⟨.sendFail, nofun, by simp [step, hwriter']⟩
        | closing => exact ⟨.close, nofun, by simp [step, hwriter']⟩
        | ended => exact absurd hwriter' hended

/-- Only the main task moves itself on and loses the connection. -/
theorem main_of_step (hlabel : label.isMain = false) (h : x.step e c label = some (e', c', y)) :
    y.main = x.main ∧ y.lost = x.lost := by
  cases label with
  | poll =>
    obtain ⟨last, texts, watching, hpoll, -, -⟩ := x.poll_eq c
    simp only [step, hpoll] at h
    grind
  | produce now =>
    obtain ⟨text, texts, -, -, -, -, rfl⟩ := produce_step h
    split_ifs
    · exact ⟨rfl, rfl⟩
    · exact ⟨rfl, rfl⟩
  | forward =>
    obtain ⟨frame, frames, -, -, -, -, rfl⟩ := forward_step h
    split_ifs
    · exact ⟨rfl, rfl⟩
    · exact ⟨rfl, rfl⟩
  | producerEnd | forwardEnd | take | sent | sendFail | close | writerEnd =>
    simp only [step] at h
    grind
  | recv frame | write ok | readError lost | drop | join => cases hlabel

/-- Only the drop of its sender makes the main task await the writer. -/
theorem draining_of_step (hlabel : label ≠ .drop) (h : x.step e c label = some (e', c', y))
    (hmain : y.main = .draining) : x.main = .draining ∧ y.lost = x.lost := by
  by_cases hother : label.isMain = false
  · obtain ⟨hsame, hlost⟩ := main_of_step hother h
    exact ⟨hsame ▸ hmain, hlost⟩
  · cases label with
    | drop => exact absurd rfl hlabel
    | recv frame | write ok | readError lost | join =>
      simp only [step] at h
      grind
    | _ => exact absurd rfl hother

/-- The drop leaves the channels and the writer alone. -/
theorem drop_step (h : x.step e c .drop = some (e', c', y)) : y = { x with main := .draining } := by
  simp only [step] at h
  split at h
  · cases h
    rfl
  · cases h

/-- The stages of the session are as `Upstream` says, and a session that awaits its writer on a lost
connection has something pending. -/
def Flowing (x : SpokeSession) : Prop :=
  x.Upstream ∧ (x.main = .draining → x.lost = true → x.Pending)

/-- A session starts with all its tasks, and reads. -/
theorem flowing_start (clipboard : Option String) : (start clipboard).Flowing :=
  ⟨fun _ => ⟨rfl, rfl, rfl⟩, nofun⟩

/-- A step keeps this, if it is not a drop with nothing pending. -/
theorem flowing_step (hx : x.Flowing) (hdrop : label = .drop → x.lost = true → x.Pending)
    (h : x.step e c label = some (e', c', y)) : y.Flowing := by
  obtain ⟨hup, hpending⟩ := hx
  refine ⟨upstream_step hup h, fun hmain hlost => ?_⟩
  by_cases hlabel : label = .drop
  · subst hlabel
    obtain rfl := drop_step h
    exact hdrop rfl hlost
  · obtain ⟨hmain', hlost'⟩ := draining_of_step hlabel h hmain
    rw [hlost'] at hlost
    exact pending_step hup (hpending hmain' hlost) hlost h

/-- Such a session can move during its teardown. -/
theorem Flowing.canMove (hx : x.Flowing) (hdown : x.TearingDown) (hlost : x.lost = true) :
    x.CanMove e c := by
  rcases hdown with hmain | hmain
  · exact ⟨.drop, nofun, by simp [step, hmain]⟩
  · exact (canMove_iff_pending hx.1 hmain).2 (hx.2 hmain hlost)

end SpokeSession

/-! ## The sessions of a run -/

namespace Spoke

variable {s t : Spoke} {a : SpokeLabel}

/-- A step of a task is a step of its session. -/
theorem task_step {i : ℕ} {label : TaskLabel} (h : s.step (.task i label) = some t) :
    ∃ x engine clipboard y, s.sessions[i]? = some x ∧
      x.step s.engine s.clipboard label = some (engine, clipboard, y) ∧
      t = ⟨engine, clipboard, s.sessions.set i y⟩ := by
  simp only [step] at h
  split at h
  · next x hx =>
    split at h
    · next engine clipboard y hy =>
      cases h
      exact ⟨x, engine, clipboard, y, hx, hy, rfl⟩
    · cases h
  · cases h

/-- A step of a session is a step of the spoke. -/
theorem step_task {i : ℕ} {x y : SpokeSession} {engine : Engine} {clipboard : Option String}
    {label : TaskLabel} (hx : s.sessions[i]? = some x)
    (h : x.step s.engine s.clipboard label = some (engine, clipboard, y)) :
    spoke.step s (.task i label) = some ⟨engine, clipboard, s.sessions.set i y⟩ ∧
      (s.sessions.set i y)[i]? = some y := by
  constructor
  · show s.step (.task i label) = _
    simp only [step, hx, h]
  · exact List.getElem?_set_self (List.getElem?_eq_some_iff.1 hx).1

/-- A session can move in the spoke when it can by itself. -/
theorem isSome_step_task {i : ℕ} {x : SpokeSession} (hx : s.sessions[i]? = some x)
    (label : TaskLabel) :
    (s.step (.task i label)).isSome = (x.step s.engine s.clipboard label).isSome := by
  simp only [step, hx]
  cases x.step s.engine s.clipboard label <;> rfl

/-- The induction rule for the sessions: what a new session has, and a step of a session keeps, all
sessions have after a step of the spoke. -/
theorem forall_sessions_step {P : SpokeSession → Prop} (hstart : ∀ clipboard, P (.start clipboard))
    (hs : ∀ x ∈ s.sessions, P x) (htask : ∀ i label x engine clipboard y, a = .task i label →
      s.sessions[i]? = some x → P x → x.step s.engine s.clipboard label = some (engine, clipboard, y)
      → P y) (h : s.step a = some t) : ∀ x ∈ t.sessions, P x := by
  cases a with
  | copy text =>
    cases h
    exact hs
  | connect =>
    simp only [step] at h
    split at h
    · cases h
      intro x hx
      rcases List.mem_append.1 hx with hold | hnew
      · exact hs x hold
      · obtain rfl := List.mem_singleton.1 hnew
        exact hstart _
    · cases h
  | task i label =>
    obtain ⟨x, engine, clipboard, y, hx, hy, rfl⟩ := task_step h
    intro z hz
    rcases List.mem_or_eq_of_mem_set hz with hold | rfl
    · exact hs z hold
    · exact htask i label x engine clipboard _ rfl hx (hs x (List.mem_of_getElem? hx)) hy

/-- No session is stuck in its teardown: once its connection is lost and `reader_loop` has returned,
one of its tasks can take a step until `run_session` returns, whatever the watcher does. -/
def NotStuck (s : Spoke) : Prop :=
  ∀ i x, s.sessions[i]? = some x → x.TearingDown → x.lost = true →
    ∃ label, label ≠ .poll ∧ (s.step (.task i label)).isSome

/-- A main task that drops its sender of the write channel, on a lost connection, leaves something in
the channels or with the writer, or the writer has ended. -/
def DropsPending (s : Spoke) : SpokeLabel → Prop
  | .task i .drop => ∀ x, s.sessions[i]? = some x → x.lost = true → x.Pending
  | _ => True

/-- After a drop the session can only move with something pending. -/
theorem dropsPending_of_notStuck {i : ℕ} (hs : ∀ x ∈ s.sessions, x.Flowing)
    (h : s.step (.task i .drop) = some t) (hmoves : t.NotStuck) :
    s.DropsPending (.task i .drop) := by
  intro x hx hlost
  obtain ⟨x', engine, clipboard, y, hx', hy, rfl⟩ := task_step h
  obtain rfl := Option.some.inj (hx'.symm.trans hx)
  have hup : y.Upstream := SpokeSession.upstream_step (hs _ (List.mem_of_getElem? hx)).1 hy
  have hy' := (step_task hx hy).2
  obtain rfl := SpokeSession.drop_step hy
  obtain ⟨label, hlabel, hstep⟩ := hmoves i _ hy' (.inr rfl) hlost
  rw [isSome_step_task hy'] at hstep
  exact (SpokeSession.canMove_iff_pending hup rfl).1 ⟨label, hlabel, hstep⟩

end Spoke

open Spoke

/-- The teardown of the sessions of a spoke. In a run no session is ever stuck between the return of
`reader_loop` and that of `run_session` if and only if each main task that drops its sender of the
write channel leaves something in the channels or with the writer, or the writer has ended. With
nothing there, the writer waits for the forwarding task, which waits for the producer, which waits
for the watcher. -/
theorem spoke_teardown_moves (engine : Engine) (clipboard : Option String) (as : List SpokeLabel) :
    (∀ p ∈ spoke.steps (Spoke.start engine clipboard) as, p.2.2.NotStuck) ↔
      ∀ p ∈ spoke.steps (Spoke.start engine clipboard) as, p.1.DropsPending p.2.1 := by
  have hkeep : ∀ a s t, (∀ x ∈ s.sessions, x.Flowing) → spoke.step s a = some t →
      s.DropsPending a → ∀ x ∈ t.sessions, x.Flowing := by
    intro a s t hs h hguard
    refine forall_sessions_step SpokeSession.flowing_start hs ?_ h
    rintro i label x engine' clipboard' y rfl hx hflow hy
    refine SpokeSession.flowing_step hflow ?_ hy
    rintro rfl
    exact hguard x hx
  have hstart : ∀ x ∈ (Spoke.start engine clipboard).sessions, x.Flowing := List.forall_mem_nil _
  refine System.steps_forall_iff (I := fun s => ∀ x ∈ s.sessions, x.Flowing)
    (Q := fun _ _ t => t.NotStuck) (fun a _ s t hs h => ⟨fun hmoves => ?_, fun hguard => ?_⟩)
    (fun a _ s t hs h => hkeep a s t hs h) hstart
  · cases a with
    | copy text => trivial
    | connect => trivial
    | task i label =>
      cases label with
      | drop => exact dropsPending_of_notStuck hs h hmoves
      | _ => trivial
  · intro i x hx hdown hlost
    have hflow := hkeep a s t hs h hguard x (List.mem_of_getElem? hx)
    obtain ⟨label, hlabel, hstep⟩ := hflow.canMove (e := t.engine) (c := t.clipboard) hdown hlost
    exact ⟨label, hlabel, by rw [isSome_step_task hx]; exact hstep⟩

section Example

/-- A spoke whose first session loses its connection. -/
def lostRun : List SpokeLabel := [.connect, .task 0 (.readError true), .task 0 .drop]

/-- In `lostRun` nobody copies anything, and the session hangs. -/
theorem idle_teardown_stuck : ¬ ∀ engine clipboard as,
    ∀ p ∈ spoke.steps (Spoke.start engine clipboard) as, p.2.2.NotStuck := by
  intro h
  have hidle : ∃ p ∈ spoke.steps (Spoke.start (Engine.new ⟨.replicate 16 1⟩ 50) none) lostRun,
      ∃ x ∈ p.2.2.sessions[0]?, x.main = .draining ∧ x.lost = true ∧ x.Upstream ∧ ¬ x.Pending := by
    decide +kernel
  obtain ⟨p, hp, x, hx, hmain, hlost, hup, hidle⟩ := hidle
  obtain ⟨label, hlabel, hstep⟩ := h _ _ _ p hp 0 x hx (.inr hmain) hlost
  rw [isSome_step_task hx] at hstep
  exact hidle ((SpokeSession.canMove_iff_pending hup hmain).1 ⟨label, hlabel, hstep⟩)

end Example

end Borderless.Runtime
