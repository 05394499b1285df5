import Borderless.Runtime.SpokeSession
import Mathlib.Algebra.BigOperators.Group.Finset.Piecewise

/-!
# How often a copy is counted

`run_session` starts a new watcher and a new producer for every session, and they all share the
engine. A text that the user copies is counted by each producer that gets it: it bumps the version
and pushes a snapshot. A `Ledger` is a spoke together with a record that no task reads: for each
text in a watcher's channel the change of the clipboard that it is from, and for each change what
the producers have done to the engine on its behalf.

A change is on its way as long as some producer is still to take its text, from its channel or from
a watcher that is still to see it. Except where the clipboard changes, or where a session loses its
forwarding task, what has been counted and what is on its way add up to the same
(`Ledger.count_poll`, `Ledger.count_produce`).
-/

namespace Borderless.Runtime

open Borderless.Clipboard Transition

/-- The steps that move a text towards the engine, and the forwarding task's, which may end it. -/
def TaskLabel.movesText : TaskLabel → Bool
  | .poll | .produce _ | .forward => true
  | .producerEnd | .forwardEnd | .take | .sent | .sendFail | .close | .writerEnd | .recv _
  | .write _ | .readError _ | .drop | .join => false

namespace SpokeSession

variable {x y : SpokeSession} {e e' : Engine} {c c' : Option String} {label : TaskLabel}

/-- The watcher is still to see the text `clipboard`, and the producer will take it. A producer
whose forwarding task has ended takes one more text only. -/
def Awaits (x : SpokeSession) (clipboard : Option String) : Prop :=
  x.watching = true ∧ x.producing = true ∧ (x.forwarding = true ∨ x.texts = []) ∧
    clipboard.isSome = true ∧ clipboard ≠ x.last

instance (x : SpokeSession) (clipboard : Option String) : Decidable (x.Awaits clipboard) :=
  inferInstanceAs (Decidable (_ ∧ _))

/-- The part of the watcher's channel that the producer will take. -/
def due {α : Type} (x : SpokeSession) (channel : List α) : List α :=
  if x.forwarding then channel else channel.take 1

/-- A new session has seen the clipboard. -/
theorem not_awaits_start (clipboard : Option String) : ¬ (start clipboard).Awaits clipboard :=
  fun h => h.2.2.2.2 rfl

/-- A session whose producer has ended awaits nothing. -/
theorem not_awaits_of_producing (h : x.producing = false) : ¬ x.Awaits c := by
  intro hawaits
  exact absurd hawaits.2.1 (by simp [h])

/-- The watcher sends the text that it sees, or the session is as before but for the watcher of an
ended producer. -/
theorem poll_cases (h : x.step e c .poll = some (e', c', y)) : e' = e ∧ c' = c ∧
    ((∃ text, c = some text ∧ x.watching = true ∧ x.producing = true ∧ c ≠ x.last ∧
        y = { x with texts := x.texts ++ [text], last := c }) ∨
      y = x ∧ ¬ x.Awaits c ∨ x.producing = false ∧ y = { x with watching := false }) := by
  simp only [step] at h
  split_ifs at h with hwatching
  simp only [Option.some.injEq, Prod.mk.injEq] at h
  obtain ⟨rfl, rfl, rfl⟩ := h
  refine ⟨rfl, rfl, ?_⟩
  unfold poll
  split
  · next text =>
    split_ifs with hlast hproducing
    · exact .inr (.inl ⟨rfl, fun h => h.2.2.2.2 hlast⟩)
    · exact .inl ⟨text, rfl, hwatching, hproducing, hlast, rfl⟩
    · exact .inr (.inr ⟨by simpa using hproducing, rfl⟩)
  · exact .inr (.inl ⟨rfl, fun h => absurd h.2.2.2.1 (by simp)⟩)

/-- The other steps leave the watcher, its channel and the producer alone; only a write changes the
clipboard, and only a session whose producer has ended loses its forwarding task. -/
theorem quiet_step (hlabel : label.movesText = false) (h : x.step e c label = some (e', c', y)) :
    y.texts = x.texts ∧ y.watching = x.watching ∧ y.last = x.last ∧
      (y.producing = x.producing ∨ x.texts = [] ∧ x.watching = false ∧ y.producing = false) ∧
      (y.forwarding = x.forwarding ∨ x.producing = false) := by
  cases label with
  | poll | produce now | forward => cases hlabel
  | producerEnd | forwardEnd | take | sent | sendFail | close | writerEnd =>
    simp only [step] at h
    grind
  | recv frame | write ok | readError lost | drop | join =>
    simp only [step] at h
    grind

/-- They do not change what a session awaits. -/
theorem awaits_of_quiet_step (hlabel : label.movesText = false)
    (h : x.step e c label = some (e', c', y)) (d : Option String) : y.Awaits d ↔ x.Awaits d := by
  obtain ⟨htexts, hwatching, hlast, hproducing, hforwarding⟩ := quiet_step hlabel h
  unfold Awaits
  rw [htexts, hwatching, hlast]
  grind

/-- Only a write changes the OS clipboard. -/
theorem clipboard_of_step (hlabel : ∀ ok, label ≠ .write ok)
    (h : x.step e c label = some (e', c', y)) : c' = c := by
  cases label with
  | write ok => exact absurd rfl (hlabel ok)
  | poll => exact (poll_cases h).2.1
  | produce now =>
    obtain ⟨text, texts, -, -, -, rfl, -⟩ := produce_step h
    rfl
  | forward =>
    obtain ⟨frame, frames, -, -, -, rfl, -⟩ := forward_step h
    rfl
  | producerEnd | forwardEnd | take | sent | sendFail | close | writerEnd =>
    simp only [step] at h
    grind
  | recv frame | readError lost | drop | join =>
    simp only [step] at h
    grind

/-- A write changes the clipboard to the text of the snapshot, if there is one and the backend
works. -/
theorem write_step {ok : Bool} (h : x.step e c (.write ok) = some (e', c', y)) :
    ∃ snap, x.main = .writing snap ∧ c' = if ok then snap.plainText <|> c else c := by
  simp only [step] at h
  split at h
  · next snap hmain =>
    cases h
    exact ⟨snap, hmain, rfl⟩
  · cases h

/-- What the watcher and the producer have left to do. -/
def work (x : SpokeSession) (clipboard : Option String) : ℕ :=
  x.texts.length + if x.Awaits clipboard then 2 else 0

/-- The watcher's look at an awaited text leaves less to do. -/
theorem work_poll (hawaits : x.Awaits c) (h : x.step e c .poll = some (e', c', y)) :
    y.work c < x.work c := by
  obtain ⟨-, -, ⟨text, -, -, -, -, hy⟩ | ⟨-, hnone⟩ | ⟨hproducing, -⟩⟩ := poll_cases h
  · have hseen : ¬ y.Awaits c := fun hawaits => hawaits.2.2.2.2 (by rw [hy])
    have htexts : y.texts.length = x.texts.length + 1 := by simp [hy]
    unfold work
    rw [if_neg hseen, if_pos hawaits, htexts]
    omega
  · exact absurd hawaits hnone
  · exact absurd hawaits (not_awaits_of_producing hproducing)

/-- The producer leaves less to do. -/
theorem work_produce {now : UInt64} (h : x.step e c (.produce now) = some (e', c', y)) :
    y.work c < x.work c := by
  obtain ⟨text, texts, hproducing, htexts, -, -, hy⟩ := produce_step h
  have hlength : x.texts.length = texts.length + 1 := by simp [htexts]
  unfold work
  by_cases hforwarding : x.forwarding = true
  · have hsame : y.Awaits c ↔ x.Awaits c := by simp [hy, hforwarding, Awaits]
    have hfewer : y.texts = texts := by simp [hy, hforwarding]
    simp only [hsame, hfewer, hlength]
    omega
  · have hnone : ¬ y.Awaits c := not_awaits_of_producing (by simp [hy, hforwarding])
    have hempty : y.texts = [] := by simp [hy, hforwarding]
    rw [if_neg hnone, hempty, hlength, List.length_nil]
    omega

end SpokeSession

/-! ## The ledger of a spoke -/

/-- The texts in the channel of the session `i`. -/
def Spoke.texts (s : Spoke) (i : ℕ) : List String := (s.sessions[i]?.map SpokeSession.texts).getD []

/-- The number of sessions that await the text `clipboard`. -/
def Spoke.awaiting (s : Spoke) (clipboard : Option String) : ℕ :=
  s.sessions.countP fun x => x.Awaits clipboard

/-- What a change of the clipboard is to do to the engine, from `e` to `e'`. -/
structure OneEntry (e e' : Engine) : Prop where
  /-- The version advances by one. -/
  version : e'.clock = e.clock + 1
  /-- The history gets one entry. -/
  history : ∃ snap, e'.history = pushHistory e.history e.historyLimit snap

/-- A spoke, and the changes that the user made to the text on its OS clipboard, numbered from
zero. -/
structure Ledger where
  /-- The spoke. -/
  spoke : Spoke
  /-- The number of changes so far. -/
  copies : ℕ
  /-- The change that the text on the clipboard is from. It is none for the text of a snapshot, and
  for the text that was there at the start. -/
  current : Option ℕ
  /-- The changes that the texts in the channel of each session are from. -/
  channel : ℕ → List (Option ℕ)
  /-- What the producers did with the text of each change: the engine before and after. -/
  effects : ℕ → List (Engine × Engine)

namespace Ledger

/-- The ledger of a spoke that has just started. -/
def start (engine : Engine) (clipboard : Option String) : Ledger :=
  ⟨.start engine clipboard, 0, none, fun _ => [], fun _ => []⟩

/-- The ledger after the spoke has taken the step `a` to `t`. -/
def record (l : Ledger) (a : SpokeLabel) (t : Spoke) : Ledger :=
  match a with
  | .copy text =>
    if text = l.spoke.clipboard then { l with spoke := t }
    else if text.isSome then { l with spoke := t, copies := l.copies + 1, current := some l.copies }
    else { l with spoke := t, current := none }
  | .task i .poll =>
    if t.texts i = l.spoke.texts i then { l with spoke := t }
    else { l with spoke := t, channel := Function.update l.channel i (l.channel i ++ [l.current]) }
  | .task i (.produce _) =>
    { l with
      spoke := t
      -- a producer that ends drops the rest of its channel
      channel := Function.update l.channel i ((l.channel i).tail.take (t.texts i).length)
      effects := match (l.channel i).head?.join with
        | some id => Function.update l.effects id (l.effects id ++ [(l.spoke.engine, t.engine)])
        | none => l.effects }
  | .task _ (.write _) =>
    { l with spoke := t, current := if t.clipboard = l.spoke.clipboard then l.current else none }
  | .connect | .task _ _ => { l with spoke := t }

/-- One step. -/
def step (l : Ledger) (a : SpokeLabel) : Option Ledger := (l.spoke.step a).map (l.record a)

/-- Nothing is left for a watcher to see or for a producer to take. -/
def Settled (l : Ledger) : Prop :=
  ∀ x ∈ l.spoke.sessions, x.texts = [] ∧ ¬ x.Awaits l.spoke.clipboard

/-- Each change has been counted at most once, and exactly once when nothing is left to be taken;
each time the version advanced by one and the history got one entry. -/
def EachOnce (l : Ledger) : Prop :=
  ∀ id < l.copies, (l.effects id).length ≤ 1 ∧ (l.Settled → (l.effects id).length = 1) ∧
    ∀ p ∈ l.effects id, OneEntry p.1 p.2

/-- No session awaits the text of a change. -/
def Seen (l : Ledger) : Prop := l.current.isSome → l.spoke.awaiting l.spoke.clipboard = 0

/-- The condition under which each change is counted once.

The user changes the text only while one session awaits the new text, and no session the last
change. A snapshot is written over a change only when no session awaits it. The version does not
wrap at the text of a change. When the forwarding task of a session finds the writer ended, the
producer has at most the first text in its channel left to take. -/
def CountsOnce (l : Ledger) : SpokeLabel → Prop
  | .copy text =>
    text ≠ l.spoke.clipboard → l.Seen ∧ (text.isSome → l.spoke.awaiting text = 1)
  | .task i (.write true) => ∀ x ∈ l.spoke.sessions[i]?, ∀ snap, x.main = .writing snap →
    ∀ text, snap.plainText = some text → some text ≠ l.spoke.clipboard → l.Seen
  | .task i (.produce _) =>
    (l.channel i).head?.join.isSome → l.spoke.engine.clock + 1 < 2^64
  | .task i .forward => ∀ x ∈ l.spoke.sessions[i]?, x.writer = .ended →
    (∀ origin ∈ (l.channel i).drop 1, origin = none) ∧
      (x.texts ≠ [] → l.current.isSome → ¬ x.Awaits l.spoke.clipboard)
  | .connect | .task _ _ => True

end Ledger

/-- A spoke with its ledger. -/
def ledger : System Ledger SpokeLabel where
  init l := ∃ engine clipboard, l = Ledger.start engine clipboard
  step := Ledger.step

namespace Ledger

/-- The record is beside the spoke. -/
@[simp]
theorem record_spoke (l : Ledger) (a : SpokeLabel) (t : Spoke) : (l.record a t).spoke = t := by
  unfold record
  split
  · split_ifs <;> rfl
  · split_ifs <;> rfl
  all_goals rfl

/-- The runs of the ledger are those of the spoke. -/
theorem run_spoke (l : Ledger) (as : List SpokeLabel) :
    (ledger.run l as).map Ledger.spoke = Runtime.spoke.run l.spoke as := by
  induction as generalizing l with
  | nil => rfl
  | cons a as ih =>
    show (((l.spoke.step a).map (l.record a)).bind fun t => ledger.run t as).map Ledger.spoke =
      (l.spoke.step a).bind fun t => Runtime.spoke.run t as
    cases l.spoke.step a with
    | none => rfl
    | some t => simpa using ih (l.record a t)

end Ledger

/-! ## Sums over the sessions -/

namespace Spoke

variable {s : Spoke} {i j : ℕ} {x y : SpokeSession}

/-- After a step of the session `i`, only its channel is another. -/
theorem texts_set (hx : s.sessions[i]? = some x) (engine : Engine) (clipboard : Option String)
    (y : SpokeSession) (j : ℕ) :
    (⟨engine, clipboard, s.sessions.set i y⟩ : Spoke).texts j =
      if j = i then y.texts else s.texts j := by
  have hi := (List.getElem?_eq_some_iff.1 hx).1
  unfold texts
  split_ifs with hj
  · rw [hj, List.getElem?_set_self hi]
    rfl
  · rw [List.getElem?_set_ne (Ne.symm hj)]

/-- After a step of the session `i`, only it may await another text. -/
theorem awaiting_set (hx : s.sessions[i]? = some x) (engine : Engine) (clipboard : Option String)
    (y : SpokeSession) (text : Option String) :
    (⟨engine, clipboard, s.sessions.set i y⟩ : Spoke).awaiting text +
        (if x.Awaits text then 1 else 0) =
      s.awaiting text + if y.Awaits text then 1 else 0 := by
  obtain ⟨hi, hget⟩ := List.getElem?_eq_some_iff.1 hx
  have hpos : x.Awaits text → 0 < s.sessions.countP fun x => x.Awaits text := by
    intro hawaits
    exact List.countP_pos_iff.2 ⟨x, List.mem_of_getElem? hx, decide_eq_true hawaits⟩
  unfold awaiting
  rw [List.countP_set hi, hget]
  simp only [decide_eq_true_eq]
  split_ifs with hawaits
  · have := hpos hawaits
    omega
  · have := hpos hawaits
    omega
  · omega
  · omega

end Spoke

namespace Ledger

variable {l t : Ledger} {a : SpokeLabel} {i : ℕ} {x y : SpokeSession}

/-- The sum of `f` over the sessions, each with what the ledger says about its channel. -/
def total (sessions : List SpokeSession) (channel : ℕ → List (Option ℕ))
    (f : SpokeSession → List (Option ℕ) → ℕ) : ℕ :=
  ∑ i ∈ Finset.range sessions.length, sessions[i]?.elim 0 fun x => f x (channel i)

/-- After a step of the session `i`, only its summand is another. -/
theorem total_set {sessions : List SpokeSession} (channel : ℕ → List (Option ℕ))
    (f : SpokeSession → List (Option ℕ) → ℕ) (hx : sessions[i]? = some x) (y : SpokeSession)
    (origins : List (Option ℕ)) :
    total (sessions.set i y) (Function.update channel i origins) f + f x (channel i) =
      total sessions channel f + f y origins := by
  have hlt := (List.getElem?_eq_some_iff.1 hx).1
  have hi : i ∈ Finset.range sessions.length := Finset.mem_range.2 hlt
  have hself : (sessions.set i y)[i]? = some y := List.getElem?_set_self hlt
  have hrest : ∀ j ∈ (Finset.range sessions.length).erase i,
      ((sessions.set i y)[j]?.elim 0 fun z => f z (Function.update channel i origins j)) =
        sessions[j]?.elim 0 fun z => f z (channel j) := by
    intro j hj
    have hne := Finset.ne_of_mem_erase hj
    rw [List.getElem?_set_ne hne.symm, Function.update_of_ne hne]
  unfold total
  rw [List.length_set, ← Finset.add_sum_erase _ _ hi, ← Finset.add_sum_erase _ _ hi,
    Finset.sum_congr rfl hrest]
  simp only [hself, hx, Function.update_self, Option.elim_some]
  omega

/-- A new session adds its summand. -/
theorem total_append (sessions : List SpokeSession) (channel : ℕ → List (Option ℕ))
    (f : SpokeSession → List (Option ℕ) → ℕ) (y : SpokeSession) :
    total (sessions ++ [y]) channel f =
      total sessions channel f + f y (channel sessions.length) := by
  have hrest : ∀ j ∈ Finset.range sessions.length,
      ((sessions ++ [y])[j]?.elim 0 fun z => f z (channel j)) =
        sessions[j]?.elim 0 fun z => f z (channel j) := by
    intro j hj
    rw [List.getElem?_append_left (Finset.mem_range.1 hj)]
  unfold total
  rw [List.length_append, List.length_singleton, Finset.sum_range_succ, Finset.sum_congr rfl hrest]
  simp

/-! ## What is on its way -/

/-- How many texts of the change `id` are in the channels, for a producer that will take them. -/
def due (l : Ledger) (id : ℕ) : ℕ :=
  total l.spoke.sessions l.channel fun x origins => (x.due origins).count (some id)

/-- How many producers are still to take the text of the change `id`. -/
def onWay (l : Ledger) (id : ℕ) : ℕ :=
  l.due id + if l.current = some id then l.spoke.awaiting l.spoke.clipboard else 0

/-- How often the change `id` has been counted or will be. -/
def count (l : Ledger) (id : ℕ) : ℕ := (l.effects id).length + l.onWay id

/-- Each change has been counted once, or is on its way once. -/
def Accounted (l : Ledger) : Prop :=
  ∀ id < l.copies, l.count id = 1 ∧ ∀ p ∈ l.effects id, OneEntry p.1 p.2

/-- What every step keeps. -/
structure Valid (l : Ledger) : Prop where
  /-- The ledger knows each text in a channel. -/
  length : ∀ i, (l.channel i).length = (l.spoke.texts i).length
  /-- A producer that has ended has dropped its channel. -/
  producing : ∀ x ∈ l.spoke.sessions, x.producing = false → x.texts = []
  /-- The changes in the channels were made. -/
  channel_lt : ∀ i id, some id ∈ l.channel i → id < l.copies
  /-- So was the change on the clipboard. -/
  current_lt : ∀ id, l.current = some id → id < l.copies
  /-- A change that was not made has not been counted. -/
  fresh : ∀ id, l.copies ≤ id → l.effects id = []

/-- What the ledger says about the channel of a session is right. -/
structure Fits (l : Ledger) (y : SpokeSession) (origins : List (Option ℕ)) : Prop where
  /-- It knows each text. -/
  length : origins.length = y.texts.length
  /-- A producer that has ended has dropped its channel. -/
  producing : y.producing = false → y.texts = []
  /-- The changes were made. -/
  lt : ∀ id, some id ∈ origins → id < l.copies

/-- It is right about each session. -/
theorem Valid.fits (hv : l.Valid) (hx : l.spoke.sessions[i]? = some x) :
    l.Fits x (l.channel i) := by
  refine ⟨?_, hv.producing x (List.mem_of_getElem? hx), hv.channel_lt i⟩
  rw [hv.length i]
  simp [Spoke.texts, hx]

/-- The ledger after the session `i` has become `y`, with a channel from `origins`. -/
def set (l : Ledger) (i : ℕ) (y : SpokeSession) (engine : Engine) (clipboard : Option String)
    (origins : List (Option ℕ)) : Ledger :=
  { l with
    spoke := ⟨engine, clipboard, l.spoke.sessions.set i y⟩
    channel := Function.update l.channel i origins }

/-- It stays right when it is right about the session. -/
theorem Valid.set (hv : l.Valid) (hx : l.spoke.sessions[i]? = some x) {origins : List (Option ℕ)}
    (hfits : l.Fits y origins) (engine : Engine) (clipboard : Option String) :
    (l.set i y engine clipboard origins).Valid where
  length j := by
    show (Function.update l.channel i origins j).length = _
    rw [show (l.set i y engine clipboard origins).spoke.texts j =
      if j = i then y.texts else l.spoke.texts j from Spoke.texts_set hx ..]
    split_ifs with hj
    · rw [hj, Function.update_self, hfits.length]
    · rw [Function.update_of_ne hj, hv.length j]
  producing z hz := by
    rcases List.mem_or_eq_of_mem_set hz with hold | rfl
    · exact hv.producing z hold
    · exact hfits.producing
  channel_lt j id hid := by
    have hid : some id ∈ Function.update l.channel i origins j := hid
    by_cases hj : j = i
    · rw [hj, Function.update_self] at hid
      exact hfits.lt id hid
    · rw [Function.update_of_ne hj] at hid
      exact hv.channel_lt j id hid
  current_lt := hv.current_lt
  fresh := hv.fresh

/-- What the session `x`, with a channel from `origins`, adds to what is on its way. -/
def share (l : Ledger) (id : ℕ) (x : SpokeSession) (origins : List (Option ℕ)) : ℕ :=
  (x.due origins).count (some id) +
    if l.current = some id ∧ x.Awaits l.spoke.clipboard then 1 else 0

/-- After a step of the session `i`, only its channel is another. -/
theorem due_set (hx : l.spoke.sessions[i]? = some x) (y : SpokeSession) (engine : Engine)
    (clipboard : Option String) (origins : List (Option ℕ)) (id : ℕ) :
    (l.set i y engine clipboard origins).due id + (x.due (l.channel i)).count (some id) =
      l.due id + (y.due origins).count (some id) :=
  total_set l.channel (fun x origins => (x.due origins).count (some id)) hx y origins

/-- After a step of the session `i`, only its share is another. -/
theorem onWay_set (hx : l.spoke.sessions[i]? = some x) (y : SpokeSession) (engine : Engine)
    (origins : List (Option ℕ)) (id : ℕ) :
    (l.set i y engine l.spoke.clipboard origins).onWay id + l.share id x (l.channel i) =
      l.onWay id + l.share id y origins := by
  have hdue := due_set hx y engine l.spoke.clipboard origins id
  have hawaiting := Spoke.awaiting_set hx engine l.spoke.clipboard y l.spoke.clipboard
  unfold onWay share
  by_cases hcurrent : l.current = some id
  · simp only [set, hcurrent, if_true, true_and] at hdue ⊢
    omega
  · simp only [set, hcurrent, if_false, false_and] at hdue ⊢
    omega

/-! ## The steps -/

/-- A step of a task in the ledger. -/
theorem task_step {label : TaskLabel} (h : ledger.step l (.task i label) = some t) :
    ∃ x engine clipboard y, l.spoke.sessions[i]? = some x ∧
      x.step l.spoke.engine l.spoke.clipboard label = some (engine, clipboard, y) ∧
      t = l.record (.task i label) ⟨engine, clipboard, l.spoke.sessions.set i y⟩ := by
  obtain ⟨s, hs, rfl⟩ := Option.map_eq_some_iff.1 h
  obtain ⟨x, engine, clipboard, y, hx, hy, rfl⟩ := Spoke.task_step hs
  exact ⟨x, engine, clipboard, y, hx, hy, rfl⟩

/-- A step that a session can take is one of the ledger: the ledger holds no task up. -/
theorem exists_task_step (label : TaskLabel) (hx : l.spoke.sessions[i]? = some x)
    (h : (x.step l.spoke.engine l.spoke.clipboard label).isSome) :
    ∃ t, ledger.step l (.task i label) = some t := by
  rw [← Spoke.isSome_step_task hx] at h
  obtain ⟨s, hs⟩ := Option.isSome_iff_exists.1 h
  exact ⟨l.record (.task i label) s, Option.map_eq_some_iff.2 ⟨s, hs, rfl⟩⟩

/-- The text that a watcher sends to its producer was awaited, if the producer is to take it. -/
theorem share_push (hfits : l.Fits x (l.channel i)) {text : String}
    (hclipboard : l.spoke.clipboard = some text) (hwatching : x.watching = true)
    (hproducing : x.producing = true) (hlast : l.spoke.clipboard ≠ x.last) (id : ℕ) :
    l.share id { x with texts := x.texts ++ [text], last := l.spoke.clipboard }
      (l.channel i ++ [l.current]) = l.share id x (l.channel i) := by
  have hseen : ¬ SpokeSession.Awaits
      { x with texts := x.texts ++ [text], last := l.spoke.clipboard } l.spoke.clipboard :=
    fun h => h.2.2.2.2 rfl
  have hawaits : x.Awaits l.spoke.clipboard ↔ (x.forwarding = true ∨ x.texts = []) :=
    ⟨fun h => h.2.2.1, fun h => ⟨hwatching, hproducing, h, by simp [hclipboard], hlast⟩⟩
  have hlength := hfits.length
  unfold share SpokeSession.due
  simp only [hseen, and_false, if_false, hawaits]
  by_cases hforwarding : x.forwarding = true
  · simp [hforwarding, List.count_cons, List.count_nil]
  · cases hchannel : l.channel i with
    | nil =>
      have htexts : x.texts = [] := List.length_eq_zero_iff.1 (by simp [← hlength, hchannel])
      simp [hforwarding, htexts, List.count_cons, List.count_nil]
    | cons origin origins =>
      have htexts : x.texts ≠ [] := by
        rintro htexts
        simp [hchannel, htexts] at hlength
      simp [hforwarding, htexts]

/-- The watcher's look. -/
theorem poll_spec (hv : l.Valid) (h : ledger.step l (.task i .poll) = some t) :
    ∃ x y origins, l.spoke.sessions[i]? = some x ∧ l.Fits y origins ∧
      t = l.set i y l.spoke.engine l.spoke.clipboard origins ∧
      ∀ id, l.share id y origins = l.share id x (l.channel i) := by
  obtain ⟨x, engine, clipboard, y, hx, hy, rfl⟩ := task_step h
  have hfits := hv.fits hx
  have htexts : (⟨engine, clipboard, l.spoke.sessions.set i y⟩ : Spoke).texts i = y.texts := by
    rw [Spoke.texts_set hx, if_pos rfl]
  have hold : l.spoke.texts i = x.texts := by simp [Spoke.texts, hx]
  have hsame : Function.update l.channel i (l.channel i) = l.channel := Function.update_eq_self ..
  obtain ⟨rfl, rfl, ⟨text, hclipboard, hwatching, hproducing, hlast, hy⟩ | ⟨rfl, -⟩ |
    ⟨hproducing, hy⟩⟩ := SpokeSession.poll_cases hy
  · -- a text is sent, of the change that is on the clipboard
    refine ⟨x, y, l.channel i ++ [l.current], hx, ⟨?_, ?_, ?_⟩, ?_, fun id => ?_⟩
    · simp [hy, hfits.length]
    · simp [hy, hproducing]
    · intro id hid
      rcases List.mem_append.1 hid with hid | hid
      · exact hfits.lt id hid
      · exact hv.current_lt id (List.mem_singleton.1 hid).symm
    · have hpush : y.texts ≠ x.texts := by simp [hy]
      simp only [record, set, htexts, hold, if_neg hpush]
    · rw [hy]
      exact share_push hfits hclipboard hwatching hproducing hlast id
  · refine ⟨y, y, l.channel i, hx, hfits, ?_, fun id => rfl⟩
    simp only [record, set, htexts, hold, if_true, hsame]
  · -- the watcher ends, as its producer has, and awaited nothing
    refine ⟨x, y, l.channel i, hx, ⟨?_, ?_, hfits.lt⟩, ?_, fun id => ?_⟩
    · simpa [hy] using hfits.length
    · simpa [hy, hproducing] using hfits.producing
    · have hpush : y.texts = x.texts := by simp [hy]
      simp only [record, set, htexts, hold, if_pos hpush, hsame]
    · have hnone : ¬ y.Awaits l.spoke.clipboard :=
        SpokeSession.not_awaits_of_producing (by simp [hy, hproducing])
      have hnone' : ¬ x.Awaits l.spoke.clipboard := SpokeSession.not_awaits_of_producing hproducing
      simp only [share, hnone, hnone', and_false, if_false]
      simp [hy, SpokeSession.due]

/-- The first text in the channel was the producer's to take; where it is the last one that the
producer takes, nothing else was. -/
theorem share_take {origin : Option ℕ} {origins : List (Option ℕ)} {text : String}
    {texts : List String} {frames : List WireFrame} (hfits : l.Fits x (origin :: origins))
    (hxtexts : x.texts = text :: texts)
    (hy : y = if x.forwarding then { x with texts := texts, frames := frames }
      else { x with texts := [], producing := false }) (id : ℕ) :
    l.share id y (origins.take y.texts.length) + (if origin = some id then 1 else 0) =
      l.share id x (origin :: origins) := by
  have hlength : origins.length = texts.length := by simpa [hxtexts] using hfits.length
  unfold share SpokeSession.due
  by_cases hforwarding : x.forwarding = true
  · rw [if_pos hforwarding] at hy
    have hawaits : y.Awaits l.spoke.clipboard ↔ x.Awaits l.spoke.clipboard := by
      simp [SpokeSession.Awaits, hy, hforwarding]
    have htake : origins.take y.texts.length = origins := by simp [hy, ← hlength]
    have hy' : y.forwarding = true := by simp [hy, hforwarding]
    simp only [hawaits, htake, hy', hforwarding, if_true, List.count_cons, beq_iff_eq]
    omega
  · -- without the forwarding task the producer ends, and its session awaited nothing
    rw [if_neg hforwarding] at hy
    have hnone : ¬ y.Awaits l.spoke.clipboard :=
      SpokeSession.not_awaits_of_producing (by simp [hy])
    have hnone' : ¬ x.Awaits l.spoke.clipboard := by
      simp [SpokeSession.Awaits, hforwarding, hxtexts]
    simp only [hnone, hnone', and_false, if_false]
    simp [hy, hforwarding, List.count_cons]

/-- The producer takes the first text, of the change `origin`. -/
theorem produce_spec (hv : l.Valid) {now : UInt64}
    (h : ledger.step l (.task i (.produce now)) = some t) :
    ∃ x y origins engine origin text, l.spoke.sessions[i]? = some x ∧ l.Fits y origins ∧
      (l.channel i).head?.join = origin ∧ engine = (l.spoke.engine.produceText now text).2 ∧
      t = { l.set i y engine l.spoke.clipboard origins with
        effects := match origin with
          | some id => Function.update l.effects id (l.effects id ++ [(l.spoke.engine, engine)])
          | none => l.effects } ∧
      ∀ id, l.share id y origins + (if origin = some id then 1 else 0) =
        l.share id x (l.channel i) := by
  obtain ⟨x, engine, clipboard, y, hx, hstep, rfl⟩ := task_step h
  have hfits := hv.fits hx
  obtain ⟨text, texts, hproducing, hxtexts, hengine, rfl, hy⟩ := SpokeSession.produce_step hstep
  have htexts : (⟨engine, l.spoke.clipboard, l.spoke.sessions.set i y⟩ : Spoke).texts i =
      y.texts := by
    rw [Spoke.texts_set hx, if_pos rfl]
  obtain ⟨origin, origins, hchannel⟩ : ∃ origin origins, l.channel i = origin :: origins := by
    refine List.exists_cons_of_length_pos ?_
    simp [hfits.length, hxtexts]
  rw [hchannel] at hfits ⊢
  have hlength : origins.length = texts.length := by simpa [hxtexts] using hfits.length
  refine ⟨x, y, origins.take y.texts.length, engine, origin, text, hx, ⟨?_, ?_, ?_⟩, rfl, hengine,
    ?_, share_take hfits hxtexts hy⟩
  · rw [hy]
    split_ifs <;> simp [hlength]
  · rw [hy]
    split_ifs <;> simp [hproducing]
  · intro id hid
    exact hfits.lt id (List.mem_cons_of_mem _ (List.mem_of_mem_take hid))
  · simp [record, set, htexts, hchannel]

/-- What the producer of the session `x` can no longer take once the forwarding task has ended. -/
def lost (l : Ledger) (id : ℕ) (x : SpokeSession) (origins : List (Option ℕ)) : ℕ :=
  (origins.drop 1).count (some id) +
    if l.current = some id ∧ x.texts ≠ [] ∧ x.Awaits l.spoke.clipboard then 1 else 0

/-- A session that loses its forwarding task shares less. -/
theorem share_lose (hforwarding : x.forwarding = true)
    (hy : y = { x with frames := [], forwarding := false }) (id : ℕ) (origins : List (Option ℕ)) :
    l.share id y origins + l.lost id x origins = l.share id x origins := by
  have hawaits : y.Awaits l.spoke.clipboard ↔ x.Awaits l.spoke.clipboard ∧ x.texts = [] := by
    simp only [hy, SpokeSession.Awaits, hforwarding]
    grind
  have hsplit : origins.count (some id) =
      (origins.take 1).count (some id) + (origins.drop 1).count (some id) := by
    rw [← List.count_append, List.take_append_drop]
  have hended : y.forwarding = false := by rw [hy]
  simp only [share, lost, SpokeSession.due, hawaits, hforwarding, hended, if_true, hsplit]
  grind

/-- The forwarding task takes a frame, and ends when the writer has. -/
theorem forward_spec (hv : l.Valid) (h : ledger.step l (.task i .forward) = some t) :
    ∃ x y, l.spoke.sessions[i]? = some x ∧ l.Fits y (l.channel i) ∧
      t = l.set i y l.spoke.engine l.spoke.clipboard (l.channel i) ∧
      ∀ id, l.share id y (l.channel i) +
        (if x.writer = .ended then l.lost id x (l.channel i) else 0) =
          l.share id x (l.channel i) := by
  obtain ⟨x, engine, clipboard, y, hx, hstep, rfl⟩ := task_step h
  have hfits := hv.fits hx
  obtain ⟨frame, frames, hforwarding, -, rfl, rfl, hy⟩ := SpokeSession.forward_step hstep
  have htexts : y.texts = x.texts := by
    rw [hy]
    split_ifs <;> rfl
  have hproducing : y.producing = x.producing := by
    rw [hy]
    split_ifs <;> rfl
  refine ⟨x, y, hx, ⟨?_, ?_, hfits.lt⟩, ?_, fun id => ?_⟩
  · rw [htexts, hfits.length]
  · rw [htexts, hproducing]
    exact hfits.producing
  · simp [record, set]
  · by_cases hended : x.writer = .ended
    · rw [if_pos hended] at hy ⊢
      exact share_lose hforwarding hy id _
    · have hsame : y.Awaits l.spoke.clipboard ↔ x.Awaits l.spoke.clipboard := by
        simp [hy, hended, SpokeSession.Awaits]
      simp only [share, hsame, SpokeSession.due]
      simp [hy, hended]

/-- The other steps leave the channels, and what is awaited, as they are. -/
theorem quiet_spec {label : TaskLabel} (hlabel : label.movesText = false) (hv : l.Valid)
    (h : ledger.step l (.task i label) = some t) :
    ∃ x y engine clipboard current, l.spoke.sessions[i]? = some x ∧ l.Fits y (l.channel i) ∧
      x.step l.spoke.engine l.spoke.clipboard label = some (engine, clipboard, y) ∧
      t = { l.set i y engine clipboard (l.channel i) with current := current } ∧
      (clipboard = l.spoke.clipboard → current = l.current) ∧
      (clipboard ≠ l.spoke.clipboard → current = none) ∧
      y.due (l.channel i) = x.due (l.channel i) ∧ ∀ text, y.Awaits text ↔ x.Awaits text := by
  obtain ⟨x, engine, clipboard, y, hx, hstep, rfl⟩ := task_step h
  have hfits := hv.fits hx
  obtain ⟨htexts, -, -, hproducing, hforwarding⟩ := SpokeSession.quiet_step hlabel hstep
  have hawaits := SpokeSession.awaits_of_quiet_step hlabel hstep
  -- a forwarder that ends has an empty channel
  have hdue : y.due (l.channel i) = x.due (l.channel i) := by
    rcases hforwarding with hforwarding | hended
    · simp only [SpokeSession.due, hforwarding]
    · have hempty : l.channel i = [] := by
        rw [← List.length_eq_zero_iff, hfits.length, hfits.producing hended, List.length_nil]
      simp [SpokeSession.due, hempty]
  have hfits' : l.Fits y (l.channel i) := by
    refine ⟨by rw [htexts, hfits.length], fun hy => ?_, hfits.lt⟩
    rw [htexts]
    rcases hproducing with hsame | ⟨hempty, -⟩
    · exact hfits.producing (hsame ▸ hy)
    · exact hempty
  refine ⟨x, y, engine, clipboard,
    if clipboard = l.spoke.clipboard then l.current else none, hx, hfits', hstep, ?_,
    fun hsame => if_pos hsame, fun hchange => if_neg hchange, hdue, hawaits⟩
  cases label with
  | poll | produce now | forward => cases hlabel
  | write ok => simp [record, set]
  | producerEnd | forwardEnd | take | sent | sendFail | close | writerEnd =>
    obtain rfl := SpokeSession.clipboard_of_step (by simp) hstep
    simp [record, set]
  | recv frame | readError lost | drop | join =>
    obtain rfl := SpokeSession.clipboard_of_step (by simp) hstep
    simp [record, set]

/-- A new session brings nothing, and has seen the clipboard. -/
theorem onWay_connect (hv : l.Valid) (h : ledger.step l .connect = some t) :
    t.Valid ∧ t.copies = l.copies ∧ t.effects = l.effects ∧ ∀ id, t.onWay id = l.onWay id := by
  obtain ⟨s, hs, rfl⟩ := Option.map_eq_some_iff.1 h
  simp only [Spoke.step] at hs
  split_ifs at hs
  obtain rfl := Option.some.inj hs
  -- the new session has an empty channel
  have hchannel : l.channel l.spoke.sessions.length = [] := by
    rw [← List.length_eq_zero_iff, hv.length]
    simp [Spoke.texts]
  refine ⟨⟨fun j => ?_, ?_, hv.channel_lt, hv.current_lt, hv.fresh⟩, rfl, rfl, fun id => ?_⟩
  · show (l.channel j).length = _
    rw [hv.length j]
    simp only [record, Spoke.texts, List.getElem?_append]
    split_ifs with hj
    · rfl
    · have hold : l.spoke.sessions[j]? = none := List.getElem?_eq_none (by omega)
      rw [hold]
      cases j - l.spoke.sessions.length <;> simp [SpokeSession.start]
  · intro x hx
    rcases List.mem_append.1 hx with hold | hnew
    · exact hv.producing x hold
    · obtain rfl := List.mem_singleton.1 hnew
      exact fun _ => rfl
  · have hdue : (l.record .connect ⟨l.spoke.engine, l.spoke.clipboard,
        l.spoke.sessions ++ [.start l.spoke.clipboard]⟩).due id = l.due id := by
      have happend := total_append l.spoke.sessions l.channel
        (fun x origins => (x.due origins).count (some id)) (.start l.spoke.clipboard)
      rw [hchannel] at happend
      exact happend.trans (by simp [due, SpokeSession.due])
    -- its watcher has seen what is on the clipboard
    have hawaiting : (⟨l.spoke.engine, l.spoke.clipboard,
        l.spoke.sessions ++ [.start l.spoke.clipboard]⟩ : Spoke).awaiting l.spoke.clipboard =
          l.spoke.awaiting l.spoke.clipboard := by
      simp [Spoke.awaiting, SpokeSession.not_awaits_start]
    unfold onWay
    rw [hdue]
    simp only [record, hawaiting]

/-- What is in the channels has been counted or will be, once no session awaits a change. -/
theorem seen_iff (hv : l.Valid) (ha : l.Accounted) :
    (∀ id < l.copies, (l.effects id).length + l.due id = 1) ↔ l.Seen := by
  constructor
  · intro hdue hsome
    obtain ⟨id, hid⟩ := Option.isSome_iff_exists.1 hsome
    have hcount := (ha id (hv.current_lt id hid)).1
    have hone := hdue id (hv.current_lt id hid)
    simp only [count, onWay, hid, if_true] at hcount
    omega
  · intro hseen id hid
    have hcount := (ha id hid).1
    by_cases hcurrent : l.current = some id
    · have hzero := hseen (by simp [hcurrent])
      simp only [count, onWay, hcurrent, if_true] at hcount
      omega
    · simpa only [count, onWay, hcurrent, if_false, Nat.add_zero] using hcount

/-- A change that was not made is in no channel. -/
theorem due_eq_zero (hv : l.Valid) {id : ℕ} (hid : l.copies ≤ id) : l.due id = 0 := by
  unfold due total
  refine Finset.sum_eq_zero fun i _ => ?_
  cases hx : l.spoke.sessions[i]? with
  | none => rfl
  | some x =>
    refine List.count_eq_zero_of_not_mem fun hmem => ?_
    have hmem' : some id ∈ l.channel i := by
      unfold SpokeSession.due at hmem
      split_ifs at hmem
      · exact hmem
      · exact List.mem_of_mem_take hmem
    exact absurd (hv.channel_lt i id hmem') (by omega)

/-- What the producer does to the engine is what a change is to do, unless the version wraps. -/
theorem oneEntry_produceText (e : Engine) (now : UInt64) (text : String) :
    OneEntry e (e.produceText now text).2 ↔ e.clock + 1 < 2^64 := by
  have hlt : (e.produceText now text).2.clock < 2^64 := UInt64.toNat_lt _
  constructor
  · intro h
    rw [← h.version]
    exact hlt
  · intro h
    exact ⟨Engine.produce_version e now [.text text] (by omega), _, rfl⟩

/-! ## The invariants -/

/-- Every step keeps the ledger right. -/
theorem valid_step (hv : l.Valid) (h : ledger.step l a = some t) : t.Valid := by
  cases a with
  | copy text =>
    obtain rfl : l.record (.copy text) { l.spoke with clipboard := text } = t := Option.some.inj h
    simp only [record]
    split_ifs
    · exact ⟨hv.length, hv.producing, hv.channel_lt, hv.current_lt, hv.fresh⟩
    · -- the new change is on the clipboard and in no channel
      refine ⟨hv.length, hv.producing, fun i id hid => ?_, fun id hid => ?_, fun id hid => ?_⟩
      · exact Nat.lt_succ_of_lt (hv.channel_lt i id hid)
      · obtain rfl := Option.some.inj hid
        exact Nat.lt_succ_self _
      · exact hv.fresh id (Nat.le_of_succ_le hid)
    · exact ⟨hv.length, hv.producing, hv.channel_lt, nofun, hv.fresh⟩
  | connect => exact (onWay_connect hv h).1
  | task i label =>
    by_cases hlabel : label.movesText = false
    · obtain ⟨x, y, engine, clipboard, current, hx, hfits, -, rfl, hsame, hchange, -, -⟩ :=
        quiet_spec hlabel hv h
      have hset := hv.set hx hfits engine clipboard
      refine ⟨hset.length, hset.producing, hset.channel_lt, fun id hid => ?_, hset.fresh⟩
      by_cases hclipboard : clipboard = l.spoke.clipboard
      · exact hv.current_lt id (hsame hclipboard ▸ hid)
      · rw [show current = none from hchange hclipboard] at hid
        cases hid
    · cases label with
      | poll =>
        obtain ⟨x, y, origins, hx, hfits, rfl, -⟩ := poll_spec hv h
        exact hv.set hx hfits _ _
      | produce now =>
        obtain ⟨x, y, origins, engine, origin, text, hx, hfits, horigin, -, rfl, -⟩ :=
          produce_spec hv h
        have hset := hv.set hx hfits engine l.spoke.clipboard
        refine ⟨hset.length, hset.producing, hset.channel_lt, hset.current_lt, fun id hid => ?_⟩
        cases origin with
        | none => exact hv.fresh id hid
        | some id' =>
          -- the effect belongs to a change that has been counted
          have hlt : id' < l.copies := by
            refine hv.channel_lt i id' (List.mem_of_mem_head? ?_)
            exact Option.join_eq_some_iff.1 horigin
          have hid : l.copies ≤ id := hid
          show Function.update l.effects id' _ id = []
          rw [Function.update_of_ne (by omega)]
          exact hv.fresh id hid
      | forward =>
        obtain ⟨x, y, hx, hfits, rfl, -⟩ := forward_spec hv h
        exact hv.set hx hfits _ _
      | _ => exact absurd rfl hlabel

/-- What is counted, or on its way, stays so when neither changes. -/
theorem Accounted.of_onWay (ha : l.Accounted) (hcopies : t.copies = l.copies)
    (heffects : t.effects = l.effects) (honWay : ∀ id, t.onWay id = l.onWay id) : t.Accounted := by
  intro id hid
  rw [hcopies] at hid
  rw [count, honWay id, heffects]
  exact ha id hid

/-- A change of the clipboard: one session must await the new text, and none the last change. -/
theorem accounted_copy_iff (hv : l.Valid) (ha : l.Accounted) {text : Option String}
    (h : ledger.step l (.copy text) = some t) : t.Accounted ↔ l.CountsOnce (.copy text) := by
  obtain rfl : l.record (.copy text) { l.spoke with clipboard := text } = t := Option.some.inj h
  unfold CountsOnce record
  by_cases hsame : text = l.spoke.clipboard
  · subst hsame
    simp only [if_true, ne_eq, not_true, false_imp_iff, iff_true]
    exact ha
  simp only [hsame, if_false, ne_eq, not_false_eq_true, forall_true_left]
  rw [← seen_iff hv ha]
  by_cases htext : text.isSome
  · -- the new change is on its way to the sessions that await it
    have hnew : l.effects l.copies = [] := hv.fresh _ le_rfl
    have hdue : l.due l.copies = 0 := due_eq_zero hv le_rfl
    simp only [htext, if_true, forall_true_left]
    unfold Accounted
    rw [Nat.forall_lt_succ_right]
    refine and_congr (forall₂_congr fun id hid => ?_) ?_
    · -- an older change is no longer on the clipboard
      have hne : ¬ some l.copies = some id := by
        simp only [Option.some.injEq]
        omega
      simp only [count, onWay, if_neg hne, Nat.add_zero]
      exact and_iff_left (ha id hid).2
    · have hdue' : due ⟨⟨l.spoke.engine, text, l.spoke.sessions⟩, l.copies + 1, some l.copies,
          l.channel, l.effects⟩ l.copies = 0 := hdue
      simp only [count, onWay, hnew, hdue', if_true, List.length_nil, Nat.zero_add]
      exact and_iff_left (List.forall_mem_nil _)
  · simp only [htext, if_false, false_imp_iff, and_true, Bool.false_eq_true]
    unfold Accounted
    refine forall₂_congr fun id hid => ?_
    have hne : ¬ (none : Option ℕ) = some id := by simp
    simp only [count, onWay, if_neg hne, Nat.add_zero]
    exact and_iff_left (ha id hid).2

/-- The watcher's look leaves what is on its way. -/
theorem count_poll (hv : l.Valid) (h : ledger.step l (.task i .poll) = some t) :
    t.copies = l.copies ∧ t.effects = l.effects ∧ ∀ id, t.onWay id = l.onWay id := by
  obtain ⟨x, y, origins, hx, -, rfl, hshare⟩ := poll_spec hv h
  refine ⟨rfl, rfl, fun id => ?_⟩
  have honWay := onWay_set hx y l.spoke.engine origins id
  have hsame := hshare id
  omega

/-- What the producer takes is no longer on its way, and has been counted. -/
theorem count_produce (hv : l.Valid) {now : UInt64}
    (h : ledger.step l (.task i (.produce now)) = some t) :
    t.copies = l.copies ∧ ∀ id, t.count id = l.count id := by
  obtain ⟨x, y, origins, engine, origin, text, hx, -, -, -, rfl, hshare⟩ := produce_spec hv h
  refine ⟨rfl, fun id => ?_⟩
  have honWay : onWay _ id + _ = _ := onWay_set hx y engine origins id
  have htaken := hshare id
  cases origin with
  | none =>
    simp only [reduceCtorEq, if_false] at htaken
    show (l.effects id).length + (l.set i y engine l.spoke.clipboard origins).onWay id = _
    unfold count
    omega
  | some id' =>
    simp only [Option.some.injEq] at htaken
    show (Function.update l.effects id' _ id).length +
      (l.set i y engine l.spoke.clipboard origins).onWay id = _
    unfold count
    by_cases hid : id = id'
    · subst hid
      rw [if_pos rfl] at htaken
      rw [Function.update_self, List.length_append, List.length_singleton]
      omega
    · rw [if_neg (Ne.symm hid)] at htaken
      rw [Function.update_of_ne hid]
      omega

/-- The producer counts as it should, unless the version wraps. -/
theorem accounted_produce_iff (hv : l.Valid) (ha : l.Accounted) {now : UInt64}
    (h : ledger.step l (.task i (.produce now)) = some t) :
    t.Accounted ↔ l.CountsOnce (.task i (.produce now)) := by
  obtain ⟨hcopies, hcount⟩ := count_produce hv h
  obtain ⟨x, y, origins, engine, origin, text, -, -, horigin, rfl, rfl, -⟩ := produce_spec hv h
  show _ ↔ ((l.channel i).head?.join.isSome → l.spoke.engine.clock + 1 < 2^64)
  rw [horigin]
  cases origin with
  | none =>
    -- a text that is from no change of the user
    simp only [Option.isSome_none, Bool.false_eq_true, false_imp_iff, iff_true]
    intro id hid
    rw [hcount id]
    exact ha id hid
  | some id' =>
    have hid' : id' < l.copies :=
      hv.channel_lt i id' (List.mem_of_mem_head? (Option.join_eq_some_iff.1 horigin))
    simp only [Option.isSome_some, forall_true_left]
    rw [← oneEntry_produceText l.spoke.engine now text]
    constructor
    · intro hnew
      refine (hnew id' hid').2 (l.spoke.engine, (l.spoke.engine.produceText now text).2) ?_
      show _ ∈ Function.update l.effects id' _ id'
      rw [Function.update_self]
      exact List.mem_append_right _ (List.mem_singleton_self _)
    · intro hentry id hid
      rw [hcount id]
      refine ⟨(ha id hid).1, fun p hp => ?_⟩
      have hp : p ∈ Function.update l.effects id' _ id := hp
      -- only the change of this text gets an effect
      by_cases hsame : id = id'
      · rw [hsame, Function.update_self] at hp
        rcases List.mem_append.1 hp with hold | hlast
        · exact (ha id' hid').2 p hold
        · obtain rfl := List.mem_singleton.1 hlast
          exact hentry
      · rw [Function.update_of_ne hsame] at hp
        exact (ha id hid).2 p hp

/-- Nothing is lost with the forwarding task when the producer has at most one text left to take. -/
theorem lost_eq_zero_iff (hv : l.Valid) (x : SpokeSession) :
    (∀ id < l.copies, l.lost id x (l.channel i) = 0) ↔
      (∀ origin ∈ (l.channel i).drop 1, origin = none) ∧
        (x.texts ≠ [] → l.current.isSome → ¬ x.Awaits l.spoke.clipboard) := by
  unfold lost
  constructor
  · intro hzero
    constructor
    · intro origin horigin
      cases origin with
      | none => rfl
      | some id =>
        have hlt := hv.channel_lt i id (List.mem_of_mem_drop horigin)
        have hpos := List.count_pos_iff.2 horigin
        have hnone := hzero id hlt
        omega
    · intro htexts hcurrent hawaits
      obtain ⟨id, hid⟩ := Option.isSome_iff_exists.1 hcurrent
      have hnone := hzero id (hv.current_lt id hid)
      rw [if_pos ⟨hid, htexts, hawaits⟩] at hnone
      omega
  · rintro ⟨hchannel, hseen⟩ id -
    have hcount : ((l.channel i).drop 1).count (some id) = 0 := by
      refine List.count_eq_zero_of_not_mem fun hmem => ?_
      cases hchannel _ hmem
    have hawaits : ¬ (l.current = some id ∧ x.texts ≠ [] ∧ x.Awaits l.spoke.clipboard) := by
      rintro ⟨hid, htexts, hawaits⟩
      exact hseen htexts (by simp [hid]) hawaits
    rw [hcount, if_neg hawaits]

/-- The end of a forwarding task: nothing may be lost with it. -/
theorem accounted_forward_iff (hv : l.Valid) (ha : l.Accounted)
    (h : ledger.step l (.task i .forward) = some t) :
    t.Accounted ↔ l.CountsOnce (.task i .forward) := by
  obtain ⟨x, y, hx, -, rfl, hshare⟩ := forward_spec hv h
  -- with the writer gone, the rest of the channel goes with the task
  have honWay : ∀ id, (l.set i y l.spoke.engine l.spoke.clipboard (l.channel i)).onWay id +
      (if x.writer = .ended then l.lost id x (l.channel i) else 0) = l.onWay id := by
    intro id
    have hset := onWay_set hx y l.spoke.engine (l.channel i) id
    have hsame := hshare id
    omega
  show _ ↔ ∀ z ∈ l.spoke.sessions[i]?, z.writer = .ended →
    (∀ origin ∈ (l.channel i).drop 1, origin = none) ∧
      (z.texts ≠ [] → l.current.isSome → ¬ z.Awaits l.spoke.clipboard)
  simp only [hx, Option.mem_def, Option.some.injEq, forall_eq']
  by_cases hended : x.writer = .ended
  · simp only [hended, if_true] at honWay
    simp only [hended, forall_true_left]
    rw [← lost_eq_zero_iff hv x]
    refine forall₂_congr fun id hid => ?_
    have hcount := (ha id hid).1
    have hid' := honWay id
    unfold count at hcount ⊢
    rw [show (l.set i y l.spoke.engine l.spoke.clipboard (l.channel i)).effects id = l.effects id
      from rfl, and_iff_left (ha id hid).2]
    omega
  · simp only [hended, false_imp_iff, iff_true]
    refine ha.of_onWay rfl rfl fun id => ?_
    have hid := honWay id
    rw [if_neg hended] at hid
    exact hid

/-- The other steps leave what is on its way; where one changes the clipboard, only what is in the
channels still is. -/
theorem onWay_quiet {label : TaskLabel} (hlabel : label.movesText = false) (hv : l.Valid)
    (h : ledger.step l (.task i label) = some t) : t.copies = l.copies ∧ t.effects = l.effects ∧
      (t.spoke.clipboard = l.spoke.clipboard → ∀ id, t.onWay id = l.onWay id) ∧
      (t.spoke.clipboard ≠ l.spoke.clipboard → ∀ id, t.onWay id = l.due id) := by
  obtain ⟨x, y, engine, clipboard, current, hx, -, -, rfl, hsame, hchange, hdue, hawaits⟩ :=
    quiet_spec hlabel hv h
  refine ⟨rfl, rfl, fun hclipboard id => ?_, fun hclipboard id => ?_⟩
  · obtain rfl : clipboard = l.spoke.clipboard := hclipboard
    obtain rfl := hsame rfl
    have honWay := onWay_set hx y engine (l.channel i) id
    have hshare : l.share id y (l.channel i) = l.share id x (l.channel i) := by
      simp only [share, hdue, hawaits]
    show (l.set i y engine l.spoke.clipboard (l.channel i)).onWay id = _
    omega
  · obtain rfl := hchange hclipboard
    have hset := due_set hx y engine clipboard (l.channel i) id
    rw [hdue] at hset
    exact Nat.add_right_cancel hset

/-- A write over a change: no session may still await it. -/
theorem accounted_write_iff (hv : l.Valid) (ha : l.Accounted) {ok : Bool}
    (h : ledger.step l (.task i (.write ok)) = some t) :
    t.Accounted ↔ l.CountsOnce (.task i (.write ok)) := by
  obtain ⟨hcopies, heffects, hsame, hchange⟩ := onWay_quiet rfl hv h
  obtain ⟨x, engine, clipboard, y, hx, hstep, rfl⟩ := task_step h
  obtain ⟨snap, hmain, hclipboard⟩ := SpokeSession.write_step hstep
  by_cases hwritten : clipboard = l.spoke.clipboard
  · -- the condition asks for nothing where the text is the same
    refine iff_of_true (ha.of_onWay hcopies heffects (hsame hwritten)) ?_
    cases ok with
    | false => trivial
    | true =>
      intro z hz snap' hmain' text htext hother
      obtain rfl := Option.some.inj (hx.symm.trans hz)
      obtain rfl := MainTask.writing.inj (hmain.symm.trans hmain')
      refine absurd ?_ hother
      rw [← hwritten, hclipboard]
      simp [htext]
  · -- only the text of a snapshot is another one
    cases ok with
    | false => exact absurd hclipboard hwritten
    | true =>
      cases htext : snap.plainText with
      | none => exact absurd (by simp [hclipboard, htext]) hwritten
      | some text =>
        have hother : ¬ some text = l.spoke.clipboard := by
          rintro heq
          exact hwritten (by simp [hclipboard, htext, heq])
        have hguard : l.CountsOnce (.task i (.write true)) ↔ l.Seen := by
          constructor
          · intro h
            exact h x hx snap hmain text htext hother
          · intro hseen _ _ _ _ _ _ _
            exact hseen
        rw [hguard, ← seen_iff hv ha]
        unfold Accounted
        rw [hcopies]
        refine forall₂_congr fun id hid => ?_
        rw [count, hchange hwritten id, heffects]
        exact and_iff_left (ha id hid).2

/-- A step keeps the account exactly under the condition. -/
theorem accounted_step_iff (hv : l.Valid) (ha : l.Accounted) (h : ledger.step l a = some t) :
    t.Accounted ↔ l.CountsOnce a := by
  cases a with
  | copy text => exact accounted_copy_iff hv ha h
  | connect =>
    obtain ⟨-, hcopies, heffects, honWay⟩ := onWay_connect hv h
    exact iff_of_true (ha.of_onWay hcopies heffects honWay) trivial
  | task i label =>
    cases label with
    | poll =>
      obtain ⟨hcopies, heffects, honWay⟩ := count_poll hv h
      exact iff_of_true (ha.of_onWay hcopies heffects honWay) trivial
    | produce now => exact accounted_produce_iff hv ha h
    | forward => exact accounted_forward_iff hv ha h
    | write ok => exact accounted_write_iff hv ha h
    | _ =>
      obtain ⟨x, engine, clipboard, y, -, hstep, rfl⟩ := task_step h
      obtain rfl := SpokeSession.clipboard_of_step (by simp) hstep
      obtain ⟨hcopies, heffects, hsame, -⟩ := onWay_quiet rfl hv h
      exact iff_of_true (ha.of_onWay hcopies heffects (hsame rfl)) trivial

/-! ## Runs -/

/-- What the tasks of all sessions have left to do. -/
def work (l : Ledger) : ℕ :=
  total l.spoke.sessions l.channel fun x _ => x.work l.spoke.clipboard

/-- A step of the session `i` that leaves it less to do leaves less to do. -/
theorem work_record {label : TaskLabel} {engine : Engine} (hx : l.spoke.sessions[i]? = some x)
    (hless : y.work l.spoke.clipboard < x.work l.spoke.clipboard) :
    (l.record (.task i label) ⟨engine, l.spoke.clipboard, l.spoke.sessions.set i y⟩).work <
      l.work := by
  have hset := total_set l.channel (fun x _ => x.work l.spoke.clipboard) hx y []
  have hwork : (l.record (.task i label)
      ⟨engine, l.spoke.clipboard, l.spoke.sessions.set i y⟩).work =
        total (l.spoke.sessions.set i y) (Function.update l.channel i [])
          fun x _ => x.work l.spoke.clipboard := by
    unfold work total
    rw [record_spoke]
  rw [hwork]
  unfold work
  omega

/-- As long as something is left, a watcher or a producer can do it, and this leaves the count. -/
theorem exists_step_of_not_settled (hv : l.Valid) (h : ¬ l.Settled) :
    ∃ a t, ledger.step l a = some t ∧ t.work < l.work ∧ t.copies = l.copies ∧
      ∀ id, t.count id = l.count id := by
  unfold Settled at h
  push Not at h
  obtain ⟨x, hmem, hleft⟩ := h
  obtain ⟨i, hx⟩ := List.mem_iff_getElem?.1 hmem
  by_cases htexts : x.texts = []
  · -- the watcher sees the text that it awaits
    have hawaits := hleft htexts
    obtain ⟨t, ht⟩ := exists_task_step .poll hx (by simp [SpokeSession.step, hawaits.1])
    obtain ⟨hcopies, heffects, honWay⟩ := count_poll hv ht
    refine ⟨_, t, ht, ?_, hcopies, fun id => by rw [count, heffects, honWay, count]⟩
    obtain ⟨x', engine, clipboard, y, hx', hstep, rfl⟩ := task_step ht
    obtain rfl := Option.some.inj (hx'.symm.trans hx)
    obtain rfl := SpokeSession.clipboard_of_step (by simp) hstep
    exact work_record hx (SpokeSession.work_poll hawaits hstep)
  · -- the producer takes the first text; one that has ended would have none
    have hproducing : x.producing = true := by
      by_contra hended
      exact htexts (hv.producing x hmem (by simpa using hended))
    obtain ⟨text, texts, hcons⟩ := List.exists_cons_of_ne_nil htexts
    obtain ⟨t, ht⟩ := exists_task_step (.produce 0) hx
      (by simp [SpokeSession.step, hproducing, hcons])
    obtain ⟨hcopies, hcount⟩ := count_produce hv ht
    refine ⟨_, t, ht, ?_, hcopies, hcount⟩
    obtain ⟨x', engine, clipboard, y, hx', hstep, rfl⟩ := task_step ht
    obtain rfl := Option.some.inj (hx'.symm.trans hx)
    obtain rfl := SpokeSession.clipboard_of_step (by simp) hstep
    exact work_record hx (SpokeSession.work_produce hstep)

/-- The watchers and the producers can do all that is left. -/
theorem exists_settled (hv : l.Valid) :
    ∃ bs m, ledger.run l bs = some m ∧ m.Valid ∧ m.Settled ∧ m.copies = l.copies ∧
      ∀ id, m.count id = l.count id := by
  induction hn : l.work using Nat.strong_induction_on generalizing l with
  | h n ih =>
    by_cases hsettled : l.Settled
    · exact ⟨[], l, rfl, hv, hsettled, rfl, fun _ => rfl⟩
    · obtain ⟨a, t, ht, hwork, hcopies, hcount⟩ := exists_step_of_not_settled hv hsettled
      obtain ⟨bs, m, hm, hvalid, hsettled', hcopies', hcount'⟩ :=
        ih t.work (hn ▸ hwork) (valid_step hv ht) rfl
      refine ⟨a :: bs, m, ?_, hvalid, hsettled', hcopies'.trans hcopies, fun id => ?_⟩
      · simp only [System.run, ht, Option.bind_some, hm]
      · rw [hcount' id, hcount id]

/-- When nothing is left, nothing is on its way. -/
theorem onWay_of_settled (hv : l.Valid) (h : l.Settled) (id : ℕ) : l.onWay id = 0 := by
  have hdue : l.due id = 0 := by
    unfold due total
    refine Finset.sum_eq_zero fun i _ => ?_
    cases hx : l.spoke.sessions[i]? with
    | none => rfl
    | some x =>
      have hempty : l.channel i = [] := by
        rw [← List.length_eq_zero_iff, (hv.fits hx).length, (h x (List.mem_of_getElem? hx)).1,
          List.length_nil]
      simp [hempty, SpokeSession.due]
  have hawaiting : l.spoke.awaiting l.spoke.clipboard = 0 := by
    refine List.countP_eq_zero.2 fun x hx => ?_
    simpa using (h x hx).2
  simp [onWay, hdue, hawaiting]

/-- Where each change is accounted for once, it is counted once. -/
theorem Accounted.eachOnce (ha : l.Accounted) (hv : l.Valid) : l.EachOnce := by
  intro id hid
  obtain ⟨hcount, heffects⟩ := ha id hid
  unfold count at hcount
  refine ⟨by omega, fun hsettled => ?_, heffects⟩
  rw [onWay_of_settled hv hsettled id] at hcount
  exact hcount

/-- Where a change is not accounted for once, the tasks can go on until it is not counted once. -/
theorem exists_not_eachOnce (hv : l.Valid) (h : ledger.step l a = some t) (ha : ¬ t.Accounted) :
    ∃ bs, ∃ p ∈ ledger.steps l (a :: bs), ¬ p.2.2.EachOnce := by
  unfold Accounted at ha
  push Not at ha
  obtain ⟨id, hid, hwrong⟩ := ha
  have hvt := valid_step hv h
  by_cases hcount : t.count id = 1
  · -- the version wrapped in this step
    obtain ⟨p, hp, hentry⟩ := hwrong hcount
    obtain ⟨q, hq, hlast⟩ : ∃ q ∈ ledger.steps l [a], q.2.2 = t :=
      System.exists_mem_steps_of_run h rfl
    refine ⟨[], q, hq, fun honce => ?_⟩
    rw [hlast] at honce
    exact hentry ((honce id hid).2.2 p hp)
  · -- the tasks go on until nothing is left, which leaves the wrong count
    obtain ⟨bs, m, hm, hvm, hsettled, hcopies, hsame⟩ := exists_settled hvt
    obtain ⟨q, hq, hlast⟩ := System.exists_mem_steps_of_run h hm
    refine ⟨bs, q, hq, fun honce => ?_⟩
    rw [hlast] at honce
    have hone := (honce id (hcopies ▸ hid)).2.1 hsettled
    have hzero := onWay_of_settled hvm hsettled id
    rw [← hsame id, count, hone, hzero] at hcount
    exact hcount rfl

/-- A spoke that has just started has nothing to account for. -/
theorem valid_start (engine : Engine) (clipboard : Option String) :
    (start engine clipboard).Valid where
  length i := by simp [start, Spoke.texts, Spoke.start]
  producing := List.forall_mem_nil _
  channel_lt i id h := by cases h
  current_lt id h := by cases h
  fresh _ _ := rfl

end Ledger

open Ledger

/-- How often a copy is counted. In every run of a spoke, over any number of sessions, that keeps to
`CountsOnce`, each change of the clipboard advances the version by one and adds one entry to the
history, once. Any step that does not keep to it can be followed by steps after which some change
has not. -/
theorem copy_counts_once (engine : Engine) (clipboard : Option String) :
    ledger.SharpGuard (Ledger.start engine clipboard) CountsOnce fun _ _ t => t.EachOnce := by
  have hkeep : ∀ l a t, l.Valid ∧ l.Accounted → l.CountsOnce a → ledger.step l a = some t →
      t.Valid ∧ t.Accounted := by
    rintro l a t ⟨hv, ha⟩ hguard h
    exact ⟨valid_step hv h, (accounted_step_iff hv ha h).2 hguard⟩
  have hstart : (Ledger.start engine clipboard).Accounted := by
    intro id hid
    exact absurd hid (Nat.not_lt_zero id)
  refine System.sharpGuard_of_invariant ⟨valid_start engine clipboard, hstart⟩ hkeep ?_ ?_
  · intro l a t hl hguard h
    obtain ⟨hv, ha⟩ := hkeep l a t hl hguard h
    exact ha.eachOnce hv
  · rintro l a t ⟨hv, ha⟩ h hguard
    exact exists_not_eachOnce hv h fun ht => hguard ((accounted_step_iff hv ha h).1 ht)

section Example

/-- A spoke whose first session ends, and that connects again. The text `b` is copied in the second
session. -/
def twoSessionsRun : List SpokeLabel :=
  [.connect, .copy (some "a"), .task 0 .poll, .task 0 (.produce 0), .task 0 .forward, .task 0 .take,
    .task 0 .sendFail, .task 0 .close, .task 0 (.readError true), .task 0 .drop, .task 0 .join,
    .connect, .copy (some "b"), .task 0 .poll, .task 1 .poll, .task 0 (.produce 0),
    .task 1 (.produce 0)]

/-- In `twoSessionsRun` the text `b` is counted by the producers of both sessions. -/
theorem reconnect_counts_twice : ¬ ∀ engine clipboard as,
    ∀ p ∈ ledger.steps (Ledger.start engine clipboard) as, p.2.2.EachOnce := by
  intro h
  have htwice : ∃ p ∈ ledger.steps (Ledger.start (Engine.new ⟨.replicate 16 1⟩ 50) none)
      twoSessionsRun, 1 < p.2.2.copies ∧ (p.2.2.effects 1).length = 2 := by
    decide +kernel
  obtain ⟨p, hp, hid, htwice⟩ := htwice
  have honce := (h _ _ _ p hp 1 hid).1
  omega

end Example

end Borderless.Runtime
