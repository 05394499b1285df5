import Borderless.Network.Agreement
import Mathlib.Algebra.BigOperators.Group.Finset.Piecewise

/-!
# The sync loop through the desktops

Each node of the connected network with the OS clipboard around its engine. A watcher
(`X11Clipboard::watch`, the same on every platform) polls the OS clipboard, sends each text that
differs from its own `last` to the task that calls `produce_text`, and stores it in `last`.
`handle_remote_clipboard` writes the text of an applied snapshot through a fresh handle
(`X11Clipboard::write`), so the watcher's `last` does not learn of it, and the next poll reports it
as if the user had copied it. The `last_seen` of the handle is dropped with it, and nothing reads
it.

`source` records who put the content on the OS clipboard, `made` which texts were produced, and
`typed` how many texts users have copied; the code has none of these.
-/

namespace Borderless.Network

open Borderless.Clipboard Transition

/-- Who put the content on an OS clipboard. -/
inductive Source
  /-- The user, or it was there before the watcher. -/
  | user
  /-- `handle_remote_clipboard`. -/
  | remote
deriving DecidableEq

/-- The OS clipboard of a node, its watcher, and the writes to come. -/
structure Desktop where
  /-- The text that `get_text` returns, if any. -/
  content : Option String
  /-- Who put the content there. -/
  source : Source
  /-- The watcher's `last`. -/
  last : Option String
  /-- The texts that the watcher has sent and `produce_text` has not yet taken, oldest first, each
  with its source. -/
  reported : List (String × Source)
  /-- The applied snapshots that are not yet written. -/
  pending : List ClipboardSnapshot

namespace Desktop

/-- `X11Clipboard::watch` starts with the present content as `last`. -/
def watch (content : Option String) : Desktop := ⟨content, .user, content, [], []⟩

/-- The user puts something on the clipboard: a text, or with `none` something else. -/
def copy (d : Desktop) (content : Option String) : Desktop :=
  { d with content := content, source := .user }

/-- One poll of the watcher. -/
def poll (d : Desktop) : Desktop :=
  match d.content with
  | some text =>
    if d.last ≠ some text then
      { d with reported := d.reported ++ [(text, d.source)], last := some text }
    else d
  | none => d

/-- `X11Clipboard::write`. A text that is there already keeps its source. -/
def write (d : Desktop) (snap : ClipboardSnapshot) : Desktop :=
  match snap.plainText with
  | some text =>
    { d with content := some text, source := if d.content = some text then d.source else .remote }
  | none => d

/-- The next poll reports a text. -/
def Reports (d : Desktop) : Prop := d.content.isSome ∧ d.last ≠ d.content

instance (d : Desktop) : Decidable d.Reports := inferInstanceAs (Decidable (_ ∧ _))

/-- The next poll reports a text that the user did not copy. -/
def Echoes (d : Desktop) : Prop := d.source = .remote ∧ d.Reports

instance (d : Desktop) : Decidable d.Echoes := inferInstanceAs (Decidable (_ ∧ _))

/-- How many snapshots the user's copies on this desktop are still good for: those of the reported
texts, and that of a user's text which is still to be reported. -/
def backlog (d : Desktop) : ℕ :=
  d.reported.length + if d.source = .user ∧ d.Reports then 1 else 0

/-- A desktop that reports sends its content and remembers it. -/
theorem poll_of_reports {d : Desktop} (h : d.Reports) : ∃ text, d.content = some text ∧
    d.poll = { d with reported := d.reported ++ [(text, d.source)], last := some text } := by
  obtain ⟨hsome, hne⟩ := h
  obtain ⟨text, hc⟩ := Option.isSome_iff_exists.1 hsome
  rw [hc] at hne
  refine ⟨text, hc, ?_⟩
  unfold poll
  simp only [hc, if_pos hne]

/-- A desktop that does not report is left alone by a poll. -/
theorem poll_of_not_reports {d : Desktop} (h : ¬ d.Reports) : d.poll = d := by
  unfold poll
  split
  · next text hc =>
    refine if_neg fun hne => h ⟨by rw [hc]; rfl, ?_⟩
    rwa [hc]
  · rfl

/-- A poll of the user's text moves it from the desktop to the reported texts. -/
theorem backlog_poll {d : Desktop} (h : ¬ d.Echoes) : d.poll.backlog = d.backlog := by
  by_cases hr : d.Reports
  · have hs : d.source = .user := by
      cases hs : d.source with
      | user => rfl
      | remote => exact absurd ⟨hs, hr⟩ h
    obtain ⟨text, hc, hp⟩ := poll_of_reports hr
    -- the text goes from the second part of the backlog to the first
    have hdone : ¬ d.poll.Reports := fun hp' => hp'.2 (by rw [hp]; exact hc.symm)
    unfold backlog
    rw [if_neg fun hp' => hdone hp'.2, if_pos ⟨hs, hr⟩, hp]
    simp
  · rw [poll_of_not_reports hr]

/-- A copy adds at most one text to report. -/
theorem backlog_copy_le (d : Desktop) (content : Option String) :
    (d.copy content).backlog ≤ d.backlog + content.toList.length := by
  have hle : d.reported.length ≤ d.backlog := Nat.le_add_right _ _
  cases content with
  | some text =>
    have hcopy : (d.copy (some text)).backlog ≤ d.reported.length + 1 :=
      Nat.add_le_add_left (by split_ifs <;> omega) _
    have hone : (some text).toList.length = 1 := rfl
    omega
  | none =>
    have hcopy : (d.copy none).backlog = d.reported.length := by
      unfold backlog
      rw [if_neg fun h => absurd h.2.1 Bool.false_ne_true]
      rfl
    omega

/-- A step of a desktop that reports nothing, and changes the content only on behalf of others. -/
structure Passive (d d' : Desktop) : Prop where
  /-- Nothing is reported. -/
  reported : d'.reported = d.reported
  /-- The watcher does not poll. -/
  last : d'.last = d.last
  /-- A new content is not the user's. -/
  content : d'.content = d.content ∧ d'.source = d.source ∨ d'.source = .remote

/-- A passive step adds no text to report. -/
theorem Passive.backlog_le {d d' : Desktop} (h : d.Passive d') : d'.backlog ≤ d.backlog := by
  have himp : d'.source = .user ∧ d'.Reports → d.source = .user ∧ d.Reports := by
    rintro ⟨hs, hsome, hne⟩
    rcases h.content with ⟨hcontent, hsource⟩ | hsource
    · rw [hcontent] at hsome hne
      rw [h.last] at hne
      exact ⟨hsource ▸ hs, hsome, hne⟩
    · rw [hs] at hsource
      cases hsource
  unfold backlog
  rw [h.reported]
  by_cases hr : d'.source = .user ∧ d'.Reports
  · rw [if_pos hr, if_pos (himp hr)]
  · rw [if_neg hr]
    exact Nat.le_add_right _ _

/-- A reported text counts once. -/
theorem backlog_of_cons {d : Desktop} {r : String × Source} {rest : List (String × Source)}
    (h : d.reported = r :: rest) :
    d.backlog = { d with reported := rest : Desktop }.backlog + 1 := by
  unfold backlog
  rw [h]
  show rest.length + 1 + (if d.source = .user ∧ d.Reports then 1 else 0) =
    rest.length + (if d.source = .user ∧ d.Reports then 1 else 0) + 1
  omega

/-- A write is passive. -/
theorem passive_write (d : Desktop) (snap : ClipboardSnapshot) : d.Passive (d.write snap) := by
  unfold write
  split
  · next text _ =>
    refine ⟨rfl, rfl, ?_⟩
    by_cases hc : d.content = some text
    · exact .inl ⟨hc.symm, if_pos hc⟩
    · exact .inr (if_neg hc)
  · exact ⟨rfl, rfl, .inl ⟨rfl, rfl⟩⟩

end Desktop

/-- The network with the desktops of its nodes. -/
structure Desktops (κ : Type*) where
  /-- The engines and the frames in flight. -/
  net : HubSpoke κ
  /-- The desktop of each node. -/
  desktop : Option κ → Desktop
  /-- The texts that have been produced, each with its node and its source, oldest first. -/
  made : List (Option κ × String × Source)
  /-- The number of texts that users have copied. -/
  typed : ℕ

/-- The steps of the network with its desktops. -/
inductive DesktopLabel (κ : Type*)
  /-- The user of `n` copies a text, or with `none` something else. -/
  | copy (n : Option κ) (content : Option String)
  /-- The watcher of `n` polls. -/
  | poll (n : Option κ)
  /-- The node `n` produces a snapshot of the oldest reported text. -/
  | produce (n : Option κ) (now : UInt64)
  /-- The hub's reader of `k` handles its next frame. -/
  | deliverUp (k : κ)
  /-- The reader of `k` handles its next frame. -/
  | deliverDown (k : κ)
  /-- The node `n` writes an applied snapshot; the backend may fail. -/
  | write (n : Option κ) (snap : ClipboardSnapshot) (ok : Bool)
  /-- A reader of the hub broadcasts what it has applied. -/
  | relay (p : κ × ClipboardSnapshot)

variable {κ : Type*} [DecidableEq κ]

namespace Desktops

/-- The desktop of `n` becomes `d`. -/
def setDesktop (s : Desktops κ) (n : Option κ) (d : Desktop) : Desktops κ :=
  { s with desktop := Function.update s.desktop n d }

/-- `handle_remote_clipboard` up to the write: an applied snapshot is to be written. -/
def handle (s : Desktops κ) (n : Option κ) (snap : ClipboardSnapshot) : Desktop :=
  match ((s.net.engine n).observeRemote snap).1 with
  | .apply snap' => { s.desktop n with pending := (s.desktop n).pending ++ [snap'] }
  | .ignore => s.desktop n

/-- The reader of `n` handles the oldest of these frames, the step `a` of the network. -/
def deliver (s : Desktops κ) (n : Option κ) (frames : List ClipboardSnapshot)
    (a : HubSpokeLabel κ) : Option (Desktops κ) :=
  match frames, s.net.step a with
  | snap :: _, some net => some { s.setDesktop n (s.handle n snap) with net := net }
  | _, _ => none

/-- One step. -/
def step (s : Desktops κ) : DesktopLabel κ → Option (Desktops κ)
  | .copy n content =>
    some { s.setDesktop n ((s.desktop n).copy content) with
      typed := s.typed + content.toList.length }
  | .poll n => some (s.setDesktop n (s.desktop n).poll)
  | .produce n now =>
    match (s.desktop n).reported with
    | [] => none
    | (text, source) :: rest =>
      (s.net.step (.copy n now text)).map fun net =>
        { s.setDesktop n { s.desktop n with reported := rest } with
          net := net
          made := s.made ++ [(n, text, source)] }
  | .deliverUp k => s.deliver none (s.net.up k) (.deliverUp k)
  | .deliverDown k => s.deliver (some k) (s.net.down k) (.deliverDown k)
  | .write n snap ok =>
    if snap ∈ (s.desktop n).pending then
      let d := { s.desktop n with pending := (s.desktop n).pending.erase snap }
      some (s.setDesktop n (if ok then d.write snap else d))
    else none
  | .relay p =>
    -- the reader broadcasts once `handle_remote_clipboard` has returned
    if p.2 ∈ (s.desktop none).pending then none
    else (s.net.step (.relay p)).map fun net => { s with net := net }

/-- Fresh connected engines, watchers that have just started, and no history. -/
structure Start (s : Desktops κ) : Prop where
  /-- The engines are fresh, and nothing is in flight. -/
  fresh : s.net.Fresh
  /-- The spokes are connected. -/
  live : ∀ k, s.net.live k
  /-- The watchers have just started. -/
  desktop : ∀ n, ∃ content, s.desktop n = .watch content
  /-- Nothing has been produced. -/
  made : s.made = []
  /-- Nothing has been copied. -/
  typed : s.typed = 0

end Desktops

/-- The sync loop of a hub with the spokes `κ`. -/
def desktops (κ : Type*) [DecidableEq κ] : System (Desktops κ) (DesktopLabel κ) where
  init s := s.Start
  step := Desktops.step

namespace Desktops

variable {s t : Desktops κ} {a : DesktopLabel κ}

/-! ## What a step does -/

/-- A step is one of the network, or it leaves the network alone. -/
theorem step_net (h : s.step a = some t) :
    t.net = s.net ∨ ∃ b, b.isTraffic ∧ s.net.step b = some t.net := by
  cases a with
  | copy n content =>
    -- a copy and a poll are local
    obtain rfl := Option.some.inj h
    exact .inl rfl
  | poll n =>
    obtain rfl := Option.some.inj h
    exact .inl rfl
  | produce n now =>
    simp only [step] at h
    split at h
    · cases h
    · obtain ⟨net, hnet, rfl⟩ := Option.map_eq_some_iff.1 h
      exact .inr ⟨_, rfl, hnet⟩
  | deliverUp k =>
    simp only [step, deliver] at h
    split at h
    · next hnet =>
      obtain rfl := Option.some.inj h
      exact .inr ⟨_, rfl, hnet⟩
    · cases h
  | deliverDown k =>
    simp only [step, deliver] at h
    split at h
    · next hnet =>
      obtain rfl := Option.some.inj h
      exact .inr ⟨_, rfl, hnet⟩
    · cases h
  | write n snap ok =>
    simp only [step] at h
    split_ifs at h
    all_goals
      obtain rfl := Option.some.inj h
      exact .inl rfl
  | relay p =>
    simp only [step] at h
    split_ifs at h
    obtain ⟨net, hnet, rfl⟩ := Option.map_eq_some_iff.1 h
    exact .inr ⟨_, rfl, hnet⟩

/-- The network inside is in a state of a run of the connected network, so what holds of that
network holds here. -/
theorem net_reach (h : (desktops κ).Reachable s) :
    (connectedHubSpoke κ).Reach (fun _ a => a.isTraffic) s.net := by
  induction h with
  | init hs => exact .init ⟨hs.fresh, hs.live⟩
  | step _ _ hstep ih =>
    rcases step_net hstep with hnet | ⟨b, htraffic, hnet⟩
    · rw [hnet]
      exact ih
    · exact ih.step htraffic hnet

/-- A step at the desktop of `n` that produces nothing and counts `typed` copies. -/
structure Local (s t : Desktops κ) (n : Option κ) (d : Desktop) (typed : ℕ) : Prop where
  /-- Only the desktop of `n` changes. -/
  desktop : t.desktop = Function.update s.desktop n d
  /-- Nothing is produced. -/
  made : t.made = s.made
  /-- No copy is made in the network. -/
  copies : t.net.copies = s.net.copies
  /-- The copies count. -/
  typed : t.typed = s.typed + typed

/-- A delivery in the network makes no copy. -/
theorem copies_of_step {net net' : HubSpoke κ} {b : HubSpokeLabel κ}
    (h : net.step b = some net') (hb : ∀ n now text, b ≠ .copy n now text) :
    net'.copies = net.copies := by
  rcases (HubSpoke.Move.of_step h).copies_eq with he | ⟨n, now, text, he⟩
  · exact he
  · exact absurd he (hb n now text)

/-- What a step does: the user copies, the watcher polls, a reported text is produced, or a desktop
takes a passive step. -/
theorem step_cases (h : s.step a = some t) :
    (∃ n content, a = .copy n content ∧
      Local s t n ((s.desktop n).copy content) content.toList.length) ∨
    (∃ n, a = .poll n ∧ Local s t n (s.desktop n).poll 0) ∨
    (∃ n now text source rest, a = .produce n now ∧
      (s.desktop n).reported = (text, source) :: rest ∧
      t.desktop = Function.update s.desktop n { s.desktop n with reported := rest } ∧
      t.made = s.made ++ [(n, text, source)] ∧
      t.net.copies = s.net.copies + 1 ∧ t.typed = s.typed) ∨
    ((∀ n, a ≠ .poll n) ∧ ∃ n d, (s.desktop n).Passive d ∧ Local s t n d 0) := by
  -- a desktop that handles a snapshot neither reports nor remembers a content
  have hpassive : ∀ n snap, (s.desktop n).Passive (s.handle n snap) := by
    intro n snap
    unfold handle
    split <;> exact ⟨rfl, rfl, .inl ⟨rfl, rfl⟩⟩
  cases a with
  | copy n content =>
    obtain rfl := Option.some.inj h
    exact .inl ⟨n, content, rfl, rfl, rfl, rfl, rfl⟩
  | poll n =>
    obtain rfl := Option.some.inj h
    exact .inr (.inl ⟨n, rfl, rfl, rfl, rfl, rfl⟩)
  | produce n now =>
    simp only [step] at h
    split at h
    · cases h
    · next text source rest hreported =>
      obtain ⟨net, hnet, rfl⟩ := Option.map_eq_some_iff.1 h
      obtain rfl := Option.some.inj hnet
      -- the oldest report becomes a copy of the network
      refine .inr (.inr (.inl ⟨n, now, text, source, rest, rfl, hreported, rfl, rfl, ?_, rfl⟩))
      cases n <;> rfl
  | deliverUp k =>
    simp only [step, deliver] at h
    split at h
    · next snap _ net _ hnet =>
      obtain rfl := Option.some.inj h
      exact .inr (.inr (.inr ⟨by simp, none, _, hpassive none snap, rfl, rfl,
        copies_of_step hnet (by simp), rfl⟩))
    · cases h
  | deliverDown k =>
    simp only [step, deliver] at h
    split at h
    · next snap _ net _ hnet =>
      obtain rfl := Option.some.inj h
      exact .inr (.inr (.inr ⟨by simp, some k, _, hpassive (some k) snap, rfl, rfl,
        copies_of_step hnet (by simp), rfl⟩))
    · cases h
  | write n snap ok =>
    simp only [step] at h
    split_ifs at h
    · obtain rfl := Option.some.inj h
      refine .inr (.inr (.inr ⟨by simp, n, _, ?_, rfl, rfl, rfl, rfl⟩))
      obtain ⟨hreported, hlast, hcontent⟩ := Desktop.passive_write
        { s.desktop n with pending := (s.desktop n).pending.erase snap } snap
      exact ⟨hreported, hlast, hcontent⟩
    · obtain rfl := Option.some.inj h
      exact .inr (.inr (.inr ⟨by simp, n,
        { s.desktop n with pending := (s.desktop n).pending.erase snap },
        ⟨rfl, rfl, .inl ⟨rfl, rfl⟩⟩, rfl, rfl, rfl, rfl⟩))
  | relay p =>
    simp only [step] at h
    split_ifs at h
    obtain ⟨net, hnet, rfl⟩ := Option.map_eq_some_iff.1 h
    exact .inr (.inr (.inr ⟨by simp, none, s.desktop none, ⟨rfl, rfl, .inl ⟨rfl, rfl⟩⟩,
      (Function.update_eq_self _ _).symm, rfl, copies_of_step hnet (by simp), rfl⟩))

/-! ## Echoes -/

/-- The guard of a poll: the watcher does not come upon a text that was written on behalf of
another node and that differs from its `last`. -/
def PollsOwn (s : Desktops κ) : DesktopLabel κ → Prop
  | .poll n => ¬ (s.desktop n).Echoes
  | _ => True

instance (s : Desktops κ) : (a : DesktopLabel κ) → Decidable (s.PollsOwn a)
  | .poll n => inferInstanceAs (Decidable (¬ (s.desktop n).Echoes))
  | .copy .. | .produce .. | .deliverUp _ | .deliverDown _ | .write .. | .relay _ => isTrue trivial

/-- Every text that was reported or produced was copied by the user. -/
structure EchoFree (s : Desktops κ) : Prop where
  /-- The texts to be produced. -/
  reported : ∀ n, ∀ r ∈ (s.desktop n).reported, r.2 = .user
  /-- The texts produced. -/
  made : ∀ e ∈ s.made, e.2.2 = .user

omit [DecidableEq κ] in
/-- A fresh network has no echoes. -/
theorem Start.echoFree (h : s.Start) : s.EchoFree := by
  refine ⟨fun n r hr => ?_, fun e he => ?_⟩
  · obtain ⟨content, hd⟩ := h.desktop n
    rw [hd] at hr
    cases hr
  · rw [h.made] at he
    cases he

/-- A desktop whose reported texts are the user's may change in a network without echoes. -/
theorem EchoFree.local {n : Option κ} {d : Desktop} {typed : ℕ} (h : s.EchoFree)
    (hlocal : Local s t n d typed) (hd : ∀ r ∈ d.reported, r.2 = .user) : t.EchoFree := by
  refine ⟨fun m r hr => ?_, hlocal.made ▸ h.made⟩
  rw [hlocal.desktop, Function.update_apply] at hr
  split_ifs at hr
  · exact hd r hr
  · exact h.reported m r hr

/-- A step keeps a network free of echoes if and only if it meets the guard. -/
theorem echoFree_step_iff (h : s.EchoFree) (hstep : s.step a = some t) :
    t.EchoFree ↔ s.PollsOwn a := by
  rcases step_cases hstep with ⟨n, content, rfl, hlocal⟩ | ⟨n, rfl, hlocal⟩ |
    ⟨n, now, text, source, rest, rfl, hreported, hdesktop, hmade, -, -⟩ |
    ⟨hpoll, n, d, hpassive, hlocal⟩
  · exact iff_of_true (h.local hlocal (h.reported n)) trivial
  · by_cases hr : (s.desktop n).Reports
    · -- the poll reports the content with its source, and nothing else changes
      obtain ⟨text, -, hp⟩ := Desktop.poll_of_reports hr
      rw [hp] at hlocal
      constructor
      · intro ht hecho
        have hlast := ht.reported n (text, (s.desktop n).source) (by rw [hlocal.desktop]; simp)
        rw [hecho.1] at hlast
        cases hlast
      · intro hown
        refine h.local hlocal fun r hmem => ?_
        rcases List.mem_append.1 hmem with hmem | hmem
        · exact h.reported n r hmem
        · obtain rfl := List.mem_singleton.1 hmem
          cases hs : (s.desktop n).source with
          | user => rfl
          | remote => exact absurd ⟨hs, hr⟩ hown
    · rw [Desktop.poll_of_not_reports hr] at hlocal
      exact iff_of_true (h.local hlocal (h.reported n)) fun hecho => hr hecho.2
  · -- the produced text was among the reported ones
    refine iff_of_true ⟨fun m r hr => ?_, fun e he => ?_⟩ trivial
    · rw [hdesktop, Function.update_apply] at hr
      split_ifs at hr with hm
      · exact h.reported n r (by rw [hreported]; exact List.mem_cons_of_mem _ hr)
      · exact h.reported m r hr
    · rw [hmade, List.mem_append] at he
      rcases he with he | he
      · exact h.made e he
      · obtain rfl := List.mem_singleton.1 he
        exact h.reported n _ (by rw [hreported]; exact List.mem_cons_self)
  · refine iff_of_true (h.local hlocal ?_) ?_
    · rw [hpassive.reported]
      exact h.reported n
    · cases a with
      | poll m => exact absurd rfl (hpoll m)
      | _ => exact trivial

/-! ## Counting -/

/-- The snapshots produced, and those that are still to come from what users have copied, are
within the number of copies. -/
def Counted [Fintype κ] (s : Desktops κ) : Prop :=
  s.net.copies + ∑ n, (s.desktop n).backlog ≤ s.typed

/-- A desktop may change as long as what is produced and what is still to come stays within the
copies. -/
theorem Counted.update [Fintype κ] {n : Option κ} {d : Desktop} (h : s.Counted)
    (hdesktop : t.desktop = Function.update s.desktop n d)
    (hle : t.net.copies + d.backlog + s.typed ≤
      s.net.copies + (s.desktop n).backlog + t.typed) : t.Counted := by
  -- the sums differ in the term of `n` only
  have hs := Finset.add_sum_erase Finset.univ (fun m => (s.desktop m).backlog) (Finset.mem_univ n)
  have ht := Finset.add_sum_erase Finset.univ (fun m => (t.desktop m).backlog) (Finset.mem_univ n)
  have hrest : ∑ m ∈ Finset.univ.erase n, (t.desktop m).backlog =
      ∑ m ∈ Finset.univ.erase n, (s.desktop m).backlog := by
    refine Finset.sum_congr rfl fun m hm => ?_
    rw [hdesktop, Function.update_of_ne (Finset.ne_of_mem_erase hm)]
  have hn : (t.desktop n).backlog = d.backlog := by rw [hdesktop, Function.update_self]
  simp only [hn] at ht
  unfold Counted at h ⊢
  omega

/-- A guarded step keeps the count. -/
theorem Counted.step [Fintype κ] (h : s.Counted) (hguard : s.PollsOwn a)
    (hstep : s.step a = some t) : t.Counted := by
  rcases step_cases hstep with ⟨n, content, rfl, hlocal⟩ | ⟨n, rfl, hlocal⟩ |
    ⟨n, now, text, source, rest, rfl, hreported, hdesktop, -, hcopies, htyped⟩ |
    ⟨-, n, d, hpassive, hlocal⟩
  · have hle := (s.desktop n).backlog_copy_le content
    refine h.update hlocal.desktop ?_
    rw [hlocal.copies, hlocal.typed]
    omega
  · refine h.update hlocal.desktop ?_
    rw [hlocal.copies, hlocal.typed, Desktop.backlog_poll hguard]
    omega
  · refine h.update hdesktop ?_
    have hbacklog := Desktop.backlog_of_cons hreported
    dsimp only at hbacklog ⊢
    omega
  · have hle := hpassive.backlog_le
    refine h.update hlocal.desktop ?_
    rw [hlocal.copies, hlocal.typed]
    omega

omit [DecidableEq κ] in
/-- A fresh network is counted. -/
theorem Start.counted [Fintype κ] (h : s.Start) : s.Counted := by
  have hzero : ∀ n, (s.desktop n).backlog = 0 := by
    intro n
    obtain ⟨content, hd⟩ := h.desktop n
    rw [hd]
    unfold Desktop.backlog
    rw [if_neg fun hr => hr.2.2 rfl]
    rfl
  unfold Counted
  simp only [hzero, Finset.sum_const_zero, h.fresh.copies]
  omega

end Desktops

open Desktops

/-- The sync loop is free of echoes in every run in which no watcher polls a text that was written
on behalf of another node and that differs from its `last`: every snapshot produced is of a text
that the user copied, and there are at most as many snapshots as copies. A run is free of echoes
exactly when all of its polls are such. -/
theorem sync_echo_free (κ : Type*) [DecidableEq κ] [Fintype κ] :
    (∀ s : Desktops κ, (desktops κ).Reach PollsOwn s →
      (∀ e ∈ s.made, e.2.2 = .user) ∧ s.net.copies ≤ s.typed) ∧
    (∀ s : Desktops κ, (desktops κ).init s → ∀ as,
      (∀ p ∈ (desktops κ).steps s as, EchoFree p.2.2) ↔
        ∀ p ∈ (desktops κ).steps s as, PollsOwn p.1 p.2.1) := by
  refine ⟨fun s hs => ?_, fun s hs as => ?_⟩
  · have hinv : s.EchoFree ∧ s.Counted := by
      refine hs.invariant (I := fun s => s.EchoFree ∧ s.Counted) (fun s hs => ?_)
        fun s a t hs hguard hstep => ?_
      · exact ⟨Start.echoFree hs, Start.counted hs⟩
      · exact ⟨(echoFree_step_iff hs.1 hstep).2 hguard, hs.2.step hguard hstep⟩
    obtain ⟨hecho, hcount⟩ := hinv
    exact ⟨hecho.made, (Nat.le_add_right _ _).trans hcount⟩
  · refine System.steps_invariant_iff (I := EchoFree) (P := PollsOwn) ?_ (Start.echoFree hs) as
    exact fun s a t hs hstep => echoFree_step_iff hs hstep

section Example

/-- Two spokes at a fresh hub, with nothing on any clipboard. -/
def twoDesktops : Desktops Bool := ⟨twoSpokes, fun _ => .watch none, [], 0⟩

/-- `twoDesktops` is the start of a run. -/
theorem twoDesktops_start : twoDesktops.Start where
  fresh := twoSpokes_fresh
  live _ := rfl
  desktop _ := ⟨none, rfl⟩
  made := rfl
  typed := rfl

/-- The user of `false` copies, and the hub applies the copy and writes it. -/
def writtenRun : List (DesktopLabel Bool) :=
  [.copy (some false) (some "hi"), .poll (some false), .produce (some false) 0, .deliverUp false,
    .write none (twoSpokes.nextCopy (some false) 0 "hi") true, .poll (some false)]

/-- In `writtenRun` no watcher polls what is not its user's, and its one snapshot is the user's. -/
theorem sync_echo_free_writtenRun :
    (∃ s : Desktops Bool, s.made = [(some false, "hi", .user)] ∧ s.net.copies ≤ s.typed) ∧
    ∀ p ∈ (desktops Bool).steps twoDesktops writtenRun, EchoFree p.2.2 := by
  obtain ⟨hguarded, hexact⟩ := sync_echo_free Bool
  have hown : ∀ p ∈ (desktops Bool).steps twoDesktops writtenRun, PollsOwn p.1 p.2.1 := by
    decide +kernel
  obtain ⟨s, hs, hmade⟩ : ∃ s, (desktops Bool).Reach PollsOwn s ∧
      s.made = [(some false, "hi", .user)] :=
    System.exists_reach_of_run twoDesktops_start writtenRun hown (by decide +kernel)
  exact ⟨⟨s, hmade, (hguarded s hs).2⟩, (hexact twoDesktops twoDesktops_start writtenRun).2 hown⟩

/-- The hub's watcher polls what the hub has written, and the hub announces it as its own. -/
def echoRun : List (DesktopLabel Bool) := writtenRun ++ [.poll none, .produce none 0]

/-- A remote write is announced again: in `echoRun` one copy of a user makes two snapshots. -/
theorem remote_write_echoes : ¬ ∀ s : Desktops Bool, (desktops Bool).Reachable s →
    (∀ e ∈ s.made, e.2.2 = .user) ∧ s.net.copies ≤ s.typed := by
  intro hall
  obtain ⟨s, hs, hcopies, htyped⟩ : ∃ s, (desktops Bool).Reachable s ∧ s.net.copies = 2 ∧
      s.typed = 1 :=
    System.exists_reach_of_run twoDesktops_start echoRun (fun _ _ => trivial) (by decide +kernel)
  have hle := (hall s hs).2
  omega

end Example

end Borderless.Network
