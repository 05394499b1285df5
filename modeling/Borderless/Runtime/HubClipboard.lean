import Borderless.Runtime.Server

/-!
# The hub's OS clipboard

A reader task decides on a snapshot under the engine's lock, and writes it to the OS clipboard after
the lock is gone. Between the two steps other readers may decide and write. `hub_clipboard_newest`
says when the clipboard still shows the newest accepted snapshot once all readers have written: when
no reader writes an older text after the newest snapshot has been written (`Hub.WritesNewest`).
`hub_clipboard_stale` is a run in which a reader does.
-/

namespace Borderless.Runtime

open Borderless.Clipboard Transition

/-- The steps of a run without local copies, in which the spokes send text snapshots and the backend
of the OS clipboard does not fail. -/
def ReaderStep : HubLabel → Prop
  | .produce .. => False
  | .recv _ (.clipboard snap) => snap.plainText.isSome
  | .write _ ok => ok = true
  | _ => True

namespace Hub

/-- How far the readers are. -/
def readers (s : Hub) : List Reader := s.sessions.map Session.reader

/-- The snapshot has been accepted, and a reader is still to write it. -/
def Pending (s : Hub) (snap : ClipboardSnapshot) : Prop := .writing snap ∈ s.readers

/-- Once all readers have written what they have accepted, and one has accepted something since the
clock was at `c₀`, the OS clipboard holds the text of the last snapshot of the history. -/
def ShowsNewest (c₀ : ℕ) (s : Hub) : Prop :=
  (∀ snap, ¬ s.Pending snap) → c₀ < s.engine.clock →
    ∃ newest, s.engine.newest = some newest ∧ s.clipboard = newest.plainText

/-- A reader that writes a snapshot writes the text of the newest one, or the newest one is still to
be written. -/
def WritesNewest (s : Hub) : HubLabel → Prop
  | .write i _ => ∀ snap newest, s.readers[i]? = some (.writing snap) →
    s.engine.newest = some newest → snap.plainText = newest.plainText ∨ s.Pending newest
  | _ => True

/-- Since the clock was at `c₀`, the newest accepted snapshot is on the OS clipboard, or a reader is
still to write it. -/
def Synced (c₀ : ℕ) (s : Hub) : Prop :=
  c₀ < s.engine.clock → ∃ newest, s.engine.newest = some newest ∧
    (s.clipboard = newest.plainText ∨ s.Pending newest)

/-- What is accepted since the clock was at `c₀` has a text. -/
structure TextOnly (c₀ : ℕ) (s : Hub) : Prop where
  /-- The clock does not go back. -/
  clock_le : c₀ ≤ s.engine.clock
  /-- What is still to be written was accepted since, and has a text. -/
  pending : ∀ snap, s.Pending snap → c₀ < s.engine.clock ∧ snap.plainText.isSome
  /-- The newest snapshot is there. -/
  newest : c₀ < s.engine.clock → ∃ newest, s.engine.newest = some newest

/-! ## What a step does to the readers and the clipboard -/

/-- What the two steps of a reader read and write. -/
def view (s : Hub) : Engine × Option String × List Reader := (s.engine, s.clipboard, s.readers)

/-- Changing a session without its reader leaves the view alone. -/
theorem view_modify (s : Hub) (i : ℕ) {f : Session → Session}
    (h : ∀ x, (f x).reader = x.reader) :
    { s with sessions := s.sessions.modify i f : Hub }.view = s.view := by
  have hreaders : (s.sessions.modify i f).map Session.reader = s.sessions.map Session.reader := by
    refine List.ext_getElem? fun j => ?_
    simp only [List.getElem?_map, List.getElem?_modify, Option.map_eq_map, Option.map_map]
    refine Option.map_congr fun x _ => ?_
    simp only [Function.comp_apply]
    split_ifs
    · exact h x
    · rfl
  unfold view readers
  rw [hreaders]

/-- A message leaves the view alone. -/
theorem view_send (s : Hub) (i : ℕ) (frame : WireFrame) : (s.send i frame).view = s.view := by
  refine s.view_modify i fun x => ?_
  split_ifs <;> rfl

/-- A reader that moves on shows in the list of readers. -/
theorem readers_setReader (s : Hub) (i : ℕ) (reader : Reader) :
    (s.setReader i reader).readers = s.readers.set i reader := by
  unfold setReader readers
  refine List.ext_getElem? fun j => ?_
  simp only [List.getElem?_map, List.getElem?_modify, List.getElem?_set, List.length_map]
  by_cases hij : i = j
  · subst hij
    by_cases hi : i < s.sessions.length
    · simp [hi]
    · simp [hi]
  · simp [hij]

/-- A session's reader is in the list of readers. -/
theorem readers_getElem? {s : Hub} {i : ℕ} {x : Session} {reader : Reader}
    (h : s.sessions[i]? = some x) (hreader : x.reader = reader) :
    s.readers[i]? = some reader := by
  unfold readers
  rw [List.getElem?_map, h, Option.map_some, hreader]

/-- Replacing an entry of a list changes the membership of the old and the new one only. -/
theorem mem_set_iff_of_ne {α : Type*} {l : List α} {i : ℕ} {old new y : α} (h : l[i]? = some old)
    (hold : old ≠ y) (hnew : new ≠ y) : y ∈ l.set i new ↔ y ∈ l := by
  constructor
  · intro hmem
    rcases List.mem_or_eq_of_mem_set hmem with hleft | heq
    · exact hleft
    · exact absurd heq.symm hnew
  · intro hmem
    obtain ⟨k, hk⟩ := List.mem_iff_getElem?.1 hmem
    refine List.mem_iff_getElem?.2 ⟨k, ?_⟩
    have hne : i ≠ k := by
      rintro rfl
      exact hold (Option.some.inj (h.symm.trans hk))
    rw [List.getElem?_set_ne hne, hk]

/-- A reader that moves on without beginning or ending a write leaves the pending snapshots alone. -/
theorem pending_setReader {s : Hub} {i : ℕ} {old new : Reader} (h : s.readers[i]? = some old)
    (hold : ∀ snap, old ≠ .writing snap) (hnew : ∀ snap, new ≠ .writing snap)
    (snap : ClipboardSnapshot) : (s.setReader i new).Pending snap ↔ s.Pending snap := by
  unfold Pending
  rw [readers_setReader]
  exact mem_set_iff_of_ne h (hold snap) (hnew snap)

/-- The engine, the clipboard and the pending snapshots are as before. -/
def SameClipboard (s t : Hub) : Prop :=
  t.engine = s.engine ∧ t.clipboard = s.clipboard ∧ ∀ snap, t.Pending snap ↔ s.Pending snap

/-- The same view shows the same. -/
theorem sameClipboard_of_view {s t : Hub} (h : t.view = s.view) : s.SameClipboard t := by
  obtain ⟨hengine, hrest⟩ := Prod.mk.inj h
  obtain ⟨hclipboard, hreaders⟩ := Prod.mk.inj hrest
  refine ⟨hengine, hclipboard, fun snap => ?_⟩
  unfold Pending
  rw [hreaders]

/-- What a step of the readers does: a reader accepts a snapshot, or writes one, or the clipboard
and what is to come to it stay as they are. -/
theorem clipboard_step {s t : Hub} {a : HubLabel} (ha : ReaderStep a) (h : s.step a = some t) :
    (∃ i snap, a = .recv i (.clipboard snap) ∧ snap.plainText.isSome ∧ s.engine.Accepts snap ∧
      s.readers[i]? = some .reading ∧ t.engine = s.engine.advance snap ∧
      t.clipboard = s.clipboard ∧ t.readers = s.readers.set i (.writing snap)) ∨
    (∃ i snap, a = .write i true ∧ s.readers[i]? = some (.writing snap) ∧ t.engine = s.engine ∧
      t.clipboard = (snap.plainText <|> s.clipboard) ∧
      t.readers = s.readers.set i (.relaying snap)) ∨
    ((∀ i ok, a ≠ .write i ok) ∧ s.SameClipboard t) := by
  cases a with
  | accept peer =>
    refine .inr (.inr ⟨by simp, ?_⟩)
    obtain rfl := Option.some.inj h
    refine ⟨rfl, rfl, fun snap => ?_⟩
    simp [Pending, readers]
  | recv i frame =>
    obtain ⟨x, hx, hreader, rfl⟩ := step_recv h
    have hread := readers_getElem? hx hreader
    cases frame with
    | clipboard snap =>
      unfold handleFrame
      simp only [Engine.observeRemote_eq]
      -- an ignored snapshot changes nothing
      by_cases haccepts : s.engine.Accepts snap
      · rw [if_pos haccepts]
        exact .inl ⟨i, snap, rfl, ha, haccepts, hread, rfl, rfl, readers_setReader _ _ _⟩
      · rw [if_neg haccepts]
        exact .inr (.inr ⟨by simp, sameClipboard_of_view rfl⟩)
    | fetchRequest hash =>
      refine .inr (.inr ⟨by simp, sameClipboard_of_view ?_⟩)
      unfold handleFrame
      simp only
      split
      · exact reply_proj view_send s _ _
      · exact reply_proj view_send s _ _
    | _ => exact .inr (.inr ⟨by simp, sameClipboard_of_view rfl⟩)
  | write i ok =>
    obtain ⟨x, snap, hx, hreader, rfl⟩ := step_write h
    obtain rfl : ok = true := ha
    have hread := readers_getElem? hx hreader
    exact .inr (.inl ⟨i, snap, rfl, hread, rfl, rfl, readers_setReader _ _ _⟩)
  | relay i =>
    refine .inr (.inr ⟨by simp, ?_⟩)
    obtain ⟨x, snap, hx, hreader, rfl⟩ := step_relay h
    have hview := broadcastToAll_proj view_send s (.clipboard snap) (some x.peer)
    obtain ⟨hengine, hclipboard, hpending⟩ := sameClipboard_of_view hview
    have hread := readers_getElem? hx hreader
    -- the broadcast only fills channels
    rw [← (Prod.mk.inj (Prod.mk.inj hview).2).2] at hread
    have hreading : ∀ snap', Reader.reading ≠ .writing snap' := nofun
    exact ⟨hengine, hclipboard, fun snap' =>
      (pending_setReader hread nofun hreading snap').trans (hpending snap')⟩
  | readError i =>
    refine .inr (.inr ⟨by simp, ?_⟩)
    obtain ⟨x, hx, hreader, rfl⟩ := step_readError h
    have hread := readers_getElem? hx hreader
    exact ⟨rfl, rfl, pending_setReader hread nofun nofun⟩
  | cleanup i =>
    refine .inr (.inr ⟨by simp, ?_⟩)
    obtain ⟨x, hx, hreader, rfl⟩ := step_cleanup h
    have hread := readers_getElem? hx hreader
    exact ⟨rfl, rfl, pending_setReader (s := { s with writers := s.writers.erase x.peer }) hread
      nofun nofun⟩
  | writerSend i =>
    refine .inr (.inr ⟨by simp, ?_⟩)
    -- the writers do not show in the view
    obtain ⟨x, frame, queue, -, -, rfl⟩ := step_writerSend h
    exact sameClipboard_of_view (s.view_modify i fun _ => rfl)
  | writerFail i =>
    refine .inr (.inr ⟨by simp, ?_⟩)
    obtain ⟨x, -, rfl⟩ := step_writerFail h
    exact sameClipboard_of_view (s.view_modify i fun _ => rfl)
  | writerEnd i =>
    refine .inr (.inr ⟨by simp, ?_⟩)
    obtain rfl := step_writerEnd h
    exact sameClipboard_of_view (s.view_modify i fun _ => rfl)
  | produce now text => exact ha.elim
  | broadcastLocal =>
    refine .inr (.inr ⟨by simp, ?_⟩)
    obtain ⟨frame, rest, -, rfl⟩ := step_broadcastLocal h
    exact sameClipboard_of_view
      (broadcastToAll_proj view_send { s with localFrames := rest } frame none)
  | capture event =>
    obtain rfl := Option.some.inj h
    exact .inr (.inr ⟨by simp, sameClipboard_of_view rfl⟩)
  | broadcastInput =>
    refine .inr (.inr ⟨by simp, ?_⟩)
    obtain ⟨event, rest, -, rfl⟩ := step_broadcastInput h
    exact sameClipboard_of_view
      (broadcastToAll_proj view_send { s with captured := rest } (.input event) none)

/-! ## The newest snapshot -/

variable {c₀ : ℕ} {s t : Hub} {a : HubLabel}

/-- The steps of the readers keep to text snapshots. -/
theorem textOnly_step (h : TextOnly c₀ s) (ha : ReaderStep a) (hstep : s.step a = some t) :
    TextOnly c₀ t := by
  rcases clipboard_step ha hstep with ⟨i, snap, -, htext, haccepts, -, hengine, -, hreaders⟩ |
    ⟨i, snap, -, -, hengine, -, hreaders⟩ | ⟨-, hengine, -, hpending⟩
  · -- the clock goes up to the version of the new snapshot
    have hlt : c₀ < t.engine.clock := by
      rw [hengine, Engine.clock_advance]
      exact lt_of_le_of_lt h.clock_le haccepts.2
    constructor
    · exact hlt.le
    · intro snap' hpending
      refine ⟨hlt, ?_⟩
      unfold Pending at hpending
      rw [hreaders] at hpending
      rcases List.mem_or_eq_of_mem_set hpending with hold | hnew
      · exact (h.pending snap' hold).2
      · rw [Reader.writing.inj hnew]
        exact htext
    · intro _
      exact ⟨snap, by rw [hengine, Engine.newest_advance]⟩
  · constructor
    · rw [hengine]
      exact h.clock_le
    · intro snap' hpending
      unfold Pending at hpending
      rw [hreaders] at hpending
      rw [hengine]
      rcases List.mem_or_eq_of_mem_set hpending with hold | hnew
      · exact h.pending snap' hold
      · cases hnew
    · rw [hengine]
      exact h.newest
  · constructor
    · rw [hengine]
      exact h.clock_le
    · intro snap' hsnap'
      rw [hengine]
      exact h.pending snap' ((hpending snap').1 hsnap')
    · rw [hengine]
      exact h.newest

/-- A step of the readers keeps the newest snapshot on the clipboard, or still to come to it, exactly
when it meets the guard. -/
theorem synced_step_iff (h : TextOnly c₀ s) (hsynced : Synced c₀ s) (ha : ReaderStep a)
    (hstep : s.step a = some t) : Synced c₀ t ↔ s.WritesNewest a := by
  rcases clipboard_step ha hstep with ⟨i, snap, rfl, -, -, hread, hengine, -, hreaders⟩ |
    ⟨i, snap, rfl, hread, hengine, hclipboard, hreaders⟩ | ⟨hnot, hengine, hclipboard, hpending⟩
  · -- the accepted snapshot is the newest, and is to be written
    refine iff_of_true (fun _ => ⟨snap, ?_, .inr ?_⟩) trivial
    · rw [hengine, Engine.newest_advance]
    · unfold Pending
      rw [hreaders]
      exact List.mem_set (List.getElem?_eq_some_iff.1 hread).1 _
  · have hwriting : s.Pending snap := List.mem_of_getElem? hread
    obtain ⟨hclock, htext⟩ := h.pending snap hwriting
    obtain ⟨newest, hnewest⟩ := h.newest hclock
    obtain ⟨text, hsnap⟩ := Option.isSome_iff_exists.1 htext
    have hwritten : t.clipboard = snap.plainText := by
      rw [hclipboard, hsnap]
      rfl
    -- what stays pending after the write
    have hstill : ∀ snap', t.Pending snap' → s.Pending snap' := by
      intro snap' hpending
      unfold Pending at hpending
      rw [hreaders] at hpending
      rcases List.mem_or_eq_of_mem_set hpending with hold | hnew
      · exact hold
      · cases hnew
    constructor
    · intro hsynced' snap' newest' hread' hnewest'
      obtain rfl := Reader.writing.inj (Option.some.inj (hread'.symm.trans hread))
      obtain ⟨newest'', hnewest'', hshown⟩ := hsynced' (hengine ▸ hclock)
      rw [hengine, hnewest'] at hnewest''
      obtain rfl := Option.some.inj hnewest''
      rcases hshown with hshown | hpending
      · exact .inl (hwritten.symm.trans hshown)
      · exact .inr (hstill _ hpending)
    · intro hguard _
      refine ⟨newest, by rw [hengine, hnewest], ?_⟩
      rcases hguard snap newest hread hnewest with hsame | hpending
      · exact .inl (hwritten.trans hsame)
      · by_cases heq : snap = newest
        · left
          rw [hwritten, heq]
        · right
          have hrelaying : Reader.relaying snap ≠ .writing newest := nofun
          unfold Pending
          rw [hreaders]
          exact (mem_set_iff_of_ne hread (fun h => heq (Reader.writing.inj h)) hrelaying).2 hpending
  · have hguard : s.WritesNewest a := by
      cases a with
      | write i ok => exact absurd rfl (hnot i ok)
      | _ => trivial
    refine iff_of_true (fun hclock => ?_) hguard
    rw [hengine] at hclock
    obtain ⟨newest, hnewest, hshown⟩ := hsynced hclock
    refine ⟨newest, by rw [hengine, hnewest], ?_⟩
    rw [hclipboard, hpending]
    exact hshown

end Hub

open Hub

/-- The OS clipboard of the hub. Readers handle text snapshots, in any interleaving and without a
local copy in between, from a state in which none of them is about to write. If no reader writes an
older text after the newest snapshot has been written, then whenever all of them have written, the
clipboard holds the text of the last snapshot of the history. A run keeps to this exactly when at any
time the newest snapshot is on the clipboard or still to be written. -/
theorem hub_clipboard_newest (s : Hub) (hquiet : ∀ snap, ¬ s.Pending snap) (as : List HubLabel)
    (hreaders : ∀ a ∈ as, ReaderStep a) :
    ((∀ p ∈ hub.steps s as, p.1.WritesNewest p.2.1) →
      ∀ p ∈ hub.steps s as, p.2.2.ShowsNewest s.engine.clock) ∧
    ((∀ p ∈ hub.steps s as, p.2.2.Synced s.engine.clock) ↔
      ∀ p ∈ hub.steps s as, p.1.WritesNewest p.2.1) := by
  have hiff : (∀ p ∈ hub.steps s as, p.2.2.Synced s.engine.clock) ↔
      ∀ p ∈ hub.steps s as, p.1.WritesNewest p.2.1 := by
    refine System.steps_forall_iff
      (I := fun t => TextOnly s.engine.clock t ∧ Synced s.engine.clock t)
      (Q := fun _ _ t => t.Synced s.engine.clock) (fun a ha u v hu hstep => ?_)
      (fun a ha u v hu hstep hguard => ?_) ⟨?_, fun hlt => absurd hlt (lt_irrefl _)⟩
    · exact synced_step_iff hu.1 hu.2 (hreaders a ha) hstep
    · exact ⟨textOnly_step hu.1 (hreaders a ha) hstep,
        (synced_step_iff hu.1 hu.2 (hreaders a ha) hstep).2 hguard⟩
    · exact ⟨le_rfl, fun snap hsnap => absurd hsnap (hquiet snap),
        fun hlt => absurd hlt (lt_irrefl _)⟩
  refine ⟨fun hguard p hp hdone hclock => ?_, hiff⟩
  obtain ⟨newest, hnewest, hshown⟩ := hiff.2 hguard p hp hclock
  exact ⟨newest, hnewest, hshown.resolve_right (hdone newest)⟩

section Example

instance : DecidablePred ReaderStep
  | .produce .. => .isFalse id
  | .recv _ (.clipboard snap) => inferInstanceAs (Decidable (snap.plainText.isSome = true))
  | .write _ ok => inferInstanceAs (Decidable (ok = true))
  | .recv _ (.control _) | .recv _ (.input _) | .recv _ (.fetchRequest _)
  | .recv _ (.fetchResponse ..) | .recv _ (.fetchMiss _) | .accept _ | .relay _ | .readError _
  | .cleanup _ | .writerSend _ | .writerFail _ | .writerEnd _ | .broadcastLocal | .capture _
  | .broadcastInput => .isTrue trivial

instance (s : Hub) (snap : ClipboardSnapshot) : Decidable (s.Pending snap) :=
  inferInstanceAs (Decidable (_ ∈ _))

/-- The snapshot that a reader is to write. -/
def Reader.toWrite : Reader → Option ClipboardSnapshot
  | .writing snap => some snap
  | .reading | .relaying _ | .ended | .closed => none

instance (s : Hub) : DecidablePred s.WritesNewest
  | .write i _ =>
    decidable_of_iff (∀ r ∈ s.readers[i]?, ∀ snap ∈ r.toWrite, ∀ newest ∈ s.engine.newest,
        snap.plainText = newest.plainText ∨ s.Pending newest)
      ⟨fun h snap newest hread hnewest => h _ hread snap rfl newest hnewest,
        fun h r hread snap hsnap newest hnewest => by
          cases r <;> cases hsnap
          exact h snap newest hread hnewest⟩
  | .accept _ | .recv .. | .relay _ | .readError _ | .cleanup _ | .writerSend _ | .writerFail _
  | .writerEnd _ | .produce .. | .broadcastLocal | .capture _ | .broadcastInput => .isTrue trivial

/-- Another spoke. -/
def secondSpokeId : NodeId := ⟨.replicate 16 2⟩

/-- Two spokes are connected, and each sends a text. -/
def twoTexts : List HubLabel :=
  [.accept spokeId, .accept secondSpokeId,
    .recv 0 (.clipboard ⟨1, spokeId, 0, [.text "a"]⟩),
    .recv 1 (.clipboard ⟨2, secondSpokeId, 0, [.text "b"]⟩)]

/-- The readers write in the order of the versions. -/
def inOrderRun : List HubLabel := twoTexts ++ [.write 0 true, .write 1 true, .relay 0, .relay 1]

/-- The reader of the older text writes last. -/
def staleRun : List HubLabel := twoTexts ++ [.write 1 true, .write 0 true, .relay 0, .relay 1]

/-- A fresh hub has no reader. -/
theorem freshHub_quiet (snap : ClipboardSnapshot) : ¬ freshHub.Pending snap := List.not_mem_nil

/-- In `inOrderRun`, which runs to its end, the newest snapshot is shown. -/
theorem hub_clipboard_newest_inOrderRun :
    (hub.steps freshHub inOrderRun).length = inOrderRun.length ∧
      ∀ p ∈ hub.steps freshHub inOrderRun, p.2.2.ShowsNewest 0 :=
  ⟨by decide +kernel,
    (hub_clipboard_newest freshHub freshHub_quiet inOrderRun (by decide +kernel)).1
      (by decide +kernel)⟩

/-- In `staleRun` the older text stays on the clipboard. -/
theorem hub_clipboard_stale :
    ¬ ∀ (s : Hub), (∀ snap, ¬ s.Pending snap) → ∀ as : List HubLabel, (∀ a ∈ as, ReaderStep a) →
      ∀ p ∈ hub.steps s as, p.2.2.ShowsNewest s.engine.clock := by
  intro h
  have hstale : ∃ p ∈ hub.steps freshHub staleRun, (∀ r ∈ p.2.2.readers, r = .reading) ∧
      0 < p.2.2.engine.clock ∧
      p.2.2.clipboard ≠ p.2.2.engine.newest.bind ClipboardSnapshot.plainText := by
    decide +kernel
  obtain ⟨p, hp, hidle, hclock, hne⟩ := hstale
  obtain ⟨newest, hnewest, hshown⟩ := h freshHub freshHub_quiet staleRun (by decide +kernel) p hp
    (fun snap hpending => nomatch hidle _ hpending) hclock
  rw [hnewest] at hne
  exact hne hshown

end Example

end Borderless.Runtime
