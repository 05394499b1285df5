import Borderless.Network.Echo
import Borderless.Network.Traffic

/-!
# A copy reaches every clipboard

What a user copies on one node is what the users of all nodes paste once nothing is on its way,
although watchers announce again what they have not copied (`remote_write_echoes`). With every spoke
connected, and when each copy waits until the last one has settled, all that is on its way at any
time carries one text, the last one copied: an echo is of this text too, and each watcher makes one
at most. So the counters, which at quiescence are equal, belong to snapshots of this text
(`Spreading`). A measure of what is left to do, with what each watcher may still announce, falls with
each step (`rank`), and pays for the number of snapshots, so that the counters do not wrap.

A clipboard need not work, such as that of a hub without a display. It is left out of what is said
here, and the other nodes do not depend on it.
-/

namespace Borderless.Network

open Borderless.Clipboard Transition Finset

namespace HubSpoke

variable {κ : Type*} [DecidableEq κ] {s t : HubSpoke κ} {a : HubSpokeLabel κ}

/-! ## The network below the desktops -/

/-- The snapshot is in flight. -/
def InFlight (s : HubSpoke κ) (snap : ClipboardSnapshot) : Prop :=
  (∃ k, snap ∈ s.up k) ∨ (∃ p ∈ s.relaying, p.2 = snap) ∨ ∃ k, snap ∈ s.down k

/-- What is in flight was so before, or it is a copy. -/
theorem Move.inFlight (h : s.Move a t) {snap : ClipboardSnapshot} (ht : t.InFlight snap) :
    s.InFlight snap ∨ ∃ n now text, a = .copy n now text ∧ snap = s.nextCopy n now text := by
  rcases ht with ⟨k, hm⟩ | ⟨p, hp, rfl⟩ | ⟨k, hm⟩
  · rcases h.mem_up hm with hm | hcopy
    · exact .inl (.inl ⟨k, hm⟩)
    · exact .inr ⟨some k, hcopy⟩
  · rcases h.mem_relaying hp with hp | ⟨hm, -⟩
    · exact .inl (.inr (.inl ⟨p, hp, rfl⟩))
    · exact .inl (.inl ⟨p.1, hm⟩)
  · rcases h.mem_down hm with hm | hcopy | ⟨j, -, hp⟩
    · exact .inl (.inr (.inr ⟨k, hm⟩))
    · exact .inr ⟨none, hcopy⟩
    · exact .inl (.inr (.inl ⟨_, hp, rfl⟩))

omit [DecidableEq κ] in
/-- At quiescence nothing is in flight. -/
theorem Quiescent.not_inFlight (h : s.Quiescent) (snap : ClipboardSnapshot) :
    ¬ s.InFlight snap := by
  rintro (⟨k, hm⟩ | ⟨p, hp, -⟩ | ⟨k, hm⟩)
  · exact h.not_mem_up hm
  · exact h.not_mem_relaying hp
  · exact h.not_mem_down hm

/-- A delivery by the hub's reader of `k` advances the hub, and only if it accepts the frame. -/
theorem Move.clock_deliverUp {k : κ} {snap : ClipboardSnapshot} {rest : List ClipboardSnapshot}
    (h : s.Move (.deliverUp k) t) (hup : s.up k = snap :: rest) (m : Option κ) :
    t.clock m = s.clock m ∨ m = none ∧ (s.engine none).Accepts snap := by
  cases h with
  | applyUp hup' hacc =>
    rw [hup'] at hup
    obtain ⟨rfl, -⟩ := List.cons.inj hup
    by_cases hm : m = none
    · exact .inr ⟨hm, hacc⟩
    · exact .inl (by simp [clock, Function.update_of_ne hm])
  | ignoreUp _ _ => exact .inl rfl

/-- A delivery by the reader of `k` advances `k`, and only if it accepts the frame. -/
theorem Move.clock_deliverDown {k : κ} {snap : ClipboardSnapshot} {rest : List ClipboardSnapshot}
    (h : s.Move (.deliverDown k) t) (hdown : s.down k = snap :: rest) (m : Option κ) :
    t.clock m = s.clock m ∨ m = some k ∧ (s.engine (some k)).Accepts snap := by
  cases h with
  | applyDown hdown' hacc =>
    rw [hdown'] at hdown
    obtain ⟨rfl, -⟩ := List.cons.inj hdown
    by_cases hm : m = some k
    · exact .inr ⟨hm, hacc⟩
    · exact .inl (by simp [clock, Function.update_of_ne hm])
  | ignoreDown _ _ => exact .inl rfl

/-- A copy advances its node only. -/
theorem Move.clock_copy_ne {n m : Option κ} {now : UInt64} {text : String}
    (h : s.Move (.copy n now text) t) (hm : m ≠ n) : t.clock m = s.clock m := by
  cases h <;> simp [clock, broadcast, send, Function.update_of_ne hm]

/-- A broadcast advances nobody. -/
theorem Move.clock_relay {p : κ × ClipboardSnapshot} (h : s.Move (.relay p) t) (m : Option κ) :
    t.clock m = s.clock m := by
  cases h
  rfl

/-- A step counts its copies. -/
theorem Move.copies_copy {n : Option κ} {now : UInt64} {text : String}
    (h : s.Move (.copy n now text) t) : t.copies = s.copies + 1 := by
  cases h <;> rfl

/-- What holds throughout a run of the connected network in which no counter wraps. -/
structure Linked (s : HubSpoke κ) : Prop where
  /-- The spokes are connected. -/
  live : ∀ k, s.live k
  /-- What the hub has reaches the spokes. -/
  flow : s.FlowInvariant
  /-- What the spokes have reaches the hub. -/
  sent : ∀ k, s.Sent k
  /-- A counter is raised by copies. -/
  clock_le : ∀ n, s.clock n ≤ s.copies

omit [DecidableEq κ] in
/-- A fresh connected network is linked. -/
theorem Fresh.linked (h : s.Fresh) (hlive : ∀ k, s.live k) : s.Linked := by
  refine ⟨hlive, h.flowInvariant, fun k => .inl ?_, fun n => ?_⟩
  · rw [h.clock, h.clock]
  · rw [h.clock]
    exact Nat.zero_le _

/-- A step advances a node by a copy of its own, or to what another node has. -/
theorem Linked.clock_step (h : s.Linked) (htraffic : a.isTraffic) (hmax : s.CopyBelowMax a)
    (hmove : s.Move a t) (n : Option κ) : t.clock n ≤ t.copies := by
  have hbound := h.flow.bounded
  have hset : ∀ {m : Option κ} {snap : ClipboardSnapshot}, snap.version.toNat ≤ s.copies →
      (Function.update s.engine m ((s.engine m).advance snap) n).clock ≤ s.copies := by
    intro m snap hsnap
    rw [Function.update_apply]
    split_ifs
    · exact hsnap
    · exact h.clock_le n
  cases hmove with
  | @applyUp k snap rest hup _ =>
    have hmem : snap ∈ s.up k := by rw [hup]; exact List.mem_cons_self
    exact hset ((hbound.up k snap hmem).trans (h.clock_le _))
  | @applyDown k snap rest hdown _ =>
    have hmem : snap ∈ s.down k := by rw [hdown]; exact List.mem_cons_self
    exact hset ((hbound.down k snap hmem).trans (h.clock_le _))
  | ignoreUp _ _ => exact h.clock_le n
  | ignoreDown _ _ => exact h.clock_le n
  | relay _ => exact h.clock_le n
  | copyHub now text =>
    have hversion := nextCopy_version (s := s) hmax now text
    have hmove := Move.copyHub (s := s) now text
    by_cases hn : n = none
    · rw [hn, hmove.clock_copy, hversion, hmove.copies_copy]
      exact Nat.succ_le_succ (h.clock_le none)
    · rw [hmove.clock_copy_ne hn, hmove.copies_copy]
      exact (h.clock_le n).trans (Nat.le_succ _)
  | copySpoke k now text =>
    have hversion := nextCopy_version (s := s) hmax now text
    have hmove := Move.copySpoke (s := s) k now text
    by_cases hn : n = some k
    · rw [hn, hmove.clock_copy, hversion, hmove.copies_copy]
      exact Nat.succ_le_succ (h.clock_le (some k))
    · rw [hmove.clock_copy_ne hn, hmove.copies_copy]
      exact (h.clock_le n).trans (Nat.le_succ _)
  | join _ => cases htraffic
  | leave _ => cases htraffic
  | restartHub _ => cases htraffic
  | restartSpoke _ _ => cases htraffic

omit [DecidableEq κ] in
/-- Below its maximum a copy meets the guard of the flow. -/
theorem CopyBelowMax.joinCovered (h : s.CopyBelowMax a) (htraffic : a.isTraffic) :
    s.JoinCovered a := by
  cases a with
  | copy n now text => exact h
  | join k => cases htraffic
  | _ => exact trivial

/-- Traffic in which no counter wraps keeps the network linked. -/
theorem Linked.move (h : s.Linked) (hmove : s.Move a t) (htraffic : a.isTraffic)
    (hmax : s.CopyBelowMax a) : t.Linked where
  live := by
    rw [hmove.live_eq htraffic]
    exact h.live
  flow := h.flow.move (hmax.joinCovered htraffic) hmove
  sent := sent_move h.flow.routed h.flow.bounded h.live h.sent htraffic hmax hmove
  clock_le := h.clock_step htraffic hmax hmove

omit [DecidableEq κ] in
/-- At quiescence all counters are equal. -/
theorem Linked.clock_eq (h : s.Linked) (hq : s.Quiescent) (n : Option κ) :
    s.clock n = s.clock none := by
  cases n with
  | none => rfl
  | some k =>
    refine le_antisymm ?_ (h.flow.hub_le hq (h.live k))
    rcases h.sent k with hle | ⟨snap, hm, -⟩
    · exact hle
    · exact absurd hm hq.not_mem_up

end HubSpoke

/-! ## One text on the desktops -/

namespace Desktop

variable {d : Desktop} {text : String} {snap : ClipboardSnapshot}

/-- All that a desktop has to write or to announce is of one text, and if it has to announce it, it
shows it. -/
structure Carries (text : String) (d : Desktop) : Prop where
  /-- The snapshots to be written. -/
  pending : ∀ snap ∈ d.pending, snap.plainText = some text
  /-- The texts to be produced. -/
  reported : ∀ r ∈ d.reported, r.1 = text ∧ d.content = some text
  /-- The text that the next poll reports. -/
  reports : d.Reports → d.content = some text

/-- The reported texts that are still to be produced, and the report that the watcher may still
make. -/
def unannounced (text : String) (d : Desktop) : ℕ :=
  d.reported.length + if d.last = some text then 0 else 1

/-- What a desktop is still to do, at most, with what its reports cost in a network with `spokes`
spokes: for a report the poll, the production and the deliveries of the snapshot, each with a write,
and for a snapshot to be written the write. -/
def work (spokes : ℕ) (text : String) (d : Desktop) : ℕ :=
  (2 * spokes + 3) * d.reported.length + (2 * spokes + 4) * (if d.last = some text then 0 else 1) +
    d.pending.length

/-- A poll reports the one text. -/
theorem Carries.poll (h : d.Carries text) : d.poll.Carries text := by
  by_cases hr : d.Reports
  · obtain ⟨text', hc, hp⟩ := poll_of_reports hr
    have htext : text' = text := by
      have hshown := h.reports hr
      rw [hc] at hshown
      exact Option.some.inj hshown
    rw [htext] at hc hp
    rw [hp]
    refine ⟨h.pending, fun r hmem => ?_, fun _ => hc⟩
    rcases List.mem_append.1 hmem with hmem | hmem
    · exact h.reported r hmem
    · rw [List.mem_singleton.1 hmem]
      exact ⟨rfl, hc⟩
  · rw [poll_of_not_reports hr]
    exact h

/-- A report uses up the one that the watcher may make. -/
theorem Carries.work_poll (h : d.Carries text) (hr : d.Reports) (spokes : ℕ) :
    d.poll.work spokes text + 1 = d.work spokes text ∧
      d.poll.unannounced text = d.unannounced text := by
  obtain ⟨text', hc, hp⟩ := poll_of_reports hr
  have hshown := h.reports hr
  have hlast : d.last ≠ some text := by
    rw [← hshown]
    exact hr.2
  rw [hc] at hshown
  obtain rfl := Option.some.inj hshown
  unfold work unannounced
  rw [hp, if_neg hlast, if_pos rfl, List.length_append, List.length_singleton, Nat.mul_succ]
  constructor
  · dsimp only
    omega
  · rfl

/-- A text that is produced is no longer to be. -/
theorem work_pop {r : String × Source} {rest : List (String × Source)} (h : d.reported = r :: rest)
    (spokes : ℕ) (text : String) :
    { d with reported := rest : Desktop }.work spokes text + (2 * spokes + 3) = d.work spokes text ∧
      { d with reported := rest : Desktop }.unannounced text + 1 = d.unannounced text := by
  unfold work unannounced
  rw [h, List.length_cons, Nat.mul_succ]
  dsimp only
  omega

/-- A snapshot that is written is no longer to be. -/
theorem work_write (h : snap ∈ d.pending) (ok : Bool) (spokes : ℕ) (text : String) :
    (if ok then { d with pending := d.pending.erase snap : Desktop }.write snap
      else { d with pending := d.pending.erase snap }).work spokes text + 1 = d.work spokes text ∧
    (if ok then { d with pending := d.pending.erase snap : Desktop }.write snap
      else { d with pending := d.pending.erase snap }).unannounced text = d.unannounced text := by
  have hlen : d.pending.length = (d.pending.erase snap).length + 1 := by
    rw [List.length_erase_of_mem h]
    have hpos := List.length_pos_of_mem h
    omega
  -- a write leaves all but the content alone
  have hwrite : ∀ d' : Desktop, (d'.write snap).reported = d'.reported ∧
      (d'.write snap).last = d'.last ∧ (d'.write snap).pending = d'.pending := by
    intro d'
    unfold Desktop.write
    split <;> exact ⟨rfl, rfl, rfl⟩
  unfold work unannounced
  rw [hlen]
  cases ok with
  | true =>
    obtain ⟨hreported, hlast, hpending⟩ := hwrite { d with pending := d.pending.erase snap }
    rw [if_pos rfl, hreported, hlast, hpending]
    exact ⟨rfl, rfl⟩
  | false => exact ⟨rfl, rfl⟩

/-- An applied snapshot of the text is to be written. -/
theorem Carries.push (h : d.Carries text) (hsnap : snap.plainText = some text) :
    { d with pending := d.pending ++ [snap] : Desktop }.Carries text := by
  refine ⟨fun m hm => ?_, h.reported, h.reports⟩
  rcases List.mem_append.1 hm with hm | hm
  · exact h.pending m hm
  · rw [List.mem_singleton.1 hm]
    exact hsnap

/-- A reported text is produced. -/
theorem Carries.pop {r : String × Source} {rest : List (String × Source)} (h : d.Carries text)
    (hreported : d.reported = r :: rest) : { d with reported := rest : Desktop }.Carries text := by
  refine ⟨h.pending, fun r' hr' => h.reported r' ?_, h.reports⟩
  rw [hreported]
  exact List.mem_cons_of_mem _ hr'

/-- A snapshot is no longer to be written. -/
theorem Carries.erase (h : d.Carries text) (snap : ClipboardSnapshot) :
    { d with pending := d.pending.erase snap : Desktop }.Carries text :=
  ⟨fun m hm => h.pending m (List.mem_of_mem_erase hm), h.reported, h.reports⟩

/-- A write shows the text. -/
theorem content_write (hsnap : snap.plainText = some text) : (d.write snap).content = some text := by
  unfold write
  rw [hsnap]

/-- A write of the text is of the text. -/
theorem Carries.write (h : d.Carries text) (hsnap : snap.plainText = some text) :
    (d.write snap).Carries text := by
  have hcontent := content_write (d := d) hsnap
  have hpending : (d.write snap).pending = d.pending := by
    unfold Desktop.write
    rw [hsnap]
  refine ⟨?_, fun r hr => ?_, fun _ => hcontent⟩
  · rw [hpending]
    exact h.pending
  · rw [(passive_write d snap).reported] at hr
    exact ⟨(h.reported r hr).1, hcontent⟩

end Desktop

variable {κ : Type*} [DecidableEq κ]

/-- A user copies something. -/
def DesktopLabel.isCopy : DesktopLabel κ → Bool
  | .copy .. => true
  | _ => false

namespace Desktops

variable {s t : Desktops κ} {a : DesktopLabel κ} {works : Option κ → Prop} {text : String}
  {base : ℕ}

/-- Nothing is left to do. -/
structure Settled (s : Desktops κ) : Prop where
  /-- No frame is in flight. -/
  quiescent : s.net.Quiescent
  /-- No snapshot is to be written. -/
  pending : ∀ n, (s.desktop n).pending = []
  /-- No text is to be produced. -/
  reported : ∀ n, (s.desktop n).reported = []
  /-- No watcher has a text to report. -/
  reports : ∀ n, ¬ (s.desktop n).Reports

omit [DecidableEq κ] in
/-- A settled network, field by field. -/
theorem settled_iff (s : Desktops κ) : s.Settled ↔ s.net.Quiescent ∧
    (∀ n, (s.desktop n).pending = []) ∧ (∀ n, (s.desktop n).reported = []) ∧
    ∀ n, ¬ (s.desktop n).Reports :=
  ⟨fun h => ⟨h.quiescent, h.pending, h.reported, h.reports⟩,
    fun h => ⟨h.1, h.2.1, h.2.2.1, h.2.2.2⟩⟩

instance [Fintype κ] (s : Desktops κ) : Decidable s.Settled :=
  decidable_of_iff _ s.settled_iff.symm

/-- The nodes do something: any step but a copy, and but a poll of a watcher that has nothing to
report. -/
def Syncs (s : Desktops κ) : DesktopLabel κ → Prop
  | .copy .. => False
  | .poll n => (s.desktop n).Reports
  | _ => True

instance (s : Desktops κ) : (a : DesktopLabel κ) → Decidable (s.Syncs a)
  | .copy .. => isFalse id
  | .poll n => inferInstanceAs (Decidable (s.desktop n).Reports)
  | .produce .. | .deliverUp _ | .deliverDown _ | .write .. | .relay _ => isTrue trivial

/-! ## What a step does -/

/-- What a step does, case by case. -/
inductive Move (s : Desktops κ) : DesktopLabel κ → Desktops κ → Prop
  /-- A user copies. -/
  | copy (n : Option κ) (content : Option String) :
    Move s (.copy n content) { s.setDesktop n ((s.desktop n).copy content) with
      typed := s.typed + content.toList.length }
  /-- A watcher reports. -/
  | report (n : Option κ) : (s.desktop n).Reports →
    Move s (.poll n) (s.setDesktop n (s.desktop n).poll)
  /-- A watcher has nothing to report. -/
  | idle (n : Option κ) : ¬ (s.desktop n).Reports → Move s (.poll n) s
  /-- A node produces a snapshot of a reported text. -/
  | produce {n : Option κ} {now : UInt64} {text : String} {source : Source}
    {rest : List (String × Source)} {net : HubSpoke κ} :
    (s.desktop n).reported = (text, source) :: rest → s.net.Move (.copy n now text) net →
    Move s (.produce n now) { s.setDesktop n { s.desktop n with reported := rest } with
      net := net
      made := s.made ++ [(n, text, source)] }
  /-- The hub handles the oldest frame from `k`. -/
  | deliverUp {k : κ} {snap : ClipboardSnapshot} {rest : List ClipboardSnapshot}
    {net : HubSpoke κ} : s.net.up k = snap :: rest → s.net.Move (.deliverUp k) net →
    Move s (.deliverUp k) { s.setDesktop none (s.handle none snap) with net := net }
  /-- The spoke `k` handles the oldest frame from the hub. -/
  | deliverDown {k : κ} {snap : ClipboardSnapshot} {rest : List ClipboardSnapshot}
    {net : HubSpoke κ} : s.net.down k = snap :: rest → s.net.Move (.deliverDown k) net →
    Move s (.deliverDown k) { s.setDesktop (some k) (s.handle (some k) snap) with net := net }
  /-- A node writes an applied snapshot. -/
  | write {n : Option κ} {snap : ClipboardSnapshot} (ok : Bool) : snap ∈ (s.desktop n).pending →
    Move s (.write n snap ok) (s.setDesktop n
      (if ok then
        { s.desktop n with pending := (s.desktop n).pending.erase snap : Desktop }.write snap
      else { s.desktop n with pending := (s.desktop n).pending.erase snap }))
  /-- The hub broadcasts what it has applied and written. -/
  | relay {p : κ × ClipboardSnapshot} {net : HubSpoke κ} : s.net.Move (.relay p) net →
    Move s (.relay p) { s with net := net }

/-- Every step is one of these cases. -/
theorem Move.of_step (h : s.step a = some t) : s.Move a t := by
  cases a with
  | copy n content =>
    obtain rfl := Option.some.inj h
    exact .copy n content
  | poll n =>
    obtain rfl := Option.some.inj h
    by_cases hr : (s.desktop n).Reports
    · exact .report n hr
    · rw [Desktop.poll_of_not_reports hr]
      have hsame : s.setDesktop n (s.desktop n) = s := by
        unfold setDesktop
        rw [Function.update_eq_self]
      rw [hsame]
      exact .idle n hr
  | produce n now =>
    simp only [step] at h
    split at h
    · cases h
    · next text source rest hreported =>
      obtain ⟨net, hnet, rfl⟩ := Option.map_eq_some_iff.1 h
      exact .produce hreported (.of_step hnet)
  | deliverUp k =>
    simp only [step, deliver] at h
    split at h
    · next snap rest net hup hnet =>
      obtain rfl := Option.some.inj h
      exact .deliverUp hup (.of_step hnet)
    · cases h
  | deliverDown k =>
    simp only [step, deliver] at h
    split at h
    · next snap rest net hdown hnet =>
      obtain rfl := Option.some.inj h
      exact .deliverDown hdown (.of_step hnet)
    · cases h
  | write n snap ok =>
    simp only [step] at h
    split_ifs at h with hmem hok
    · obtain rfl := Option.some.inj h
      subst hok
      exact .write true hmem
    · obtain rfl := Option.some.inj h
      obtain rfl := Bool.eq_false_of_not_eq_true hok
      exact .write false hmem
  | relay p =>
    simp only [step] at h
    split_ifs at h
    obtain ⟨net, hnet, rfl⟩ := Option.map_eq_some_iff.1 h
    exact .relay (.of_step hnet)

omit [DecidableEq κ] in
/-- A snapshot that is handled is to be written if the node accepts it. -/
theorem handle_eq (s : Desktops κ) (n : Option κ) (snap : ClipboardSnapshot) :
    s.handle n snap = if (s.net.engine n).Accepts snap then
      { s.desktop n with pending := (s.desktop n).pending ++ [snap] } else s.desktop n := by
  unfold handle
  rw [Engine.observeRemote_eq]
  by_cases hacc : (s.net.engine n).Accepts snap
  · rw [if_pos hacc, if_pos hacc]
  · rw [if_neg hacc, if_neg hacc]

/-- A settled network stays as it is until the next copy. -/
theorem Settled.eq_of_move (h : s.Settled) (ha : a.isCopy = false) (hmove : s.Move a t) :
    t = s ∧ ¬ s.Syncs a := by
  cases hmove with
  | copy n content => cases ha
  | report n hr => exact absurd hr (h.reports n)
  | idle n hr => exact ⟨rfl, hr⟩
  | @produce n _ _ _ _ _ hreported _ =>
    rw [h.reported n] at hreported
    cases hreported
  | @deliverUp k _ _ _ hup _ =>
    rw [h.quiescent.up k] at hup
    cases hup
  | @deliverDown k _ _ _ hdown _ =>
    rw [h.quiescent.down k] at hdown
    cases hdown
  | @write n _ _ hmem =>
    rw [h.pending n] at hmem
    cases hmem
  | relay hnet =>
    cases hnet with
    | relay hmem => exact absurd hmem h.quiescent.not_mem_relaying

/-! ## A text spreads -/

/-- The text of the last copy spreads from a network in which all counters were at `base`: it is the
only one on the way, and a node whose counter is past `base` shows it or is about to write it. -/
structure Spreading (works : Option κ → Prop) (text : String) (base : ℕ) (s : Desktops κ) :
    Prop where
  /-- The frames carry the text. -/
  frames : ∀ snap, s.net.InFlight snap → snap.plainText = some text
  /-- So do the desktops. -/
  desktop : ∀ n, (s.desktop n).Carries text
  /-- The counters start at `base`. -/
  base_le : ∀ n, base ≤ s.net.clock n
  /-- A node past `base` has the text. -/
  caught : ∀ n, works n → base < s.net.clock n →
    (s.desktop n).content = some text ∨ (s.desktop n).pending ≠ []
  /-- A node is past `base`, or is about to announce the text. -/
  begun : (∃ n, base < s.net.clock n) ∨
    ∃ n, (s.desktop n).Reports ∨ (s.desktop n).reported ≠ []

/-- A step at the desktop of `n`, in which no other node advances. -/
theorem Spreading.update {n : Option κ} {d : Desktop} (h : s.Spreading works text base)
    (hdesktop : t.desktop = Function.update s.desktop n d) (hd : d.Carries text)
    (hframes : ∀ snap, t.net.InFlight snap → snap.plainText = some text)
    (hclock : ∀ m, t.net.clock m = s.net.clock m ∨ m = n ∧ s.net.clock m ≤ t.net.clock m)
    (hcaught : works n → base < t.net.clock n → d.content = some text ∨ d.pending ≠ [])
    (hbegun : (s.desktop n).Reports ∨ (s.desktop n).reported ≠ [] →
      base < t.net.clock n ∨ d.Reports ∨ d.reported ≠ []) : t.Spreading works text base := by
  have hle : ∀ m, s.net.clock m ≤ t.net.clock m := by
    intro m
    rcases hclock m with he | ⟨-, hle⟩
    · exact he.ge
    · exact hle
  have hn : t.desktop n = d := by rw [hdesktop, Function.update_self]
  have hne : ∀ m, m ≠ n → t.desktop m = s.desktop m := by
    intro m hm
    rw [hdesktop, Function.update_of_ne hm]
  refine ⟨hframes, fun m => ?_, fun m => (h.base_le m).trans (hle m), fun m hworks hm => ?_, ?_⟩
  · by_cases hmn : m = n
    · rw [hmn, hn]
      exact hd
    · rw [hne m hmn]
      exact h.desktop m
  · by_cases hmn : m = n
    · subst hmn
      rw [hn]
      exact hcaught hworks hm
    · rw [hne m hmn]
      have hsame : t.net.clock m = s.net.clock m := (hclock m).resolve_right fun he => hmn he.1
      rw [hsame] at hm
      exact h.caught m hworks hm
  · rcases h.begun with ⟨m, hm⟩ | ⟨m, hm⟩
    · exact .inl ⟨m, hm.trans_le (hle m)⟩
    · by_cases hmn : m = n
      · subst hmn
        rcases hbegun hm with hpast | hm
        · exact .inl ⟨m, hpast⟩
        · exact .inr ⟨m, by rw [hn]; exact hm⟩
      · exact .inr ⟨m, by rw [hne m hmn]; exact hm⟩

/-- A delivery at `n` spreads the text. -/
theorem Spreading.deliver {n : Option κ} {snap : ClipboardSnapshot} {net : HubSpoke κ}
    {b : HubSpokeLabel κ} (h : s.Spreading works text base) (hmem : s.net.InFlight snap)
    (hnet : s.net.Move b net) (hb : ∀ n now text, b ≠ .copy n now text)
    (hclock : ∀ m, net.clock m = s.net.clock m ∨ m = n ∧ (s.net.engine n).Accepts snap)
    (hle : ∀ m, s.net.clock m ≤ net.clock m) :
    Spreading works text base { s.setDesktop n (s.handle n snap) with net := net } := by
  have hsnap := h.frames snap hmem
  have hcontent : (s.handle n snap).content = (s.desktop n).content := by
    rw [handle_eq]
    split_ifs <;> rfl
  have hlast : (s.handle n snap).last = (s.desktop n).last := by
    rw [handle_eq]
    split_ifs <;> rfl
  have hreported : (s.handle n snap).reported = (s.desktop n).reported := by
    rw [handle_eq]
    split_ifs <;> rfl
  refine h.update rfl ?_ (fun m hm => ?_) (fun m => (hclock m).imp_right fun he => ⟨he.1, hle m⟩)
    (fun hworks hpast => ?_) fun hbegun => ?_
  · rw [handle_eq]
    split_ifs
    · exact (h.desktop n).push hsnap
    · exact h.desktop n
  · rcases hnet.inFlight hm with hm | ⟨m', now, text', he, -⟩
    · exact h.frames m hm
    · exact absurd he (hb m' now text')
  · rw [hcontent]
    rcases hclock n with he | ⟨-, hacc⟩
    · rw [he] at hpast
      refine (h.caught n hworks hpast).imp_right fun hpending => ?_
      rw [handle_eq]
      split_ifs
      · simp
      · exact hpending
    · -- the accepted snapshot is to be written
      refine .inr ?_
      rw [handle_eq, if_pos hacc]
      simp
  · refine .inr (hbegun.imp (fun hr => ?_) fun hr => ?_)
    · unfold Desktop.Reports
      rw [hcontent, hlast]
      exact hr
    · rw [hreported]
      exact hr

/-- Between two copies every step spreads the text, unless a counter wraps. -/
theorem Spreading.move (h : s.Spreading works text base) (ha : a.isCopy = false)
    (hworks : ∀ n snap ok, a = .write n snap ok → works n → ok = true)
    (hmax : ∀ n now, a = .produce n now → s.net.clock n < 2^64 - 1) (hmove : s.Move a t) :
    t.Spreading works text base := by
  cases hmove with
  | copy n content => cases ha
  | report n hr =>
    obtain ⟨text', -, hp⟩ := Desktop.poll_of_reports hr
    refine h.update rfl (h.desktop n).poll h.frames (fun m => .inl rfl) (fun hworks hpast => ?_)
      fun _ => .inr (.inr ?_)
    · rw [hp]
      exact h.caught n hworks hpast
    · rw [hp]
      simp
  | idle n hr => exact h
  | @produce n now text' source rest net hreported hnet =>
    have hshown := (h.desktop n).reported (text', source) (by rw [hreported]; exact List.mem_cons_self)
    obtain ⟨rfl, hcontent⟩ := hshown
    have hversion := HubSpoke.nextCopy_version (hmax n now rfl) now text'
    have hclock : net.clock n = s.net.clock n + 1 := by rw [hnet.clock_copy, hversion]
    have hbase := h.base_le n
    refine h.update rfl ((h.desktop n).pop hreported) (fun snap hsnap => ?_) (fun m => ?_)
      (fun _ _ => .inl hcontent) fun _ => .inl ?_
    · rcases hnet.inFlight hsnap with hsnap | ⟨m, now', text'', he, rfl⟩
      · exact h.frames snap hsnap
      · injection he with hn hnow htext
        rw [← htext]
        rfl
    · by_cases hm : m = n
      · refine .inr ⟨hm, ?_⟩
        rw [hm, hclock]
        exact Nat.le_succ _
      · exact .inl (hnet.clock_copy_ne hm)
    · rw [hclock]
      omega
  | @deliverUp k snap rest net hup hnet =>
    refine h.deliver (.inl ⟨k, by rw [hup]; exact List.mem_cons_self⟩) hnet (by simp)
      (hnet.clock_deliverUp hup) fun m => hnet.clock_le trivial m (by simp)
  | @deliverDown k snap rest net hdown hnet =>
    refine h.deliver (.inr (.inr ⟨k, by rw [hdown]; exact List.mem_cons_self⟩)) hnet (by simp)
      (hnet.clock_deliverDown hdown) fun m => hnet.clock_le trivial m (by simp)
  | @write n snap ok hmem =>
    have hsnap := (h.desktop n).pending snap hmem
    have herase := (h.desktop n).erase snap
    cases ok with
    | true =>
      -- the node shows the text, and what its watcher has to say is the same
      have hcontent := Desktop.content_write
        (d := { s.desktop n with pending := (s.desktop n).pending.erase snap }) hsnap
      obtain ⟨hreported, hlast, -⟩ := Desktop.passive_write
        { s.desktop n with pending := (s.desktop n).pending.erase snap } snap
      refine h.update rfl (herase.write hsnap) h.frames (fun m => .inl rfl)
        (fun _ _ => .inl hcontent) fun hbegun => .inr (hbegun.imp (fun hr => ?_) fun hr => ?_)
      · have hshown := (h.desktop n).reports hr
        refine ⟨by simp only [if_true, hcontent, Option.isSome_some], ?_⟩
        simp only [if_true, hcontent, hlast]
        rw [← hshown]
        exact hr.2
      · simp only [if_true, hreported]
        exact hr
    | false =>
      refine h.update rfl herase h.frames (fun m => .inl rfl) (fun hw _ => ?_) fun hbegun => .inr ?_
      · cases hworks n snap false rfl hw
      · exact hbegun
  | @relay p net hnet =>
    have hnone := (Function.update_eq_self none s.desktop).symm
    refine h.update hnone (h.desktop none) (fun snap hsnap => ?_)
      (fun m => .inl (hnet.clock_relay m)) (fun hw hpast => ?_) fun hbegun => .inr hbegun
    · rcases hnet.inFlight hsnap with hsnap | ⟨n, now, text', he, -⟩
      · exact h.frames snap hsnap
      · cases he
    · have hsame : net.clock none = s.net.clock none := hnet.clock_relay none
      exact h.caught none hw (hsame ▸ hpast)

/-! ## What is left to do -/

section Rank

variable [Fintype κ]

/-- The steps that are left until the network settles, at most. -/
def rank (text : String) (s : Desktops κ) : ℕ :=
  2 * s.net.pending + ∑ n, (s.desktop n).work (Fintype.card κ) text

/-- The snapshots produced, and those that are still to come. -/
def announcements (text : String) (s : Desktops κ) : ℕ :=
  s.net.copies + ∑ n, (s.desktop n).unannounced text

/-- A sum over the desktops when that of `n` changes. -/
theorem sum_desktop {n : Option κ} {d : Desktop} (f : Desktop → ℕ)
    (hdesktop : t.desktop = Function.update s.desktop n d) :
    ∑ m, f (t.desktop m) + f (s.desktop n) = ∑ m, f (s.desktop m) + f d := by
  have hs := add_sum_erase univ (fun m => f (s.desktop m)) (mem_univ n)
  have ht := add_sum_erase univ (fun m => f (t.desktop m)) (mem_univ n)
  have hrest : ∑ m ∈ univ.erase n, f (t.desktop m) = ∑ m ∈ univ.erase n, f (s.desktop m) := by
    refine sum_congr rfl fun m hm => ?_
    rw [hdesktop, Function.update_of_ne (ne_of_mem_erase hm)]
  have hn : t.desktop n = d := by rw [hdesktop, Function.update_self]
  simp only [hn] at ht
  omega

/-- A step at the desktop of `n` falls by what the network and the desktop fall by. -/
theorem rank_update {n : Option κ} {d : Desktop} {c : ℕ} (text : String)
    (hdesktop : t.desktop = Function.update s.desktop n d)
    (hle : c + 2 * t.net.pending + d.work (Fintype.card κ) text ≤
      2 * s.net.pending + (s.desktop n).work (Fintype.card κ) text) :
    c + t.rank text ≤ s.rank text := by
  have hsum := sum_desktop (fun d => d.work (Fintype.card κ) text) hdesktop
  unfold rank
  omega

/-- The same for the announcements. -/
theorem announcements_update {n : Option κ} {d : Desktop} (text : String)
    (hdesktop : t.desktop = Function.update s.desktop n d)
    (hle : t.net.copies + d.unannounced text = s.net.copies + (s.desktop n).unannounced text) :
    t.announcements text = s.announcements text := by
  have hsum := sum_desktop (fun d => d.unannounced text) hdesktop
  unfold announcements
  omega

/-- A delivery leaves less to do, and announces nothing. -/
theorem rank_deliver {n : Option κ} {snap : ClipboardSnapshot} {net : HubSpoke κ}
    {b : HubSpokeLabel κ} (text : String) (hnet : s.net.Move b net) (hb : b.isDelivery)
    (hcopies : net.copies = s.net.copies) :
    1 + rank text { s.setDesktop n (s.handle n snap) with net := net } ≤ s.rank text ∧
      announcements text { s.setDesktop n (s.handle n snap) with net := net } =
        s.announcements text := by
  have hcost := hnet.cost_le
  have hbudget : b.budget = 0 := by
    cases b <;> first | rfl | cases hb
  rw [HubSpokeLabel.cost, if_pos hb, hbudget] at hcost
  have hwork : (s.handle n snap).work (Fintype.card κ) text ≤
      (s.desktop n).work (Fintype.card κ) text + 1 := by
    rw [handle_eq]
    split_ifs
    · unfold Desktop.work
      rw [List.length_append, List.length_singleton]
      exact le_rfl
    · exact Nat.le_succ _
  have hunannounced : (s.handle n snap).unannounced text = (s.desktop n).unannounced text := by
    rw [handle_eq]
    split_ifs <;> rfl
  constructor
  · refine rank_update text rfl ?_
    dsimp only
    omega
  · refine announcements_update text rfl ?_
    dsimp only
    rw [hunannounced, hcopies]

/-- Between two copies each step leaves less to do, but for idle polls, and what is announced was to
be announced. -/
theorem Spreading.rank_move (h : s.Spreading works text base) (ha : a.isCopy = false)
    (hmove : s.Move a t) :
    (if s.Syncs a then 1 else 0) + t.rank text ≤ s.rank text ∧
      t.announcements text = s.announcements text := by
  have hone : (if s.Syncs a then 1 else 0) ≤ 1 := by split_ifs <;> omega
  -- all steps but an idle poll make the rank fall
  suffices hfall : s.Syncs a → 1 + t.rank text ≤ s.rank text ∧
      t.announcements text = s.announcements text by
    by_cases hsyncs : s.Syncs a
    · obtain ⟨hrank, hannounced⟩ := hfall hsyncs
      exact ⟨(Nat.add_le_add_right hone _).trans hrank, hannounced⟩
    · cases hmove with
      | copy n content => cases ha
      | report n hr => exact absurd hr hsyncs
      | idle n hr =>
        rw [if_neg hsyncs]
        exact ⟨(Nat.zero_add _).le, rfl⟩
      | produce _ _ => exact absurd trivial hsyncs
      | deliverUp _ _ => exact absurd trivial hsyncs
      | deliverDown _ _ => exact absurd trivial hsyncs
      | write _ _ => exact absurd trivial hsyncs
      | relay _ => exact absurd trivial hsyncs
  intro hsyncs
  cases hmove with
  | copy n content => cases ha
  | report n hr =>
    obtain ⟨hwork, hunannounced⟩ := (h.desktop n).work_poll hr (Fintype.card κ)
    constructor
    · refine rank_update text rfl ?_
      dsimp only [setDesktop]
      omega
    · refine announcements_update text rfl ?_
      rw [hunannounced]
      rfl
  | idle n hr => exact absurd hsyncs hr
  | @produce n now text' source rest net hreported hnet =>
    obtain ⟨hwork, hunannounced⟩ := Desktop.work_pop hreported (Fintype.card κ) text
    have hcost := hnet.cost_le
    have hbudget : (HubSpokeLabel.copy n now text').budget ≤ Fintype.card κ + 1 := by
      cases n with
      | none => exact Nat.le_succ _
      | some k => exact le_rfl
    have hcopies := hnet.copies_copy
    constructor
    · refine rank_update text rfl ?_
      dsimp only [setDesktop]
      omega
    · refine announcements_update text rfl ?_
      dsimp only
      omega
  | deliverUp hup hnet =>
    refine rank_deliver text hnet rfl ?_
    exact hnet.copies_eq.resolve_right fun ⟨n, now, text', he⟩ => by cases he
  | deliverDown hdown hnet =>
    refine rank_deliver text hnet rfl ?_
    exact hnet.copies_eq.resolve_right fun ⟨n, now, text', he⟩ => by cases he
  | @write n snap ok hmem =>
    obtain ⟨hwork, hunannounced⟩ := Desktop.work_write hmem ok (Fintype.card κ) text
    constructor
    · refine rank_update text rfl ?_
      dsimp only [setDesktop]
      omega
    · refine announcements_update text rfl ?_
      rw [hunannounced]
      rfl
  | @relay p net hnet =>
    have hcost : 1 + net.pending ≤ s.net.pending + 0 := hnet.cost_le
    have hcopies : net.copies = s.net.copies :=
      hnet.copies_eq.resolve_right fun ⟨n, now, text', he⟩ => by cases he
    have hnone := (Function.update_eq_self none s.desktop).symm
    constructor
    · refine rank_update text hnone ?_
      dsimp only
      omega
    · refine announcements_update text hnone ?_
      dsimp only
      rw [hcopies]

omit [DecidableEq κ] in
/-- What a settled network is still to do about another text. -/
theorem Settled.rank_le (h : s.Settled) (text : String) :
    s.rank text ≤ 2 * (Fintype.card κ + 1) * (Fintype.card κ + 2) := by
  have hnet : s.net.pending = 0 := by
    unfold HubSpoke.pending
    simp [h.quiescent.up, h.quiescent.down, h.quiescent.relaying]
  have hwork : ∀ n, (s.desktop n).work (Fintype.card κ) text ≤ 2 * (Fintype.card κ + 2) := by
    intro n
    unfold Desktop.work
    rw [h.reported n, h.pending n]
    split_ifs
    · simp
    · simp only [List.length_nil]
      omega
  calc s.rank text = ∑ n, (s.desktop n).work (Fintype.card κ) text := by
        unfold rank
        rw [hnet, Nat.mul_zero, Nat.zero_add]
    _ ≤ ∑ _n : Option κ, 2 * (Fintype.card κ + 2) := sum_le_sum fun n _ => hwork n
    _ = (Fintype.card κ + 1) * (2 * (Fintype.card κ + 2)) := by
        rw [sum_const, card_univ, Fintype.card_option, smul_eq_mul]
    _ = 2 * (Fintype.card κ + 1) * (Fintype.card κ + 2) := by
        rw [← mul_assoc, mul_comm (Fintype.card κ + 1) 2]

omit [DecidableEq κ] in
/-- Each watcher of a settled network announces another text once. -/
theorem Settled.announcements_le (h : s.Settled) (text : String) :
    s.announcements text ≤ s.net.copies + (Fintype.card κ + 1) := by
  have hone : ∀ n, (s.desktop n).unannounced text ≤ 1 := by
    intro n
    unfold Desktop.unannounced
    rw [h.reported n]
    split_ifs <;> simp
  have hsum : ∑ n, (s.desktop n).unannounced text ≤ ∑ _n : Option κ, 1 :=
    sum_le_sum fun n _ => hone n
  rw [sum_const, card_univ, Fintype.card_option, smul_eq_mul, mul_one] at hsum
  exact Nat.add_le_add_left hsum _

/-- A copy leaves what is left to do about a text, and what is announced of it, as they were. -/
theorem rank_copy {n : Option κ} {content : Option String} (hmove : s.Move (.copy n content) t)
    (text : String) : t.rank text ≤ s.rank text ∧ t.announcements text = s.announcements text := by
  cases hmove
  constructor
  · have hrank := rank_update (c := 0) (s := s)
      (t := { s.setDesktop n ((s.desktop n).copy content) with
        typed := s.typed + content.toList.length }) text rfl (Nat.zero_add _ ▸ le_rfl)
    rwa [Nat.zero_add] at hrank
  · exact announcements_update text rfl rfl

end Rank

/-! ## The next copy -/

section Copy

variable {n : Option κ}

/-- A copy of the text that every node shows changes nothing. -/
theorem Spreading.copy_same (h : s.Spreading works text base) (hs : s.Settled)
    (hmove : s.Move (.copy n (some text)) t) : t.Spreading works text base := by
  cases hmove
  refine h.update rfl ⟨?_, ?_, fun _ => rfl⟩ h.frames (fun m => .inl rfl) (fun _ _ => .inl rfl)
    fun hbegun => ?_
  · exact (h.desktop n).pending
  · show ∀ r ∈ (s.desktop n).reported, _
    rw [hs.reported n]
    exact fun r hr => absurd hr List.not_mem_nil
  · rcases hbegun with hr | hr
    · exact absurd hr (hs.reports n)
    · exact absurd (hs.reported n) hr

/-- A copy of a text that the watcher has not seen spreads from a settled network. -/
theorem Settled.spreading (hs : s.Settled) (hlinked : s.net.Linked)
    (hlast : (s.desktop n).last ≠ some text) (hmove : s.Move (.copy n (some text)) t) :
    t.Spreading works text (s.net.clock none) := by
  cases hmove
  have hother : ∀ m, (s.desktop m).Carries text := by
    intro m
    refine ⟨?_, ?_, fun hr => absurd hr (hs.reports m)⟩
    · rw [hs.pending m]
      exact fun snap hm => absurd hm List.not_mem_nil
    · rw [hs.reported m]
      exact fun r hr => absurd hr List.not_mem_nil
  have hclock := hlinked.clock_eq hs.quiescent
  refine ⟨fun snap hm => absurd hm (hs.quiescent.not_inFlight snap), fun m => ?_,
    fun m => (hclock m).ge, fun m _ hlt => absurd (hclock m) hlt.ne', .inr ⟨n, .inl ?_⟩⟩
  · show (Function.update s.desktop n _ m).Carries text
    rw [Function.update_apply]
    split_ifs
    · refine ⟨(hother n).pending, ?_, fun _ => rfl⟩
      show ∀ r ∈ (s.desktop n).reported, _
      rw [hs.reported n]
      exact fun r hr => absurd hr List.not_mem_nil
    · exact hother m
  · show (Function.update s.desktop n _ n).Reports
    rw [Function.update_self]
    exact ⟨rfl, hlast⟩

/-- A copy of a text that the watcher has seen leaves a settled network settled. -/
theorem Settled.copy_seen (hs : s.Settled) (hlast : (s.desktop n).last = some text)
    (hmove : s.Move (.copy n (some text)) t) : t.Settled := by
  cases hmove
  have hcases : ∀ m, (Function.update s.desktop n ((s.desktop n).copy (some text)) m).pending = [] ∧
      (Function.update s.desktop n ((s.desktop n).copy (some text)) m).reported = [] ∧
      ¬ (Function.update s.desktop n ((s.desktop n).copy (some text)) m).Reports := by
    intro m
    rw [Function.update_apply]
    split_ifs
    · exact ⟨hs.pending n, hs.reported n, fun hr => hr.2 hlast⟩
    · exact ⟨hs.pending m, hs.reported m, hs.reports m⟩
  exact ⟨hs.quiescent, fun m => (hcases m).1, fun m => (hcases m).2.1, fun m => (hcases m).2.2⟩

omit [DecidableEq κ] in
/-- When the text has settled, every clipboard that works shows it, and its watcher has seen it. -/
theorem Spreading.settled (h : s.Spreading works text base) (hs : s.Settled)
    (hlinked : s.net.Linked) (hworks : works n) :
    (s.desktop n).content = some text ∧ (s.desktop n).last = some text := by
  have hclock := hlinked.clock_eq hs.quiescent
  -- all counters are past `base` with the one that is
  have hpast : base < s.net.clock n := by
    rcases h.begun with ⟨m, hm⟩ | ⟨m, hm⟩
    · rwa [hclock n, ← hclock m]
    · rcases hm with hr | hr
      · exact absurd hr (hs.reports m)
      · exact absurd (hs.reported m) hr
  have hcontent : (s.desktop n).content = some text :=
    (h.caught n hworks hpast).resolve_right fun hne => hne (hs.pending n)
  refine ⟨hcontent, ?_⟩
  by_contra hlast
  refine hs.reports n ⟨by rw [hcontent]; rfl, ?_⟩
  rw [hcontent]
  exact hlast

end Copy

/-! ## Orderly runs -/

/-- The guard of an orderly run. Users copy texts, on nodes whose clipboards work, when the last copy
has settled, and fewer than `2^64` times for all nodes together; and a clipboard that works takes
what is written to it. -/
def Orderly [Fintype κ] (works : Option κ → Prop) (s : Desktops κ) : DesktopLabel κ → Prop
  | .copy n content =>
    s.Settled ∧ works n ∧ content.isSome ∧ (Fintype.card κ + 1) * (s.typed + 1) < 2^64
  | .write n _ ok => works n → ok = true
  | _ => True

instance [Fintype κ] [DecidablePred works] (s : Desktops κ) :
    (a : DesktopLabel κ) → Decidable (s.Orderly works a)
  | .copy .. => inferInstanceAs (Decidable (_ ∧ _ ∧ _ ∧ _))
  | .write .. => inferInstanceAs (Decidable (_ → _))
  | .poll _ | .produce .. | .deliverUp _ | .deliverDown _ | .relay _ => isTrue trivial

/-- The text of a copy. -/
def copied : DesktopLabel κ → Option String
  | .copy _ content => content
  | _ => none

/-- The text that was copied last. -/
def lastCopy (as : List (DesktopLabel κ)) : Option String := (as.filterMap copied).getLast?

/-- How often the nodes do something. -/
def syncs (log : List (Desktops κ × DesktopLabel κ × Desktops κ)) : ℕ :=
  log.countP fun p => p.1.Syncs p.2.1

variable {log : List (Desktops κ × DesktopLabel κ × Desktops κ)}

omit [DecidableEq κ] in
/-- A step is one more, or it is idle. -/
theorem syncs_concat : syncs (log ++ [(s, a, t)]) = syncs log + if s.Syncs a then 1 else 0 := by
  simp [syncs, List.countP_append, List.countP_singleton]

variable [Fintype κ]

/-- Nothing has been announced, or the text of the last copy spreads, and what the nodes have done,
with what is left, is paid for by the copies. -/
def Spreads (works : Option κ → Prop) (log : List (Desktops κ × DesktopLabel κ × Desktops κ))
    (s : Desktops κ) : Prop :=
  s.Settled ∧ s.made = [] ∧ s.net.copies = 0 ∧ syncs log = 0 ∨
  ∃ text base, s.Spreading works text base ∧ lastCopy (log.map fun p => p.2.1) = some text ∧
    s.announcements text ≤ (Fintype.card κ + 1) * s.typed ∧
    syncs log + s.rank text ≤ 2 * (Fintype.card κ + 1) * (Fintype.card κ + 2) * s.typed

/-- What holds throughout an orderly run, with the steps so far. -/
structure InOrder (works : Option κ → Prop)
    (log : List (Desktops κ × DesktopLabel κ × Desktops κ)) (s : Desktops κ) : Prop where
  /-- The network is linked. -/
  linked : s.net.Linked
  /-- The counters stay below their maximum. -/
  typed : (Fintype.card κ + 1) * s.typed < 2^64
  /-- The text of the last copy spreads. -/
  spreads : Spreads works log s

omit [DecidableEq κ] in
/-- A fresh network is in order. -/
theorem Start.inOrder (h : s.Start) : s.InOrder works [] := by
  have hsettled : s.Settled := by
    refine ⟨h.fresh.quiescent, fun n => ?_, fun n => ?_, fun n hr => ?_⟩
    all_goals obtain ⟨content, hd⟩ := h.desktop n
    · rw [hd]
      rfl
    · rw [hd]
      rfl
    · rw [hd] at hr
      exact hr.2 rfl
  refine ⟨h.fresh.linked h.live, ?_, .inl ⟨hsettled, h.made, h.fresh.copies, rfl⟩⟩
  rw [h.typed, Nat.mul_zero]
  exact Nat.two_pow_pos 64

/-- A copy is in order. -/
theorem InOrder.copy {n : Option κ} {content : Option String} (h : s.InOrder works log)
    (horderly : s.Orderly works (.copy n content)) (hmove : s.Move (.copy n content) t) :
    t.InOrder works (log ++ [(s, .copy n content, t)]) := by
  obtain ⟨hs, hworks, hsome, htyped⟩ := horderly
  obtain ⟨text, rfl⟩ := Option.isSome_iff_exists.1 hsome
  have hnet : t.net = s.net ∧ t.made = s.made ∧ t.typed = s.typed + 1 := by
    cases hmove
    exact ⟨rfl, rfl, rfl⟩
  obtain ⟨hnet, hmade, htyped'⟩ := hnet
  obtain ⟨hrank, hann⟩ := rank_copy hmove text
  have hsyncs : syncs (log ++ [(s, DesktopLabel.copy n (some text), t)]) = syncs log := by
    have hidle : ¬ s.Syncs (.copy n (some text)) := id
    rw [syncs_concat, if_neg hidle, Nat.add_zero]
  have hcopied : lastCopy ((log ++ [(s, DesktopLabel.copy n (some text), t)]).map fun p => p.2.1) =
      some text := by
    simp [lastCopy, copied]
  -- the text spreads if what has been done so far is paid for
  have hspreads : ∀ base, t.Spreading works text base →
      s.announcements text ≤ (Fintype.card κ + 1) * s.typed + (Fintype.card κ + 1) →
      syncs log + s.rank text ≤ 2 * (Fintype.card κ + 1) * (Fintype.card κ + 2) * s.typed +
        2 * (Fintype.card κ + 1) * (Fintype.card κ + 2) →
      Spreads works (log ++ [(s, DesktopLabel.copy n (some text), t)]) t := by
    intro base hspread hannounced hpaid
    refine .inr ⟨text, base, hspread, hcopied, ?_, ?_⟩
    · rw [htyped', Nat.mul_succ, hann]
      exact hannounced
    · rw [htyped', Nat.mul_succ, hsyncs]
      omega
  refine ⟨hnet ▸ h.linked, by rwa [htyped'], ?_⟩
  have hannounced := hs.announcements_le text
  have hleft := hs.rank_le text
  rcases h.spreads with ⟨-, hmade', hcopies, hzero⟩ | ⟨text', base, hspread, -, hannounced', hpaid⟩
  · by_cases hseen : (s.desktop n).last = some text
    · refine .inl ⟨hs.copy_seen hseen hmove, ?_, ?_, hsyncs.trans hzero⟩
      · rw [hmade, hmade']
      · rw [hnet, hcopies]
    · exact hspreads _ (hs.spreading h.linked hseen hmove) (by omega) (by omega)
  · obtain ⟨-, hlast⟩ := hspread.settled hs h.linked hworks
    by_cases hsame : text = text'
    · subst hsame
      exact hspreads base (hspread.copy_same hs hmove) (by omega) (by omega)
    · have hseen : (s.desktop n).last ≠ some text := by
        rw [hlast]
        exact fun he => hsame (Option.some.inj he).symm
      have hcopies : s.net.copies ≤ s.announcements text' := Nat.le_add_right _ _
      exact hspreads _ (hs.spreading h.linked hseen hmove) (by omega) (by omega)

/-- Any other step is in order. -/
theorem InOrder.sync (h : s.InOrder works log) (ha : a.isCopy = false)
    (horderly : s.Orderly works a) (hmove : s.Move a t) : t.InOrder works (log ++ [(s, a, t)]) := by
  have hcopied : lastCopy ((log ++ [(s, a, t)]).map fun p => p.2.1) =
      lastCopy (log.map fun p => p.2.1) := by
    have hnone : copied a = none := by
      cases a <;> first | rfl | cases ha
    simp [lastCopy, hnone]
  have htyped : t.typed = s.typed := by
    cases hmove <;> first | rfl | cases ha
  rcases h.spreads with ⟨hs, hmade, hcopies, hzero⟩ | ⟨text, base, hspread, hlast, hannounced, hpaid⟩
  · obtain ⟨rfl, hidle⟩ := hs.eq_of_move ha hmove
    refine ⟨h.linked, h.typed, .inl ⟨hs, hmade, hcopies, ?_⟩⟩
    rw [syncs_concat, if_neg hidle, hzero]
  · -- a node that is to announce a text has not announced it yet, so its counter does not wrap
    have hmax : ∀ n now, a = .produce n now → s.net.clock n < 2^64 - 1 := by
      rintro n now rfl
      cases hmove with
      | produce hreported _ =>
        have hone : 1 ≤ (s.desktop n).unannounced text := by
          unfold Desktop.unannounced
          rw [hreported, List.length_cons]
          omega
        have hsum : (s.desktop n).unannounced text ≤ ∑ m, (s.desktop m).unannounced text :=
          single_le_sum (f := fun m => (s.desktop m).unannounced text)
            (fun m _ => Nat.zero_le _) (mem_univ n)
        have hclock := h.linked.clock_le n
        have htyped := h.typed
        unfold announcements at hannounced
        omega
    have hworks : ∀ n snap ok, a = .write n snap ok → works n → ok = true := by
      rintro n snap ok rfl
      exact horderly
    obtain ⟨hrank, hannounced'⟩ := hspread.rank_move ha hmove
    refine ⟨?_, htyped ▸ h.typed, .inr ⟨text, base, hspread.move ha hworks hmax hmove, ?_, ?_, ?_⟩⟩
    · cases hmove with
      | copy n content => cases ha
      | report n hr => exact h.linked
      | idle n hr => exact h.linked
      | @produce n now _ _ _ _ _ hnet => exact h.linked.move hnet rfl (hmax n now rfl)
      | deliverUp _ hnet => exact h.linked.move hnet rfl trivial
      | deliverDown _ hnet => exact h.linked.move hnet rfl trivial
      | write _ _ => exact h.linked
      | relay hnet => exact h.linked.move hnet rfl trivial
    · rw [hcopied, hlast]
    · rw [hannounced', htyped]
      exact hannounced
    · rw [syncs_concat, htyped]
      omega

end Desktops

open Desktops

/-- A copy reaches every clipboard. Take a hub and its `n` spokes, all connected, and any run from
the start of their watchers in which users copy texts on nodes whose clipboards work, each when the
last copy has settled, in which the clipboards that work take what is written to them, and in which
there are fewer than `2^64 / (n + 1)` copies. Whenever the network has settled, and a text has been
announced, all clipboards that work show the text of the last copy. And for each copy there are at
most `2 (n + 1) (n + 2)` steps in which a node does something, whatever the order of the steps. -/
theorem copy_reaches_every_clipboard (κ : Type*) [DecidableEq κ] [Fintype κ]
    (works : Option κ → Prop) (s t : Desktops κ) (as : List (DesktopLabel κ)) (hs : s.Start)
    (horderly : ∀ p ∈ (desktops κ).steps s as, p.1.Orderly works p.2.1)
    (hrun : (desktops κ).run s as = some t) :
    (t.Settled → t.made ≠ [] → ∀ n, works n → (t.desktop n).content = lastCopy as) ∧
    syncs ((desktops κ).steps s as) ≤
      2 * (Fintype.card κ + 1) * (Fintype.card κ + 2) * t.typed := by
  have hinv : t.InOrder works ([] ++ (desktops κ).steps s as) := by
    refine System.run_log (I := fun log s => s.InOrder works log) (fun log s a t hI ha hstep => ?_)
      (Start.inOrder hs) horderly hrun
    have hmove := Move.of_step hstep
    cases a with
    | copy n content => exact hI.copy ha hmove
    | _ => exact hI.sync rfl ha hmove
  rw [List.nil_append] at hinv
  have hlabels := System.map_label_steps hrun
  refine ⟨fun hsettled hmade n hworks => ?_, ?_⟩
  · rcases hinv.spreads with ⟨-, hnone, -, -⟩ | ⟨text, base, hspread, hlast, -, -⟩
    · exact absurd hnone hmade
    · rw [hlabels] at hlast
      rw [hlast]
      exact (hspread.settled hsettled hinv.linked hworks).1
  · rcases hinv.spreads with ⟨-, -, -, hzero⟩ | ⟨text, base, -, -, -, hpaid⟩
    · rw [hzero]
      exact Nat.zero_le _
    · omega

section Example

/-- The snapshot of "hi" that the node `n` produces with this version. -/
def hi (n : Option Bool) (version : UInt64) : ClipboardSnapshot :=
  ⟨version, (twoSpokes.engine n).selfId, 0, [.text "hi"]⟩

/-- The user of `false` copies "hi", and the watchers of the hub and of `true` announce it again. -/
def settlingRun : List (DesktopLabel Bool) :=
  [.copy (some false) (some "hi"), .poll (some false), .produce (some false) 0, .deliverUp false,
    .write none (hi (some false) 1) true, .relay (false, hi (some false) 1), .poll none,
    .produce none 0, .deliverDown true, .deliverDown true, .write (some true) (hi (some false) 1) true,
    .write (some true) (hi none 2) true, .poll (some true), .produce (some true) 0,
    .deliverDown false, .write (some false) (hi none 2) true, .deliverUp true,
    .write none (hi (some true) 3) true, .relay (true, hi (some true) 3), .deliverDown false,
    .write (some false) (hi (some true) 3) true]

/-- After `settlingRun` all nodes show what the user of `false` has copied, after three snapshots of
it and 20 of the 24 steps that there may be. -/
theorem copy_reaches_every_clipboard_settlingRun : ∃ t,
    (desktops Bool).run twoDesktops settlingRun = some t ∧ t.made.length = 3 ∧
    syncs ((desktops Bool).steps twoDesktops settlingRun) = 20 ∧
    ∀ n, (t.desktop n).content = some "hi" := by
  have horderly : ∀ p ∈ (desktops Bool).steps twoDesktops settlingRun,
      p.1.Orderly (fun _ => True) p.2.1 := by decide +kernel
  obtain ⟨t, hrun, ht⟩ := (Option.any_eq_true ..).1
    (show ((desktops Bool).run twoDesktops settlingRun).any
      (fun t => decide (t.Settled ∧ t.made.length = 3)) = true by decide +kernel)
  obtain ⟨hsettled, hmade⟩ := of_decide_eq_true ht
  have hsyncs : syncs ((desktops Bool).steps twoDesktops settlingRun) = 20 := by decide +kernel
  obtain ⟨hshown, -⟩ := copy_reaches_every_clipboard Bool (fun _ => True) twoDesktops t settlingRun
    twoDesktops_start horderly hrun
  have hne : t.made ≠ [] := by
    intro hnil
    rw [hnil] at hmade
    cases hmade
  exact ⟨t, hrun, hmade, hsyncs, fun n => hshown hsettled hne n trivial⟩

end Example

end Borderless.Network
