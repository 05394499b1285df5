import Borderless.Lib.Simulation
import Mathlib.Logic.Function.Basic

/-!
# Exchanges of messages

Parties that send messages to each other over reliable links. A party has a queue of messages that it
is to post, and at most one reply to a message that it has handled; the messages that it has sent
wait on its link until its receiver handles them. A party may be stopped, and then drops its queue;
and a reply may be forgone, after which the party replies no more.

`handled_sent`, `posted_accepted` and `answered_replied` say what all runs have in common: messages
are handled in the order in which they are sent, posted in the order in which they are accepted, and
replies are sent in the order of the messages that they reply to; none twice, and no others.
-/

namespace Exchange

open Transition

universe u v

variable {ι : Type u} {μ : Type v}

/-- A party, with the link on which it sends. -/
structure Party (μ : Type v) where
  /-- The messages that it is to post, oldest first. -/
  queue : List μ
  /-- It has been stopped: it posts nothing more. -/
  stopped : Bool
  /-- The reply to the message that it has handled last. -/
  reply : Option μ
  /-- It has forgone a reply. -/
  muted : Bool
  /-- The messages that it has sent and its receiver has not handled, oldest first. -/
  link : List μ

/-- What happens in an exchange. -/
inductive Event (ι : Type u) (μ : Type v)
  /-- The party accepts messages for posting. A stopped party drops them. -/
  | accept (X : ι) (ms : List μ)
  /-- The party posts the first message of its queue. -/
  | post (X : ι) (m : μ)
  /-- The party is stopped. -/
  | stop (X : ι)
  /-- The party handles the first message on the link to it. -/
  | handle (X : ι) (m : μ) (reply : Option μ)
  /-- The party sends its reply. -/
  | answer (X : ι) (m : μ)
  /-- The party drops its reply. -/
  | forgo (X : ι)

namespace Party

variable [DecidableEq ι]

/-- A party that has done nothing. -/
def start : Party μ := ⟨[], false, none, false, []⟩

/-- The party `X` after an event in which `X` receives from `peer X`. -/
def after (peer : ι → ι) (X : ι) (p : Party μ) : Event ι μ → Party μ
  | .accept Y ms => if Y = X ∧ p.stopped = false then { p with queue := p.queue ++ ms } else p
  | .post Y m => if Y = X then { p with queue := p.queue.tail, link := p.link ++ [m] } else p
  | .stop Y => if Y = X then { p with queue := [], stopped := true } else p
  | .handle Y _ reply =>
    { p with
      link := if peer Y = X then p.link.tail else p.link
      reply := if Y = X then reply else p.reply }
  | .answer Y m => if Y = X then { p with reply := none, link := p.link ++ [m] } else p
  | .forgo Y => if Y = X then { p with reply := none, muted := true } else p

/-- What a party accepts goes into its queue unless it is stopped. -/
theorem after_accept (peer : ι → ι) (X : ι) (p : Party μ) (ms : List μ) :
    p.after peer X (.accept X ms) =
      if p.stopped = false then { p with queue := p.queue ++ ms } else p := by
  simp [after]

/-- Nothing is sent when a party accepts messages, is stopped or forgoes a reply. -/
theorem link_after (peer : ι → ι) (X : ι) (p : Party μ) {e : Event ι μ}
    (he : (∃ Y ms, e = .accept Y ms) ∨ (∃ Y, e = .stop Y) ∨ ∃ Y, e = .forgo Y) :
    (p.after peer X e).link = p.link := by
  rcases he with ⟨Y, ms, rfl⟩ | ⟨Y, rfl⟩ | ⟨Y, rfl⟩
  · simp only [after]
    split_ifs <;> rfl
  · simp only [after]
    split_ifs <;> rfl
  · simp only [after]
    split_ifs <;> rfl

/-- An event of one party that is not the handling of a message leaves the other parties alone. -/
theorem after_of_ne (peer : ι → ι) {X Y : ι} (hY : Y ≠ X) (p : Party μ) {e : Event ι μ}
    (he : (∃ ms, e = .accept Y ms) ∨ (∃ m, e = .post Y m) ∨ e = .stop Y ∨ (∃ m, e = .answer Y m) ∨
      e = .forgo Y) : p.after peer X e = p := by
  rcases he with ⟨ms, rfl⟩ | ⟨m, rfl⟩ | rfl | ⟨m, rfl⟩ | rfl <;> simp [after, hY]

end Party

section Exchange

variable [DecidableEq ι] [DecidableEq μ] (peer : ι → ι)

/-- What may happen. A party handles a message only when it has no reply to send. -/
def Enabled (s : ι → Party μ) : Event ι μ → Prop
  | .accept .. | .stop _ | .forgo _ => True
  | .post X m => (s X).queue.head? = some m ∧ (s X).stopped = false
  | .handle X m _ => (s (peer X)).link.head? = some m ∧ (s X).reply = none
  | .answer X m => (s X).reply = some m ∧ (s X).muted = false

instance (s : ι → Party μ) : DecidablePred (Enabled peer s)
  | .accept .. | .stop _ | .forgo _ => .isTrue trivial
  | .post .. | .handle .. | .answer .. => inferInstanceAs (Decidable (_ ∧ _))

/-- The exchange. -/
def exchange : System (ι → Party μ) (Event ι μ) where
  init s := s = fun _ => .start
  step s e := if Enabled peer s e then some fun X => (s X).after peer X e else none

variable {peer}

/-- An event that may happen is a step. -/
theorem step_of_enabled {s : ι → Party μ} {e : Event ι μ} (h : Enabled peer s e) :
    (exchange peer).step s e = some fun X => (s X).after peer X e :=
  if_pos h

/-- A step is an event that may happen. -/
theorem step_eq_some {s t : ι → Party μ} {e : Event ι μ} (h : (exchange peer).step s e = some t) :
    Enabled peer s e ∧ ∀ X, t X = (s X).after peer X e := by
  simp only [exchange] at h
  split_ifs at h with henabled
  obtain rfl := Option.some.inj h
  exact ⟨henabled, fun _ => rfl⟩

end Exchange

/-! ## What an event says of a party -/

namespace Event

variable [DecidableEq ι] (X : ι)

/-- The messages that the party accepts. -/
def accepted : Event ι μ → List μ
  | accept Y ms => if Y = X then ms else []
  | post .. | stop _ | handle .. | answer .. | forgo _ => []

/-- The messages that the party posts. -/
def posted : Event ι μ → List μ
  | post Y m => if Y = X then [m] else []
  | accept .. | stop _ | handle .. | answer .. | forgo _ => []

/-- The messages that the party sends in reply. -/
def answered : Event ι μ → List μ
  | answer Y m => if Y = X then [m] else []
  | accept .. | post .. | stop _ | handle .. | forgo _ => []

/-- The messages that the party sends. -/
def sent : Event ι μ → List μ
  | post Y m | answer Y m => if Y = X then [m] else []
  | accept .. | stop _ | handle .. | forgo _ => []

/-- The messages that the party handles. -/
def handled : Event ι μ → List μ
  | handle Y m _ => if Y = X then [m] else []
  | accept .. | post .. | stop _ | answer .. | forgo _ => []

/-- The replies to the messages that the party handles. -/
def replied : Event ι μ → List μ
  | handle Y _ reply => if Y = X then reply.toList else []
  | accept .. | post .. | stop _ | answer .. | forgo _ => []

end Event

/-! ## The laws of an exchange -/

section Laws

variable [DecidableEq ι] [DecidableEq μ] {peer : ι → ι}

/-- The link to a party is a buffer: what its peer sends goes into it, and the party takes it out. -/
theorem buffer_link (hpeer : Function.Involutive peer) (X : ι) :
    Buffer (exchange (μ := μ) peer) (fun _ => True) (fun s => (s (peer X)).link)
      (Event.sent (peer X)) (Event.handled X) := by
  have hlaw : ∀ (s t : ι → Party μ) (e : Event ι μ), (exchange peer).step s e = some t →
      (s (peer X)).link ++ e.sent (peer X) = e.handled X ++ (t (peer X)).link := by
    intro s t e h
    obtain ⟨henabled, hafter⟩ := step_eq_some h
    rw [hafter]
    cases e with
    | accept Y ms =>
      simp only [Party.after, Event.sent, Event.handled]
      split_ifs <;> simp
    | post Y m =>
      simp only [Party.after, Event.sent, Event.handled]
      split_ifs <;> simp
    | stop Y =>
      simp only [Party.after, Event.sent, Event.handled]
      split_ifs <;> simp
    | handle Y m reply =>
      obtain ⟨rest, hrest⟩ := List.head?_eq_some_iff.1 henabled.1
      by_cases hY : Y = X
      · -- the party takes the first message from the link
        subst hY
        simp [Party.after, Event.sent, Event.handled, hrest]
      · have hne : peer Y ≠ peer X := fun heq => hY (hpeer.injective heq)
        simp [Party.after, Event.sent, Event.handled, hY, hne]
    | answer Y m =>
      simp only [Party.after, Event.sent, Event.handled]
      split_ifs <;> simp
    | forgo Y =>
      simp only [Party.after, Event.sent, Event.handled]
      split_ifs <;> simp
  constructor
  · exact fun s e t h _ => ⟨trivial, hlaw s t e h⟩
  · intro s e t h _
    rw [hlaw s t e h]
    exact List.prefix_append _ _
  · exact fun _ _ _ _ hshut => absurd trivial hshut

/-- The queue of a party is a buffer until the party is stopped. -/
theorem buffer_queue (X : ι) :
    Buffer (exchange (μ := μ) peer) (fun s => (s X).stopped = false) (fun s => (s X).queue)
      (Event.accepted X) (Event.posted X) := by
  constructor
  · intro s e t h hopen
    obtain ⟨henabled, hafter⟩ := step_eq_some h
    rw [hafter] at hopen ⊢
    cases e with
    | accept Y ms =>
      by_cases hY : Y = X ∧ (s X).stopped = false
      · simp [Party.after, Event.accepted, Event.posted, hY]
      · simp only [Party.after, if_neg hY] at hopen ⊢
        have hne : Y ≠ X := fun heq => hY ⟨heq, hopen⟩
        simp [Event.accepted, Event.posted, hne, hopen]
    | post Y m =>
      by_cases hY : Y = X
      · subst hY
        obtain ⟨rest, hrest⟩ := List.head?_eq_some_iff.1 henabled.1
        simp [Party.after, Event.accepted, Event.posted, hrest, henabled.2]
      · simp only [Party.after, if_neg hY] at hopen ⊢
        simp [Event.accepted, Event.posted, hY, hopen]
    | stop Y =>
      by_cases hY : Y = X
      · simp [Party.after, hY] at hopen
      · simp only [Party.after, if_neg hY] at hopen ⊢
        simp [Event.accepted, Event.posted, hopen]
    | handle Y m reply => simpa [Party.after, Event.accepted, Event.posted] using hopen
    | answer Y m =>
      simp only [Party.after, Event.accepted, Event.posted] at hopen ⊢
      split_ifs at hopen ⊢ <;> simpa using hopen
    | forgo Y =>
      simp only [Party.after, Event.accepted, Event.posted] at hopen ⊢
      split_ifs at hopen ⊢ <;> simpa using hopen
  · intro s e t h _
    obtain ⟨henabled, -⟩ := step_eq_some h
    cases e with
    | post Y m =>
      by_cases hY : Y = X
      · subst hY
        obtain ⟨rest, hrest⟩ := List.head?_eq_some_iff.1 henabled.1
        simp [Event.posted, hrest]
      · simp [Event.posted, hY]
    | accept Y ms | stop Y | handle Y m reply | answer Y m | forgo Y => exact List.nil_prefix
  · intro s e t h hshut
    obtain ⟨henabled, -⟩ := step_eq_some h
    cases e with
    | post Y m =>
      have hne : Y ≠ X := by
        rintro rfl
        exact hshut henabled.2
      exact if_neg hne
    | accept Y ms | stop Y | handle Y m reply | answer Y m | forgo Y => rfl

/-- The reply of a party is a buffer until the party forgoes one. -/
theorem buffer_reply (X : ι) :
    Buffer (exchange (μ := μ) peer) (fun s => (s X).muted = false) (fun s => (s X).reply.toList)
      (Event.replied X) (Event.answered X) := by
  constructor
  · intro s e t h hopen
    obtain ⟨henabled, hafter⟩ := step_eq_some h
    rw [hafter] at hopen ⊢
    cases e with
    | accept Y ms =>
      simp only [Party.after, Event.replied, Event.answered] at hopen ⊢
      split_ifs at hopen ⊢ <;> simpa using hopen
    | post Y m =>
      simp only [Party.after, Event.replied, Event.answered] at hopen ⊢
      split_ifs at hopen ⊢ <;> simpa using hopen
    | stop Y =>
      simp only [Party.after, Event.replied, Event.answered] at hopen ⊢
      split_ifs at hopen ⊢ <;> simpa using hopen
    | handle Y m reply =>
      by_cases hY : Y = X
      · subst hY
        simp only [Party.after] at hopen
        simp [Party.after, Event.replied, Event.answered, henabled.2, hopen]
      · simpa [Party.after, Event.replied, Event.answered, hY] using hopen
    | answer Y m =>
      by_cases hY : Y = X
      · subst hY
        simp [Party.after, Event.replied, Event.answered, henabled.1, henabled.2]
      · simp only [Party.after, if_neg hY] at hopen ⊢
        simp [Event.replied, Event.answered, hY, hopen]
    | forgo Y =>
      by_cases hY : Y = X
      · simp [Party.after, hY] at hopen
      · simp only [Party.after, if_neg hY] at hopen ⊢
        simp [Event.replied, Event.answered, hopen]
  · intro s e t h _
    obtain ⟨henabled, -⟩ := step_eq_some h
    cases e with
    | answer Y m =>
      by_cases hY : Y = X
      · subst hY
        simp [Event.answered, henabled.1]
      · simp [Event.answered, hY]
    | accept Y ms | post Y m | stop Y | handle Y m reply | forgo Y => exact List.nil_prefix
  · intro s e t h hshut
    obtain ⟨henabled, -⟩ := step_eq_some h
    cases e with
    | answer Y m =>
      have hne : Y ≠ X := by
        rintro rfl
        exact hshut henabled.2
      exact if_neg hne
    | accept Y ms | post Y m | stop Y | handle Y m reply | forgo Y => rfl

omit [DecidableEq μ] in
/-- A party that sends nothing in reply sends what it posts. -/
theorem sent_eq_posted {es : List (Event ι μ)} {X : ι} (h : es.flatMap (Event.answered X) = []) :
    es.flatMap (Event.sent X) = es.flatMap (Event.posted X) := by
  rw [List.flatMap_eq_nil_iff] at h
  refine List.flatMap_congr fun e he => ?_
  have hnone := h e he
  cases e with
  | answer Y m => simpa [Event.answered, Event.sent, Event.posted] using hnone
  | accept Y ms | post Y m | stop Y | handle Y m reply | forgo Y => rfl

variable {s t : ι → Party μ} {es : List (Event ι μ)}

/-- What a party has handled are the first messages that its peer has sent; the others are on the
link. -/
theorem handled_sent (hpeer : Function.Involutive peer) (hs : (exchange peer).init s)
    (hrun : (exchange peer).run s es = some t) (X : ι) :
    es.flatMap (Event.sent (peer X)) = es.flatMap (Event.handled X) ++ (t (peer X)).link := by
  have h := ((buffer_link hpeer X).run_open trivial hrun).2
  obtain rfl : s = _ := hs
  exact h

/-- What a party has posted are the first messages that it has accepted. -/
theorem posted_accepted (hs : (exchange peer).init s) (hrun : (exchange peer).run s es = some t)
    (X : ι) : es.flatMap (Event.posted X) <+: es.flatMap (Event.accepted X) := by
  obtain rfl : s = _ := hs
  exact (buffer_queue X).run_first rfl hrun

/-- As long as the party is not stopped, the others are in its queue. -/
theorem accepted_eq (hs : (exchange peer).init s) (hrun : (exchange peer).run s es = some t) {X : ι}
    (hopen : (t X).stopped = false) :
    es.flatMap (Event.accepted X) = es.flatMap (Event.posted X) ++ (t X).queue := by
  have h := ((buffer_queue X).run_open hopen hrun).2
  obtain rfl : s = _ := hs
  exact h

/-- What a party has sent in reply are the replies to the first messages that it has handled. -/
theorem answered_replied (hs : (exchange peer).init s) (hrun : (exchange peer).run s es = some t)
    (X : ι) : es.flatMap (Event.answered X) <+: es.flatMap (Event.replied X) := by
  obtain rfl : s = _ := hs
  exact (buffer_reply X).run_first rfl hrun

/-- As long as the party forgoes no reply, the last one of the others is still to be sent. -/
theorem replied_eq (hs : (exchange peer).init s) (hrun : (exchange peer).run s es = some t) {X : ι}
    (hopen : (t X).muted = false) :
    es.flatMap (Event.replied X) = es.flatMap (Event.answered X) ++ (t X).reply.toList := by
  have h := ((buffer_reply X).run_open hopen hrun).2
  obtain rfl : s = _ := hs
  exact h

end Laws

end Exchange
