import Borderless.Runtime.Client

/-!
# The backoff after a session

`ClientRuntime::run` sets the index of the backoff to zero when an attempt returns `Ok`. What an
attempt returns is what its session returns, and that is what `reader_loop` returns, which leaves
its loop only by the `?` on `recv_frame`: a session never ends with `Ok`, so the index grows with
every attempt (`delays_run`), whether it gave a session or not.
-/

namespace Borderless.Runtime

open Borderless.Transport

/-! ## What a session returns -/

/-- The result of `reader_loop` over what `recv_frame` returns, or `none` while it goes on. The arms
for the frames do not end the loop. -/
def readerLoop : List (Except Error WireFrame) → Option (Except Error Unit)
  | [] => none
  | .error e :: _ => some (.error e)
  | .ok _ :: frames => readerLoop frames

/-- What a session meets. -/
structure SessionEnv where
  /-- `open_local_clipboard`. -/
  clipboard : Except Error Unit
  /-- What `recv_frame` returns. -/
  frames : List (Except Error WireFrame)
  /-- Whether the writer task ends, which is awaited after the loop. -/
  writerEnds : Bool

/-- The result of `run_session`, or `none` while it goes on. -/
def runSession (env : SessionEnv) : Option (Except Error Unit) :=
  match env.clipboard with
  | .error e => some (.error e)
  | .ok () =>
    match readerLoop env.frames with
    | none => none
    | some result => if env.writerEnds then some result else none

/-- The loop of the reader ends with an error only. -/
theorem readerLoop_error {frames : List (Except Error WireFrame)} {result : Except Error Unit}
    (h : readerLoop frames = some result) : ∃ e, result = .error e := by
  induction frames with
  | nil => cases h
  | cons frame frames ih =>
    cases frame with
    | error e => exact ⟨e, (Option.some.inj h).symm⟩
    | ok frame => exact ih h

/-- A session that ends fails. -/
theorem runSession_error {env : SessionEnv} {result : Except Error Unit}
    (h : runSession env = some result) : ∃ e, result = .error e := by
  unfold runSession at h
  cases hclip : env.clipboard with
  | error e =>
    simp only [hclip] at h
    exact ⟨e, (Option.some.inj h).symm⟩
  | ok _ =>
    cases hloop : readerLoop env.frames with
    | none => simp [hclip, hloop] at h
    | some r =>
      simp only [hclip, hloop] at h
      split_ifs at h
      obtain rfl := Option.some.inj h
      exact readerLoop_error hloop

/-! ## What an attempt returns -/

/-- The sessions of an attempt, if it dials, are results of `run_session`. -/
def Ended (lookup : Except String (List Candidate)) : Prop :=
  ∀ addrs, lookup = .ok addrs → ∀ addr ∈ addrs, ∃ env, runSession env = some addr.session

/-- Whether an attempt has established a session: one of its dials succeeded. -/
def established (dials : List Dial) : Bool := dials.any fun d => d.result.isOk

/-- Which attempts of a run establish a session. -/
def sessions (c : Crates) (rt : ClientRuntime) :
    PeerStore → List (Except String (List Candidate)) → List Bool
  | _, [] => []
  | store, lookup :: attempts =>
    let (_, store', dials) := runOnce c rt store lookup
    established dials :: sessions c rt store' attempts

/-- The number of attempts without a session since the last one with a session. -/
def failures (sessions : List Bool) : ℕ := sessions.foldl (fun k s => if s then 0 else k + 1) 0

/-- Every delay is at most that of the backoff for the attempts without a session up to then. -/
def BackoffRestarts (delays : List ℕ) (sessions : List Bool) : Prop :=
  ∀ i delay, delays[i]? = some delay →
    delay ≤ backoff.getD (min (failures (sessions.take (i + 1))) 4) 0

section Run

variable {c : Crates} {rt : ClientRuntime} {store : PeerStore}
  {attempts : List (Except String (List Candidate))}

/-- An attempt fails, whether it establishes a session or not. -/
theorem runOnce_error (c : Crates) (rt : ClientRuntime) (store : PeerStore)
    {lookup : Except String (List Candidate)} (h : Ended lookup) :
    ∃ e, (runOnce c rt store lookup).1 = .error e := by
  have htry : ∀ addrs : List Candidate, (∀ addr ∈ addrs, ∃ env, runSession env = some addr.session) →
      ∀ store lastErr, ∃ e, (tryAddrs c rt store lastErr addrs).1 = .error e := by
    intro addrs
    induction addrs with
    | nil => exact fun _ _ _ => ⟨_, rfl⟩
    | cons addr addrs ih =>
      intro haddrs store lastErr
      rw [List.forall_mem_cons] at haddrs
      unfold tryAddrs
      rcases dial c rt addr.env store with ⟨e | conn, store'⟩
      · exact ih haddrs.2 store' (some e)
      · obtain ⟨env, hsession⟩ := haddrs.1
        obtain ⟨e, he⟩ := runSession_error hsession
        exact ⟨.session e, by rw [he]; rfl⟩
  unfold runOnce
  split
  · exact ⟨_, rfl⟩
  · exact ⟨_, rfl⟩
  · refine htry _ (fun addr haddr => ?_) store none
    have hmem := h _ rfl addr
    unfold preferIpv4 at haddr
    simp only [List.mem_append, List.mem_filter] at haddr
    exact hmem (haddr.elim And.left And.left)

/-- The delays of a run are those of the backoff, one after the other. -/
theorem delays_run (h : ∀ lookup ∈ attempts, Ended lookup) (idx i : ℕ) :
    (run c rt store idx attempts).delays[i]? =
      if i < attempts.length then some (backoff.getD (min (idx + i) 4) 0) else none := by
  induction attempts generalizing store idx i with
  | nil => simp [run]
  | cons lookup attempts ih =>
    rw [List.forall_mem_cons] at h
    obtain ⟨e, herror⟩ := runOnce_error c rt store h.1
    unfold run
    rcases hrun : runOnce c rt store lookup with ⟨result, store', dials⟩
    rw [hrun] at herror
    dsimp only at herror
    subst herror
    have hlast : backoff.length - 1 = 4 := rfl
    -- a failed attempt moves the index on, up to the end of the schedule
    cases i with
    | zero => simp [hlast]
    | succ i =>
      have hidx : min (min (idx + 1) 4 + i) 4 = min (idx + (i + 1)) 4 := by omega
      simp only [hlast, List.getElem?_cons_succ, ih h.2, hidx, List.length_cons,
        Nat.add_lt_add_iff_right]

/-- Each attempt is a session or none. -/
theorem length_sessions (c : Crates) (rt : ClientRuntime) (store : PeerStore)
    (attempts : List (Except String (List Candidate))) :
    (sessions c rt store attempts).length = attempts.length := by
  induction attempts generalizing store with
  | nil => rfl
  | cons lookup attempts ih => simp [sessions, ih]

/-- The number of failures after one more attempt. -/
theorem failures_take_succ {sessions : List Bool} {i : ℕ} (hi : i < sessions.length) :
    failures (sessions.take (i + 1)) =
      if sessions[i] then 0 else failures (sessions.take i) + 1 := by
  unfold failures
  rw [List.take_succ_eq_append_getElem hi, List.foldl_append]
  rfl

/-- If no attempt but the first establishes a session, each other one counts as a failure. -/
theorem le_failures {sessions : List Bool} (h : ∀ i, 0 < i → sessions[i]? ≠ some true) {i : ℕ}
    (hi : i < sessions.length) : i ≤ failures (sessions.take (i + 1)) := by
  induction i with
  | zero => exact Nat.zero_le _
  | succ i ih =>
    have hfail : sessions[i + 1] = false := by
      have hne := h (i + 1) (Nat.succ_pos i)
      rwa [List.getElem?_eq_getElem hi, ne_eq, Option.some.injEq, Bool.not_eq_true] at hne
    have hle := ih (Nat.lt_of_succ_lt hi)
    rw [failures_take_succ hi, hfail, if_neg Bool.false_ne_true]
    omega

/-- A longer wait comes with a larger index. -/
theorem backoff_mono {i k : ℕ} (h : i ≤ k) :
    backoff.getD (min i 4) 0 ≤ backoff.getD (min k 4) 0 := by
  have hall : ∀ a < 5, ∀ b < 5, a ≤ b → backoff.getD a 0 ≤ backoff.getD b 0 := by decide
  exact hall _ (by omega) _ (by omega) (by omega)

/-- When the backoff restarts. Over all sequences of attempts, each of which fails before a
connection is established or establishes a session that ends, every delay is at most that of the
backoff for the number of attempts without a session since the last one with a session, if and only
if no attempt but the first establishes a session. -/
theorem backoff_restarts_iff (c : Crates) (rt : ClientRuntime) (store : PeerStore)
    (attempts : List (Except String (List Candidate))) (h : ∀ lookup ∈ attempts, Ended lookup) :
    BackoffRestarts (run c rt store 0 attempts).delays (sessions c rt store attempts) ↔
      ∀ i, 0 < i → (sessions c rt store attempts)[i]? ≠ some true := by
  have hlength := length_sessions c rt store attempts
  constructor
  · intro hrestarts i hi hsession
    obtain ⟨hlt, hget⟩ := List.getElem?_eq_some_iff.1 hsession
    have hlt' : i < attempts.length := by rwa [hlength] at hlt
    have hdelay : (run c rt store 0 attempts).delays[i]? = some (backoff.getD (min i 4) 0) := by
      rw [delays_run h, if_pos hlt', Nat.zero_add]
    -- after a session the backoff should be at its start, but it is beyond that
    have hstart : backoff.getD (min i 4) 0 ≤ 1 := by
      have hle := hrestarts i _ hdelay
      rwa [failures_take_succ hlt, hget, if_pos rfl] at hle
    have hbeyond : 2 ≤ backoff.getD (min i 4) 0 := backoff_mono hi
    omega
  · intro hfails i delay hdelay
    rw [delays_run h, Nat.zero_add] at hdelay
    split_ifs at hdelay with hi
    obtain rfl := Option.some.inj hdelay
    exact backoff_mono (le_failures hfails (by rwa [hlength]))

end Run

section Example

/-- The session with `answeredBy b` ends. -/
theorem ended_answeredBy (b : UInt8) : Ended (answeredBy b) := by
  intro addrs haddrs addr haddr
  obtain rfl := Except.ok.inj haddrs
  obtain rfl := List.mem_singleton.1 haddr
  exact ⟨⟨.ok (), [.error (.io "unexpected end of file")], true⟩, rfl⟩

/-- Without an address there is no session. -/
theorem ended_error (e : String) : Ended (.error e) := fun _ h => nomatch h

/-- A session in the first attempt is no trouble. -/
theorem first_session_restarts :
    BackoffRestarts (run sampleCrates pairingSpoke ⟨none, ∅⟩ 0 [answeredBy 1, .error "no network"]).delays
      (sessions sampleCrates pairingSpoke ⟨none, ∅⟩ [answeredBy 1, .error "no network"]) := by
  refine (backoff_restarts_iff _ _ _ _ ?_).2 ?_
  · rw [List.forall_mem_cons, List.forall_mem_singleton]
    exact ⟨ended_answeredBy 1, ended_error _⟩
  · have hsessions : sessions sampleCrates pairingSpoke ⟨none, ∅⟩ [answeredBy 1, .error "no network"] =
        [true, false] := by decide +kernel
    rw [hsessions]
    intro i hi
    match i with
    | 1 => decide
    | i + 2 => simp

/-- A session in the second attempt does not reset the backoff. -/
theorem second_session_waits : ¬ ∀ (c : Crates) (rt : ClientRuntime) store attempts,
    (∀ lookup ∈ attempts, Ended lookup) →
      BackoffRestarts (run c rt store 0 attempts).delays (sessions c rt store attempts) := by
  intro h
  have hended : ∀ lookup ∈ [.error "no network", answeredBy 1], Ended lookup := by
    rw [List.forall_mem_cons, List.forall_mem_singleton]
    exact ⟨ended_error _, ended_answeredBy 1⟩
  have hdelays : (run sampleCrates pairingSpoke ⟨none, ∅⟩ 0 [.error "no network", answeredBy 1]).delays =
      [1, 2] := by decide +kernel
  have hsessions : sessions sampleCrates pairingSpoke ⟨none, ∅⟩ [.error "no network", answeredBy 1] =
      [false, true] := by decide +kernel
  have hrestarts := h sampleCrates pairingSpoke ⟨none, ∅⟩ _ hended
  rw [hdelays, hsessions] at hrestarts
  exact absurd (hrestarts 1 2 rfl) (by decide)

end Example

end Borderless.Runtime
