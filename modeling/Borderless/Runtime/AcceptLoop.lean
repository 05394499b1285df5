import Borderless.Lib.Transition
import Borderless.Transport.Handshake

/-!
# The accept loop of the hub

`ServerRuntime::run` in `crates/cli/src/runtime/server.rs` awaits `Listener::accept`
(`crates/transport/src/listener.rs`) again and again: one TCP connection is taken, TLS is established
on it, and the Hellos are exchanged, before the next connection is taken. A connection that is
authenticated gets its session, and after a failure the loop sleeps. There is no limit on the time
that a client takes.

The clients are the TCP connections in the order in which they arrive. What has arrived from a client
grows as the client sends, and a client may send nothing. rustls is not part of the repository: what
it makes of the bytes of a connection is a parameter.
-/

namespace Borderless.Runtime

open Borderless.Transport Transition

/-- `Listener`, and what rustls makes of the bytes that arrive on the `i`-th connection. -/
structure Listener where
  /-- Long-term identity. -/
  identity : Identity
  /-- Display name in the Hello. -/
  name : String
  /-- Whether new peers are trusted on first use. -/
  acceptNewPeers : Bool
  /-- The result of `TlsAcceptor::accept`, the export of the keying material included; `none` where
  it needs more bytes. -/
  tlsAccept : ℕ → List UInt8 → Option (Except String Unit)
  /-- The exporter of the TLS session. -/
  exporter : ℕ → Bytes 32
  /-- The application data in the bytes, and the error where these are no TLS records. -/
  decrypt : ℕ → List UInt8 → List UInt8 × Option String

/-- A TCP connection. -/
structure Client where
  /-- The bytes that have arrived. -/
  arrived : List UInt8
  /-- Whether the client has closed its side. -/
  hungUp : Bool
deriving DecidableEq

/-- How far the accept loop is. -/
inductive AcceptStage
  /-- It waits for a TCP connection. -/
  | accepting
  /-- It runs the TLS accept on the connection `i`. -/
  | tls (i : ℕ)
  /-- It exchanges the Hellos on the connection `i`. -/
  | hello (i : ℕ)
  /-- It sleeps after a failure. -/
  | sleeping
deriving DecidableEq

/-- The state of the accept loop and its clients. -/
structure AcceptLoop where
  /-- All connections so far. -/
  clients : List Client
  /-- How many of them the listener has taken. -/
  taken : ℕ
  /-- The accept loop. -/
  stage : AcceptStage
  /-- The peer store. -/
  store : PeerStore
  /-- The connections that got a session. -/
  admitted : List ℕ

/-- What a step of the hub meets. -/
structure AcceptEnv where
  /-- The wall clock in seconds. -/
  now : UInt64
  /-- The disk under the peer store. -/
  storage : Storage
  /-- The error of a write to the client, if writes fail. -/
  writeError : Option String

/-- The steps of the accept loop and its clients. -/
inductive AcceptLabel
  /-- A client connects. -/
  | connect
  /-- Bytes of the client `i` arrive. -/
  | arrive (i : ℕ) (bytes : List UInt8)
  /-- The client `i` closes its side. -/
  | hangUp (i : ℕ)
  /-- The TCP accept fails. -/
  | tcpError
  /-- The hub goes on. -/
  | hub (env : AcceptEnv)

namespace Listener

/-- The arguments of `handshake` on the connection `i`. -/
def call (l : Listener) (i : ℕ) (client : Client) (env : AcceptEnv) : HandshakeCall where
  stream :=
    let (plaintext, broken) := l.decrypt i client.arrived
    ⟨plaintext, broken.getD "unexpected end of file", env.writeError⟩
  exporter := l.exporter i
  identity := l.identity
  name := l.name
  acceptNewPeers := l.acceptNewPeers
  expectedPubkey := none
  isInitiator := false
  now := env.now
  storage := env.storage

/-- The Hello that the hub sends on the connection `i`. -/
def ourHello (l : Listener) (i : ℕ) : SignedHello :=
  ⟨l.identity.pubkey, l.name, protocolV0, (l.identity.sign (binding (l.exporter i))).toList⟩

/-- Whether `read_hello` runs out of bytes on what has arrived. -/
def needsMore (c : Crates) (l : Listener) (i : ℕ) (client : Client) : Bool :=
  match readHello c ⟨(l.decrypt i client.arrived).1, "", none⟩ with
  | .error (.io _) => true
  | _ => false

/-- What the TLS accept on the connection `i` has come to, if it does not wait. -/
def tlsResult (l : Listener) (i : ℕ) (client : Client) : Option (Except String Unit) :=
  match l.tlsAccept i client.arrived with
  | some result => some result
  | none => if client.hungUp then some (.error "tls handshake eof") else none

/-- Whether the exchange of Hellos on the connection `i` does not wait: the hub's own Hello cannot be
encoded, or the stream is at an end, or `read_hello` has all it reads. -/
def helloSettled (c : Crates) (l : Listener) (i : ℕ) (client : Client) : Bool :=
  (c.encodeHello (l.ourHello i)).toOption.isNone || client.hungUp ||
    (l.decrypt i client.arrived).2.isSome || !l.needsMore c i client

end Listener

namespace AcceptLoop

/-- A hub that has just started. -/
def start (store : PeerStore) : AcceptLoop := ⟨[], 0, .accepting, store, []⟩

/-- The accept loop goes on. -/
def hubStep (c : Crates) (l : Listener) (s : AcceptLoop) (env : AcceptEnv) : Option AcceptLoop :=
  match s.stage with
  | .accepting =>
    if s.taken < s.clients.length then
      some { s with taken := s.taken + 1, stage := .tls s.taken }
    else none
  | .tls i =>
    match s.clients[i]?.bind (l.tlsResult i) with
    | some (.ok ()) => some { s with stage := .hello i }
    | some (.error _) => some { s with stage := .sleeping }
    | none => none
  | .hello i =>
    match s.clients[i]? with
    | some client =>
      if l.helloSettled c i client then
        match handshake c (l.call i client env) s.store with
        | (.ok _, store) =>
          some { s with store := store, admitted := s.admitted ++ [i], stage := .accepting }
        | (.error _, store) => some { s with store := store, stage := .sleeping }
      else none
    | none => none
  | .sleeping => some { s with stage := .accepting }

/-- One step. -/
def step (c : Crates) (l : Listener) (s : AcceptLoop) : AcceptLabel → Option AcceptLoop
  | .connect => some { s with clients := s.clients ++ [⟨[], false⟩] }
  | .arrive i bytes =>
    some { s with
      clients := s.clients.modify i fun client =>
        if client.hungUp then client else { client with arrived := client.arrived ++ bytes } }
  | .hangUp i =>
    some { s with clients := s.clients.modify i fun client => { client with hungUp := true } }
  | .tcpError =>
    match s.stage with
    | .accepting => some { s with stage := .sleeping }
    | _ => none
  | .hub env => s.hubStep c l env

end AcceptLoop

/-- The accept loop. A run starts with no connection, and any peers may be known. -/
def acceptLoop (c : Crates) (l : Listener) : System AcceptLoop AcceptLabel where
  init s := ∃ store, s = AcceptLoop.start store
  step := AcceptLoop.step c l

/-- The hub steps that the connection in hand takes at most. -/
def AcceptStage.cost : AcceptStage → ℕ
  | .accepting => 0
  | .sleeping => 1
  | .hello _ => 2
  | .tls _ => 3

namespace AcceptLoop

variable {c : Crates} {l : Listener} {s t : AcceptLoop} {i : ℕ} {env : AcceptEnv}

/-- The client `i` waits to be admitted: its connection is still to be taken, or is being handled. -/
def Waiting (s : AcceptLoop) (i : ℕ) : Prop :=
  i < s.clients.length ∧ (s.taken ≤ i ∨ s.stage = .tls i ∨ s.stage = .hello i)

/-- The hub handles the connection `i`, and waits for bytes that have not arrived on it. -/
def AwaitsBytes (c : Crates) (l : Listener) (s : AcceptLoop) (i : ℕ) : Prop :=
  ∃ client, s.clients[i]? = some client ∧
    (s.stage = .tls i ∧ l.tlsResult i client = none ∨
      s.stage = .hello i ∧ l.helloSettled c i client = false)

/-- What has arrived from an honest client that is paired: it is connected, TLS does not fail on it,
and once its Hello is there, the Hello is signed and of a known key. -/
structure Honest (c : Crates) (l : Listener) (s : AcceptLoop) (i : ℕ) (client : Client) : Prop where
  /-- It is the client `i`. -/
  present : s.clients[i]? = some client
  /-- It stays connected. -/
  connected : client.hungUp = false
  /-- It completes the TLS handshake. -/
  tls : ∀ e, l.tlsAccept i client.arrived ≠ some (.error e)
  /-- It sends TLS records. -/
  records : (l.decrypt i client.arrived).2 = none
  /-- It sends a Hello that verifies, with its paired key. -/
  hello : l.needsMore c i client = false → ∃ hello rest,
    readHello c ⟨(l.decrypt i client.arrived).1, "", none⟩ = .ok (hello, rest) ∧
      (∀ env, Verified c (l.call i client env) hello) ∧ s.store.isKnown hello.pubkey = true

/-- The connection that is handled has been taken, and only connections that are there have. -/
structure Sound (s : AcceptLoop) : Prop where
  /-- What has been taken is there. -/
  taken_le : s.taken ≤ s.clients.length
  /-- What is handled has been taken. -/
  handled : ∀ i, s.stage = .tls i ∨ s.stage = .hello i → i < s.taken

/-- The hub steps until the client `i` is admitted, at most. -/
def stepsTo (s : AcceptLoop) (i : ℕ) : ℕ :=
  if s.taken ≤ i then 4 * (i - s.taken) + s.stage.cost + 3 else s.stage.cost - 1

/-! ## The steps of the accept loop -/

/-- What a step of the accept loop does. -/
theorem hubStep_cases (h : s.hubStep c l env = some t) :
    (s.stage = .accepting ∧ s.taken < s.clients.length ∧
      t = { s with taken := s.taken + 1, stage := .tls s.taken }) ∨
    (∃ j client, s.stage = .tls j ∧ s.clients[j]? = some client ∧
      (l.tlsResult j client = some (.ok ()) ∧ t = { s with stage := .hello j } ∨
        ∃ e, l.tlsResult j client = some (.error e) ∧ t = { s with stage := .sleeping })) ∨
    (∃ j client store, s.stage = .hello j ∧ s.clients[j]? = some client ∧
      l.helloSettled c j client = true ∧
      ((∃ conn, handshake c (l.call j client env) s.store = (.ok conn, store)) ∧
          t = { s with store := store, admitted := s.admitted ++ [j], stage := .accepting } ∨
        (∃ e, handshake c (l.call j client env) s.store = (.error e, store)) ∧
          t = { s with store := store, stage := .sleeping })) ∨
    (s.stage = .sleeping ∧ t = { s with stage := .accepting }) := by
  unfold hubStep at h
  split at h
  · next hstage =>
    split_ifs at h with hlt
    exact .inl ⟨hstage, hlt, (Option.some.inj h).symm⟩
  · next j hstage =>
    cases hj : s.clients[j]? with
    | none => simp [hj] at h
    | some client =>
      simp only [hj, Option.bind_some] at h
      split at h
      · next hresult =>
        exact .inr (.inl ⟨j, client, hstage, hj, .inl ⟨hresult, (Option.some.inj h).symm⟩⟩)
      · next e hresult =>
        exact .inr (.inl ⟨j, client, hstage, hj, .inr ⟨e, hresult, (Option.some.inj h).symm⟩⟩)
      · cases h
  · next j hstage =>
    split at h
    · next client hj =>
      split_ifs at h with hsettled
      split at h
      · next conn store hok =>
        exact .inr (.inr (.inl ⟨j, client, store, hstage, hj, hsettled,
          .inl ⟨⟨conn, hok⟩, (Option.some.inj h).symm⟩⟩))
      · next e store herror =>
        exact .inr (.inr (.inl ⟨j, client, store, hstage, hj, hsettled,
          .inr ⟨⟨e, herror⟩, (Option.some.inj h).symm⟩⟩))
    · cases h
  · next hstage => exact .inr (.inr (.inr ⟨hstage, (Option.some.inj h).symm⟩))

/-- The accept loop takes a connection only when it has handled the one before. -/
theorem sound_step {a : AcceptLabel} (hs : s.Sound) (h : s.step c l a = some t) : t.Sound := by
  obtain ⟨htaken, hhandled⟩ := hs
  cases a with
  | connect =>
    obtain rfl := Option.some.inj h
    refine ⟨?_, hhandled⟩
    simp only [List.length_append, List.length_singleton]
    omega
  | arrive i bytes =>
    obtain rfl := Option.some.inj h
    exact ⟨by simpa using htaken, hhandled⟩
  | hangUp i =>
    obtain rfl := Option.some.inj h
    exact ⟨by simpa using htaken, hhandled⟩
  | tcpError =>
    simp only [step] at h
    split at h
    · cases h
      exact ⟨htaken, by simp⟩
    · cases h
  | hub env =>
    rcases hubStep_cases h with ⟨-, hlt, rfl⟩ | ⟨j, client, hstage, -, ⟨-, rfl⟩ | ⟨e, -, rfl⟩⟩ |
      ⟨j, client, store, hstage, -, -, ⟨-, rfl⟩ | ⟨-, rfl⟩⟩ | ⟨hstage, rfl⟩
    · refine ⟨hlt, fun i hi => ?_⟩
      have hi : s.taken = i := by simpa using hi
      -- the connection that is taken was there
      show i < s.taken + 1
      omega
    · refine ⟨htaken, fun i hi => ?_⟩
      have hi : j = i := by simpa using hi
      exact hi ▸ hhandled j (.inl hstage)
    all_goals exact ⟨htaken, by simp⟩

/-- In every run. -/
theorem sound_of_reachable (hs : (acceptLoop c l).Reachable s) : s.Sound := by
  refine hs.invariant (I := Sound) (fun s hinit => ?_) fun s a t hs _ h => sound_step hs h
  obtain ⟨store, rfl⟩ := hinit
  exact ⟨le_rfl, by simp [start]⟩

/-- During a TLS accept the hub waits for bytes when rustls needs more. -/
theorem awaitsBytes_tls_iff {client : Client} (hstage : s.stage = .tls i)
    (hclient : s.clients[i]? = some client) :
    (∃ j, s.AwaitsBytes c l j) ↔ l.tlsResult i client = none := by
  constructor
  · rintro ⟨j, client', hj, hawaits⟩
    simp only [hstage, AcceptStage.tls.injEq, reduceCtorEq, false_and, or_false] at hawaits
    obtain ⟨rfl, hnone⟩ := hawaits
    obtain rfl := Option.some.inj (hj.symm.trans hclient)
    exact hnone
  · intro hnone
    exact ⟨i, client, hclient, .inl ⟨hstage, hnone⟩⟩

/-- During the exchange of Hellos the hub waits for bytes until it is settled. -/
theorem awaitsBytes_hello_iff {client : Client} (hstage : s.stage = .hello i)
    (hclient : s.clients[i]? = some client) :
    (∃ j, s.AwaitsBytes c l j) ↔ l.helloSettled c i client = false := by
  constructor
  · rintro ⟨j, client', hj, hawaits⟩
    simp only [hstage, AcceptStage.hello.injEq, reduceCtorEq, false_and, false_or] at hawaits
    obtain ⟨rfl, hunsettled⟩ := hawaits
    obtain rfl := Option.some.inj (hj.symm.trans hclient)
    exact hunsettled
  · intro hunsettled
    exact ⟨i, client, hclient, .inr ⟨hstage, hunsettled⟩⟩

/-- Between two connections the hub waits for no bytes. -/
theorem not_awaitsBytes (htls : ∀ j, s.stage ≠ .tls j) (hhello : ∀ j, s.stage ≠ .hello j) (j : ℕ) :
    ¬ s.AwaitsBytes c l j := by
  rintro ⟨client, -, ⟨hstage, -⟩ | ⟨hstage, -⟩⟩
  · exact htls j hstage
  · exact hhello j hstage

/-- The hub can go on exactly when it does not wait for bytes, as long as some client waits. -/
theorem hubStep_isSome_iff (hs : s.Sound) (hwaiting : s.Waiting i) (env : AcceptEnv) :
    (∃ t, s.hubStep c l env = some t) ↔ ∀ j, ¬ s.AwaitsBytes c l j := by
  -- what is handled is there
  have hclient : ∀ j, s.stage = .tls j ∨ s.stage = .hello j →
      ∃ client, s.clients[j]? = some client := by
    intro j hj
    have hj' := hs.handled j hj
    have hle := hs.taken_le
    exact ⟨_, List.getElem?_eq_getElem (by omega)⟩
  rw [← not_exists]
  unfold hubStep
  cases hstage : s.stage with
  | accepting =>
    have hle : s.taken ≤ i := by simpa [hstage] using hwaiting.2
    have htaken : s.taken < s.clients.length := lt_of_le_of_lt hle hwaiting.1
    refine iff_of_true ⟨_, if_pos htaken⟩ (not_exists.2 (not_awaitsBytes ?_ ?_))
    · simp [hstage]
    · simp [hstage]
  | tls j =>
    obtain ⟨client, hj⟩ := hclient j (.inl hstage)
    rw [awaitsBytes_tls_iff hstage hj]
    simp only [hj, Option.bind_some]
    -- the hub waits while TLS has no result
    rcases l.tlsResult j client with _ | _ | _ <;> simp
  | hello j =>
    obtain ⟨client, hj⟩ := hclient j (.inr hstage)
    rw [awaitsBytes_hello_iff hstage hj]
    simp only [hj, Bool.not_eq_false]
    cases l.helloSettled c j client with
    | false => simp
    | true =>
      rcases handshake c (l.call j client env) s.store with ⟨_ | _, store⟩ <;> simp
  | sleeping =>
    refine iff_of_true ⟨_, rfl⟩ (not_exists.2 (not_awaitsBytes ?_ ?_))
    · simp [hstage]
    · simp [hstage]

/-! ## The way of an honest client -/

/-- The hub's step on other connections leaves an honest client honest. -/
theorem Honest.of_eq {client : Client} (h : s.Honest c l i client) (hclients : t.clients = s.clients)
    (hstore : ∀ k, s.store.isKnown k = true → t.store.isKnown k = true) :
    t.Honest c l i client := by
  refine ⟨by rw [hclients]; exact h.present, h.connected, h.tls, h.records, fun hmore => ?_⟩
  obtain ⟨hello, rest, hread, hverified, hknown⟩ := h.hello hmore
  exact ⟨hello, rest, hread, hverified, hstore _ hknown⟩

/-- The TLS accept does not fail on an honest client. -/
theorem Honest.tlsResult {client : Client} (h : s.Honest c l i client) (e : String) :
    l.tlsResult i client ≠ some (.error e) := by
  unfold Listener.tlsResult
  split
  · next result hresult =>
    rw [← hresult]
    exact h.tls e
  · simp [h.connected]

/-- The handshake with an honest client succeeds once its Hello is there. -/
theorem Honest.handshake {client : Client} (h : s.Honest c l i client)
    (hencode : ∃ bytes, c.encodeHello (l.ourHello i) = .ok bytes)
    (hsettled : l.helloSettled c i client = true) (hwrite : env.writeError = none) :
    ∃ conn, (handshake c (l.call i client env) s.store).1 = .ok conn := by
  obtain ⟨bytes, hbytes⟩ := hencode
  have hmore : l.needsMore c i client = false := by
    simpa [Listener.helloSettled, hbytes, h.connected, h.records, Except.toOption] using hsettled
  obtain ⟨hello, rest, hread, hverified, hknown⟩ := h.hello hmore
  have hincoming : (l.call i client env).stream.incoming = (l.decrypt i client.arrived).1 := rfl
  have hread' : readHello c (l.call i client env).stream = .ok (hello, rest) :=
    readHello_of_ok hincoming hread
  have hexchange : exchangeHellos c (l.call i client env) = .ok (hello, rest) := by
    have hours : ourHello (l.call i client env) = l.ourHello i := rfl
    have hstream : (l.call i client env).stream.writeError = none := hwrite
    have hinitiator : (l.call i client env).isInitiator = false := rfl
    simp only [exchangeHellos, hours, hbytes, hinitiator, hread', writeFramedRaw, hstream,
      Except.mapError, bind, Except.bind, Bool.false_eq_true, if_false]
  refine ⟨_, handshake_ok_iff.2 ⟨hello, rest, hexchange, hverified env, ?_, ?_, rfl⟩⟩
  · intro expected hexpected
    cases hexpected
  · exact admitPeer_ok_iff.2 (.inl hknown)

/-- An honest client whose connection is still to be taken comes nearer when the connection in hand
comes nearer to its end. -/
theorem Honest.comes_nearer {client : Client} (hhonest : s.Honest c l i client)
    (hlt : i < s.clients.length) (hle : s.taken ≤ i) (hclients : t.clients = s.clients)
    (htaken : t.taken = s.taken)
    (hstore : ∀ k, s.store.isKnown k = true → t.store.isKnown k = true)
    (hcost : t.stage.cost < s.stage.cost) :
    t.Waiting i ∧ t.Honest c l i client ∧ t.stepsTo i < s.stepsTo i := by
  refine ⟨⟨by rw [hclients]; exact hlt, .inl (by rw [htaken]; exact hle)⟩,
    hhonest.of_eq hclients hstore, ?_⟩
  simp only [stepsTo, htaken, if_pos hle]
  omega

/-- A step of the hub admits the honest client, or brings it nearer. -/
theorem hubStep_progress (hs : s.Sound) (hwaiting : s.Waiting i) {client : Client}
    (hhonest : s.Honest c l i client) (hencode : ∃ bytes, c.encodeHello (l.ourHello i) = .ok bytes)
    (hwrite : env.writeError = none) (h : s.hubStep c l env = some t) :
    i ∈ t.admitted ∨ (t.Waiting i ∧ t.Honest c l i client ∧ t.stepsTo i < s.stepsTo i) := by
  obtain ⟨hlt, hwhere⟩ := hwaiting
  have hsame : ∀ k, s.store.isKnown k = true → s.store.isKnown k = true := fun _ hk => hk
  rcases hubStep_cases h with ⟨hstage, -, rfl⟩ | ⟨j, client', hstage, hj, hresult⟩ |
    ⟨j, client', store, hstage, hj, hsettled, hresult⟩ | ⟨hstage, rfl⟩
  · -- the next connection is that of the client, or of one before it
    have hle : s.taken ≤ i := by simpa [hstage] using hwhere
    right
    refine ⟨⟨hlt, ?_⟩, hhonest.of_eq rfl hsame, ?_⟩
    · rcases hle.lt_or_eq with hlater | rfl
      · exact .inl hlater
      · exact .inr (.inl rfl)
    · simp only [stepsTo, hstage, AcceptStage.cost, if_pos hle]
      split_ifs <;> omega
  · right
    by_cases hself : j = i
    · -- TLS is established, and the Hellos come next
      subst hself
      obtain rfl := Option.some.inj (hj.symm.trans hhonest.present)
      have hgone : ¬ s.taken ≤ j := not_le.2 (hs.handled j (.inl hstage))
      rcases hresult with ⟨-, rfl⟩ | ⟨e, herror, -⟩
      · refine ⟨⟨hlt, .inr (.inr rfl)⟩, hhonest.of_eq rfl hsame, ?_⟩
        simp only [stepsTo, hstage, AcceptStage.cost, if_neg hgone]
        omega
      · exact absurd herror (hhonest.tlsResult e)
    · have hle : s.taken ≤ i := by simpa [hstage, hself] using hwhere
      rcases hresult with ⟨-, rfl⟩ | ⟨e, -, rfl⟩
      · exact hhonest.comes_nearer hlt hle rfl rfl hsame (by simp [hstage, AcceptStage.cost])
      · exact hhonest.comes_nearer hlt hle rfl rfl hsame (by simp [hstage, AcceptStage.cost])
  -- whether it succeeds or not, the handshake forgets no key
  · have hstore : ∀ k, s.store.isKnown k = true → store.isKnown k = true := by
      have heq : (handshake c (l.call j client' env) s.store).2 = store := by
        rcases hresult with ⟨⟨_, heq⟩, -⟩ | ⟨⟨_, heq⟩, -⟩
        · rw [heq]
        · rw [heq]
      rw [← heq]
      exact fun k hk => isKnown_handshake hk
    by_cases hself : j = i
    · -- the handshake succeeds
      subst hself
      obtain rfl := Option.some.inj (hj.symm.trans hhonest.present)
      obtain ⟨conn, hok⟩ := hhonest.handshake hencode hsettled hwrite
      rcases hresult with ⟨-, rfl⟩ | ⟨⟨e, herror⟩, -⟩
      · left
        exact List.mem_append_right _ (List.mem_singleton_self j)
      · rw [herror] at hok
        cases hok
    · have hle : s.taken ≤ i := by simpa [hstage, hself] using hwhere
      right
      rcases hresult with ⟨-, rfl⟩ | ⟨-, rfl⟩
      · exact hhonest.comes_nearer hlt hle rfl rfl hstore (by simp [hstage, AcceptStage.cost])
      · exact hhonest.comes_nearer hlt hle rfl rfl hstore (by simp [hstage, AcceptStage.cost])
  · have hle : s.taken ≤ i := by simpa [hstage] using hwhere
    right
    exact hhonest.comes_nearer hlt hle rfl rfl hsame (by simp [hstage, AcceptStage.cost])

/-- The client `j` keeps the hub waiting at no stage: it has sent all the hub reads, or what the hub
refuses, or it has hung up. -/
def Responsive (c : Crates) (l : Listener) (s : AcceptLoop) (j : ℕ) : Prop :=
  ∀ client, s.clients[j]? = some client →
    l.tlsResult j client ≠ none ∧ l.helloSettled c j client = true

end AcceptLoop

open AcceptLoop

/-- The admission of an honest client that is paired, whoever else connects. In every state of every
run in which it waits, the hub can take a step if and only if it does not wait, in the TLS accept or
the exchange of Hellos on the connection that it handles, for bytes that have not arrived on it. The
step admits the client, or leaves it fewer steps away from its admission. -/
theorem honest_client_progress (c : Crates) (l : Listener) {s : AcceptLoop}
    (hs : (acceptLoop c l).Reachable s) {i : ℕ} {client : Client} (hwaiting : s.Waiting i)
    (hhonest : s.Honest c l i client)
    (hencode : ∃ bytes, c.encodeHello (l.ourHello i) = .ok bytes) :
    (∀ env, (∃ t, (acceptLoop c l).step s (.hub env) = some t) ↔ ∀ j, ¬ s.AwaitsBytes c l j) ∧
    ∀ env t, env.writeError = none → (acceptLoop c l).step s (.hub env) = some t →
      i ∈ t.admitted ∨ (t.Waiting i ∧ t.Honest c l i client ∧ t.stepsTo i < s.stepsTo i) := by
  have hsound : s.Sound := sound_of_reachable hs
  constructor
  · intro env
    exact hubStep_isSome_iff hsound hwaiting env
  · intro env t hwrite h
    exact hubStep_progress hsound hwaiting hhonest hencode hwrite h

section Example

/-- A hub with the key of the node `9`, behind a TLS of one byte. -/
def sampleListener : Listener where
  identity := sampleIdentity 9
  name := ""
  acceptNewPeers := false
  tlsAccept _ bytes := if bytes = [] then none else some (.ok ())
  exporter _ := .replicate 32 0
  decrypt _ bytes := (bytes.drop 1, none)

/-- A peer store with the key of the node `1`. -/
def pairedStore : PeerStore :=
  ((⟨none, ∅⟩ : PeerStore).insert sampleCrates.hexEncode sampleStorage (.replicate 32 1) "" 0).2

/-- The node `1` has sent the byte of its TLS handshake and its Hello. -/
def pairedClient : Client := ⟨22 :: sampleHello 1, false⟩

/-- A step in which nothing fails. -/
def sampleEnv : AcceptEnv := ⟨0, sampleStorage, none⟩

/-- The node `1` is honest and paired. -/
theorem pairedClient_honest {s : AcceptLoop} {i : ℕ} (hclient : s.clients[i]? = some pairedClient)
    (hstore : s.store = pairedStore) : s.Honest sampleCrates sampleListener i pairedClient := by
  let hello : SignedHello := ⟨.replicate 32 1, "", protocolV0,
    ((sampleIdentity 1).sign (binding (.replicate 32 0))).toList⟩
  refine ⟨hclient, rfl, nofun, rfl, fun _ => ⟨hello, [], ?_, fun env => ?_, ?_⟩⟩
  · show readHello sampleCrates ⟨sampleHello 1, "", none⟩ = _
    decide +kernel
  · refine ⟨by decide +kernel, ?_⟩
    show verifySignature sampleCrates _ (binding (.replicate 32 0)) _ = _
    decide +kernel
  · rw [hstore]
    decide +kernel

/-- The hub's Hello can be encoded. -/
theorem sampleListener_encodes (i : ℕ) :
    ∃ bytes, sampleCrates.encodeHello (sampleListener.ourHello i) = .ok bytes := ⟨_, rfl⟩

/-- The paired client is alone. -/
def pairedLoop : AcceptLoop := ⟨[pairedClient], 0, .accepting, pairedStore, []⟩

/-- The paired client comes after one that sends nothing. -/
def blockedLoop : AcceptLoop := ⟨[⟨[], false⟩, pairedClient], 1, .tls 0, pairedStore, []⟩

/-- Both runs start here. -/
theorem pairedStore_init :
    (acceptLoop sampleCrates sampleListener).init (AcceptLoop.start pairedStore) :=
  ⟨pairedStore, rfl⟩

/-- `pairedLoop` is reached when the client connects and its bytes arrive. -/
theorem pairedLoop_reachable :
    (acceptLoop sampleCrates sampleListener).Reachable pairedLoop :=
  ((System.Reach.init pairedStore_init).step (a := .connect) trivial rfl).step
    (a := .arrive 0 pairedClient.arrived) trivial rfl

/-- `blockedLoop` is reached when the hub has taken the silent client before the other one comes. -/
theorem blockedLoop_reachable :
    (acceptLoop sampleCrates sampleListener).Reachable blockedLoop :=
  ((((System.Reach.init pairedStore_init).step (a := .connect) trivial rfl).step
    (a := .hub sampleEnv) trivial rfl).step (a := .connect) trivial rfl).step
    (a := .arrive 1 pairedClient.arrived) trivial rfl

/-- In `pairedLoop` the next step of the hub brings the paired client nearer. -/
theorem honest_client_progress_pairedLoop :
    ∃ t, (acceptLoop sampleCrates sampleListener).step pairedLoop (.hub sampleEnv) = some t ∧
      (0 ∈ t.admitted ∨ (t.Waiting 0 ∧ t.Honest sampleCrates sampleListener 0 pairedClient ∧
        t.stepsTo 0 < pairedLoop.stepsTo 0)) := by
  obtain ⟨-, hnearer⟩ :=
    honest_client_progress sampleCrates sampleListener pairedLoop_reachable (i := 0)
      ⟨by decide, .inl le_rfl⟩ (pairedClient_honest rfl rfl) (sampleListener_encodes 0)
  have hstep : ∃ t,
      (acceptLoop sampleCrates sampleListener).step pairedLoop (.hub sampleEnv) = some t := ⟨_, rfl⟩
  obtain ⟨t, ht⟩ := hstep
  exact ⟨t, ht, hnearer sampleEnv t rfl ht⟩

/-- A client that sends nothing keeps the hub from a paired one that has sent all it is to send. -/
theorem silent_client_blocks : ¬ ∀ (c : Crates) (l : Listener) (s : AcceptLoop),
    (acceptLoop c l).Reachable s → ∀ i client, s.Waiting i → s.Honest c l i client →
    s.Responsive c l i → (∃ bytes, c.encodeHello (l.ourHello i) = .ok bytes) →
    ∃ env t, (acceptLoop c l).step s (.hub env) = some t := by
  intro h
  have hresponsive : blockedLoop.Responsive sampleCrates sampleListener 1 := by
    intro client hclient
    obtain rfl : pairedClient = client := Option.some.inj hclient
    exact ⟨nofun, by decide +kernel⟩
  obtain ⟨env, t, hstep⟩ := h _ _ _ blockedLoop_reachable 1 pairedClient ⟨by decide, .inl le_rfl⟩
    (pairedClient_honest rfl rfl) hresponsive (sampleListener_encodes 1)
  cases hstep

end Example

end Borderless.Runtime
