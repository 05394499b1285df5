import Borderless.Transport.Handshake

/-!
# The reconnect loop of a spoke

`crates/cli/src/runtime/client.rs`: `ClientRuntime::run` calls `run_once` for ever, with a backoff
after a failure; `run_once` resolves the address of the hub and dials the candidates in turn, IPv4
first, until one of them gives a session, and `Connector::dial` runs the handshake as the initiator.
What an attempt meets (the resolver, and for each candidate the network, the remote hub and how the
session ends) is data of the attempt. A run is interrupted between two attempts.

Next to its result each function returns its dials, each with the peer store before it.

The trust mode and the pin are fields of `ClientRuntime`, so they are those of every dial of a run,
and with `accept_new_peer` the dials after the first pair with a new hub as the first one does.
-/

namespace Borderless.Runtime

open Borderless.Transport

/-- `ClientRuntime`, what the loop reads of it. -/
structure ClientRuntime where
  /-- Long-term identity. -/
  identity : Identity
  /-- Display name of the connector. -/
  name : String
  /-- Hub address, `host:port`. -/
  serverAddr : String
  /-- Pinned hub key, if any. -/
  expectedServerPubkey : Option (Bytes 32)
  /-- Whether the user passed `--pair` for this run. -/
  acceptNewPeer : Bool

/-- What a dial meets. -/
inductive DialEnv
  /-- TCP does not connect. -/
  | tcpError (e : String)
  /-- TLS is not established. -/
  | tlsError (e : String)
  /-- There is no exporter. -/
  | exporterError (e : String)
  /-- A TLS session: its exporter and stream, the clock, and the disk under the peer store. -/
  | established (exporter : Bytes 32) (stream : Stream) (now : UInt64) (storage : Storage)

/-- The handshake that `Connector::dial` calls. -/
def ClientRuntime.call (rt : ClientRuntime) (exporter : Bytes 32) (stream : Stream) (now : UInt64)
    (storage : Storage) : HandshakeCall where
  stream := stream
  exporter := exporter
  identity := rt.identity
  name := rt.name
  acceptNewPeers := rt.acceptNewPeer
  expectedPubkey := rt.expectedServerPubkey
  isInitiator := true
  now := now
  storage := storage

/-- `Connector::dial` with the arguments of `run_once`. The placeholder server name is valid. -/
def dial (c : Crates) (rt : ClientRuntime) (env : DialEnv) (store : PeerStore) :
    Except Error Connection × PeerStore :=
  match env with
  | .tcpError e => (.error (.io e), store)
  | .tlsError e => (.error (.tls s!"connect tls: {e}"), store)
  | .exporterError e => (.error (.tls s!"exporter: {e}"), store)
  | .established exporter stream now storage =>
    handshake c (rt.call exporter stream now storage) store

/-- A resolved address, and what becomes of it in an attempt. -/
structure Candidate where
  /-- Whether it is an IPv4 address. -/
  isIpv4 : Bool
  /-- What dialing it meets. -/
  env : DialEnv
  /-- What `run_session` returns when the dial succeeds. -/
  session : Except Error Unit

/-- The error of an attempt. -/
inductive RunError
  /-- The resolver fails. -/
  | resolve (serverAddr e : String)
  /-- The resolver finds nothing. -/
  | noAddresses (serverAddr : String)
  /-- The last candidate could not be dialed. -/
  | dial (e : Error)
  /-- The session ended. -/
  | session (e : Error)
  /-- No candidate was dialed. -/
  | noCandidate
deriving DecidableEq

/-- One dial of a run. -/
structure Dial where
  /-- The peer store before it. -/
  store : PeerStore
  /-- What it met. -/
  env : DialEnv
  /-- What it returned. -/
  result : Except Error Connection

/-- The loop of `run_once` over the candidates; `lastErr` is the error of the last dial. -/
def tryAddrs (c : Crates) (rt : ClientRuntime) :
    PeerStore → Option Error → List Candidate → Except RunError Unit × PeerStore × List Dial
  | store, lastErr, [] => (.error ((lastErr.map .dial).getD .noCandidate), store, [])
  | store, _, addr :: addrs =>
    match dial c rt addr.env store with
    | (.ok conn, store') =>
      -- the attempt ends with its session, whatever the other candidates
      (addr.session.mapError .session, store', [⟨store, addr.env, .ok conn⟩])
    | (.error e, store') =>
      let (result, final, dials) := tryAddrs c rt store' (some e) addrs
      (result, final, ⟨store, addr.env, .error e⟩ :: dials)

/-- The stable sort by `is_ipv4`. -/
def preferIpv4 (addrs : List Candidate) : List Candidate :=
  addrs.filter Candidate.isIpv4 ++ addrs.filter fun addr => !addr.isIpv4

/-- `run_once`: the resolved addresses are dialed one after the other, those of IPv4 first. -/
def runOnce (c : Crates) (rt : ClientRuntime) (store : PeerStore)
    (lookup : Except String (List Candidate)) : Except RunError Unit × PeerStore × List Dial :=
  match lookup with
  | .error e => (.error (.resolve rt.serverAddr e), store, [])
  | .ok [] => (.error (.noAddresses rt.serverAddr), store, [])
  | .ok addrs => tryAddrs c rt store none (preferIpv4 addrs)

/-- The backoff in seconds. -/
def backoff : List ℕ := [1, 2, 5, 15, 60]

/-- What a run leaves: the peer store, the dials, and the delays slept. -/
structure RunTrace where
  /-- The peer store after the run. -/
  store : PeerStore
  /-- The dials, oldest first. -/
  dials : List Dial
  /-- The delays, oldest first. -/
  delays : List ℕ

/-- `ClientRuntime::run` from the backoff index `idx`, over these attempts. -/
def run (c : Crates) (rt : ClientRuntime) :
    PeerStore → ℕ → List (Except String (List Candidate)) → RunTrace
  | store, _, [] => ⟨store, [], []⟩
  | store, idx, lookup :: attempts =>
    match runOnce c rt store lookup with
    | (.ok (), store', dials) =>
      -- a session that ended without an error resets the backoff
      let rest := run c rt store' 0 attempts
      ⟨rest.store, dials ++ rest.dials, rest.delays⟩
    | (.error _, store', dials) =>
      let delay := backoff.getD (min idx (backoff.length - 1)) 0
      let rest := run c rt store' (min (idx + 1) (backoff.length - 1)) attempts
      ⟨rest.store, dials ++ rest.dials, delay :: rest.delays⟩

section Example

/-- A spoke in pairing mode without a pin. -/
def pairingSpoke : ClientRuntime := ⟨sampleIdentity 9, "", "hub:7777", none, true⟩

/-- An attempt in which the hub with the key of the node `b` answers and then hangs up. -/
def answeredBy (b : UInt8) : Except String (List Candidate) :=
  .ok [⟨true, .established (.replicate 32 0) ⟨sampleHello b, "unexpected end of file", none⟩ 0
    sampleStorage, .error (.io "unexpected end of file")⟩]

end Example

end Borderless.Runtime
