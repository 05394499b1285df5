import Borderless.Runtime.Client
import Borderless.Transport.Persistence

/-!
# The reconnect loop reaches its hub

An attempt of the loop dials one address after the other, and anybody may answer at the others. A dial
never takes a known key out of the peer store, and with trust on first use the key of a hub that has
answered once is in the store from then on, even if writing the file has failed. So an attempt in
which a trusted hub answers ends in a session (`hub_reached`), as long as every dial returns.
-/

namespace Borderless.Runtime

open Borderless.Transport

/-- The remote answers with this key: the Hellos are exchanged, and that of the remote has this key
and verifies. -/
def DialEnv.Presents (c : Crates) (rt : ClientRuntime) (env : DialEnv) (key : Bytes 32) : Prop :=
  ∃ exporter stream now storage hello rest, env = .established exporter stream now storage ∧
    exchangeHellos c (rt.call exporter stream now storage) = .ok (hello, rest) ∧
    Verified c (rt.call exporter stream now storage) hello ∧ hello.pubkey = key

/-- The key is the pinned one, if there is one. -/
def ClientRuntime.Takes (rt : ClientRuntime) (key : Bytes 32) : Prop :=
  ∀ expected, rt.expectedServerPubkey = some expected → key = expected

variable {c : Crates} {rt : ClientRuntime} {key : Bytes 32} {env : DialEnv} {store : PeerStore}

/-! ## One dial -/

/-- A dial succeeds for the key that the remote presents only. -/
theorem presents_of_dial {conn : Connection} (h : (dial c rt env store).1 = .ok conn) :
    env.Presents c rt conn.peerPubkey := by
  cases env with
  | tcpError e => cases h
  | tlsError e => cases h
  | exporterError e => cases h
  | established exporter stream now storage =>
    obtain ⟨hello, rest, hexchange, hverified, -, -, rfl⟩ := handshake_ok_iff.1 h
    exact ⟨exporter, stream, now, storage, hello, rest, rfl, hexchange, hverified, rfl⟩

/-- A dial to a known key succeeds. -/
theorem dial_of_known (hpresents : env.Presents c rt key) (htakes : rt.Takes key)
    (hknown : store.isKnown key) : ∃ conn, (dial c rt env store).1 = .ok conn := by
  obtain ⟨exporter, stream, now, storage, hello, rest, rfl, hexchange, hverified, rfl⟩ := hpresents
  exact ⟨_, handshake_ok_iff.2 ⟨hello, rest, hexchange, hverified, htakes,
    admitPeer_ok_iff.2 (.inl hknown), rfl⟩⟩

/-- A dial keeps a known key. -/
theorem isKnown_dial (hknown : store.isKnown key) : (dial c rt env store).2.isKnown key := by
  cases env with
  | tcpError e => exact hknown
  | tlsError e => exact hknown
  | exporterError e => exact hknown
  | established exporter stream now storage => exact isKnown_handshake hknown

/-- With trust on first use a dial makes the presented key known, whether it succeeds or not. -/
theorem isKnown_dial_of_presents (haccept : rt.acceptNewPeer = true) (htakes : rt.Takes key)
    (hpresents : env.Presents c rt key) : (dial c rt env store).2.isKnown key := by
  obtain ⟨exporter, stream, now, storage, hello, rest, rfl, hexchange, hverified, rfl⟩ := hpresents
  have hchecked : checkHello c (rt.call exporter stream now storage) hello = .ok () :=
    checkHello_ok_iff.2 ⟨hverified, htakes⟩
  have hstore : (dial c rt (.established exporter stream now storage) store).2 =
      (admitPeer c (rt.call exporter stream now storage) hello store).2 := by
    unfold dial handshake
    simp only [hexchange, hchecked]
    rcases hadmit : admitPeer c (rt.call exporter stream now storage) hello store with
      ⟨_ | _, store'⟩
    · rfl
    · rfl
  rw [hstore]
  -- a later call that accepts no new key would admit it
  have hlater : (admitPeer c { rt.call exporter stream now storage with acceptNewPeers := false } hello
      (admitPeer c (rt.call exporter stream now storage) hello store).2).1 = .ok () :=
    admitPeer_after_failure haccept _
  exact (admitPeer_ok_iff.1 hlater).resolve_right fun h => absurd h.1 Bool.false_ne_true

/-! ## One attempt -/

/-- The key is trusted after these dials if it was known before them, or if, with trust on first use,
the remote of one of them has presented it. -/
def Trusted (c : Crates) (rt : ClientRuntime) (key : Bytes 32) (store : PeerStore)
    (dials : List Dial) : Prop :=
  store.isKnown key ∨ rt.acceptNewPeer = true ∧ ∃ d ∈ dials, d.env.Presents c rt key

/-- The dials over the candidates end at the first that succeeds, and there is one if some candidate
presents a known key. -/
theorem tryAddrs_reaches (htakes : rt.Takes key) {lastErr : Option Error} {addrs : List Candidate}
    (hknown : store.isKnown key) (haddr : ∃ addr ∈ addrs, addr.env.Presents c rt key) :
    ∃ failed d conn, (tryAddrs c rt store lastErr addrs).2.2 = failed ++ [d] ∧
      (failed ++ [d]).map Dial.env <+: addrs.map Candidate.env ∧
      (∀ f ∈ failed, ∃ e, f.result = .error e) ∧ d.result = .ok conn := by
  induction addrs generalizing store lastErr with
  | nil =>
    obtain ⟨addr, hmem, -⟩ := haddr
    cases hmem
  | cons addr addrs ih =>
    rcases hdial : dial c rt addr.env store with ⟨e | conn, store'⟩
    · -- this candidate presents another key, or none
      have hrest : ∃ addr' ∈ addrs, addr'.env.Presents c rt key := by
        obtain ⟨addr', hmem, hpresents⟩ := haddr
        rcases List.mem_cons.1 hmem with rfl | hmem
        · obtain ⟨conn, hok⟩ := dial_of_known hpresents htakes hknown
          rw [hdial] at hok
          cases hok
        · exact ⟨addr', hmem, hpresents⟩
      have hknown' : store'.isKnown key := by
        have hkept : (dial c rt addr.env store).2.isKnown key := isKnown_dial hknown
        rwa [hdial] at hkept
      obtain ⟨failed, d, conn, hdials, henvs, hfailed, hok⟩ :=
        @ih store' (some e) hknown' hrest
      refine ⟨⟨store, addr.env, .error e⟩ :: failed, d, conn, ?_, ?_, ?_, hok⟩
      · simp only [tryAddrs, hdial, hdials, List.cons_append]
      · simp only [List.cons_append, List.map_cons]
        exact List.cons_prefix_cons.2 ⟨rfl, henvs⟩
      · intro f hf
        rcases List.mem_cons.1 hf with rfl | hf
        · exact ⟨e, rfl⟩
        · exact hfailed f hf
    · refine ⟨[], ⟨store, addr.env, .ok conn⟩, conn, ?_, ?_, fun f hf => (by cases hf), rfl⟩
      · simp only [tryAddrs, hdial, List.nil_append]
      · exact List.cons_prefix_cons.2 ⟨rfl, List.nil_prefix⟩

/-- A trusted key is known after the dials over the candidates. -/
theorem isKnown_tryAddrs (htakes : rt.Takes key) {lastErr : Option Error} {addrs : List Candidate}
    (htrust : Trusted c rt key store (tryAddrs c rt store lastErr addrs).2.2) :
    (tryAddrs c rt store lastErr addrs).2.1.isKnown key := by
  induction addrs generalizing store lastErr with
  | nil =>
    rcases htrust with hknown | ⟨-, d, hd, -⟩
    · exact hknown
    · cases hd
  | cons addr addrs ih =>
    rcases hdial : dial c rt addr.env store with ⟨e | conn, store'⟩
    all_goals
      have hkept : store.isKnown key → store'.isKnown key := by
        intro hknown
        have hkept : (dial c rt addr.env store).2.isKnown key := isKnown_dial hknown
        rwa [hdial] at hkept
      have hnew : rt.acceptNewPeer = true → addr.env.Presents c rt key → store'.isKnown key := by
        intro haccept hpresents
        have hnew : (dial c rt addr.env store).2.isKnown key :=
          isKnown_dial_of_presents haccept htakes hpresents
        rwa [hdial] at hnew
      simp only [tryAddrs, hdial] at htrust ⊢
    · refine ih ?_
      rcases htrust with hknown | ⟨haccept, d, hd, hpresents⟩
      · exact .inl (hkept hknown)
      · rcases List.mem_cons.1 hd with rfl | hd
        · exact .inl (hnew haccept hpresents)
        · exact .inr ⟨haccept, d, hd, hpresents⟩
    · rcases htrust with hknown | ⟨haccept, d, hd, hpresents⟩
      · exact hkept hknown
      · obtain rfl := List.mem_singleton.1 hd
        exact hnew haccept hpresents

/-- The candidates are dialed in another order. -/
theorem mem_preferIpv4 {addrs : List Candidate} {addr : Candidate} :
    addr ∈ preferIpv4 addrs ↔ addr ∈ addrs := by
  unfold preferIpv4
  rw [List.mem_append, List.mem_filter, List.mem_filter]
  cases addr.isIpv4 <;> simp

/-- A trusted key is known after an attempt. -/
theorem isKnown_runOnce (htakes : rt.Takes key) {lookup : Except String (List Candidate)}
    (htrust : Trusted c rt key store (runOnce c rt store lookup).2.2) :
    (runOnce c rt store lookup).2.1.isKnown key := by
  unfold runOnce at htrust ⊢
  split at htrust
  · exact htrust.resolve_right fun ⟨_, d, hd, _⟩ => by cases hd
  · exact htrust.resolve_right fun ⟨_, d, hd, _⟩ => by cases hd
  · exact isKnown_tryAddrs htakes htrust

/-! ## A run -/

/-- The backoff has no part in what is dialed. -/
theorem run_idx (c : Crates) (rt : ClientRuntime) (store : PeerStore) (idx idx' : ℕ)
    (attempts : List (Except String (List Candidate))) :
    (run c rt store idx attempts).dials = (run c rt store idx' attempts).dials ∧
      (run c rt store idx attempts).store = (run c rt store idx' attempts).store := by
  induction attempts generalizing store idx idx' with
  | nil => exact ⟨rfl, rfl⟩
  | cons lookup attempts ih =>
    rcases hrun : runOnce c rt store lookup with ⟨e | _, store', dials⟩
    · obtain ⟨hdials, hstore⟩ := ih store' (min (idx + 1) (backoff.length - 1))
        (min (idx' + 1) (backoff.length - 1))
      simp only [run, hrun, hdials, hstore, and_self]
    · simp only [run, hrun, and_self]

/-- A run goes on with the store of its first attempt. -/
theorem run_cons (c : Crates) (rt : ClientRuntime) (store : PeerStore)
    (lookup : Except String (List Candidate)) (attempts : List (Except String (List Candidate))) :
    (run c rt store 0 (lookup :: attempts)).dials = (runOnce c rt store lookup).2.2 ++
      (run c rt (runOnce c rt store lookup).2.1 0 attempts).dials ∧
    (run c rt store 0 (lookup :: attempts)).store =
      (run c rt (runOnce c rt store lookup).2.1 0 attempts).store := by
  rcases hrun : runOnce c rt store lookup with ⟨e | _, store', dials⟩
  · obtain ⟨hdials, hstore⟩ := run_idx c rt store' (min (0 + 1) (backoff.length - 1)) 0
      attempts
    simp only [run, hrun, hdials, hstore, and_self]
  · simp only [run, hrun, and_self]

/-- A run over some attempts, and then over others. -/
theorem run_append (c : Crates) (rt : ClientRuntime) (store : PeerStore)
    (pre attempts : List (Except String (List Candidate))) :
    (run c rt store 0 (pre ++ attempts)).dials = (run c rt store 0 pre).dials ++
      (run c rt (run c rt store 0 pre).store 0 attempts).dials := by
  induction pre generalizing store with
  | nil => rfl
  | cons lookup pre ih =>
    obtain ⟨hdials, hstore⟩ := run_cons c rt store lookup pre
    rw [List.cons_append, (run_cons c rt store lookup _).1, ih, hdials, hstore, List.append_assoc]

/-- A trusted key is known after a run. -/
theorem isKnown_run (htakes : rt.Takes key) {attempts : List (Except String (List Candidate))}
    (htrust : Trusted c rt key store (run c rt store 0 attempts).dials) :
    (run c rt store 0 attempts).store.isKnown key := by
  induction attempts generalizing store with
  | nil => exact htrust.resolve_right fun ⟨_, d, hd, _⟩ => by cases hd
  | cons lookup attempts ih =>
    obtain ⟨hdials, hstore⟩ := run_cons c rt store lookup attempts
    rw [hdials] at htrust
    rw [hstore]
    refine ih ?_
    rcases htrust with hknown | ⟨haccept, d, hd, hpresents⟩
    · exact .inl (isKnown_runOnce htakes (.inl hknown))
    · rcases List.mem_append.1 hd with hd | hd
      · exact .inl (isKnown_runOnce htakes (.inr ⟨haccept, d, hd, hpresents⟩))
      · exact .inr ⟨haccept, d, hd, hpresents⟩

/-- The reconnect loop reaches its hub. Take any run of the loop, with any resolver, any remotes and
any failures of the network and the disk, whose dials all return, and an attempt in which one of the
addresses is answered with a trusted key: one that was in the peer store at the start, or that with
trust on first use has been presented in an earlier attempt, even if it could not be stored; and that
is the pinned one, if a key is pinned. The attempt ends in a session: its dials go through the
addresses, IPv4 first, all but the last of them fail, and the last succeeds. -/
theorem hub_reached (c : Crates) (rt : ClientRuntime) (key : Bytes 32) (htakes : rt.Takes key)
    (store : PeerStore) (pre post : List (Except String (List Candidate))) (addrs : List Candidate)
    (haddr : ∃ addr ∈ addrs, addr.env.Presents c rt key)
    (htrust : Trusted c rt key store (run c rt store 0 pre).dials) :
    ∃ failed d conn rest, (run c rt store 0 (pre ++ .ok addrs :: post)).dials =
        (run c rt store 0 pre).dials ++ (failed ++ d :: rest) ∧
      (failed ++ [d]).map Dial.env <+: (preferIpv4 addrs).map Candidate.env ∧
      (∀ f ∈ failed, ∃ e, f.result = .error e) ∧ d.result = .ok conn := by
  have hknown := isKnown_run htakes htrust
  have hpreferred : ∃ addr ∈ preferIpv4 addrs, addr.env.Presents c rt key := by
    obtain ⟨addr, hmem, hpresents⟩ := haddr
    exact ⟨addr, mem_preferIpv4.2 hmem, hpresents⟩
  obtain ⟨failed, d, conn, hdials, henvs, hfailed, hok⟩ :=
    @tryAddrs_reaches c rt key _ htakes none _ hknown hpreferred
  have honce : runOnce c rt (run c rt store 0 pre).store (.ok addrs) =
      tryAddrs c rt (run c rt store 0 pre).store none (preferIpv4 addrs) := by
    cases addrs with
    | nil =>
      obtain ⟨addr, hmem, -⟩ := haddr
      cases hmem
    | cons addr addrs => rfl
  have hrun := run_append c rt store pre (.ok addrs :: post)
  rw [(run_cons c rt _ _ post).1, honce, hdials, List.append_assoc] at hrun
  exact ⟨failed, d, conn, _, hrun, henvs, hfailed, hok⟩

section Example

/-- The hub with the key of the node `1` answers, and the disk under the peer store is full. -/
def fullDiskHub : DialEnv :=
  .established (.replicate 32 0) ⟨sampleHello 1, "unexpected end of file", none⟩ 0 fullDisk

/-- The hub presents its key in `fullDiskHub`. -/
theorem fullDiskHub_presents :
    fullDiskHub.Presents sampleCrates pairingSpoke (.replicate 32 1) := by
  -- the second dial succeeds, although the first could not store the key
  have hkey : (dial sampleCrates pairingSpoke fullDiskHub
      (dial sampleCrates pairingSpoke fullDiskHub ⟨none, ∅⟩).2).1.toOption.map Connection.peerPubkey =
      some (.replicate 32 1) := by decide +kernel
  obtain ⟨conn, hconn, hpubkey⟩ := Option.map_eq_some_iff.1 hkey
  cases hresult : (dial sampleCrates pairingSpoke fullDiskHub
      (dial sampleCrates pairingSpoke fullDiskHub ⟨none, ∅⟩).2).1 with
  | error e =>
    rw [hresult] at hconn
    cases hconn
  | ok conn' =>
    rw [hresult] at hconn
    obtain rfl := Option.some.inj hconn
    rw [← hpubkey]
    exact presents_of_dial hresult

/-- The first attempt pairs, but cannot store the key. In the next one the address that is dialed
first refuses the connection, and the hub is reached at the other. -/
theorem hub_reached_fullDisk : ∃ failed d conn rest,
    (run sampleCrates pairingSpoke ⟨none, ∅⟩ 0
      [.ok [⟨true, fullDiskHub, .ok ()⟩],
        .ok [⟨false, fullDiskHub, .ok ()⟩, ⟨true, .tcpError "connection refused", .ok ()⟩]]).dials =
      (run sampleCrates pairingSpoke ⟨none, ∅⟩ 0 [.ok [⟨true, fullDiskHub, .ok ()⟩]]).dials ++
        (failed ++ d :: rest) ∧
    (failed ++ [d]).map Dial.env <+: [.tcpError "connection refused", fullDiskHub] ∧
    (∀ f ∈ failed, ∃ e, f.result = .error e) ∧ d.result = .ok conn := by
  have hdials : ∃ d ∈ (run sampleCrates pairingSpoke ⟨none, ∅⟩ 0
      [.ok [⟨true, fullDiskHub, .ok ()⟩]]).dials, d.env = fullDiskHub := by
    rcases hdial : dial sampleCrates pairingSpoke fullDiskHub ⟨none, ∅⟩ with ⟨e | conn, store'⟩
    · exact ⟨⟨⟨none, ∅⟩, fullDiskHub, .error e⟩, by simp [run, runOnce, preferIpv4, tryAddrs, hdial], rfl⟩
    · exact ⟨⟨⟨none, ∅⟩, fullDiskHub, .ok conn⟩,
        by simp [run, runOnce, preferIpv4, tryAddrs, hdial, Except.mapError], rfl⟩
  obtain ⟨d, hd, henv⟩ := hdials
  have htakes : pairingSpoke.Takes (.replicate 32 1) := fun expected h => by cases h
  exact hub_reached sampleCrates pairingSpoke (.replicate 32 1) htakes ⟨none, ∅⟩
    [.ok [⟨true, fullDiskHub, .ok ()⟩]] []
    [⟨false, fullDiskHub, .ok ()⟩, ⟨true, .tcpError "connection refused", .ok ()⟩]
    ⟨_, List.mem_cons_self, fullDiskHub_presents⟩
    (.inr ⟨rfl, d, hd, henv ▸ fullDiskHub_presents⟩)

end Example

end Borderless.Runtime
