import Borderless.Transport.Identity
import Borderless.Transport.Persistence

/-!
# Pairing and restarts

A node is its two files, `identity.key` and `known_peers.toml`, and a process that may be running. A
process starts with `Identity::load_or_generate` and `PeerStore::open`, does handshakes with any
remote side, and stops at any time. The network is a family of nodes that do this independently.

As long as the disk works a restart is not observable: the identity is the one of before, and the
opened peer store is the one that the last process had in memory. So two nodes that have paired need
no pairing again (`pairing_lasts`).
-/

namespace Borderless.Transport

open LastWrite Transition

/-- The functions of other crates. -/
structure Libraries where
  /-- The functions of a handshake. -/
  crates : Crates
  /-- The text formats. -/
  formats : Formats
  /-- Ed25519 on secret keys. -/
  ed25519 : Ed25519

/-- What the repository relies on. -/
structure Libraries.Sound (l : Libraries) : Prop where
  /-- The text formats decode what they encoded. -/
  roundTrip : l.formats.RoundTrip
  /-- There is one hex encoder. -/
  hexEncode : l.crates.hexEncode = l.formats.hexEncode
  /-- The key of an identity is a key. -/
  parseKey : ∀ secret, l.crates.parseKey (l.ed25519.verifyingKey secret) = .ok ()
  /-- The signature of an identity verifies under its key. -/
  verify : ∀ secret message,
    l.crates.verify (l.ed25519.verifyingKey secret) message (l.ed25519.sign secret message) = .ok ()

/-! ## Nodes -/

/-- A node. -/
structure Node where
  /-- The content of `identity.key`. -/
  identityFile : Option (List UInt8)
  /-- The content of `known_peers.toml`. -/
  peersFile : Option String
  /-- The identity and the peer store of the process that runs. -/
  process : Option (Identity × PeerStore)

/-- How the system answers `PeerStore::open`. -/
structure PeersEnv where
  /-- `Path::exists`. -/
  pathExists : Bool
  /-- The error of `fs::read_to_string` where there is no file. -/
  notFound : String
  /-- `fs::read_to_string` of a file. -/
  read : Except String Unit

/-- How the disk answers a write of `known_peers.toml`. -/
structure Disk where
  /-- `fs::create_dir_all`. -/
  createDirAll : Except String Unit
  /-- `fs::write`, and what a failed one leaves in the file. -/
  write : Except (String × Option String) Unit

/-- What a process does. -/
inductive NodeAct
  /-- It starts. -/
  | start (env : IdentityEnv) (peersEnv : PeersEnv)
  /-- It stops. -/
  | stop
  /-- It does a handshake. If it inserts a key, it iterates the map in this order. -/
  | handshake (call : HandshakeCall) (order : List (Bytes 32 × KnownPeer)) (disk : Disk)

/-- `PeerStore::open`: the entries of the file, or an empty map where the system sees no file. -/
def openPeers (f : Formats) (env : PeersEnv) (file : Option String) : Except Error PeerStore :=
  if env.pathExists then
    match file with
    | none => .error (.io env.notFound)
    | some raw =>
      match env.read with
      | .error e => .error (.io e)
      | .ok () => PeerStore.openFile f (some raw)
  else .ok ⟨file, ∅⟩

/-- What `flush` calls. -/
def Disk.storage (f : Formats) (disk : Disk) (order : List (Bytes 32 × KnownPeer)) : Storage where
  values _ := order.map Prod.snd
  toToml := f.toToml
  createDirAll := disk.createDirAll
  write _ := disk.write

/-- A handshake of a process with this identity. -/
def ownCall (f : Formats) (identity : Identity) (call : HandshakeCall)
    (order : List (Bytes 32 × KnownPeer)) (disk : Disk) : HandshakeCall :=
  { call with identity := identity, storage := disk.storage f order }

/-- The node after an act of its process. -/
def Node.step (l : Libraries) (n : Node) : NodeAct → Option Node
  | .start env peersEnv =>
    match n.process with
    | some _ => none
    | none =>
      match Identity.loadOrGenerate l.ed25519 env n.identityFile with
      | (.error _, file) => some { n with identityFile := file }
      | (.ok identity, file) =>
        match openPeers l.formats peersEnv n.peersFile with
        | .error _ => some { n with identityFile := file }
        | .ok store => some { n with identityFile := file, process := some (identity, store) }
  | .stop =>
    match n.process with
    | some _ => some { n with process := none }
    | none => none
  | .handshake call order disk =>
    match n.process with
    | none => none
    | some (identity, store) =>
      let store' := (handshake l.crates (ownCall l.formats identity call order disk) store).2
      -- the map is iterated only if a key is inserted
      if store'.byPubkey = store.byPubkey ∨ Lists store'.byPubkey order then
        some { n with peersFile := store'.file, process := some (identity, store') }
      else none

/-- A network of nodes, in which no process runs at first. -/
def nodes (l : Libraries) (ι : Type*) [DecidableEq ι] : System (ι → Node) (ι × NodeAct) where
  init s := ∀ i, (s i).process = none
  step s a := ((s a.1).step l a.2).map fun n => Function.update s a.1 n

/-- The system tells whether the two files are there, and the peer store can be written. -/
def NodeAct.DiskWorks (l : Libraries) (n : Node) : NodeAct → Prop
  | .start env peersEnv =>
    env.Sound l.ed25519 n.identityFile ∧ peersEnv.pathExists = n.peersFile.isSome
  | .stop => True
  | .handshake _ order disk => disk.createDirAll = .ok () ∧ disk.write = .ok () ∧
    ∃ raw, l.formats.toToml (order.map Prod.snd) = .ok raw

/-- The disk of the node that acts works. -/
def DiskWorks {ι : Type*} (l : Libraries) (s : ι → Node) (a : ι × NodeAct) : Prop :=
  a.2.DiskWorks l (s a.1)

/-! ## What an act keeps -/

/-- What a process has in memory is what its files hold. -/
structure Node.Kept (l : Libraries) (n : Node) (identity : Identity) (store : PeerStore) : Prop where
  /-- The peer store. -/
  peers : PeerStore.openFile l.formats n.peersFile = .ok store
  /-- Its keys. -/
  keys : store.KeysDecode l.formats
  /-- The identity. -/
  identity : storedIdentity l.ed25519 n.identityFile = some identity

/-- A process that runs has what its files hold. -/
def Node.Coherent (l : Libraries) (n : Node) : Prop :=
  ∀ identity store, n.process = some (identity, store) → n.Kept l identity store

/-- The files of a node later on: the identity is the same, and no peer is missing. -/
structure Node.Extends (l : Libraries) (n m : Node) : Prop where
  /-- The identity. -/
  identity : ∀ identity, storedIdentity l.ed25519 n.identityFile = some identity →
    storedIdentity l.ed25519 m.identityFile = some identity
  /-- The peers. -/
  peers : ∀ store, PeerStore.openFile l.formats n.peersFile = .ok store →
    ∃ store', PeerStore.openFile l.formats m.peersFile = .ok store' ∧
      ∀ key, store.isKnown key → store'.isKnown key

section Step

variable {l : Libraries} {n m o : Node}

/-- A node extends itself. -/
theorem Node.Extends.refl (l : Libraries) (n : Node) : n.Extends l n :=
  ⟨fun _ h => h, fun store h => ⟨store, h, fun _ hkey => hkey⟩⟩

/-- A node extends what an earlier one extends. -/
theorem Node.Extends.trans (h : n.Extends l m) (h' : m.Extends l o) : n.Extends l o := by
  refine ⟨fun identity hid => h'.identity identity (h.identity identity hid), ?_⟩
  intro store hstore
  obtain ⟨store', hstore', hknown⟩ := h.peers store hstore
  obtain ⟨store'', hstore'', hknown'⟩ := h'.peers store' hstore'
  exact ⟨store'', hstore'', fun key hkey => hknown' key (hknown key hkey)⟩

/-- An opened store is the one of the file, if the system tells whether there is a file. -/
theorem openPeers_ok {f : Formats} {env : PeersEnv} {file : Option String} {store : PeerStore}
    (hexists : env.pathExists = file.isSome) (h : openPeers f env file = .ok store) :
    PeerStore.openFile f file = .ok store := by
  unfold openPeers at h
  rw [hexists] at h
  cases file with
  | none => exact h
  | some raw =>
    cases hread : env.read with
    | error e => simp [hread] at h
    | ok _ => simpa [hread] using h

/-- The identity in the file stays when a process starts. -/
theorem storedIdentity_start {k : Ed25519} {env : IdentityEnv} {file : Option (List UInt8)}
    (h : env.Sound k file) {identity : Identity} (hid : storedIdentity k file = some identity) :
    storedIdentity k (Identity.loadOrGenerate k env file).2 = some identity := by
  have hsome : file.isSome := by
    cases hfile : file with
    | some bytes => rfl
    | none =>
      rw [hfile] at hid
      cases hid
  rw [((loadOrGenerate_sound h).2.1 hsome).1]
  exact hid

/-- A process that starts has what its files hold, and the files keep what they hold. -/
theorem Node.start_keeps {env : IdentityEnv} {peersEnv : PeersEnv}
    (hdisk : env.Sound l.ed25519 n.identityFile)
    (hexists : peersEnv.pathExists = n.peersFile.isSome)
    (hstep : n.step l (.start env peersEnv) = some m) : m.Coherent l ∧ n.Extends l m := by
  have hidentity : ∀ identity, storedIdentity l.ed25519 n.identityFile = some identity →
      storedIdentity l.ed25519 (Identity.loadOrGenerate l.ed25519 env n.identityFile).2 =
        some identity := fun _ => storedIdentity_start hdisk
  have hpeers := (Node.Extends.refl l n).peers
  have hok := (loadOrGenerate_sound hdisk).1
  unfold Node.step at hstep
  cases hprocess : n.process with
  | some p => simp [hprocess] at hstep
  | none =>
    simp only [hprocess] at hstep
    rcases hload : Identity.loadOrGenerate l.ed25519 env n.identityFile with ⟨e | identity, file⟩
    · simp only [hload] at hstep hidentity
      obtain rfl := Option.some.inj hstep
      exact ⟨nofun, hidentity, hpeers⟩
    · simp only [hload] at hstep hidentity hok
      cases hopen : openPeers l.formats peersEnv n.peersFile with
      | error e =>
        simp only [hopen] at hstep
        obtain rfl := Option.some.inj hstep
        exact ⟨nofun, hidentity, hpeers⟩
      | ok store =>
        simp only [hopen] at hstep
        obtain rfl := Option.some.inj hstep
        refine ⟨?_, hidentity, hpeers⟩
        rintro _ _ ⟨⟩
        have hfile := openPeers_ok hexists hopen
        exact ⟨hfile, keysDecode_open hfile, hok identity rfl⟩

/-- An insertion of a new key on a disk that works: what it has written opens as the store in
memory. -/
theorem openFile_insertion {f : Formats} (hf : f.RoundTrip) {store : PeerStore}
    (hkeys : store.KeysDecode f) {key : Bytes 32} (hunknown : ¬ store.isKnown key) {disk : Disk}
    (hdir : disk.createDirAll = .ok ()) (hwrite : disk.write = .ok ())
    {order : List (Bytes 32 × KnownPeer)} {raw : String}
    (hraw : f.toToml (order.map Prod.snd) = .ok raw) {name : String} {now : UInt64}
    (hlists : (store.insert f.hexEncode (disk.storage f order) key name now).2.byPubkey =
        store.byPubkey ∨
      Lists (store.insert f.hexEncode (disk.storage f order) key name now).2.byPubkey order) :
    PeerStore.openFile f (store.insert f.hexEncode (disk.storage f order) key name now).2.file =
        .ok (store.insert f.hexEncode (disk.storage f order) key name now).2 ∧
      (store.insert f.hexEncode (disk.storage f order) key name now).2.KeysDecode f := by
  have hchanged : (store.insert f.hexEncode (disk.storage f order) key name now).2.byPubkey ≠
      store.byPubkey := by
    intro hsame
    refine hunknown (PeerStore.isKnown_iff_get.2 ?_)
    rw [PeerStore.get, ← hsame, ← PeerStore.get, PeerStore.get_insert_self]
    rfl
  have hworks : ∀ m, ¬ (disk.storage f order).Fails m := by
    rintro m (⟨e, he⟩ | ⟨e, he⟩ | ⟨text, e, -, he⟩)
    · cases hdir.symm.trans he
    · cases hraw.symm.trans he
    · cases hwrite.symm.trans he
  have hok : (store.call f.hexEncode (disk.storage f order) (.insert key name now)).1 = .ok () := by
    cases hcall : (store.call f.hexEncode (disk.storage f order) (.insert key name now)).1 with
    | ok _ => rfl
    | error e => exact absurd (call_error_iff.1 ⟨e, hcall⟩) (hworks _)
  have hwritten : Lists
      (store.call f.hexEncode (disk.storage f order) (.insert key name now)).2.byPubkey order :=
    hlists.resolve_left hchanged
  exact ⟨openFile_call hf hkeys rfl (fun _ => rfl) hwritten hok,
    keysDecode_call hf hkeys (disk.storage f order) (.insert key name now)⟩

/-- A handshake keeps it so, too. -/
theorem Node.handshake_keeps (hl : l.Sound) (hn : n.Coherent l) {call : HandshakeCall}
    {order : List (Bytes 32 × KnownPeer)} {disk : Disk} (hdir : disk.createDirAll = .ok ())
    (hwrite : disk.write = .ok ()) {raw : String}
    (hraw : l.formats.toToml (order.map Prod.snd) = .ok raw)
    (hstep : n.step l (.handshake call order disk) = some m) : m.Coherent l ∧ n.Extends l m := by
  unfold Node.step at hstep
  cases hprocess : n.process with
  | none => simp [hprocess] at hstep
  | some p =>
    obtain ⟨identity, store⟩ := p
    obtain ⟨hpeers, hkeys, hidentity⟩ := hn identity store hprocess
    simp only [hprocess] at hstep
    set call' := ownCall l.formats identity call order disk
    split_ifs at hstep with hlists
    obtain rfl := Option.some.inj hstep
    have hunchanged : PeerStore.openFile l.formats store.file = .ok store := by
      rw [file_of_open hpeers]
      exact hpeers
    have hopen : PeerStore.openFile l.formats (handshake l.crates call' store).2.file =
        .ok (handshake l.crates call' store).2 ∧
          (handshake l.crates call' store).2.KeysDecode l.formats := by
      rcases handshake_cases l.crates call' store with
        ⟨e, h⟩ | ⟨hello, rest, -, ⟨-, h⟩ | ⟨hunknown, -, h⟩⟩
      · rw [h]
        exact ⟨hunchanged, hkeys⟩
      · rw [h]
        exact ⟨hunchanged, hkeys⟩
      · -- the key is inserted, and the map is written
        rw [h] at hlists ⊢
        rw [hl.hexEncode] at hlists ⊢
        exact openFile_insertion hl.roundTrip hkeys hunknown hdir hwrite hraw hlists
    constructor
    · rintro _ _ ⟨⟩
      exact ⟨hopen.1, hopen.2, hidentity⟩
    · refine ⟨fun _ h => h, fun store' hstore' => ⟨_, hopen.1, fun key hkey => ?_⟩⟩
      obtain rfl := Except.ok.inj (hpeers.symm.trans hstore')
      exact isKnown_handshake hkey

/-- Every act of a process whose disk works keeps what the files hold. -/
theorem Node.step_keeps (hl : l.Sound) (hn : n.Coherent l) {act : NodeAct}
    (hdisk : act.DiskWorks l n) (hstep : n.step l act = some m) : m.Coherent l ∧ n.Extends l m := by
  cases act with
  | start env peersEnv => exact Node.start_keeps hdisk.1 hdisk.2 hstep
  | stop =>
    unfold Node.step at hstep
    cases hprocess : n.process with
    | none => simp [hprocess] at hstep
    | some p =>
      simp only [hprocess] at hstep
      obtain rfl := Option.some.inj hstep
      exact ⟨nofun, fun _ h => h, (Node.Extends.refl l n).peers⟩
  | handshake call order disk =>
    obtain ⟨hdir, hwrite, raw, hraw⟩ := hdisk
    exact Node.handshake_keeps hl hn hdir hwrite hraw hstep

end Step

/-! ## The network -/

section Network

variable {l : Libraries} {ι : Type*} [DecidableEq ι] {s t : ι → Node}

/-- A step of the network keeps every node coherent, and its files. -/
theorem nodes_step (hl : l.Sound) (hs : ∀ i, (s i).Coherent l) {a : ι × NodeAct}
    (hdisk : DiskWorks l s a) (hstep : (nodes l ι).step s a = some t) :
    (∀ i, (t i).Coherent l) ∧ ∀ i, (s i).Extends l (t i) := by
  obtain ⟨n, hn, rfl⟩ := Option.map_eq_some_iff.1 hstep
  obtain ⟨hcoherent, hextends⟩ := Node.step_keeps hl (hs a.1) hdisk hn
  rw [← forall_and]
  intro i
  by_cases hi : i = a.1
  · subst hi
    rw [Function.update_self]
    exact ⟨hcoherent, hextends⟩
  · rw [Function.update_of_ne hi]
    exact ⟨hs i, .refl l (s i)⟩

/-- So does a run. -/
theorem nodes_run (hl : l.Sound) (hs : ∀ i, (s i).Coherent l) {as : List (ι × NodeAct)}
    (hdisk : ∀ p ∈ (nodes l ι).steps s as, DiskWorks l p.1 p.2.1)
    (hrun : (nodes l ι).run s as = some t) :
    (∀ i, (t i).Coherent l) ∧ ∀ i, (s i).Extends l (t i) := by
  refine System.run_invariant (P := DiskWorks l)
    (I := fun t => (∀ i, (t i).Coherent l) ∧ ∀ i, (s i).Extends l (t i)) ?_
    ⟨hs, fun i => .refl l (s i)⟩ hdisk hrun
  rintro u a v ⟨hu, hextends⟩ ha hstep
  obtain ⟨hv, hmore⟩ := nodes_step hl hu ha hstep
  exact ⟨hv, fun i => (hextends i).trans (hmore i)⟩

/-- In every run with disks that work the nodes are coherent. -/
theorem coherent_of_reach (hl : l.Sound) (hs : (nodes l ι).Reach (DiskWorks l) s) (i : ι) :
    (s i).Coherent l := by
  refine hs.invariant (I := fun s => ∀ i, (s i).Coherent l) ?_ ?_ i
  · intro s hinit i identity store hprocess
    cases (hinit i).symm.trans hprocess
  · exact fun s a t hs ha hstep => (nodes_step hl hs ha hstep).1

/-- What a file holds is the identity of a secret key. -/
theorem exists_secret {k : Ed25519} {file : Option (List UInt8)} {identity : Identity}
    (h : storedIdentity k file = some identity) : ∃ secret, identity = k.identity secret := by
  cases file with
  | none => cases h
  | some bytes =>
    unfold storedIdentity at h
    rw [Option.bind_some] at h
    split_ifs at h with hshort
    exact ⟨_, (Option.some.inj h).symm⟩

/-- The key of a connection is known. -/
theorem isKnown_of_handshake {c : Crates} {call : HandshakeCall} {store : PeerStore}
    {conn : Connection} (h : (handshake c call store).1 = .ok conn) :
    (handshake c call store).2.isKnown conn.peerPubkey ∧
      conn.peerNodeId = NodeId.fromPubkey c.blake3 conn.peerPubkey := by
  rcases handshake_cases c call store with ⟨e, he⟩ | ⟨hello, rest, -, ⟨hknown, he⟩ | ⟨-, -, he⟩⟩
  · rw [he] at h
    cases h
  · rw [he] at h ⊢
    obtain rfl := Except.ok.inj h
    exact ⟨hknown, rfl⟩
  · rw [he] at h ⊢
    cases hinsert : (store.insert c.hexEncode call.storage hello.pubkey hello.name call.now).1 with
    | error e =>
      rw [hinsert] at h
      cases h
    | ok _ =>
      rw [hinsert] at h
      obtain rfl := Except.ok.inj h
      refine ⟨?_, rfl⟩
      rw [PeerStore.isKnown_iff_get, PeerStore.get_insert_self]
      rfl

/-- A handshake with the Hello of a known identity succeeds, whether new peers are accepted or
not. -/
theorem handshake_of_known (hl : l.Sound) {call helloCall : HandshakeCall} {store : PeerStore}
    {secret : Bytes 32} {rest : List UInt8} (hid : helloCall.identity = l.ed25519.identity secret)
    (hexporter : helloCall.exporter = call.exporter)
    (hexchange : exchangeHellos l.crates call = .ok (ourHello helloCall, rest))
    (hpin : ∀ expected, call.expectedPubkey = some expected → helloCall.identity.pubkey = expected)
    (hknown : store.isKnown helloCall.identity.pubkey) :
    (handshake l.crates call store).1 = .ok ⟨rest, helloCall.identity.pubkey, helloCall.name,
      NodeId.fromPubkey l.crates.blake3 helloCall.identity.pubkey⟩ := by
  have hverified : Verified l.crates call (ourHello helloCall) := by
    have hlen : (ourHello helloCall).signature.length = 64 :=
      (helloCall.identity.sign (binding helloCall.exporter)).toList_length
    refine ⟨hlen, ?_⟩
    have hsig : (⟨(ourHello helloCall).signature, hlen⟩ : Bytes 64) =
        l.ed25519.sign secret (binding call.exporter) := by
      refine Subtype.ext ?_
      show (helloCall.identity.sign (binding helloCall.exporter)).toList = _
      rw [hid, hexporter]
      rfl
    have hkey : (ourHello helloCall).pubkey = l.ed25519.verifyingKey secret := by
      show helloCall.identity.pubkey = _
      rw [hid]
      rfl
    rw [hsig, hkey, verifySignature, hl.parseKey]
    dsimp only
    rw [hl.verify]
  rw [handshake_ok_iff]
  exact ⟨_, rest, hexchange, hverified, hpin, admitPeer_ok_iff.2 (.inl hknown), rfl⟩

/-- Pairing lasts. Take any network of nodes whose processes start and stop and do handshakes with
anybody, with disks that work. When a node `i` has accepted the key of a node `j` once, then at any
later time at which both run, after any number of restarts of both: the identities of both are the
same as then, the peer store of `i` is the one that it would read from its file, and every handshake
in which `i` receives a Hello of `j` for its session succeeds and gives the same peer, whether `i`
accepts new peers or not, unless another key is pinned. -/
theorem pairing_lasts (l : Libraries) (hl : l.Sound) (s u t : ι → Node) (as : List (ι × NodeAct))
    (hs : (nodes l ι).Reach (DiskWorks l) s) (i j : ι) (call : HandshakeCall)
    (order : List (Bytes 32 × KnownPeer)) (disk : Disk)
    (hdisk : DiskWorks l s (i, .handshake call order disk))
    (hstep : (nodes l ι).step s (i, .handshake call order disk) = some u)
    (hdisks : ∀ p ∈ (nodes l ι).steps u as, DiskWorks l p.1 p.2.1)
    (hrun : (nodes l ι).run u as = some t)
    (identity peer identity' peer' : Identity) (store peerStore store' peerStore' : PeerStore)
    (hi : (s i).process = some (identity, store)) (hj : (s j).process = some (peer, peerStore))
    (hi' : (t i).process = some (identity', store'))
    (hj' : (t j).process = some (peer', peerStore')) (conn : Connection)
    (hconn : (handshake l.crates (ownCall l.formats identity call order disk) store).1 = .ok conn)
    (hpeer : conn.peerPubkey = peer.pubkey) :
    identity' = identity ∧ peer' = peer ∧
      PeerStore.openFile l.formats (t i).peersFile = .ok store' ∧
      ∀ (later helloCall : HandshakeCall) (rest : List UInt8), helloCall.identity = peer' →
        helloCall.exporter = later.exporter →
        exchangeHellos l.crates later = .ok (ourHello helloCall, rest) →
        (∀ expected, later.expectedPubkey = some expected → peer'.pubkey = expected) →
        (handshake l.crates later store').1 =
          .ok ⟨rest, conn.peerPubkey, helloCall.name, conn.peerNodeId⟩ := by
  have hcoherent := coherent_of_reach hl hs
  obtain ⟨hcoherent', hextends'⟩ := nodes_step hl hcoherent hdisk hstep
  obtain ⟨hcoherentEnd, hextendsEnd⟩ := nodes_run hl hcoherent' hdisks hrun
  have hextends : ∀ n, (s n).Extends l (t n) := fun n => (hextends' n).trans (hextendsEnd n)
  -- the files of both nodes hold the same identities as at the first handshake
  have hkept := hcoherentEnd i identity' store' hi'
  have hkeptPeer := hcoherentEnd j peer' peerStore' hj'
  have hidentity : identity' = identity := Option.some.inj (hkept.identity.symm.trans
    ((hextends i).identity identity (hcoherent i identity store hi).identity))
  have hpeerIdentity : peer' = peer := Option.some.inj (hkeptPeer.identity.symm.trans
    ((hextends j).identity peer (hcoherent j peer peerStore hj).identity))
  obtain ⟨hknown, hnode⟩ := isKnown_of_handshake hconn
  -- the key was in the store after the first handshake, so it is in the file at the end
  have hprocess : (u i).process =
      some (identity, (handshake l.crates (ownCall l.formats identity call order disk) store).2) := by
    obtain ⟨n, hn, rfl⟩ := Option.map_eq_some_iff.1 hstep
    rw [Function.update_self]
    unfold Node.step at hn
    simp only [hi] at hn
    split_ifs at hn
    obtain rfl := Option.some.inj hn
    rfl
  obtain ⟨store'', hstore'', hstays⟩ :=
    (hextendsEnd i).peers _ (hcoherent' i _ _ hprocess).peers
  obtain rfl := Except.ok.inj (hkept.peers.symm.trans hstore'')
  refine ⟨hidentity, hpeerIdentity, hkept.peers, ?_⟩
  intro later helloCall rest hid hexporter hexchange hpin
  obtain ⟨secret, hsecret⟩ := exists_secret hkeptPeer.identity
  have hkey : helloCall.identity.pubkey = conn.peerPubkey := by
    rw [hid, hpeerIdentity, hpeer]
  have hresult := handshake_of_known hl (hid.trans hsecret) hexporter hexchange
    (fun expected hexpected => hid ▸ hpin expected hexpected) (hkey ▸ hstays _ hknown)
  rw [hresult, hkey, hnode]

end Network

section Example

/-- The entry of the node `1`. -/
def pairedPeer : KnownPeer := ⟨"", Hex.encode (List.replicate 32 1), 0⟩

/-- The map with this entry. -/
def pairedOrder : List (Bytes 32 × KnownPeer) := [(.replicate 32 1, pairedPeer)]

/-- Formats for the file with this entry. -/
def pairedFormats : Formats where
  toToml peers := if peers = [pairedPeer] then .ok (fileText [pairedPeer]) else .error "unsupported"
  fromToml raw := if raw = fileText [pairedPeer] then .ok [pairedPeer] else .error "unsupported"
  hexEncode := Hex.encode
  hexDecode := Hex.decode

/-- `pairedFormats` decodes what it encoded. -/
theorem pairedFormats_roundTrip : pairedFormats.RoundTrip := by
  refine ⟨fun peers raw h => ?_, Hex.decode_encode⟩
  simp only [pairedFormats] at h ⊢
  split_ifs at h with hpeers
  obtain rfl := Except.ok.inj h
  rw [if_pos rfl, hpeers]

/-- Functions that stand in for the crates. -/
def pairedLibraries : Libraries where
  crates := { sampleCrates with hexEncode := Hex.encode }
  formats := pairedFormats
  ed25519 := plainKeys

/-- `pairedLibraries` behaves as the libraries are documented to. -/
theorem pairedLibraries_sound : pairedLibraries.Sound := by
  refine ⟨pairedFormats_roundTrip, rfl, fun _ => rfl, fun secret message => ?_⟩
  exact if_pos rfl

/-- A disk that works. -/
def goodDisk : Disk := ⟨.ok (), .ok ()⟩

/-- The call in which the node `9` pairs with the node `1`. -/
def pairingCall (acceptNewPeers : Bool) : HandshakeCall :=
  sampleCall (sampleHello 1) acceptNewPeers none false

/-- A system that tells whether there are peers, and reads them. -/
def peersEnv (pathExists : Bool) : PeersEnv := ⟨pathExists, "not found", .ok ()⟩

/-- The start of a node whose random key repeats one byte. -/
def startAct (keyExists peersExist : Bool) (b : UInt8) : NodeAct :=
  .start (keyCall keyExists b (.ok ())) (peersEnv peersExist)

/-- A node that has the key of this byte, and its process. -/
def keyNode (b : UInt8) (peersFile : Option String) (store : Option PeerStore) : Node :=
  ⟨some (plainKeys.fileBytes (.replicate 32 b)), peersFile,
    store.map fun store => (plainKeys.identity (.replicate 32 b), store)⟩

/-- A node with a key starts with the peer store of its file. -/
theorem keyNode_start (b c : UInt8) {file : Option String} {store : PeerStore}
    (h : openPeers pairedFormats (peersEnv file.isSome) file = .ok store) :
    (keyNode b file none).step pairedLibraries (startAct true file.isSome c) =
      some (keyNode b file (some store)) := by
  have hload : Identity.loadOrGenerate plainKeys (keyCall true c (.ok ()))
      (some (plainKeys.fileBytes (.replicate 32 b))) =
        (.ok (plainKeys.identity (.replicate 32 b)),
          some (plainKeys.fileBytes (.replicate 32 b))) := rfl
  unfold Node.step startAct keyNode
  simp only [Option.map_none, pairedLibraries, hload, h]
  rfl

/-- A step of a node is a step of the nodes. -/
theorem nodes_step_of {l : Libraries} {s : Bool → Node} {i : Bool} {act : NodeAct} {n : Node}
    (h : (s i).step l act = some n) :
    (nodes l Bool).step s (i, act) = some (Function.update s i n) :=
  congrArg (Option.map _) h

/-- The two nodes when they run for the first time. -/
def firstNodes : Bool → Node := fun i => keyNode (if i then 1 else 9) none (some ⟨none, ∅⟩)

/-- `firstNodes` is in a run with disks that work. -/
theorem firstNodes_reach : (nodes pairedLibraries Bool).Reach (DiskWorks pairedLibraries) firstNodes := by
  have hsound : ∀ b, (keyCall false b (.ok ())).Sound plainKeys none := by
    refine fun b => ⟨rfl, fun e left hwrite => ?_⟩
    cases hwrite
  have hstart : ∀ b, (⟨none, none, none⟩ : Node).step pairedLibraries (startAct false false b) =
      some (keyNode b none (some ⟨none, ∅⟩)) := fun b => rfl
  have hempty : (nodes pairedLibraries Bool).Reach (DiskWorks pairedLibraries)
      fun _ => ⟨none, none, none⟩ := .init fun _ => rfl
  have hone := hempty.step (a := (false, startAct false false 9)) ⟨hsound 9, rfl⟩ (nodes_step_of (hstart 9))
  have htwo := hone.step (a := (true, startAct false false 1)) ⟨hsound 1, rfl⟩ (nodes_step_of (hstart 1))
  convert htwo using 1
  funext i
  cases i <;> rfl

/-- The store after the pairing. -/
def pairedStore : PeerStore :=
  (handshake pairedLibraries.crates (ownCall pairedFormats (plainKeys.identity (.replicate 32 9))
    (pairingCall true) pairedOrder goodDisk) ⟨none, ∅⟩).2

/-- Both nodes stop and start again. -/
def restarts : List (Bool × NodeAct) :=
  [(false, .stop), (true, .stop), (false, startAct true true 7), (true, startAct true false 8)]

/-- The store that the node `9` reads when it starts again. -/
def reopenedStore : PeerStore :=
  ⟨some (fileText [pairedPeer]), build (pairedFormats.keyed [pairedPeer])⟩

/-- The node `9` pairs with the node `1`, both stop and start again, and the node `1` is accepted
although the node `9` now accepts no new peers. -/
theorem pairing_lasts_restarts :
    (handshake pairedLibraries.crates (pairingCall false) reopenedStore).1 =
      .ok ⟨[], .replicate 32 1, "", ⟨.replicate 16 1⟩⟩ := by
  have htoml : pairedFormats.toToml (pairedOrder.map Prod.snd) = .ok (fileText [pairedPeer]) := by
    simp only [pairedFormats, pairedOrder, List.map_cons, List.map_nil, if_true]
  have hopen : openPeers pairedFormats (peersEnv true) (some (fileText [pairedPeer])) =
      .ok reopenedStore := by
    have hraw : pairedFormats.fromToml (fileText [pairedPeer]) = .ok [pairedPeer] := by
      simp only [pairedFormats, if_true]
    simp only [openPeers, peersEnv, if_true, PeerStore.openFile, hraw]
    rfl
  have hpair : (firstNodes false).step pairedLibraries
      (.handshake (pairingCall true) pairedOrder goodDisk) =
        some (keyNode 9 (some (fileText [pairedPeer])) (some pairedStore)) := by
    have hlists : Lists pairedStore.byPubkey pairedOrder := by decide +kernel
    have hfile : pairedStore.file = some (fileText [pairedPeer]) := by decide +kernel
    show (if pairedStore.byPubkey = ∅ ∨ Lists pairedStore.byPubkey pairedOrder then
      some { firstNodes false with
        peersFile := pairedStore.file
        process := some (plainKeys.identity (.replicate 32 9), pairedStore) } else none) = _
    rw [if_pos (.inr hlists), hfile]
    rfl
  have hsound : ∀ b c, (keyCall true b (.ok ())).Sound plainKeys
      (some (plainKeys.fileBytes (.replicate 32 c))) := by
    refine fun b c => ⟨rfl, fun e left hwrite => ?_⟩
    cases hwrite
  -- the states of the run
  let u := Function.update firstNodes false (keyNode 9 (some (fileText [pairedPeer])) (some pairedStore))
  let u₁ := Function.update u false (keyNode 9 (some (fileText [pairedPeer])) none)
  let u₂ := Function.update u₁ true (keyNode 1 none none)
  let u₃ := Function.update u₂ false (keyNode 9 (some (fileText [pairedPeer]))
    (some reopenedStore))
  let t := Function.update u₃ true (keyNode 1 none (some ⟨none, ∅⟩))
  have h₁ : (nodes pairedLibraries Bool).step u (false, .stop) = some u₁ := nodes_step_of rfl
  have h₂ : (nodes pairedLibraries Bool).step u₁ (true, .stop) = some u₂ := nodes_step_of rfl
  have h₃ : (nodes pairedLibraries Bool).step u₂ (false, startAct true true 7) = some u₃ :=
    nodes_step_of (keyNode_start 9 7 hopen)
  have h₄ : (nodes pairedLibraries Bool).step u₃ (true, startAct true false 8) = some t :=
    nodes_step_of (keyNode_start 1 8 rfl)
  have hsteps : (nodes pairedLibraries Bool).steps u restarts =
      [(u, (false, .stop), u₁), (u₁, (true, .stop), u₂), (u₂, (false, startAct true true 7), u₃),
        (u₃, (true, startAct true false 8), t)] := by
    simp only [restarts, System.steps, h₁, h₂, h₃, h₄]
  have hrun : (nodes pairedLibraries Bool).run u restarts = some t := by
    simp only [restarts, System.run, h₁, h₂, h₃, h₄, Option.bind_some]
  have hlasts := pairing_lasts pairedLibraries pairedLibraries_sound firstNodes u t restarts
    firstNodes_reach false true (pairingCall true) pairedOrder goodDisk
    ⟨rfl, rfl, fileText [pairedPeer], htoml⟩ (nodes_step_of hpair) (by
      rw [hsteps]
      simp only [List.forall_mem_cons, List.not_mem_nil, false_imp_iff, implies_true, and_true]
      exact ⟨trivial, trivial, ⟨hsound 7 9, rfl⟩, hsound 8 1, rfl⟩)
    hrun (plainKeys.identity (.replicate 32 9)) (plainKeys.identity (.replicate 32 1))
    (plainKeys.identity (.replicate 32 9)) (plainKeys.identity (.replicate 32 1)) ⟨none, ∅⟩ ⟨none, ∅⟩
    reopenedStore ⟨none, ∅⟩ rfl rfl rfl rfl
    ⟨[], .replicate 32 1, "", ⟨.replicate 16 1⟩⟩ (by decide +kernel) rfl
  have hpin : ∀ expected, (pairingCall false).expectedPubkey = some expected →
      (plainKeys.identity (.replicate 32 1)).pubkey = expected := by
    intro expected hexpected
    cases hexpected
  exact hlasts.2.2.2 (pairingCall false)
    { pairingCall false with identity := plainKeys.identity (.replicate 32 1) } [] rfl rfl
    (by decide +kernel) hpin

end Example

end Borderless.Transport
