import Borderless.Lib.Postcard
import Borderless.Lib.Transition
import Borderless.Transport.PeerStore

/-!
# The application-layer handshake

`crates/transport/src/connection.rs`: both sides exchange a `SignedHello`, check the other's
signature over the exporter of the TLS session, and look the key up in the peer store. A call of
`handshake` is a function from its arguments, the bytes that arrive, and what its environment
returns, to the result and the store after it: the store is locked once, from the lookup to the
insertion, so the calls of a run are ordered by it.

Ed25519, BLAKE3, hex and postcard are a structure of functions (`Crates`).
-/

namespace Borderless.Transport

open Transition

/-- `SignedHello`: what each side sends first, signed for this session. -/
structure SignedHello where
  /-- Long-term public key of the sender. -/
  pubkey : Bytes 32
  /-- Display name of the sender. -/
  name : String
  /-- Highest protocol version that the sender speaks. -/
  maxProtocol : ProtocolVersion
  /-- The signature, a byte vector of any length. -/
  signature : List UInt8
deriving DecidableEq

/-- A Hello in the postcard format. -/
def SignedHello.postcard (hello : SignedHello) : List UInt8 :=
  hello.pubkey.toList ++ (Postcard.string hello.name ++
    (Postcard.varint hello.maxProtocol.number.toNat ++ Postcard.bytes hello.signature))

/-- The functions of other crates. -/
structure Crates where
  /-- `blake3::hash`. -/
  blake3 : List UInt8 → Bytes 32
  /-- `hex::encode`. -/
  hexEncode : List UInt8 → String
  /-- `VerifyingKey::from_bytes`: whether these bytes are a key. -/
  parseKey : Bytes 32 → Except String Unit
  /-- `VerifyingKey::verify`. -/
  verify : Bytes 32 → List UInt8 → Bytes 64 → Except String Unit
  /-- `borderless_core::encode` of a Hello. -/
  encodeHello : SignedHello → Except String (List UInt8)
  /-- `borderless_core::decode` of a Hello. -/
  decodeHello : List UInt8 → Except String SignedHello

/-- What the repository relies on in postcard: it decodes what it has encoded, and it refuses an
encoding that is cut short. -/
structure Crates.Codec (c : Crates) : Prop where
  /-- An encoding is decoded. -/
  round_trip : ∀ hello bytes, c.encodeHello hello = .ok bytes → c.decodeHello bytes = .ok hello
  /-- A strict prefix of an encoding is refused. -/
  strict_prefix : ∀ hello bytes, c.encodeHello hello = .ok bytes → ∀ part, part <+: bytes →
    part ≠ bytes → ∃ e, c.decodeHello part = .error e

/-- `Identity`, a key pair. -/
structure Identity where
  /-- `Identity::pubkey`. -/
  pubkey : Bytes 32
  /-- `Identity::sign`. -/
  sign : List UInt8 → Bytes 64

/-- `HELLO_BIND_LABEL`, the domain-separation tag of the Hello signature. -/
def helloBindLabel : List UInt8 := "borderless/hello/v0".toUTF8.toList

/-- What a Hello signs: the label and the exporter. -/
def binding (exporter : Bytes 32) : List UInt8 := helloBindLabel ++ exporter.toList

/-- `verify_signature`: the key parses, and the signature of the message verifies under it. -/
def verifySignature (c : Crates) (pubkey : Bytes 32) (message : List UInt8) (sig : Bytes 64) :
    Except Error Unit :=
  match c.parseKey pubkey with
  | .error e => .error (.identity s!"bad pubkey: {e}")
  | .ok () =>
    match c.verify pubkey message sig with
    | .error e => .error (.identity s!"signature: {e}")
    | .ok () => .ok ()

/-- The stream of a TLS session as one handshake sees it. -/
structure Stream where
  /-- The bytes that arrive before the stream ends. -/
  incoming : List UInt8
  /-- The error of a read beyond them. -/
  readError : String
  /-- The error of a write, if writes fail. -/
  writeError : Option String

/-- `write_framed_raw`: the length of the payload and the payload, which a stream takes whose writes
do not fail, and the result. -/
def writeFramedRaw (stream : Stream) (payload : List UInt8) : List UInt8 × Except Error Unit :=
  (framed payload,
    match stream.writeError with
    | some e => .error (.io e)
    | none => .ok ())

/-- `read_hello`: the Hello, and the bytes after it. -/
def readHello (c : Crates) (stream : Stream) : Except Error (SignedHello × List UInt8) := do
  let (lenBuf, rest) ← readExact 4 stream.incoming stream.readError
  let len := u32FromLe lenBuf
  if 16 * 1024 < len then .error (.codec s!"hello too large: {len}")
  else
    let (payload, rest) ← readExact len rest stream.readError
    match c.decodeHello payload with
    | .ok hello => .ok (hello, rest)
    | .error e => .error (.codec s!"hello decode: {e}")

/-- The arguments of a call of `handshake`, and what its environment returns. -/
structure HandshakeCall where
  /-- The stream of the session. -/
  stream : Stream
  /-- The exporter of the session. -/
  exporter : Bytes 32
  /-- Our identity. -/
  identity : Identity
  /-- Our display name. -/
  name : String
  /-- Whether a new peer is trusted on first use. -/
  acceptNewPeers : Bool
  /-- The pinned key, if any. -/
  expectedPubkey : Option (Bytes 32)
  /-- Whether we send first. -/
  isInitiator : Bool
  /-- The wall clock in seconds. -/
  now : UInt64
  /-- The disk under the peer store. -/
  storage : Storage

/-- An authenticated `Connection`: what is left of the stream, and the verified peer. -/
structure Connection where
  /-- The bytes that have arrived and are not yet read. -/
  unread : List UInt8
  /-- Verified peer key. -/
  peerPubkey : Bytes 32
  /-- Peer name from its Hello. -/
  peerName : String
  /-- Verified peer identifier. -/
  peerNodeId : NodeId
deriving DecidableEq

/-- The Hello that we send. -/
def ourHello (call : HandshakeCall) : SignedHello where
  pubkey := call.identity.pubkey
  name := call.name
  maxProtocol := protocolV0
  signature := (call.identity.sign (binding call.exporter)).toList

/-- The exchange of Hellos: the initiator writes first, the other side reads first. -/
def exchangeHellos (c : Crates) (call : HandshakeCall) :
    Except Error (SignedHello × List UInt8) := do
  let bytes ← (c.encodeHello (ourHello call)).mapError fun e => Error.codec s!"hello encode: {e}"
  -- one side writes before it reads, so that the two do not wait for each other
  if call.isInitiator then
    (writeFramedRaw call.stream bytes).2
    readHello c call.stream
  else
    let peer ← readHello c call.stream
    (writeFramedRaw call.stream bytes).2
    .ok peer

/-- The checks of a received Hello: the length of its signature, the signature, and the pin. -/
def checkHello (c : Crates) (call : HandshakeCall) (hello : SignedHello) : Except Error Unit :=
  if h : hello.signature.length = 64 then
    match verifySignature c hello.pubkey (binding call.exporter) ⟨hello.signature, h⟩ with
    | .error e =>
      let text := e.display
      .error (.identity s!"peer hello sig: {text}")
    | .ok () =>
      match call.expectedPubkey with
      | none => .ok ()
      | some expected =>
        if expected = hello.pubkey then .ok ()
        else
          let want := c.hexEncode expected.toList
          let got := c.hexEncode hello.pubkey.toList
          .error (.pairing s!"expected node {want} but peer presented {got}")
  else
    let len := hello.signature.length
    .error (.identity s!"bad signature length: {len}")

/-- The lookup in the peer store under its lock, and the insertion of a new peer. -/
def admitPeer (c : Crates) (call : HandshakeCall) (hello : SignedHello) (store : PeerStore) :
    Except Error Unit × PeerStore :=
  if store.isKnown hello.pubkey then (.ok (), store)
  else if call.acceptNewPeers then
    store.insert c.hexEncode call.storage hello.pubkey hello.name call.now
  else
    let id := c.hexEncode (NodeId.fromPubkey c.blake3 hello.pubkey).bytes.toList
    let name := hello.name
    (.error (.pairing s!"unknown peer {id} ({name}); pair first"), store)

/-- `handshake`: the Hellos are exchanged, that of the peer is checked, and its key is looked up or
inserted. -/
def handshake (c : Crates) (call : HandshakeCall) (store : PeerStore) :
    Except Error Connection × PeerStore :=
  match exchangeHellos c call with
  | .error e => (.error e, store)
  | .ok (hello, rest) =>
    match checkHello c call hello with
    | .error e => (.error e, store)
    | .ok () =>
      match admitPeer c call hello store with
      | (.error e, store') => (.error e, store')
      | (.ok (), store') =>
        (.ok ⟨rest, hello.pubkey, hello.name, NodeId.fromPubkey c.blake3 hello.pubkey⟩, store')

/-- The calls that share a peer store, one after the other. -/
def handshakes (c : Crates) : System PeerStore HandshakeCall where
  init _ := True
  step store call := some (handshake c call store).2

/-! ## What a call does -/

variable {c : Crates} {call : HandshakeCall} {store : PeerStore}

/-- The call has received this Hello. -/
def Received (c : Crates) (call : HandshakeCall) (hello : SignedHello) : Prop :=
  ∃ rest, readHello c call.stream = .ok (hello, rest)

/-- The signature of the Hello has 64 bytes, and it verifies over the label and the exporter under
the key of the Hello. -/
def Verified (c : Crates) (call : HandshakeCall) (hello : SignedHello) : Prop :=
  ∃ h : hello.signature.length = 64,
    verifySignature c hello.pubkey (binding call.exporter) ⟨hello.signature, h⟩ = .ok ()

/-- The Hello is of the pinned key, if there is one. -/
def Pinned (call : HandshakeCall) (hello : SignedHello) : Prop :=
  ∀ expected, call.expectedPubkey = some expected → hello.pubkey = expected

/-- A received Hello that has passed the checks on its signature and its key. -/
structure Checked (c : Crates) (call : HandshakeCall) (hello : SignedHello) : Prop where
  /-- It has been received. -/
  received : Received c call hello
  /-- Its signature is right. -/
  verified : Verified c call hello
  /-- Its key is the pinned one. -/
  pinned : Pinned call hello

/-- When a Hello is read: the four length bytes and the payload have arrived, the length is within
the limit, and the payload is decoded. -/
theorem readHello_ok_iff {stream : Stream} {hello : SignedHello} {rest : List UInt8} :
    readHello c stream = .ok (hello, rest) ↔
      4 ≤ stream.incoming.length ∧ ∃ len, u32FromLe (stream.incoming.take 4) = len ∧
        len ≤ 16 * 1024 ∧ len ≤ (stream.incoming.drop 4).length ∧
        c.decodeHello ((stream.incoming.drop 4).take len) = .ok hello ∧
        (stream.incoming.drop 4).drop len = rest := by
  constructor
  · intro h
    obtain ⟨⟨lenBuf, body⟩, hhead, h⟩ := Results.bind_ok_iff.1 h
    obtain ⟨hle, rfl, rfl⟩ := readExact_ok_iff.1 hhead
    dsimp only at h
    split_ifs at h with hlarge
    obtain ⟨⟨payload, rest'⟩, hbody, h⟩ := Results.bind_ok_iff.1 h
    obtain ⟨hle', rfl, rfl⟩ := readExact_ok_iff.1 hbody
    refine ⟨hle, _, rfl, not_lt.1 hlarge, hle', ?_⟩
    dsimp only at h
    split at h
    · next hello' hdecode =>
      obtain ⟨rfl, rfl⟩ := Prod.mk.inj (Except.ok.inj h)
      exact ⟨hdecode, rfl⟩
    · cases h
  · rintro ⟨hle, len, hlen, hsmall, hle', hdecode, rfl⟩
    refine Results.bind_ok_iff.2 ⟨_, readExact_ok_iff.2 ⟨hle, rfl, rfl⟩, ?_⟩
    dsimp only
    rw [hlen, if_neg (not_lt.2 hsmall)]
    refine Results.bind_ok_iff.2 ⟨_, readExact_ok_iff.2 ⟨hle', rfl, rfl⟩, ?_⟩
    dsimp only
    rw [hdecode]

/-- A received Hello is decoded from bytes that follow the four length bytes. -/
theorem readHello_ok {stream : Stream} {hello : SignedHello} {rest : List UInt8}
    (h : readHello c stream = .ok (hello, rest)) :
    stream.incoming ≠ [] ∧
      ∃ payload, payload <+: stream.incoming.drop 4 ∧ c.decodeHello payload = .ok hello := by
  obtain ⟨hle, len, -, -, -, hdecode, -⟩ := readHello_ok_iff.1 h
  refine ⟨?_, _, List.take_prefix _ _, hdecode⟩
  rintro hempty
  rw [hempty] at hle
  cases hle

/-- A Hello that is read whole does not depend on how the stream ends. -/
theorem readHello_of_ok {stream stream' : Stream} {result : SignedHello × List UInt8}
    (hsame : stream'.incoming = stream.incoming) (h : readHello c stream = .ok result) :
    readHello c stream' = .ok result := by
  rw [readHello_ok_iff] at h ⊢
  rw [hsame]
  exact h

/-- From the start of a Hello in its frame nothing but the Hello is read. -/
theorem readHello_of_prefix (hc : c.Codec) {stream : Stream} {sent hello : SignedHello}
    {bytes rest : List UInt8} (hencode : c.encodeHello sent = .ok bytes)
    (hpre : stream.incoming <+: framed bytes) (h : readHello c stream = .ok (hello, rest)) :
    hello = sent := by
  obtain ⟨-, payload, hpayload, hdecode⟩ := readHello_ok h
  have hdrop : stream.incoming.drop 4 <+: bytes := hpre.drop 4
  have hp := hpayload.trans hdrop
  -- the length in front may say less than the whole Hello, which the decoder then refuses
  by_cases heq : payload = bytes
  · rw [heq, hc.round_trip sent bytes hencode] at hdecode
    exact (Except.ok.inj hdecode).symm
  · obtain ⟨e, he⟩ := hc.strict_prefix sent bytes hencode payload hp heq
    rw [he] at hdecode
    cases hdecode

/-- The exchange yields a received Hello. -/
theorem received_of_exchange {hello : SignedHello} {rest : List UInt8}
    (h : exchangeHellos c call = .ok (hello, rest)) : Received c call hello := by
  obtain ⟨bytes, -, h⟩ := Results.bind_ok_iff.1 h
  split_ifs at h with hinit
  · obtain ⟨_, -, h⟩ := Results.bind_ok_iff.1 h
    exact ⟨rest, h⟩
  · obtain ⟨peer, hread, h⟩ := Results.bind_ok_iff.1 h
    obtain ⟨_, -, h⟩ := Results.bind_ok_iff.1 h
    obtain rfl := Except.ok.inj h
    exact ⟨rest, hread⟩

/-- The checks pass exactly for a Hello whose signature and key are right. -/
theorem checkHello_ok_iff {hello : SignedHello} :
    checkHello c call hello = .ok () ↔ Verified c call hello ∧ Pinned call hello := by
  unfold checkHello
  by_cases hlen : hello.signature.length = 64
  · rw [dif_pos hlen]
    cases hsig : verifySignature c hello.pubkey (binding call.exporter) ⟨hello.signature, hlen⟩ with
    | error e =>
      refine iff_of_false (fun h => by cases h) ?_
      rintro ⟨⟨_, hverified⟩, -⟩
      rw [hsig] at hverified
      cases hverified
    | ok _ =>
      have hverified : Verified c call hello := ⟨hlen, hsig⟩
      rw [and_iff_right hverified]
      unfold Pinned
      cases hexp : call.expectedPubkey with
      | none => simp
      | some expected =>
        by_cases hkey : expected = hello.pubkey
        · simp [hkey]
        · simp [hkey, Ne.symm hkey]
  · rw [dif_neg hlen]
    refine iff_of_false (fun h => by cases h) ?_
    rintro ⟨⟨h, -⟩, -⟩
    exact hlen h

/-- What a call does. It fails and leaves the store alone; or the checked Hello is of a known key,
and the call succeeds and leaves the store alone; or new keys are accepted, and the call inserts
the key of the checked Hello, which can fail on the disk. -/
theorem handshake_cases (c : Crates) (call : HandshakeCall) (store : PeerStore) :
    (∃ e, handshake c call store = (.error e, store)) ∨
    ∃ hello rest, Checked c call hello ∧
      (store.isKnown hello.pubkey ∧ handshake c call store =
          (.ok ⟨rest, hello.pubkey, hello.name, NodeId.fromPubkey c.blake3 hello.pubkey⟩, store) ∨
        ¬ store.isKnown hello.pubkey ∧ call.acceptNewPeers ∧ handshake c call store =
          ((store.insert c.hexEncode call.storage hello.pubkey hello.name call.now).1.map fun _ =>
              ⟨rest, hello.pubkey, hello.name, NodeId.fromPubkey c.blake3 hello.pubkey⟩,
            (store.insert c.hexEncode call.storage hello.pubkey hello.name call.now).2)) := by
  unfold handshake
  cases hex : exchangeHellos c call with
  | error e => exact .inl ⟨e, rfl⟩
  | ok received =>
    obtain ⟨hello, rest⟩ := received
    cases hcheck : checkHello c call hello with
    | error e => exact .inl ⟨e, by simp only [hcheck]⟩
    | ok _ =>
      obtain ⟨hverified, hpinned⟩ := checkHello_ok_iff.1 hcheck
      have hchecked : Checked c call hello := ⟨received_of_exchange hex, hverified, hpinned⟩
      unfold admitPeer
      by_cases hknown : store.isKnown hello.pubkey
      · exact .inr ⟨hello, rest, hchecked, .inl ⟨hknown, by simp only [hcheck, if_pos hknown]⟩⟩
      · by_cases haccept : call.acceptNewPeers
        · refine .inr ⟨hello, rest, hchecked, .inr ⟨hknown, haccept, ?_⟩⟩
          simp only [hcheck, if_neg hknown, if_pos haccept]
          rcases store.insert c.hexEncode call.storage hello.pubkey hello.name call.now with
            ⟨_ | _, store'⟩ <;> rfl
        · exact .inl ⟨_, by simp only [hcheck, if_neg hknown, if_neg haccept]; rfl⟩

/-- A checked peer is admitted when its key is known, or when new keys are accepted and insertion
succeeds. -/
theorem admitPeer_ok_iff {hello : SignedHello} :
    (admitPeer c call hello store).1 = .ok () ↔ store.isKnown hello.pubkey ∨
      call.acceptNewPeers ∧
        (store.insert c.hexEncode call.storage hello.pubkey hello.name call.now).1 = .ok () := by
  unfold admitPeer
  by_cases hknown : store.isKnown hello.pubkey
  · simp [hknown]
  · by_cases haccept : call.acceptNewPeers
    · simp [hknown, haccept]
    · simp [hknown, haccept]

/-- When a call succeeds: the Hellos are exchanged, signature and key of the received one are
right, and its sender is admitted. -/
theorem handshake_ok_iff {conn : Connection} :
    (handshake c call store).1 = .ok conn ↔ ∃ hello rest,
      exchangeHellos c call = .ok (hello, rest) ∧ Verified c call hello ∧ Pinned call hello ∧
      (admitPeer c call hello store).1 = .ok () ∧
      conn = ⟨rest, hello.pubkey, hello.name, NodeId.fromPubkey c.blake3 hello.pubkey⟩ := by
  unfold handshake
  cases hex : exchangeHellos c call with
  | error e => simp
  | ok received =>
    obtain ⟨hello, rest⟩ := received
    have hcheck : checkHello c call hello = .ok () ↔ Verified c call hello ∧ Pinned call hello :=
      checkHello_ok_iff
    constructor
    · intro h
      cases hchecked : checkHello c call hello with
      | error e => simp [hchecked] at h
      | ok _ =>
        obtain ⟨hverified, hpinned⟩ := hcheck.1 hchecked
        refine ⟨hello, rest, rfl, hverified, hpinned, ?_⟩
        simp only [hchecked] at h
        rcases hpair : admitPeer c call hello store with ⟨_ | _, store'⟩
        · simp only [hpair] at h
          cases h
        · simp only [hpair] at h
          exact ⟨rfl, (Except.ok.inj h).symm⟩
    · rintro ⟨hello', rest', heq, hverified, hpinned, hadmit, rfl⟩
      obtain ⟨rfl, rfl⟩ := Prod.mk.inj (Except.ok.inj heq)
      simp only [hcheck.2 ⟨hverified, hpinned⟩]
      rcases hpair : admitPeer c call hello store with ⟨_ | _, store'⟩
      · rw [hpair] at hadmit
        cases hadmit
      · rfl

/-! ## The peer store over all calls -/

/-- The errors of the checks: codec, identity, and pairing (a wrong pin or an unknown peer). -/
def Error.IsRefusal : Error → Prop
  | .codec _ | .identity _ | .pairing _ => True
  | .io _ | .toml _ | .tls _ => False

/-- What a call guarantees that turns the store `s` into `t`. -/
structure HandshakeSound (c : Crates) (s : PeerStore) (call : HandshakeCall) (t : PeerStore) :
    Prop where
  /-- It succeeds only for a checked Hello of a key that is known or may be new. -/
  accepted : ∀ conn, (handshake c call s).1 = .ok conn → ∃ hello, Checked c call hello ∧
    conn.peerPubkey = hello.pubkey ∧ (s.isKnown hello.pubkey ∨ call.acceptNewPeers)
  /-- An entry that it changes is the new entry of the checked Hello's key, where new keys are
  accepted. -/
  added : ∀ k, t.get k ≠ s.get k → ∃ hello, Checked c call hello ∧ k = hello.pubkey ∧
    call.acceptNewPeers ∧ ¬ s.isKnown k ∧
    t.get k = some ⟨hello.name, c.hexEncode k.toList, call.now⟩
  /-- When a check fails the store is unchanged. -/
  refused : ∀ e, (handshake c call s).1 = .error e → e.IsRefusal → t = s

/-- Every call is sound. -/
theorem handshake_sound (c : Crates) (call : HandshakeCall) (store : PeerStore) :
    HandshakeSound c store call (handshake c call store).2 := by
  rcases handshake_cases c call store with ⟨e, h⟩ | ⟨hello, rest, hchecked, ⟨hknown, h⟩ |
    ⟨hknown, haccept, h⟩⟩
  · rw [h]
    refine ⟨fun conn hconn => ?_, fun k hk => absurd rfl hk, fun _ _ _ => rfl⟩
    rw [h] at hconn
    cases hconn
  · rw [h]
    refine ⟨fun conn hconn => ?_, fun k hk => absurd rfl hk, fun _ _ _ => rfl⟩
    rw [h] at hconn
    obtain rfl := Except.ok.inj hconn
    exact ⟨hello, hchecked, rfl, .inl hknown⟩
  · rw [h]
    refine ⟨fun conn hconn => ?_, fun k hk => ?_, fun e he hrefusal => ?_⟩
    · rw [h] at hconn
      cases hinsert :
        (store.insert c.hexEncode call.storage hello.pubkey hello.name call.now).1 with
      | error e =>
        simp only [hinsert, Except.map] at hconn
        cases hconn
      | ok _ =>
        simp only [hinsert, Except.map] at hconn
        obtain rfl := Except.ok.inj hconn
        exact ⟨hello, hchecked, rfl, .inr haccept⟩
    · have hself : k = hello.pubkey := by
        by_contra hne
        exact hk (PeerStore.get_insert_of_ne hne call.storage _ _)
      subst hself
      exact ⟨hello, hchecked, rfl, haccept, hknown, PeerStore.get_insert_self call.storage _ _⟩
    · -- an insertion fails on the disk only
      exfalso
      rw [h] at he
      cases hinsert :
        (store.insert c.hexEncode call.storage hello.pubkey hello.name call.now).1 with
      | ok _ =>
        simp only [hinsert, Except.map] at he
        cases he
      | error e' =>
        simp only [hinsert, Except.map] at he
        obtain rfl := Except.error.inj he
        rcases PeerStore.flush_error hinsert with ⟨text, rfl⟩ | ⟨text, rfl⟩
        · exact hrefusal
        · exact hrefusal

/-- A known key stays known. -/
theorem isKnown_handshake {k : Bytes 32} (h : store.isKnown k = true) :
    (handshake c call store).2.isKnown k = true := by
  by_contra hunknown
  have hne : (handshake c call store).2.get k ≠ store.get k := by
    intro hsame
    rw [PeerStore.isKnown_iff_get, hsame, ← PeerStore.isKnown_iff_get] at hunknown
    exact hunknown h
  obtain ⟨-, -, -, -, hnew, -⟩ := (handshake_sound c call store).added k hne
  exact hnew h

/-- Trust-store soundness over all handshakes. In every sequence of calls on a shared store, a call
succeeds only for a Hello whose signature is of 64 bytes and verifies over the label and the
session's exporter, whose key is the pinned one, and whose key is known or may be new; it adds at
most that key, where new keys are accepted, and changes no other entry; and when a check fails it
leaves the store unchanged. Where no call accepts new keys, the known keys never grow. -/
theorem trust_store_sound (c : Crates) (store : PeerStore) (calls : List HandshakeCall) :
    (∀ p ∈ (handshakes c).steps store calls, HandshakeSound c p.1 p.2.1 p.2.2) ∧
    ((∀ call ∈ calls, call.acceptNewPeers = false) →
      ∀ p ∈ (handshakes c).steps store calls, ∀ k, p.2.2.isKnown k → store.isKnown k) := by
  refine ⟨fun p hp => ?_, fun hstrict => ?_⟩
  · have hstep := System.step_of_mem_steps hp
    rw [← Option.some.inj hstep]
    exact handshake_sound c p.2.1 p.1
  · have hguard : ∀ p ∈ (handshakes c).steps store calls, p.2.1.acceptNewPeers = false :=
      fun p hp => hstrict _ (System.label_mem_of_mem_steps hp)
    refine System.steps_invariant (I := fun s : PeerStore => ∀ k, s.isKnown k → store.isKnown k)
      (P := fun _ (call : HandshakeCall) => call.acceptNewPeers = false) ?_ (fun k hk => hk) hguard
    intro s call t hs haccept hstep k hk
    obtain rfl : (handshake c call s).2 = t := Option.some.inj hstep
    -- a call that accepts no new key changes no entry
    have hsame : (handshake c call s).2.get k = s.get k := by
      by_contra hne
      obtain ⟨_, _, _, htrue, _⟩ := (handshake_sound c call s).added k hne
      rw [haccept] at htrue
      cases htrue
    rw [PeerStore.isKnown_iff_get, hsame, ← PeerStore.isKnown_iff_get] at hk
    exact hs k hk

section Example

/-- The `n` bytes at the start of a list, with zeros where it is short. -/
def padded (n : ℕ) (bytes : List UInt8) : Bytes n := List.Vector.ofFn fun i => bytes.getD i 0

/-- A signature that names the key and repeats the exporter at the end of the message. -/
def sampleSign (pubkey : Bytes 32) (message : List UInt8) : Bytes 64 :=
  padded 64 (pubkey.toList ++ message.drop helloBindLabel.length)

/-- Reads a Hello in the postcard format. -/
def helloReader : Postcard.Reader SignedHello := do
  let pubkey ← Postcard.Reader.array 32
  let name ← Postcard.Reader.string
  let version ← Postcard.Reader.u16
  let signature ← Postcard.Reader.bytes
  pure ⟨pubkey, name, ⟨version⟩, signature⟩

/-- The reader reads what is written. -/
theorem reads_hello (hello : SignedHello) : Postcard.Reads helloReader hello.postcard hello := by
  unfold helloReader SignedHello.postcard
  refine (Postcard.reads_array hello.pubkey).bind ?_
  refine (Postcard.reads_string hello.name).bind ?_
  refine (Postcard.reads_u16 hello.maxProtocol.number).bind ?_
  exact (Postcard.reads_bytes hello.signature).bind_nil (Postcard.Reads.pure hello)

/-- Functions that stand in for the crates, with postcard for every Hello. -/
def sampleCrates : Crates where
  blake3 bytes := padded 32 bytes
  hexEncode bytes := String.join (bytes.map fun b => toString b)
  parseKey _ := .ok ()
  verify pubkey message sig :=
    if sig = sampleSign pubkey message then .ok () else .error "signature error"
  encodeHello hello := .ok hello.postcard
  decodeHello bytes :=
    match helloReader bytes with
    | some (hello, _) => .ok hello
    | none => .error "unexpected end"

/-- The stand-in codec decodes what it has encoded, and nothing shorter. -/
theorem sampleCrates_codec : sampleCrates.Codec := by
  constructor
  · intro hello bytes h
    obtain rfl := Except.ok.inj h
    have hread := (reads_hello hello).whole []
    rw [List.append_nil] at hread
    simp only [sampleCrates, hread]
  · intro hello bytes h part hpre hne
    obtain rfl := Except.ok.inj h
    have hread := (reads_hello hello).part part hpre hne
    exact ⟨"unexpected end", by simp only [sampleCrates, hread]⟩

/-- The identity whose key repeats one byte. -/
def sampleIdentity (b : UInt8) : Identity :=
  ⟨.replicate 32 b, sampleSign (.replicate 32 b)⟩

/-- A disk on which every write succeeds. -/
def sampleStorage : Storage := ⟨fun _ => [], fun _ => .ok "", .ok (), fun _ => .ok ()⟩

/-- A call with an exporter of zeros at the node `9`, which receives these bytes. -/
def sampleCall (incoming : List UInt8) (acceptNewPeers : Bool) (expectedPubkey : Option (Bytes 32))
    (isInitiator : Bool) : HandshakeCall where
  stream := ⟨incoming, "unexpected end of file", none⟩
  exporter := .replicate 32 0
  identity := sampleIdentity 9
  name := ""
  acceptNewPeers := acceptNewPeers
  expectedPubkey := expectedPubkey
  isInitiator := isInitiator
  now := 0
  storage := sampleStorage

/-- The Hello of the node `b` in its frame, which has an empty name, the version 0 and a signature of
64 bytes. -/
def sampleHello (b : UInt8) : List UInt8 :=
  framed ((sampleIdentity b).pubkey.toList ++
    0 :: 0 :: 64 :: ((sampleIdentity b).sign (binding (.replicate 32 0))).toList)

/-- It is the frame of the encoding. -/
theorem framed_sampleHello (b : UInt8) : framed (SignedHello.postcard ⟨(sampleIdentity b).pubkey, "",
    protocolV0, ((sampleIdentity b).sign (binding (.replicate 32 0))).toList⟩) = sampleHello b := by
  have hlen : ((sampleIdentity b).sign (binding (.replicate 32 0))).toList.length = 64 :=
    List.Vector.toList_length _
  have hname : Postcard.string "" = [0] := by
    show Postcard.varint 0 ++ [] = [0]
    rw [Postcard.varint_of_lt (by omega)]
    rfl
  have hversion : Postcard.varint protocolV0.number.toNat = [0] := Postcard.varint_of_lt (by decide)
  unfold SignedHello.postcard Postcard.bytes
  rw [hname, hversion, hlen, Postcard.varint_of_lt (by omega)]
  rfl

/-- The node `1` is accepted on first use, and then without that; the node `2` is refused for the
pin of `1`, although new peers are accepted. -/
def sampleCalls : List HandshakeCall :=
  [sampleCall (sampleHello 1) true none false, sampleCall (sampleHello 1) false none false,
    sampleCall (sampleHello 2) true (some (.replicate 32 1)) true]

example : (handshake sampleCrates (sampleCall (sampleHello 1) true none false) ⟨none, ∅⟩).1 =
    .ok ⟨[], .replicate 32 1, "", ⟨.replicate 16 1⟩⟩ := by decide +kernel

/-- The calls of `sampleCalls` are sound, and without trust on first use the node `1` stays
unknown. -/
theorem trust_store_sound_sampleCalls :
    (∀ p ∈ (handshakes sampleCrates).steps ⟨none, ∅⟩ sampleCalls,
      HandshakeSound sampleCrates p.1 p.2.1 p.2.2) ∧
    ∀ p ∈ (handshakes sampleCrates).steps ⟨none, ∅⟩ [sampleCall (sampleHello 1) false none false],
      p.2.2.isKnown (.replicate 32 1) = false := by
  refine ⟨(trust_store_sound sampleCrates ⟨none, ∅⟩ sampleCalls).1, fun p hp => ?_⟩
  rw [Bool.eq_false_iff]
  intro hknown
  have hempty := (trust_store_sound sampleCrates ⟨none, ∅⟩ _).2 (by simp [sampleCall]) p hp _ hknown
  exact absurd hempty (by decide)

end Example

end Borderless.Transport
