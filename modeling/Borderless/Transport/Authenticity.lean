import Borderless.Transport.Handshake

/-!
# Who a handshake has authenticated

The handshakes of any number of TLS sessions against an adversary. Each end of a session is at an
honest node, which runs `handshake`, or at the adversary, which sends what it likes. `signed` is the
history of all signatures, each with the endpoint that made it, and `known` are those that have
been on the wire or that the adversary has made; no node reads either.

The cryptography is assumed as a guard of steps (`Assumed`): the exporter of a session is unknown
outside of it, what an honest end receives from an honest end is what that one has sent, and in what
it receives from the adversary a signature that verifies is a known one.

Both ends sign the same bytes, the label and the exporter. So a known signature over them was made
at the other end, or at the receiving end itself, and the latter has sent its Hello before it reads
only as the initiator. The guard `ForeignKey` excludes that an initiator receives its own key from
the adversary.
-/

namespace Borderless.Transport

open Transition

/-- One end of a TLS session. -/
structure Endpoint (S : Type*) where
  /-- The session. -/
  session : S
  /-- Whether it is the side that dials. -/
  initiator : Bool
deriving DecidableEq

/-- The other end of the session. -/
def Endpoint.remote {S : Type*} (e : Endpoint S) : Endpoint S :=
  { e with initiator := !e.initiator }

/-- An honest node: what it passes to each of its handshakes. -/
structure HonestNode where
  /-- Its identity. -/
  identity : Identity
  /-- Its display name. -/
  name : String

/-- The sessions and who is at their ends. -/
structure Setup (S : Type*) where
  /-- The exporter of each session. -/
  exporter : S → Bytes 32
  /-- Each session has an exporter of its own. -/
  exporter_injective : Function.Injective exporter
  /-- The honest node at an end, or `none` for the adversary. -/
  node : Endpoint S → Option HonestNode
  /-- Whether the adversary at an end holds the secret half of a key. -/
  keys : Endpoint S → Bytes 32 → Bool

/-- A signature that was made. -/
structure Signing (S : Type*) where
  /-- The end that made it. -/
  signer : Endpoint S
  /-- The public half of the key. -/
  key : Bytes 32
  /-- What was signed. -/
  message : List UInt8
  /-- The signature. -/
  signature : Bytes 64

/-- How far an honest end is. -/
inductive Phase
  /-- `handshake` has not been called. -/
  | idle
  /-- Its Hello is signed, and that of an initiator is sent. -/
  | started
  /-- `handshake` has returned. -/
  | done
deriving DecidableEq

/-- An `Ok` of `handshake`. -/
structure Acceptance (S : Type*) where
  /-- The end that accepted. -/
  endpoint : Endpoint S
  /-- The Hello that it received. -/
  hello : SignedHello
  /-- The connection that was returned. -/
  conn : Connection

/-- The arguments of a call of `handshake` that its end does not determine. -/
structure Attempt where
  /-- The stream of the session. -/
  stream : Stream
  /-- Whether a new peer is trusted on first use. -/
  acceptNewPeers : Bool
  /-- The pinned key, if any. -/
  expectedPubkey : Option (Bytes 32)
  /-- The wall clock in seconds. -/
  now : UInt64
  /-- The disk under the peer store. -/
  storage : Storage

/-- What has happened in the sessions. -/
structure Sessions (S : Type*) where
  /-- How far each honest end is. -/
  phase : Endpoint S → Phase
  /-- The signatures made. -/
  signed : List (Signing S)
  /-- The signatures that the adversary may have seen. -/
  known : List (Signing S)
  /-- The bytes that each honest end has sent. -/
  sent : Endpoint S → List UInt8
  /-- The handshakes that have succeeded. -/
  accepted : List (Acceptance S)

/-- The steps of the sessions. -/
inductive SessionLabel (S : Type*)
  /-- An honest end calls `handshake`. -/
  | start (e : Endpoint S)
  /-- The adversary at an end signs with a key that it holds. -/
  | sign (e : Endpoint S) (key : Bytes 32) (message : List UInt8) (signature : Bytes 64)
  /-- An honest end reads, and `handshake` returns. -/
  | receive (e : Endpoint S) (attempt : Attempt) (store : PeerStore)

variable {S : Type*}

namespace Setup

/-- The call of `handshake` at an end. -/
def call (setup : Setup S) (e : Endpoint S) (node : HonestNode) (attempt : Attempt) :
    HandshakeCall where
  stream := attempt.stream
  exporter := setup.exporter e.session
  identity := node.identity
  name := node.name
  acceptNewPeers := attempt.acceptNewPeers
  expectedPubkey := attempt.expectedPubkey
  isInitiator := e.initiator
  now := attempt.now
  storage := attempt.storage

/-- What the Hellos of a session sign. -/
def message (setup : Setup S) (i : S) : List UInt8 := binding (setup.exporter i)

/-- The signature of an honest end. -/
def signing (setup : Setup S) (e : Endpoint S) (node : HonestNode) : Signing S where
  signer := e
  key := node.identity.pubkey
  message := setup.message e.session
  signature := node.identity.sign (setup.message e.session)

/-- The Hello of an honest end. -/
def hello (setup : Setup S) (e : Endpoint S) (node : HonestNode) : SignedHello where
  pubkey := node.identity.pubkey
  name := node.name
  maxProtocol := protocolV0
  signature := (setup.signing e node).signature.toList

/-- The bytes of that Hello on the wire, if it is encoded. -/
def helloBytes (c : Crates) (setup : Setup S) (e : Endpoint S) (node : HonestNode) : List UInt8 :=
  match c.encodeHello (setup.hello e node) with
  | .ok bytes => framed bytes
  | .error _ => []

/-- The end can sign with this key. -/
def Holds (setup : Setup S) (e : Endpoint S) (key : Bytes 32) : Prop :=
  match setup.node e with
  | some node => key = node.identity.pubkey
  | none => setup.keys e key

/-- Different sessions sign different bytes. -/
theorem message_injective (setup : Setup S) : Function.Injective setup.message := by
  intro i j h
  refine setup.exporter_injective (Subtype.ext ?_)
  exact List.append_cancel_left h

end Setup

variable [DecidableEq S]

/-- An honest end writes its Hello. -/
def Sessions.publish (c : Crates) (setup : Setup S) (s : Sessions S) (e : Endpoint S)
    (node : HonestNode) : Sessions S :=
  { s with
    known := s.known ++ [setup.signing e node]
    sent := Function.update s.sent e (setup.helloBytes c e node) }

/-- One step. The initiator writes its Hello as soon as it has signed, the other side when it has
read. -/
def Sessions.step (c : Crates) (setup : Setup S) (s : Sessions S) :
    SessionLabel S → Option (Sessions S)
  | .start e =>
    match setup.node e with
    | none => none
    | some node =>
      if s.phase e = .idle then
        let s' := { s with
          phase := Function.update s.phase e .started
          signed := s.signed ++ [setup.signing e node] }
        some (if e.initiator then s'.publish c setup e node else s')
      else none
  | .sign e key message signature =>
    if (setup.node e).isNone ∧ setup.keys e key then
      some { s with
        signed := s.signed ++ [⟨e, key, message, signature⟩]
        known := s.known ++ [⟨e, key, message, signature⟩] }
    else none
  | .receive e attempt store =>
    match setup.node e with
    | none => none
    | some node =>
      if s.phase e = .started then
        let s' := { s with phase := Function.update s.phase e .done }
        match readHello c attempt.stream with
        | .error _ => some s'
        | .ok (hello, _) =>
          -- the dialed side answers a Hello before it checks it
          let s'' := if e.initiator then s' else s'.publish c setup e node
          match (handshake c (setup.call e node attempt) store).1 with
          | .ok conn => some { s'' with accepted := s''.accepted ++ [⟨e, hello, conn⟩] }
          | .error _ => some s''
      else none

/-- The sessions with these ends. At first nothing has happened. -/
def sessions (c : Crates) (setup : Setup S) : System (Sessions S) (SessionLabel S) where
  init s := s = ⟨fun _ => .idle, [], [], fun _ => [], []⟩
  step := Sessions.step c setup

/-- What is assumed of the cryptography. The adversary signs the bytes of a session only at an end
of that session, since it has no exporter of another. An honest end receives from an honest end the
bytes that this one has sent, or the first of them; and in what it receives from the adversary, a
signature that verifies is known. -/
def Assumed (c : Crates) (setup : Setup S) (s : Sessions S) : SessionLabel S → Prop
  | .start _ => True
  | .sign e _ message _ => ∀ i, message = setup.message i → i = e.session
  | .receive e attempt _ =>
    match setup.node e.remote with
    | some _ => attempt.stream.incoming <+: s.sent e.remote
    | none => ∀ node hello, setup.node e = some node →
      Received c (setup.call e node attempt) hello →
      Verified c (setup.call e node attempt) hello →
      ∃ g ∈ s.known, g.key = hello.pubkey ∧ g.message = setup.message e.session ∧
        g.signature.toList = hello.signature

/-- The guard of a read: an initiator does not receive its own key from the adversary. -/
def ForeignKey (c : Crates) (setup : Setup S) : SessionLabel S → Prop
  | .receive e attempt _ => e.initiator → setup.node e.remote = none →
    ∀ node hello, setup.node e = some node → Received c (setup.call e node attempt) hello →
      hello.pubkey ≠ node.identity.pubkey
  | _ => True

/-- The signature of the accepted Hello was made at the other end of the session, over the bytes of
this session, with the key of the connection, which that end holds. -/
def Authentic (setup : Setup S) (s : Sessions S) (x : Acceptance S) : Prop :=
  ∃ g ∈ s.signed, g.signer = x.endpoint.remote ∧ g.key = x.conn.peerPubkey ∧
    setup.Holds g.signer g.key ∧ g.message = setup.message x.endpoint.session ∧
    g.signature.toList = x.hello.signature

/-- What holds throughout a run. -/
structure SessionInvariant (c : Crates) (setup : Setup S) (s : Sessions S) : Prop where
  /-- An end signs with its keys. -/
  holds : ∀ g ∈ s.signed, setup.Holds g.signer g.key
  /-- An end signs the bytes of its session only. -/
  session : ∀ g ∈ s.signed, ∀ i, g.message = setup.message i → i = g.signer.session
  /-- What is known was signed. -/
  known_signed : s.known ⊆ s.signed
  /-- The Hello of an honest end that has not returned is known only if it is the initiator. -/
  known_sent : ∀ g ∈ s.known, ∀ node, setup.node g.signer = some node →
    g.signer.initiator ∨ s.phase g.signer = .done
  /-- An honest end whose handshake has begun has signed its Hello. -/
  started : ∀ e node, setup.node e = some node → s.phase e ≠ .idle →
    setup.signing e node ∈ s.signed
  /-- An honest end sends its Hello, having signed it, or nothing. -/
  sent : ∀ e node, setup.node e = some node →
    s.sent e = [] ∨ s.sent e = setup.helloBytes c e node ∧ setup.signing e node ∈ s.signed
  /-- The handshakes that have succeeded are authentic. -/
  authentic : ∀ x ∈ s.accepted, Authentic setup s x

variable {c : Crates} {setup : Setup S} {s t : Sessions S}

omit [DecidableEq S] in
/-- An authentic acceptance stays so. -/
theorem Authentic.mono {x : Acceptance S} (h : Authentic setup s x)
    (hsigned : s.signed ⊆ t.signed) :
    Authentic setup t x := by
  obtain ⟨g, hg, hrest⟩ := h
  exact ⟨g, hsigned hg, hrest⟩

omit [DecidableEq S] in
/-- What an honest end has accepted is authentic. -/
theorem SessionInvariant.accept (h : SessionInvariant c setup s) (hc : c.Codec) {e : Endpoint S}
    {node : HonestNode} {attempt : Attempt} {store : PeerStore} {hello : SignedHello}
    {conn : Connection} (hnode : setup.node e = some node) (hphase : s.phase e = .started)
    (hassumed : Assumed c setup s (.receive e attempt store))
    (hforeign : ForeignKey c setup (.receive e attempt store))
    (hreceived : Received c (setup.call e node attempt) hello)
    (hok : (handshake c (setup.call e node attempt) store).1 = .ok conn) :
    Authentic setup s ⟨e, hello, conn⟩ := by
  -- the checked Hello is the one received
  obtain ⟨hello', ⟨hreceived', hverified, -⟩, hkey, -⟩ :=
    (handshake_sound c (setup.call e node attempt) store).accepted conn hok
  obtain rfl : hello' = hello := by
    obtain ⟨rest, hread⟩ := hreceived
    obtain ⟨rest', hread'⟩ := hreceived'
    rw [hread] at hread'
    exact (Prod.mk.inj (Except.ok.inj hread')).1.symm
  unfold Assumed at hassumed
  cases hremote : setup.node e.remote with
  | some peer =>
    -- the bytes are those that the honest peer has sent: a part of its Hello, or nothing
    simp only [hremote] at hassumed
    obtain ⟨rest, hread⟩ := hreceived
    have hnonempty := (readHello_ok hread).1
    rcases h.sent e.remote peer hremote with hsent | ⟨hsent, hsigned⟩
    · rw [hsent] at hassumed
      exact absurd (List.prefix_nil.1 hassumed) hnonempty
    · rw [hsent] at hassumed
      cases hencode : c.encodeHello (setup.hello e.remote peer) with
      | error _ =>
        simp only [Setup.helloBytes, hencode] at hassumed
        exact absurd (List.prefix_nil.1 hassumed) hnonempty
      | ok bytes =>
        simp only [Setup.helloBytes, hencode] at hassumed
        obtain rfl := readHello_of_prefix hc hencode hassumed hread
        exact ⟨_, hsigned, rfl, hkey.symm, h.holds _ hsigned, rfl, rfl⟩
  | none =>
    -- the signature is a known one over the bytes of this session, so one of its ends made it
    simp only [hremote] at hassumed
    obtain ⟨g, hg, hgkey, hmessage, hsignature⟩ := hassumed node hello' hnode hreceived hverified
    have hgsigned := h.known_signed hg
    have hsession := h.session g hgsigned _ hmessage
    have hends : g.signer = e ∨ g.signer = e.remote := by
      obtain ⟨⟨i, b⟩, _, _, _⟩ := g
      obtain ⟨j, b'⟩ := e
      simp only at hsession
      subst hsession
      cases b <;> cases b' <;> simp [Endpoint.remote]
    rcases hends with hself | hother
    · -- it is our own signature, which we have sent only as the initiator
      exfalso
      have hown : g.key = node.identity.pubkey := by
        have hholds := h.holds g hgsigned
        unfold Setup.Holds at hholds
        rw [hself] at hholds
        simpa only [hnode] using hholds
      have hinitiator : e.initiator := by
        rcases h.known_sent g hg node (by rw [hself]; exact hnode) with hinit | hdone
        · rwa [hself] at hinit
        · rw [hself, hphase] at hdone
          cases hdone
      exact hforeign hinitiator hremote node hello' hnode hreceived (hgkey ▸ hown)
    · exact ⟨g, hgsigned, hother, hgkey.trans hkey.symm, h.holds g hgsigned, hmessage, hsignature⟩

omit [DecidableEq S] in
/-- The signature of an honest end is by its key, over the bytes of its session. -/
theorem Setup.signing_own {e : Endpoint S} {node : HonestNode} (hnode : setup.node e = some node) :
    setup.Holds e (setup.signing e node).key ∧
      ∀ i, (setup.signing e node).message = setup.message i → i = e.session := by
  refine ⟨?_, fun i hi => (setup.message_injective hi).symm⟩
  unfold Setup.Holds
  rw [hnode]
  rfl

/-- An honest end that has signed may write its Hello if it is the initiator or has returned. -/
theorem SessionInvariant.publish (h : SessionInvariant c setup s) {e : Endpoint S}
    {node : HonestNode} (hnode : setup.node e = some node)
    (hsigned : setup.signing e node ∈ s.signed) (hturn : e.initiator ∨ s.phase e = .done) :
    SessionInvariant c setup (s.publish c setup e node) := by
  refine ⟨h.holds, h.session, ?_, ?_, h.started, ?_, h.authentic⟩
  · exact List.append_subset.2 ⟨h.known_signed, List.cons_subset.2 ⟨hsigned, List.nil_subset _⟩⟩
  · intro g hg peer hpeer
    rcases List.mem_append.1 hg with hg | hg
    · exact h.known_sent g hg peer hpeer
    · obtain rfl := List.mem_singleton.1 hg
      exact hturn
  · intro e' peer hpeer
    by_cases he : e' = e
    · subst he
      obtain rfl : node = peer := Option.some.inj (hnode.symm.trans hpeer)
      exact .inr ⟨Function.update_self .., hsigned⟩
    · simp only [Sessions.publish, Function.update_of_ne he]
      exact h.sent e' peer hpeer

/-- An honest end begins its handshake and signs. -/
theorem SessionInvariant.start (h : SessionInvariant c setup s) {e : Endpoint S} {node : HonestNode}
    (hnode : setup.node e = some node) (hphase : s.phase e = .idle) :
    SessionInvariant c setup { s with
      phase := Function.update s.phase e .started
      signed := s.signed ++ [setup.signing e node] } := by
  obtain ⟨hholds, hmessage⟩ := Setup.signing_own hnode
  have hold : s.signed ⊆ s.signed ++ [setup.signing e node] := List.subset_append_left _ _
  refine ⟨?_, ?_, List.Subset.trans h.known_signed hold, ?_, ?_, ?_,
    fun x hx => (h.authentic x hx).mono hold⟩
  · simp only [List.forall_mem_append, List.forall_mem_singleton]
    exact ⟨h.holds, hholds⟩
  · simp only [List.forall_mem_append, List.forall_mem_singleton]
    exact ⟨h.session, hmessage⟩
  · intro g hg peer hpeer
    refine (h.known_sent g hg peer hpeer).imp_right fun hdone => ?_
    -- the new signature is not known yet, and the old ones are of ends that have moved on
    have he : g.signer ≠ e := by
      intro he
      rw [he, hphase] at hdone
      cases hdone
    simp only [Function.update_of_ne he]
    exact hdone
  · intro e' peer hpeer hbegun
    by_cases he : e' = e
    · subst he
      obtain rfl : node = peer := Option.some.inj (hnode.symm.trans hpeer)
      exact List.mem_append_right _ (List.mem_singleton.2 rfl)
    · simp only [Function.update_of_ne he] at hbegun
      exact hold (h.started e' peer hpeer hbegun)
  · exact fun e' peer hpeer => (h.sent e' peer hpeer).imp_right fun hs => ⟨hs.1, hold hs.2⟩

omit [DecidableEq S] in
/-- The adversary signs with a key that it holds. -/
theorem SessionInvariant.sign (h : SessionInvariant c setup s) {g : Signing S}
    (hadversary : setup.node g.signer = none) (hkey : setup.keys g.signer g.key)
    (hmessage : ∀ i, g.message = setup.message i → i = g.signer.session) :
    SessionInvariant c setup { s with signed := s.signed ++ [g], known := s.known ++ [g] } := by
  have hold : s.signed ⊆ s.signed ++ [g] := List.subset_append_left _ _
  refine ⟨?_, ?_, ?_, ?_, ?_, ?_, fun x hx => (h.authentic x hx).mono hold⟩
  · simp only [List.forall_mem_append, List.forall_mem_singleton]
    refine ⟨h.holds, ?_⟩
    unfold Setup.Holds
    rw [hadversary]
    exact hkey
  · simp only [List.forall_mem_append, List.forall_mem_singleton]
    exact ⟨h.session, hmessage⟩
  · exact List.append_subset.2 ⟨List.Subset.trans h.known_signed hold, List.subset_append_right _ _⟩
  · simp only [List.forall_mem_append, List.forall_mem_singleton]
    refine ⟨h.known_sent, fun node hnode => ?_⟩
    rw [hadversary] at hnode
    cases hnode
  · exact fun e node hnode hbegun => hold (h.started e node hnode hbegun)
  · exact fun e node hnode => (h.sent e node hnode).imp_right fun hs => ⟨hs.1, hold hs.2⟩

/-- A handshake returns. -/
theorem SessionInvariant.finish (h : SessionInvariant c setup s) {e : Endpoint S}
    (hphase : s.phase e = .started) :
    SessionInvariant c setup { s with phase := Function.update s.phase e .done } := by
  refine ⟨h.holds, h.session, h.known_signed, ?_, ?_, h.sent, h.authentic⟩
  · intro g hg peer hpeer
    refine (h.known_sent g hg peer hpeer).imp_right fun hdone => ?_
    simp only [Function.update_apply]
    split_ifs
    · rfl
    · exact hdone
  · intro e' peer hpeer hbegun
    refine h.started e' peer hpeer fun hidle => ?_
    have he : e' ≠ e := by
      rintro rfl
      rw [hphase] at hidle
      cases hidle
    simp only [Function.update_of_ne he] at hbegun
    exact hbegun hidle

/-- A guarded step keeps the invariant. -/
theorem SessionInvariant.step (h : SessionInvariant c setup s) (hc : c.Codec) {a : SessionLabel S}
    (hassumed : Assumed c setup s a) (hforeign : ForeignKey c setup a)
    (hstep : s.step c setup a = some t) : SessionInvariant c setup t := by
  cases a with
  | start e =>
    simp only [Sessions.step] at hstep
    split at hstep
    · cases hstep
    · next node hnode =>
      by_cases hphase : s.phase e = .idle
      · rw [if_pos hphase] at hstep
        obtain rfl := Option.some.inj hstep
        have hstart := h.start hnode hphase
        -- the initiator sends its Hello at once
        by_cases hinit : e.initiator
        · rw [if_pos hinit]
          refine hstart.publish hnode ?_ (.inl hinit)
          exact List.mem_append_right _ (List.mem_singleton.2 rfl)
        · rwa [if_neg hinit]
      · rw [if_neg hphase] at hstep
        cases hstep
  | sign e key message signature =>
    simp only [Sessions.step] at hstep
    split_ifs at hstep with hkey
    obtain rfl := Option.some.inj hstep
    exact h.sign (Option.isNone_iff_eq_none.1 hkey.1) hkey.2 hassumed
  | receive e attempt store =>
    simp only [Sessions.step] at hstep
    split at hstep
    · cases hstep
    · next node hnode =>
      by_cases hphase : s.phase e = .started
      · rw [if_pos hphase] at hstep
        have hfinish := h.finish hphase
        split at hstep
        · obtain rfl := Option.some.inj hstep
          exact hfinish
        · next hello rest hread =>
          have hread' : SessionInvariant c setup
              (if e.initiator then { s with phase := Function.update s.phase e .done }
                else
                  { s with phase := Function.update s.phase e .done : Sessions S }.publish c setup
                    e node) := by
            -- the other side sends its Hello when it has read one
            by_cases hinit : e.initiator
            · rwa [if_pos hinit]
            · rw [if_neg hinit]
              refine hfinish.publish hnode (h.started e node hnode ?_)
                (.inr (Function.update_self ..))
              rw [hphase]
              exact fun hidle => by cases hidle
          split at hstep
          · next conn hok =>
            obtain rfl := Option.some.inj hstep
            -- a connection that is accepted is authentic
            have hauthentic := h.accept hc hnode hphase hassumed hforeign ⟨rest, hread⟩ hok
            refine ⟨hread'.holds, hread'.session, hread'.known_signed, hread'.known_sent,
              hread'.started, hread'.sent, ?_⟩
            simp only [List.forall_mem_append, List.forall_mem_singleton]
            refine ⟨hread'.authentic, hauthentic.mono ?_⟩
            split_ifs <;> exact List.Subset.refl _
          · obtain rfl := Option.some.inj hstep
            exact hread'
      · rw [if_neg hphase] at hstep
        cases hstep

/-- The invariant holds of every state that a guarded run reaches. -/
theorem sessionInvariant_of_reach (hc : c.Codec)
    (hs : (sessions c setup).Reach (fun s a => Assumed c setup s a ∧ ForeignKey c setup a) s) :
    SessionInvariant c setup s := by
  refine hs.invariant (fun s hs => ?_) fun s a t hs hguard hstep => ?_
  · obtain rfl : s = ⟨fun _ => .idle, [], [], fun _ => [], []⟩ := hs
    refine ⟨?_, ?_, List.Subset.refl _, ?_, fun _ _ _ h => absurd rfl h, fun _ _ _ => .inl rfl, ?_⟩
    all_goals
      intro _ h
      cases h
  · exact hs.step hc hguard.1 hguard.2 hstep

/-- An end that can sign with no key at all. -/
def Setup.Keyless (setup : Setup S) (e : Endpoint S) : Prop := ∀ key, ¬ setup.Holds e key

/-- Handshake authenticity. In every run in which no initiator receives its own key from the
adversary, whatever the adversary sends and whatever the trust mode and the pin: when a handshake
of an honest end succeeds, the signature of the Hello that it has accepted was made at the other
end of the session, over the bytes of this session, with the secret key of `peerPubkey`. So an end
that holds no key is never accepted. -/
theorem handshake_authentic (c : Crates) (hc : c.Codec) (setup : Setup S) (s : Sessions S)
    (hs : (sessions c setup).Reach (fun s a => Assumed c setup s a ∧ ForeignKey c setup a) s) :
    ∀ x ∈ s.accepted, Authentic setup s x ∧ ¬ setup.Keyless x.endpoint.remote := by
  intro x hx
  have hauthentic := (sessionInvariant_of_reach hc hs).authentic x hx
  refine ⟨hauthentic, fun hkeyless => ?_⟩
  obtain ⟨g, -, hsigner, -, hholds, -⟩ := hauthentic
  rw [hsigner] at hholds
  exact hkeyless g.key hholds

section Example

/-- The end that dials in the one session. -/
def dialer : Endpoint Unit := ⟨(), true⟩

/-- The node `9` dials an adversary that holds these keys. -/
def sampleSetup (keys : Bytes 32 → Bool) : Setup Unit where
  exporter _ := .replicate 32 0
  exporter_injective _ _ _ := rfl
  node e := if e.initiator then some ⟨sampleIdentity 9, ""⟩ else none
  keys _ := keys

/-- A call in pairing mode that receives these bytes. -/
def pairingAttempt (incoming : List UInt8) : Attempt where
  stream := ⟨incoming, "unexpected end of file", none⟩
  acceptNewPeers := true
  expectedPubkey := none
  now := 0
  storage := sampleStorage

/-- The signature of the node `b` over the bytes of the session, made at `e`. -/
def sampleSigning (e : Endpoint Unit) (b : UInt8) : Signing Unit where
  signer := e
  key := (sampleIdentity b).pubkey
  message := binding (.replicate 32 0)
  signature := (sampleIdentity b).sign (binding (.replicate 32 0))

/-- The node `9` has sent its Hello. -/
def dialed : Sessions Unit where
  phase := Function.update (fun _ => .idle) dialer .started
  signed := [sampleSigning dialer 9]
  known := [sampleSigning dialer 9]
  sent := Function.update (fun _ => []) dialer (sampleHello 9)
  accepted := []

/-- The adversary that holds the key of the node `1` has signed with it. -/
def answered : Sessions Unit :=
  { dialed with
    signed := dialed.signed ++ [sampleSigning dialer.remote 1]
    known := dialed.known ++ [sampleSigning dialer.remote 1] }

/-- The Hello that the node `b` sends. -/
def sampleSent (b : UInt8) : SignedHello where
  pubkey := (sampleIdentity b).pubkey
  name := ""
  maxProtocol := protocolV0
  signature := (sampleSigning dialer b).signature.toList

/-- What the dialer receives is what it can read. -/
theorem received_eq {keys : Bytes 32 → Bool} {node : HonestNode} {incoming rest : List UInt8}
    {sent : SignedHello}
    (hread : readHello sampleCrates (pairingAttempt incoming).stream = .ok (sent, rest)) :
    ∀ hello, Received sampleCrates
      ((sampleSetup keys).call dialer node (pairingAttempt incoming)) hello → hello = sent := by
  rintro hello ⟨rest', h⟩
  have heq := hread.symm.trans h
  exact (Prod.mk.inj (Except.ok.inj heq)).1.symm

/-- The node `9` dials and sends its Hello. -/
theorem dialed_reach (keys : Bytes 32 → Bool)
    (P : Sessions Unit → SessionLabel Unit → Prop) (hP : ∀ s, P s (.start dialer)) :
    (sessions sampleCrates (sampleSetup keys)).Reach P dialed := by
  have hsent : (sampleSetup keys).helloBytes sampleCrates dialer ⟨sampleIdentity 9, ""⟩ =
      sampleHello 9 := framed_sampleHello 9
  refine .step (.init rfl) (hP _) ?_
  unfold dialed
  rw [← hsent]
  rfl

/-- The adversary that holds the key of the node `1` is accepted under that key. -/
theorem handshake_authentic_sampleSetup : ∃ s : Sessions Unit, ∃ x ∈ s.accepted,
    x.conn.peerPubkey = .replicate 32 1 ∧
    Authentic (sampleSetup fun key => key = .replicate 32 1) s x := by
  set setup := sampleSetup fun key => key = .replicate 32 1 with hsetup
  set guard := fun s a => Assumed sampleCrates setup s a ∧ ForeignKey sampleCrates setup a
  have hdialed : (sessions sampleCrates setup).Reach guard dialed :=
    dialed_reach _ guard fun _ => ⟨trivial, trivial⟩
  have hsign : guard dialed (.sign dialer.remote (.replicate 32 1) (binding (.replicate 32 0))
      (sampleSigning dialer.remote 1).signature) := ⟨fun _ _ => rfl, trivial⟩
  have hanswered : (sessions sampleCrates setup).Reach guard answered := hdialed.step hsign rfl
  have hread : readHello sampleCrates (pairingAttempt (sampleHello 1)).stream =
      .ok (sampleSent 1, []) := by decide +kernel
  have hguard : guard answered (.receive dialer (pairingAttempt (sampleHello 1)) ⟨none, ∅⟩) := by
    refine ⟨fun node hello hnode hreceived _ => ?_, fun _ _ node hello hnode hreceived => ?_⟩
    · obtain rfl := Option.some.inj hnode
      rw [received_eq hread hello hreceived]
      exact ⟨sampleSigning dialer.remote 1, by simp [answered, dialed], rfl, rfl, rfl⟩
    · obtain rfl := Option.some.inj hnode
      rw [received_eq hread hello hreceived]
      decide
  have haccept : (Sessions.step sampleCrates setup answered
      (.receive dialer (pairingAttempt (sampleHello 1)) ⟨none, ∅⟩)).any (fun s =>
        decide (s.accepted.map (fun x => x.conn.peerPubkey) = [.replicate 32 1])) = true := by
    decide +kernel
  obtain ⟨s, hstep, hs⟩ := (Option.any_eq_true ..).1 haccept
  obtain ⟨x, hx, hkey⟩ := List.map_eq_singleton_iff.1 (of_decide_eq_true hs)
  have hmem : x ∈ s.accepted := by rw [hx]; exact List.mem_singleton.2 rfl
  exact ⟨s, x, hmem, hkey, (handshake_authentic sampleCrates sampleCrates_codec setup s
    (hanswered.step hguard hstep) x hmem).1⟩

/-- The adversary without any key sends the node's own Hello back, and is accepted. -/
theorem reflected_hello_accepted : ¬ ∀ c : Crates, c.Codec → ∀ (setup : Setup Unit)
    (s : Sessions Unit), (sessions c setup).Reach (Assumed c setup) s →
    ∀ x ∈ s.accepted, Authentic setup s x ∧ ¬ setup.Keyless x.endpoint.remote := by
  intro hall
  set setup := sampleSetup fun _ => false with hsetup
  have hdialed : (sessions sampleCrates setup).Reach (Assumed sampleCrates setup) dialed :=
    dialed_reach _ _ fun _ => trivial
  have hread : readHello sampleCrates (pairingAttempt (sampleHello 9)).stream =
      .ok (sampleSent 9, []) := by decide +kernel
  have hguard : Assumed sampleCrates setup dialed
      (.receive dialer (pairingAttempt (sampleHello 9)) ⟨none, ∅⟩) := by
    intro node hello hnode hreceived _
    obtain rfl := Option.some.inj hnode
    rw [received_eq hread hello hreceived]
    exact ⟨sampleSigning dialer 9, by simp [dialed], rfl, rfl, rfl⟩
  have haccept : (Sessions.step sampleCrates setup dialed
      (.receive dialer (pairingAttempt (sampleHello 9)) ⟨none, ∅⟩)).any (fun s =>
        decide (s.accepted.map Acceptance.endpoint = [dialer])) = true := by decide +kernel
  obtain ⟨s, hstep, hs⟩ := (Option.any_eq_true ..).1 haccept
  obtain ⟨x, hx, hendpoint⟩ := List.map_eq_singleton_iff.1 (of_decide_eq_true hs)
  have hmem : x ∈ s.accepted := by rw [hx]; exact List.mem_singleton.2 rfl
  refine (hall sampleCrates sampleCrates_codec setup s (hdialed.step hguard hstep) x hmem).2 ?_
  intro key hholds
  rw [hendpoint] at hholds
  exact Bool.false_ne_true hholds

end Example

end Borderless.Transport
