import Borderless.Runtime.Reconnect

/-!
# Trust on first use over a run

What the runs of `ClientRuntime::run` with `accept_new_peer` authenticate, read off the attempts. An
attempt makes a list of offers, the keys that the remotes at its addresses present with a Hello that
passes the checks. The run gets to the offers of an attempt in the order of its dials, and leaves the
attempt at the first offer that it admits: of a key that it knows, or that it can store. After an
offer its key is known, whether it could be stored or not.

The flag is that of the whole run, so a later dial pairs with a new hub as the first one does, and
the first key binds the run just where no admitted offer has another key (`first_key_binds_iff`).
-/

namespace Borderless.Runtime

open Borderless.Transport

/-! ## Offers -/

/-- What a remote presents. -/
structure Offer where
  /-- Its key. -/
  key : Bytes 32
  /-- The entry that pairing with it makes. -/
  entry : KnownPeer
  /-- The disk under the peer store at this time. -/
  storage : Storage

/-- The offer of the remote of a dial: its Hello, if that arrives and passes the checks. -/
def DialEnv.offer (c : Crates) (rt : ClientRuntime) : DialEnv → Option Offer
  | .established exporter stream now storage =>
    let call := rt.call exporter stream now storage
    match exchangeHellos c call with
    | .error _ => none
    | .ok (hello, _) =>
      match checkHello c call hello with
      | .error _ => none
      | .ok () =>
        some ⟨hello.pubkey, ⟨hello.name, c.hexEncode hello.pubkey.toList, now⟩, storage⟩
  | _ => none

/-- The offers at the addresses of an attempt, in the order in which they are dialed. -/
def offersOf (c : Crates) (rt : ClientRuntime) : Except String (List Candidate) → List Offer
  | .error _ => []
  | .ok addrs => (preferIpv4 addrs).filterMap fun addr => addr.env.offer c rt

/-- The map after an offer. A new key gets its entry, whether the file can be written or not. -/
def Offer.pair (o : Offer) (m : PeerMap) : PeerMap :=
  if o.key ∈ m then m else m.insert o.key o.entry

/-- The map after some offers. -/
def pairAll (m : PeerMap) (os : List Offer) : PeerMap := os.foldl (fun m o => o.pair m) m

/-- The map with the entry of the offer can be written. -/
def Offer.Storable (o : Offer) (m : PeerMap) : Prop := ¬ o.storage.Fails (m.insert o.key o.entry)

/-- The key of the offer is known, or it can be stored. -/
def Offer.Admitted (o : Offer) (m : PeerMap) : Prop := o.key ∈ m ∨ o.Storable m

instance (o : Offer) (m : PeerMap) : Decidable (o.Admitted m) :=
  inferInstanceAs (Decidable (_ ∨ ¬ _))

/-- The offers that an attempt gets to: up to the first that is admitted. -/
def offersMet (m : PeerMap) : List Offer → List Offer
  | [] => []
  | o :: os => if o.Admitted m then [o] else o :: offersMet (o.pair m) os

/-- The offers that a run gets to, from those of its attempts. -/
def offersOfRun (m : PeerMap) : List (List Offer) → List Offer
  | [] => []
  | os :: rest => offersMet m os ++ offersOfRun (pairAll m (offersMet m os)) rest

/-- The known keys after some offers are those of before and the offered ones. -/
theorem mem_pairAll {m : PeerMap} {os : List Offer} {key : Bytes 32} :
    key ∈ pairAll m os ↔ key ∈ m ∨ ∃ o ∈ os, o.key = key := by
  induction os generalizing m with
  | nil => simp [pairAll]
  | cons o os ih =>
    have hpair : key ∈ o.pair m ↔ key ∈ m ∨ o.key = key := by
      unfold Offer.pair
      split_ifs with hknown
      · exact ⟨.inl, Or.rec id fun hkey => hkey ▸ hknown⟩
      · rw [Finmap.mem_insert, or_comm, eq_comm]
    have hstep : pairAll m (o :: os) = pairAll (o.pair m) os := rfl
    rw [hstep, ih, hpair, List.exists_mem_cons_iff, or_assoc]

/-! ## One dial -/

/-- The dial has authenticated this key. -/
def Dial.Authenticates (d : Dial) (key : Bytes 32) : Prop :=
  ∃ conn, d.result = .ok conn ∧ conn.peerPubkey = key

section Dial

variable {c : Crates} {rt : ClientRuntime} {env : DialEnv} {o : Offer}

/-- Without an offer a dial fails, and the store is the same. -/
theorem dial_of_no_offer (store : PeerStore) (h : env.offer c rt = none) :
    ∃ e, dial c rt env store = (.error e, store) := by
  cases env with
  | tcpError e => exact ⟨_, rfl⟩
  | tlsError e => exact ⟨_, rfl⟩
  | exporterError e => exact ⟨_, rfl⟩
  | established exporter stream now storage =>
    cases hexchange : exchangeHellos c (rt.call exporter stream now storage) with
    | error e => exact ⟨e, by simp only [dial, handshake, hexchange]⟩
    | ok received =>
      obtain ⟨hello, rest⟩ := received
      cases hcheck : checkHello c (rt.call exporter stream now storage) hello with
      | error e => exact ⟨e, by simp only [dial, handshake, hexchange, hcheck]⟩
      | ok _ => simp [DialEnv.offer, hexchange, hcheck] at h

/-- With trust on first use the map after a dial is the one after its offer, and the dial succeeds if
the offer is admitted. -/
theorem dial_of_offer (store : PeerStore) (haccept : rt.acceptNewPeer = true)
    (h : env.offer c rt = some o) :
    (dial c rt env store).2.byPubkey = o.pair store.byPubkey ∧
      (o.Admitted store.byPubkey →
        ∃ conn, (dial c rt env store).1 = .ok conn ∧ conn.peerPubkey = o.key) ∧
      (¬ o.Admitted store.byPubkey → ∃ e, (dial c rt env store).1 = .error e) := by
  cases env with
  | tcpError e => cases h
  | tlsError e => cases h
  | exporterError e => cases h
  | established exporter stream now storage =>
    cases hexchange : exchangeHellos c (rt.call exporter stream now storage) with
    | error e => simp [DialEnv.offer, hexchange] at h
    | ok received =>
      obtain ⟨hello, rest⟩ := received
      cases hcheck : checkHello c (rt.call exporter stream now storage) hello with
      | error e => simp [DialEnv.offer, hexchange, hcheck] at h
      | ok _ =>
        simp only [DialEnv.offer, hexchange, hcheck, Option.some.injEq] at h
        obtain rfl := h
        unfold Offer.pair Offer.Admitted Offer.Storable
        by_cases hknown : hello.pubkey ∈ store.byPubkey
        · have hisKnown : store.isKnown hello.pubkey = true := decide_eq_true hknown
          simp only [dial, handshake, hexchange, hcheck, admitPeer, if_pos hisKnown, if_pos hknown]
          exact ⟨trivial, fun _ => ⟨_, rfl, rfl⟩, fun hnot => absurd (.inl hknown) hnot⟩
        · have hisNew : ¬ store.isKnown hello.pubkey = true := fun h =>
            hknown (of_decide_eq_true h)
          have hcall : (rt.call exporter stream now storage).acceptNewPeers = true := haccept
          simp only [dial, handshake, hexchange, hcheck, admitPeer, if_neg hisNew, if_pos hcall,
            if_neg hknown]
          obtain ⟨hworks, file, hinsert⟩ | ⟨hfails, e, file, hinsert⟩ :=
            PeerStore.insert_cases c.hexEncode storage store hello.pubkey hello.name now rfl
          all_goals
            have hresult : store.insert c.hexEncode (rt.call exporter stream now storage).storage
              hello.pubkey hello.name (rt.call exporter stream now storage).now = _ := hinsert
            simp only [hresult]
          · exact ⟨trivial, fun _ => ⟨_, rfl, rfl⟩, fun hnot => absurd (.inr hworks) hnot⟩
          · refine ⟨trivial, fun hadmitted => ?_, fun _ => ⟨e, rfl⟩⟩
            exact absurd hfails (hadmitted.resolve_left hknown)

end Dial

/-! ## A run -/

/-- The dials make these offers in turn, to stores whose maps go on from `m`, and each authenticates
the key of its offer if that is admitted. -/
inductive Meets (c : Crates) (rt : ClientRuntime) : PeerMap → List Dial → List Offer → Prop
  /-- No dial. -/
  | nil (m : PeerMap) : Meets c rt m [] []
  /-- A dial without an offer. -/
  | silent {m : PeerMap} {d : Dial} {ds : List Dial} {os : List Offer}
    (hkey : ∀ key, ¬ d.Authenticates key) (h : Meets c rt m ds os) : Meets c rt m (d :: ds) os
  /-- A dial with an offer. -/
  | offer {m : PeerMap} {o : Offer} {d : Dial} {ds : List Dial} {os : List Offer}
    (hkey : ∀ key, d.Authenticates key ↔ o.Admitted m ∧ o.key = key)
    (h : Meets c rt (o.pair m) ds os) : Meets c rt m (d :: ds) (o :: os)

section Run

variable {c : Crates} {rt : ClientRuntime} {m : PeerMap} {ds ds' : List Dial} {os os' : List Offer}

/-- Dials after dials make their offers after theirs. -/
theorem Meets.append (h : Meets c rt m ds os) (h' : Meets c rt (pairAll m os) ds' os') :
    Meets c rt m (ds ++ ds') (os ++ os') := by
  induction h with
  | nil m => exact h'
  | silent hkey h ih => exact .silent hkey (ih h')
  | offer hkey h ih => exact .offer hkey (ih h')

/-- All dials authenticate the key `K` at most, if and only if all admitted offers have it. -/
theorem Meets.authenticates_iff (h : Meets c rt m ds os) (K : Bytes 32) :
    (∀ d ∈ ds, ∀ key, d.Authenticates key → key = K) ↔
      ∀ pre o post, os = pre ++ o :: post → o.Admitted (pairAll m pre) → o.key = K := by
  induction h with
  | nil m => simp
  | silent hkey h ih =>
    rw [List.forall_mem_cons, ih, and_iff_right]
    exact fun key hauth => absurd hauth (hkey key)
  | @offer m o d ds os hkey h ih =>
    rw [List.forall_mem_cons, ih]
    constructor
    · rintro ⟨hfirst, hrest⟩ pre o' post heq hadmitted
      cases pre with
      | nil =>
        obtain ⟨rfl, rfl⟩ := List.cons.inj heq
        exact hfirst o.key ((hkey o.key).2 ⟨hadmitted, rfl⟩)
      | cons p pre =>
        obtain ⟨rfl, hos⟩ := List.cons.inj heq
        exact hrest pre o' post hos hadmitted
    · intro hall
      refine ⟨fun key hauth => ?_, fun pre o' post hos => ?_⟩
      · obtain ⟨hadmitted, rfl⟩ := (hkey key).1 hauth
        exact hall [] o os rfl hadmitted
      · exact hall (o :: pre) o' post (by rw [hos, List.cons_append])

/-- The dials over the candidates meet their offers up to the first that is admitted. -/
theorem tryAddrs_meets (haccept : rt.acceptNewPeer = true) (store : PeerStore)
    (lastErr : Option Error) (addrs : List Candidate) :
    Meets c rt store.byPubkey (tryAddrs c rt store lastErr addrs).2.2
        (offersMet store.byPubkey (addrs.filterMap fun addr => addr.env.offer c rt)) ∧
      (tryAddrs c rt store lastErr addrs).2.1.byPubkey = pairAll store.byPubkey
        (offersMet store.byPubkey (addrs.filterMap fun addr => addr.env.offer c rt)) := by
  induction addrs generalizing store lastErr with
  | nil => exact ⟨.nil _, rfl⟩
  | cons addr addrs ih =>
    cases hoffer : addr.env.offer c rt with
    | none =>
      -- this candidate makes no offer, and the next one is dialed
      obtain ⟨e, hdial⟩ := dial_of_no_offer store hoffer
      obtain ⟨hrest, hmap⟩ := ih store (some e)
      simp only [tryAddrs, hdial, List.filterMap_cons, hoffer]
      refine ⟨.silent (fun key hauth => ?_) hrest, hmap⟩
      obtain ⟨conn, hok, -⟩ := hauth
      cases hok
    | some o =>
      obtain ⟨hmap, hok, herror⟩ := dial_of_offer store haccept hoffer
      rcases hdial : dial c rt addr.env store with ⟨result, store'⟩
      rw [hdial] at hmap hok herror
      dsimp only at hmap hok herror
      simp only [List.filterMap_cons, hoffer]
      unfold offersMet
      by_cases hadmitted : o.Admitted store.byPubkey
      · -- the attempt ends with this candidate
        obtain ⟨conn, rfl, hpubkey⟩ := hok hadmitted
        simp only [tryAddrs, hdial, if_pos hadmitted]
        refine ⟨.offer (fun key => ?_) (.nil _), hmap⟩
        constructor
        · rintro ⟨conn', hconn, rfl⟩
          obtain rfl := Except.ok.inj hconn
          exact ⟨hadmitted, hpubkey.symm⟩
        · rintro ⟨-, rfl⟩
          exact ⟨conn, rfl, hpubkey⟩
      · obtain ⟨e, rfl⟩ := herror hadmitted
        obtain ⟨hrest, hfinal⟩ := ih store' (some e)
        rw [hmap] at hrest hfinal
        simp only [tryAddrs, hdial, if_neg hadmitted]
        refine ⟨.offer (fun key => ?_) hrest, hfinal⟩
        refine iff_of_false ?_ fun h => hadmitted h.1
        rintro ⟨conn, hconn, -⟩
        cases hconn

/-- An attempt meets its offers up to the first that is admitted. -/
theorem runOnce_meets (haccept : rt.acceptNewPeer = true) (store : PeerStore)
    (lookup : Except String (List Candidate)) :
    Meets c rt store.byPubkey (runOnce c rt store lookup).2.2
        (offersMet store.byPubkey (offersOf c rt lookup)) ∧
      (runOnce c rt store lookup).2.1.byPubkey =
        pairAll store.byPubkey (offersMet store.byPubkey (offersOf c rt lookup)) := by
  unfold runOnce
  split
  · exact ⟨.nil _, rfl⟩
  · exact ⟨.nil _, rfl⟩
  · exact tryAddrs_meets haccept store none _

/-- A run meets the offers of its attempts. -/
theorem run_meets (haccept : rt.acceptNewPeer = true) (store : PeerStore)
    (attempts : List (Except String (List Candidate))) :
    Meets c rt store.byPubkey (run c rt store 0 attempts).dials
      (offersOfRun store.byPubkey (attempts.map (offersOf c rt))) := by
  induction attempts generalizing store with
  | nil => exact .nil _
  | cons lookup attempts ih =>
    obtain ⟨hfirst, hmap⟩ := runOnce_meets (c := c) haccept store lookup
    have hrest := ih (runOnce c rt store lookup).2.1
    rw [hmap] at hrest
    rw [(run_cons c rt store lookup attempts).1, List.map_cons]
    exact hfirst.append hrest

/-! ## The first key -/

/-- The key of the first dial that succeeds is that of every later one. -/
def FirstBinds (dials : List Dial) : Prop :=
  ∀ pre d post key, dials = pre ++ d :: post → (∀ p ∈ pre, ∀ k, ¬ p.Authenticates k) →
    d.Authenticates key → ∀ d' ∈ post, ∀ key', d'.Authenticates key' → key' = key

/-- A dial authenticates one key at most. -/
theorem Dial.Authenticates.unique {d : Dial} {key key' : Bytes 32} (h : d.Authenticates key)
    (h' : d.Authenticates key') : key' = key := by
  obtain ⟨conn, hok, rfl⟩ := h
  obtain ⟨conn', hok', rfl⟩ := h'
  rw [Except.ok.inj (hok'.symm.trans hok)]

/-- The first key binds the dials when there is one key that all of them authenticate. -/
theorem firstBinds_iff (dials : List Dial) : FirstBinds dials ↔
    ∃ K, ∀ d ∈ dials, ∀ key, d.Authenticates key → key = K := by
  constructor
  · intro hbinds
    induction dials with
    | nil => exact ⟨.replicate 32 0, fun d hd => absurd hd List.not_mem_nil⟩
    | cons d ds ih =>
      by_cases hd : ∃ key, d.Authenticates key
      · obtain ⟨K, hK⟩ := hd
        refine ⟨K, List.forall_mem_cons.2 ⟨fun key hkey => hK.unique hkey, ?_⟩⟩
        intro d' hd' key hkey
        exact hbinds [] d ds K rfl (fun p hp => absurd hp List.not_mem_nil) hK d' hd' key hkey
      · have hsilent : ∀ key, ¬ d.Authenticates key := fun key hkey => hd ⟨key, hkey⟩
        obtain ⟨K, hall⟩ := ih fun pre d' post key heq hfirst =>
          hbinds (d :: pre) d' post key (by rw [heq, List.cons_append])
            (List.forall_mem_cons.2 ⟨hsilent, hfirst⟩)
        exact ⟨K, List.forall_mem_cons.2 ⟨fun key hkey => absurd hkey (hsilent key), hall⟩⟩
  · rintro ⟨K, hall⟩ pre d post key rfl - hd d' hd' key' hkey'
    have hmem : d ∈ pre ++ d :: post := by simp
    have hmem' : d' ∈ pre ++ d :: post := by simp [hd']
    rw [hall d hmem key hd, hall d' hmem' key' hkey']

end Run

/-- When trust on first use binds the run. In a run in pairing mode every later dial that succeeds
authenticates the key of the first one, if and only if there is one key of which all these offers
are: the offers that the run gets to whose key was in the peer store at the start, or was offered
before in the run, or can be stored. -/
theorem first_key_binds_iff (c : Crates) (rt : ClientRuntime) (haccept : rt.acceptNewPeer = true)
    (store : PeerStore) (attempts : List (Except String (List Candidate))) :
    FirstBinds (run c rt store 0 attempts).dials ↔
      ∃ K, ∀ pre o post,
        offersOfRun store.byPubkey (attempts.map (offersOf c rt)) = pre ++ o :: post →
        (store.isKnown o.key ∨ (∃ p ∈ pre, p.key = o.key) ∨ o.Storable (pairAll store.byPubkey pre)) →
        o.key = K := by
  rw [firstBinds_iff]
  refine exists_congr fun K => ?_
  rw [(run_meets haccept store attempts).authenticates_iff K]
  refine forall_congr' fun pre => forall_congr' fun o => forall_congr' fun post => ?_
  have hadmitted : o.Admitted (pairAll store.byPubkey pre) ↔
      store.isKnown o.key ∨ (∃ p ∈ pre, p.key = o.key) ∨ o.Storable (pairAll store.byPubkey pre) := by
    unfold Offer.Admitted PeerStore.isKnown
    rw [mem_pairAll, or_assoc, decide_eq_true_iff]
  rw [hadmitted]

section Example

/-- The keys that the dials of a run authenticate. -/
def dialedKeys (attempts : List (Except String (List Candidate))) : List (Option (Bytes 32)) :=
  (run sampleCrates pairingSpoke ⟨none, ∅⟩ 0 attempts).dials.map fun d =>
    d.result.toOption.map Connection.peerPubkey

/-- One hub answers all dials, and its key binds the run. -/
theorem first_key_binds_sample :
    FirstBinds (run sampleCrates pairingSpoke ⟨none, ∅⟩ 0
      [answeredBy 1, .error "no network", answeredBy 1]).dials := by
  have hkeys : (offersOfRun ∅ ([answeredBy 1, .error "no network", answeredBy 1].map
      (offersOf sampleCrates pairingSpoke))).map Offer.key =
        [.replicate 32 1, .replicate 32 1] := by decide +kernel
  refine (first_key_binds_iff sampleCrates pairingSpoke rfl ⟨none, ∅⟩ _).2 ⟨.replicate 32 1, ?_⟩
  intro pre o post hoffers _
  rw [hoffers] at hkeys
  have hmem : o.key ∈ (pre ++ o :: post).map Offer.key := List.mem_map_of_mem (by simp)
  rw [hkeys] at hmem
  simpa using hmem

/-- In pairing mode a hub with another key is authenticated by a later dial of the same run. -/
theorem later_hub_authenticated : ¬ ∀ (c : Crates) (rt : ClientRuntime),
    rt.acceptNewPeer = true → rt.expectedServerPubkey = none → ∀ store attempts,
    FirstBinds (run c rt store 0 attempts).dials := by
  intro hall
  have hbinds := hall sampleCrates pairingSpoke rfl rfl ⟨none, ∅⟩ [answeredBy 1, answeredBy 2]
  have hkeys : dialedKeys [answeredBy 1, answeredBy 2] =
      [some (.replicate 32 1), some (.replicate 32 2)] := by decide +kernel
  obtain ⟨d, rest, hdials, hd, hrest⟩ := List.map_eq_cons_iff.1 hkeys
  obtain ⟨d', rfl, hd'⟩ := List.map_eq_singleton_iff.1 hrest
  have hauth : ∀ {d : Dial} {key : Bytes 32},
      d.result.toOption.map Connection.peerPubkey = some key → d.Authenticates key := by
    intro d key h
    obtain ⟨conn, hconn, hkey⟩ := Option.map_eq_some_iff.1 h
    refine ⟨conn, ?_, hkey⟩
    cases hresult : d.result with
    | error e =>
      rw [hresult] at hconn
      cases hconn
    | ok conn' =>
      rw [hresult] at hconn
      obtain rfl := Option.some.inj hconn
      rfl
  have hsame := hbinds [] d [d'] _ hdials (fun p hp => by cases hp) (hauth hd) d'
    (List.mem_singleton.2 rfl) _ (hauth hd')
  exact absurd hsame (by decide)

end Example

end Borderless.Runtime
