import Borderless.Lib.Hex
import Borderless.Lib.LastWrite
import Borderless.Transport.Handshake

/-!
# The peer store on disk

The two directions between the peer store and `known_peers.toml`: `PeerStore::open` builds the map
from the entries of the file, and `insert` and `remove` write all entries in the order in which the
hash map is iterated. A run opens a file and makes calls that succeed; what is opened again is the
text that the last `flush` has written. What a call leaves in memory when it fails is the subject of
the last section.
-/

namespace Borderless.Transport

open LastWrite Transition

/-- The text formats, which are other crates. -/
structure Formats where
  /-- `toml::to_string_pretty` of a file with these entries. -/
  toToml : List KnownPeer → Except String String
  /-- `toml::from_str` of a file: its entries. -/
  fromToml : String → Except String (List KnownPeer)
  /-- `hex::encode`. -/
  hexEncode : List UInt8 → String
  /-- `hex::decode`. -/
  hexDecode : String → Option (List UInt8)

/-- The formats decode what they encoded. -/
structure Formats.RoundTrip (f : Formats) : Prop where
  /-- TOML. -/
  toml : ∀ peers raw, f.toToml peers = .ok raw → f.fromToml raw = .ok peers
  /-- Hex. -/
  hex : ∀ bytes, f.hexDecode (f.hexEncode bytes) = some bytes

/-! ## Opening a file -/

/-- The map key of an entry, the decoded key where that has 32 bytes. -/
def Formats.entryKey (f : Formats) (peer : KnownPeer) : Option (Bytes 32) :=
  match f.hexDecode peer.pubkey with
  | none => none
  | some bytes => if h : bytes.length = 32 then some ⟨bytes, h⟩ else none

/-- The entries with their map keys. Other entries are skipped. -/
def Formats.keyed (f : Formats) (peers : List KnownPeer) : List (Bytes 32 × KnownPeer) :=
  peers.filterMap fun p => (f.entryKey p).map fun k => (k, p)

/-- `PeerStore::open` of a file, or of none: the map of its entries. Where entries have one key, the
last one stays. -/
def PeerStore.openFile (f : Formats) (file : Option String) : Except Error PeerStore :=
  match file with
  | none => .ok ⟨none, ∅⟩
  | some raw =>
    match f.fromToml raw with
    | .error e => .error (.toml e)
    | .ok peers => .ok ⟨some raw, build (f.keyed peers)⟩

/-- Every key is the decoding of its entry's text. -/
def PeerStore.KeysDecode (f : Formats) (s : PeerStore) : Prop :=
  ∀ k p, s.get k = some p → f.hexDecode p.pubkey = some k.toList

section Open

variable {f : Formats} {k : Bytes 32} {p : KnownPeer}

/-- The key of an entry is what its hex digits stand for. -/
theorem entryKey_eq_some_iff : f.entryKey p = some k ↔ f.hexDecode p.pubkey = some k.toList := by
  unfold Formats.entryKey
  cases h : f.hexDecode p.pubkey with
  | none => simp
  | some bytes =>
    obtain ⟨key, hkey⟩ := k
    simp only [List.Vector.toList, Option.some.injEq]
    constructor
    · intro heq
      split_ifs at heq with hlen
      exact congrArg Subtype.val (Option.some.inj heq)
    · rintro rfl
      rw [dif_pos hkey]

/-- An opened store has its file. -/
theorem file_of_open {file : Option String} {s : PeerStore}
    (h : PeerStore.openFile f file = .ok s) : s.file = file := by
  unfold PeerStore.openFile at h
  cases file with
  | none => exact (Except.ok.inj h) ▸ rfl
  | some raw =>
    cases hraw : f.fromToml raw with
    | error e => simp [hraw] at h
    | ok peers =>
      simp only [hraw] at h
      exact (Except.ok.inj h) ▸ rfl

/-- The keys of an opened file decode. -/
theorem keysDecode_open {file : Option String} {s : PeerStore}
    (h : PeerStore.openFile f file = .ok s) : s.KeysDecode f := by
  intro k p hget
  unfold PeerStore.openFile at h
  cases file with
  | none =>
    obtain rfl := Except.ok.inj h
    cases hget
  | some raw =>
    cases hraw : f.fromToml raw with
    | error e => simp [hraw] at h
    | ok peers =>
      simp only [hraw, Except.ok.injEq] at h
      subst h
      rw [PeerStore.get, lookup_build, lastWrite_eq_some_iff] at hget
      obtain ⟨pre, post, heq, -⟩ := hget
      have hmem : (k, p) ∈ f.keyed peers := by simp [heq]
      obtain ⟨p', -, hkey⟩ := List.mem_filterMap.1 hmem
      obtain ⟨k', hk', hpair⟩ := Option.map_eq_some_iff.1 hkey
      obtain ⟨rfl, rfl⟩ := Prod.mk.inj hpair
      exact entryKey_eq_some_iff.1 hk'

/-- The entries of a map whose keys decode get their own keys. -/
theorem keyed_map_snd {l : List (Bytes 32 × KnownPeer)}
    (h : ∀ p ∈ l, f.hexDecode p.2.pubkey = some p.1.toList) : f.keyed (l.map Prod.snd) = l := by
  unfold Formats.keyed
  induction l with
  | nil => rfl
  | cons p l ih =>
    rw [List.forall_mem_cons] at h
    rw [List.map_cons, List.filterMap_cons, entryKey_eq_some_iff.2 h.1, Option.map_some, ih h.2]

end Open

/-! ## Runs -/

/-- A call that changes the store. -/
inductive StoreCall
  /-- `insert`. -/
  | insert (pubkey : Bytes 32) (name : String) (pairedAt : UInt64)
  /-- `remove`. -/
  | remove (pubkey : Bytes 32)
deriving DecidableEq

/-- The call: its result and the store after it. -/
def PeerStore.call (hexEncode : List UInt8 → String) (storage : Storage) (s : PeerStore) :
    StoreCall → Except Error Unit × PeerStore
  | .insert pubkey name pairedAt => s.insert hexEncode storage pubkey name pairedAt
  | .remove pubkey => s.remove storage pubkey

/-- An order in which the map can be iterated: every entry comes once. -/
def Lists (m : PeerMap) (order : List (Bytes 32 × KnownPeer)) : Prop :=
  (order.map Prod.fst).Nodup ∧ build order = m

instance (m : PeerMap) (order : List (Bytes 32 × KnownPeer)) : Decidable (Lists m order) :=
  inferInstanceAs (Decidable (_ ∧ _))

/-- A successful call, with the order in which `flush` iterates the map. -/
structure StoreStep where
  /-- The call. -/
  call : StoreCall
  /-- The entries in order. -/
  order : List (Bytes 32 × KnownPeer)
deriving DecidableEq

/-- What `flush` calls where the disk does not fail. -/
def StoreStep.storage (f : Formats) (a : StoreStep) : Storage where
  values _ := a.order.map Prod.snd
  toToml := f.toToml
  createDirAll := .ok ()
  write _ := .ok ()

/-- The store after a successful call, if the order is one of its map. -/
def PeerStore.step (f : Formats) (s : PeerStore) (a : StoreStep) : Option PeerStore :=
  match s.call f.hexEncode (a.storage f) a.call with
  | (.ok (), t) => if Lists t.byPubkey a.order then some t else none
  | (.error _, _) => none

/-- The runs of an opened store whose calls all succeed. -/
def storeRuns (f : Formats) : System PeerStore StoreStep where
  init s := PeerStore.openFile f s.file = .ok s
  step := PeerStore.step f

/-- The map with the change of the call. -/
def StoreCall.change (hexEncode : List UInt8 → String) (m : PeerMap) : StoreCall → PeerMap
  | .insert pubkey name pairedAt => m.insert pubkey ⟨name, hexEncode pubkey.toList, pairedAt⟩
  | .remove pubkey => m.erase pubkey

/-- Both calls make their change first, and then write. -/
theorem call_eq {hexEncode : List UInt8 → String} {storage : Storage} {s : PeerStore}
    {call : StoreCall} : s.call hexEncode storage call =
      PeerStore.flush storage { s with byPubkey := call.change hexEncode s.byPubkey } := by
  cases call <;> rfl

section Runs

variable {f : Formats} {s t : PeerStore} {a : StoreStep}

/-- Both calls keep keys that decode. -/
theorem keysDecode_call (hf : f.RoundTrip) {store : PeerStore} (h : store.KeysDecode f)
    (storage : Storage) (call : StoreCall) :
    (store.call f.hexEncode storage call).2.KeysDecode f := by
  intro k p hget
  cases call with
  | insert pubkey name pairedAt =>
    by_cases hk : k = pubkey
    · subst hk
      rw [PeerStore.call, PeerStore.get_insert_self] at hget
      obtain rfl := Option.some.inj hget
      exact hf.hex k.toList
    · rw [PeerStore.call, PeerStore.get_insert_of_ne hk] at hget
      exact h k p hget
  | remove pubkey =>
    have hne : k ≠ pubkey := by
      rintro rfl
      rw [PeerStore.call, PeerStore.remove, PeerStore.get, PeerStore.flush_byPubkey,
        Finmap.lookup_erase] at hget
      cases hget
    rw [PeerStore.call, PeerStore.remove, PeerStore.get, PeerStore.flush_byPubkey,
      Finmap.lookup_erase_ne hne] at hget
    exact h k p hget

/-- What a successful call has written opens as the store in memory. -/
theorem openFile_call (hf : f.RoundTrip) (h : s.KeysDecode f) {storage : Storage} {call : StoreCall}
    {order : List (Bytes 32 × KnownPeer)} (htoml : storage.toToml = f.toToml)
    (hvalues : ∀ m, storage.values m = order.map Prod.snd)
    (hlists : Lists (s.call f.hexEncode storage call).2.byPubkey order)
    (hok : (s.call f.hexEncode storage call).1 = .ok ()) :
    PeerStore.openFile f (s.call f.hexEncode storage call).2.file =
      .ok (s.call f.hexEncode storage call).2 := by
  have hdecode : ∀ p ∈ order, f.hexDecode p.2.pubkey = some p.1.toList := by
    intro p hp
    refine keysDecode_call hf h storage call p.1 p.2 ?_
    rw [PeerStore.get, ← hlists.2, lookup_build, lastWrite_eq_some_iff_mem hlists.1]
    exact hp
  obtain ⟨-, raw, hraw, hflush⟩ | ⟨-, e, file, hflush, -⟩ := PeerStore.flush_cases storage
    { s with byPubkey := call.change f.hexEncode s.byPubkey }
  · rw [call_eq, hflush] at hlists ⊢
    rw [htoml, hvalues] at hraw
    unfold PeerStore.openFile
    simp only [hf.toml _ _ hraw, keyed_map_snd hdecode, hlists.2]
  · rw [call_eq, hflush] at hok
    cases hok

/-- A step of a run is a successful call, and the order is one of its map. -/
theorem storeRun_step (h : s.step f a = some t) :
    (s.call f.hexEncode (a.storage f) a.call).1 = .ok () ∧
      Lists (s.call f.hexEncode (a.storage f) a.call).2.byPubkey a.order ∧
      t = (s.call f.hexEncode (a.storage f) a.call).2 := by
  unfold PeerStore.step at h
  split at h
  · rename_i u hcall
    split_ifs at h with hlists
    rw [hcall]
    exact ⟨rfl, hlists, (Option.some.inj h).symm⟩
  · cases h

/-- Persistence. After any successful insertions and removals on a store that was opened from any
file, and whatever the order in which the map is iterated, opening the file again gives the map in
memory, and every key of the map is the decoding of its entry's text. -/
theorem reopen_eq_memory (f : Formats) (hf : f.RoundTrip) (s : PeerStore)
    (hs : (storeRuns f).Reachable s) :
    PeerStore.openFile f s.file = .ok s ∧ s.KeysDecode f := by
  refine hs.invariant
    (I := fun s => PeerStore.openFile f s.file = .ok s ∧ s.KeysDecode f) ?_ ?_
  · intro s hinit
    exact ⟨hinit, keysDecode_open hinit⟩
  · rintro s a t ⟨-, hkeys⟩ - hstep
    obtain ⟨hok, hlists, rfl⟩ := storeRun_step hstep
    exact ⟨openFile_call hf hkeys rfl (fun _ => rfl) hlists hok, keysDecode_call hf hkeys _ _⟩

end Runs

section Example

/-- An entry of `known_peers.toml` with a plain name. -/
def entryText (peer : KnownPeer) : String :=
  "[[peer]]\nname = \"" ++ peer.name ++ "\"\npubkey = \"" ++ peer.pubkey ++ "\"\npaired_at = " ++
    toString peer.pairedAt ++ "\n"

/-- A file with these entries. -/
def fileText (peers : List KnownPeer) : String := "\n".intercalate (peers.map entryText)

/-- A key in mixed case, the same key again in lowercase, and a text that is no key. -/
def handWritten : List KnownPeer :=
  [⟨"a", .ofList (List.replicate 32 ['A', 'b']).flatten, 1⟩,
    ⟨"b", .ofList (List.replicate 64 'a'), 2⟩, ⟨"c", "A", 3⟩,
    ⟨"d", .ofList (List.replicate 32 ['a', 'B']).flatten, 4⟩]

/-- The entries that are left of it, and a new one. -/
def rewritten : List (Bytes 32 × KnownPeer) :=
  [(.replicate 32 0x01, ⟨"e", Hex.encode (List.replicate 32 0x01), 5⟩),
    (.replicate 32 0xaa, ⟨"b", .ofList (List.replicate 64 'a'), 2⟩),
    (.replicate 32 0xab, ⟨"d", .ofList (List.replicate 32 ['a', 'B']).flatten, 4⟩)]

/-- Formats for these two files. -/
def sampleFormats : Formats where
  toToml peers :=
    if peers = handWritten ∨ peers = rewritten.map Prod.snd then .ok (fileText peers)
    else .error "unsupported"
  fromToml raw :=
    if raw = fileText handWritten then .ok handWritten
    else if raw = fileText (rewritten.map Prod.snd) then .ok (rewritten.map Prod.snd)
    else .error "unsupported"
  hexEncode := Hex.encode
  hexDecode := Hex.decode

/-- `sampleFormats` decodes what it encoded. -/
theorem sampleFormats_roundTrip : sampleFormats.RoundTrip := by
  have hne : fileText (rewritten.map Prod.snd) ≠ fileText handWritten := by decide +kernel
  refine ⟨fun peers raw h => ?_, Hex.decode_encode⟩
  simp only [sampleFormats] at h ⊢
  split_ifs at h with hpeers
  obtain rfl := Except.ok.inj h
  rcases hpeers with rfl | rfl
  · rw [if_pos rfl]
  · rw [if_neg hne, if_pos rfl]

/-- The hand-written file is opened and a peer is added, and opening the new file gives the map in
memory. -/
theorem rewritten_reopens : ∃ s, (storeRuns sampleFormats).Reachable s ∧
    s.file = some (fileText (rewritten.map Prod.snd)) ∧
    PeerStore.openFile sampleFormats s.file = .ok s ∧ s.KeysDecode sampleFormats := by
  have hinit : (storeRuns sampleFormats).init
      ⟨some (fileText handWritten), build (sampleFormats.keyed handWritten)⟩ := by
    have hraw : sampleFormats.fromToml (fileText handWritten) = .ok handWritten := by
      unfold sampleFormats
      simp only [if_true]
    simp only [storeRuns, PeerStore.openFile, hraw]
  obtain ⟨s, hs, hfile⟩ := System.exists_reach_of_run (P := fun _ _ => True)
    (p := fun s => s.file = some (fileText (rewritten.map Prod.snd))) hinit
    [⟨.insert (.replicate 32 0x01) "e" 5, rewritten⟩] (fun _ _ => trivial) (by decide +kernel)
  exact ⟨s, hs, hfile, reopen_eq_memory sampleFormats sampleFormats_roundTrip s hs⟩

end Example

/-! ## Calls that fail -/

/-- The call changes no trust: it inserts a known key, or removes an unknown one. -/
def StoreCall.KeepsTrust (s : PeerStore) : StoreCall → Prop
  | .insert pubkey _ _ => s.isKnown pubkey = true
  | .remove pubkey => s.isKnown pubkey = false

section Failure

variable {hexEncode : List UInt8 → String} {storage : Storage} {s : PeerStore} {call : StoreCall}

/-- A call fails when the flush of its change does. -/
theorem call_error_iff : (∃ e, (s.call hexEncode storage call).1 = .error e) ↔
    storage.Fails (call.change hexEncode s.byPubkey) := by
  rw [call_eq]
  obtain ⟨hworks, raw, -, hflush⟩ | ⟨hfails, e, file, hflush, -⟩ :=
    PeerStore.flush_cases storage { s with byPubkey := call.change hexEncode s.byPubkey }
  · rw [hflush]
    exact iff_of_false nofun hworks
  · rw [hflush]
    exact iff_of_true ⟨e, rfl⟩ hfails

/-- The keys that are known after a call are those of its change. -/
theorem isKnown_call (k : Bytes 32) : (s.call hexEncode storage call).2.isKnown k =
    decide (k ∈ call.change hexEncode s.byPubkey) := by
  rw [call_eq]
  unfold PeerStore.isKnown
  rw [PeerStore.flush_byPubkey]

/-- The change of a call leaves the known keys as they are precisely when it changes no trust. -/
theorem isKnown_change_iff :
    (∀ k, decide (k ∈ call.change hexEncode s.byPubkey) = s.isKnown k) ↔ call.KeepsTrust s := by
  unfold PeerStore.isKnown StoreCall.KeepsTrust StoreCall.change
  cases call with
  | insert pubkey name pairedAt =>
    constructor
    · intro h
      exact (h pubkey).symm.trans (by simp)
    · intro hknown k
      have hmem : pubkey ∈ s.byPubkey := of_decide_eq_true hknown
      by_cases hk : k = pubkey
      · simp [hk, hmem]
      · simp [hk]
  | remove pubkey =>
    constructor
    · intro h
      exact (h pubkey).symm.trans (by simp)
    · intro hunknown k
      have hmem : pubkey ∉ s.byPubkey := of_decide_eq_false hunknown
      by_cases hk : k = pubkey
      · simp [hk, hmem]
      · simp [hk]

/-- Trust after a failed call. When an insertion or a removal fails, the known keys are those from
before the call, if and only if it was the insertion of a known key or the removal of an unknown
one. This holds for every store and every way in which writing the file fails. -/
theorem failed_call_keeps_trust_iff (hexEncode : List UInt8 → String) (storage : Storage)
    (s : PeerStore) (call : StoreCall) :
    ((∃ e, (s.call hexEncode storage call).1 = .error e) →
        ∀ k, (s.call hexEncode storage call).2.isKnown k = s.isKnown k) ↔
      (storage.Fails (call.change hexEncode s.byPubkey) → call.KeepsTrust s) := by
  simp only [isKnown_call]
  rw [call_error_iff, isKnown_change_iff]

/-- A peer whose pairing failed on the disk is admitted by every later handshake of the run. -/
theorem admitPeer_after_failure {c : Crates} {call : HandshakeCall} {hello : SignedHello}
    (haccept : call.acceptNewPeers = true) (later : HandshakeCall) :
    (admitPeer c later hello (admitPeer c call hello s).2).1 = .ok () := by
  rw [admitPeer_ok_iff]
  left
  unfold admitPeer
  by_cases hknown : s.isKnown hello.pubkey
  · rwa [if_pos hknown]
  · rw [if_neg hknown, if_pos haccept, PeerStore.isKnown_iff_get, PeerStore.get_insert_self]
    rfl

end Failure

section Example

/-- A disk with no space left. -/
def fullDisk : Storage :=
  ⟨fun _ => [], fun _ => .ok "", .ok (), fun _ => .error ("no space left", some "")⟩

/-- A key that could not be written is known. -/
theorem failed_call_changes_trust :
    ¬ ∀ (hexEncode : List UInt8 → String) (storage : Storage) (s : PeerStore) (call : StoreCall),
      (∃ e, (s.call hexEncode storage call).1 = .error e) →
        ∀ k, (s.call hexEncode storage call).2.isKnown k = s.isKnown k := by
  intro h
  have hsame := h Hex.encode fullDisk ⟨none, ∅⟩ (.insert (.replicate 32 1) "a" 0) ⟨_, rfl⟩
    (.replicate 32 1)
  exact absurd hsame (by decide)

end Example

end Borderless.Transport
