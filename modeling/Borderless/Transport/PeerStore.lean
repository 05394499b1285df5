import Borderless.Lib.Program
import Borderless.Transport.Framing
import Mathlib.Data.Finmap

/-!
# The peer store

`crates/transport/src/peer_store.rs`: the trusted peers, in memory and in `known_peers.toml`.
`insert` changes the map first and then writes the file, so a failed write leaves the new entry in
the map. The order in which the hash map is iterated, the TOML encoder and the file system are
parameters.

The file is a part of the state of a store, and `flush` is what changes it.
-/

namespace Borderless.Transport

/-- One trusted peer entry. -/
structure KnownPeer where
  /-- The name at pair time. -/
  name : String
  /-- The public key in hex. -/
  pubkey : String
  /-- The Unix timestamp of pairing. -/
  pairedAt : UInt64
deriving DecidableEq

/-- The hash map from public keys to entries. -/
abbrev PeerMap := Finmap fun _ : Bytes 32 => KnownPeer

/-- `PeerStore`: the map in memory, and the file at its path. -/
structure PeerStore where
  /-- The content of the file, if there is one. -/
  file : Option String
  /-- The entries by public key. -/
  byPubkey : PeerMap
deriving DecidableEq

/-- What `PeerStore::flush` calls. -/
structure Storage where
  /-- The values of the map in its iteration order. -/
  values : PeerMap → List KnownPeer
  /-- `toml::to_string_pretty` of the file with these entries. -/
  toToml : List KnownPeer → Except String String
  /-- `fs::create_dir_all` of the parent directory. -/
  createDirAll : Except String Unit
  /-- `fs::write` of a text, and what a failed one leaves in the file. -/
  write : String → Except (String × Option String) Unit

/-- `flush` fails while it writes this map: the directory, the TOML encoder or the file does. -/
def Storage.Fails (storage : Storage) (m : PeerMap) : Prop :=
  (∃ e, storage.createDirAll = .error e) ∨ (∃ e, storage.toToml (storage.values m) = .error e) ∨
    ∃ raw e, storage.toToml (storage.values m) = .ok raw ∧ storage.write raw = .error e

instance (storage : Storage) (m : PeerMap) : Decidable (storage.Fails m) :=
  match hdir : storage.createDirAll with
  | .error e => .isTrue (.inl ⟨e, hdir⟩)
  | .ok () =>
    match hraw : storage.toToml (storage.values m) with
    | .error e => .isTrue (.inr (.inl ⟨e, hraw⟩))
    | .ok raw =>
      match hwrite : storage.write raw with
      | .error e => .isTrue (.inr (.inr ⟨raw, e, hraw, hwrite⟩))
      | .ok () => .isFalse fun hfails => by
          unfold Storage.Fails at hfails
          simp [hdir, hraw, hwrite] at hfails

/-- A program on a peer store. -/
abbrev OnPeers (α : Type) := Prog Error PeerStore α

namespace PeerStore

/-- `PeerStore::is_known`: whether the key has an entry. -/
def isKnown (s : PeerStore) (pubkey : Bytes 32) : Bool := decide (pubkey ∈ s.byPubkey)

/-- `PeerStore::get`: the entry of the key. -/
def get (s : PeerStore) (pubkey : Bytes 32) : Option KnownPeer := s.byPubkey.lookup pubkey

/-- `PeerStore::flush`: all entries are encoded, and the file is replaced by the text. -/
def flush (storage : Storage) : OnPeers Unit := do
  Prog.lift (storage.createDirAll.mapError .io)
  let s ← Prog.get
  let raw ← Prog.lift ((storage.toToml (storage.values s.byPubkey)).mapError .toml)
  match storage.write raw with
  | .error (e, left) =>
    Prog.set { s with file := left }
    Prog.throw (.io e)
  | .ok () => Prog.set { s with file := some raw }

/-- `PeerStore::insert`: a new entry for the key, and then a flush. -/
def insert (hexEncode : List UInt8 → String) (storage : Storage) (s : PeerStore)
    (pubkey : Bytes 32) (name : String) (pairedAt : UInt64) : Except Error Unit × PeerStore :=
  let peer : KnownPeer := ⟨name, hexEncode pubkey.toList, pairedAt⟩
  -- the entry stays in the map when the file cannot be written
  flush storage { s with byPubkey := s.byPubkey.insert pubkey peer }

/-- `PeerStore::remove`: the entry of the key is dropped, and then a flush. -/
def remove (storage : Storage) (s : PeerStore) (pubkey : Bytes 32) :
    Except Error Unit × PeerStore :=
  flush storage { s with byPubkey := s.byPubkey.erase pubkey }

/-- A key is known when it has an entry. -/
theorem isKnown_iff_get {s : PeerStore} {k : Bytes 32} : s.isKnown k = true ↔ (s.get k).isSome := by
  unfold isKnown get
  rw [decide_eq_true_iff, Finmap.lookup_isSome]

/-- What a flush does. It succeeds and the file holds the encoded entries, or it fails with an I/O or
a TOML error; the map stays as it is. -/
theorem flush_cases (storage : Storage) (s : PeerStore) :
    (¬ storage.Fails s.byPubkey ∧ ∃ raw, storage.toToml (storage.values s.byPubkey) = .ok raw ∧
        flush storage s = (.ok (), { s with file := some raw })) ∨
      storage.Fails s.byPubkey ∧ ∃ e file, flush storage s = (.error e, { s with file := file }) ∧
        ((∃ text, e = .io text) ∨ ∃ text, e = .toml text) := by
  unfold Storage.Fails flush
  cases hdir : storage.createDirAll with
  | error e => exact .inr ⟨.inl ⟨e, rfl⟩, .io e, s.file, rfl, .inl ⟨e, rfl⟩⟩
  | ok _ =>
    have hget : (Prog.get : OnPeers PeerStore) s = (.ok s, s) := rfl
    have hlift : (Prog.lift ((Except.ok () : Except String Unit).mapError Error.io) : OnPeers Unit) s =
        (.ok (), s) := rfl
    rw [Prog.bind_of_ok hlift, Prog.bind_of_ok hget]
    cases hraw : storage.toToml (storage.values s.byPubkey) with
    | error e => exact .inr ⟨.inr (.inl ⟨e, rfl⟩), .toml e, s.file, rfl, .inr ⟨e, rfl⟩⟩
    | ok raw =>
      have hencode : (Prog.lift ((Except.ok raw : Except String String).mapError Error.toml) :
          OnPeers String) s = (.ok raw, s) := rfl
      rw [Prog.bind_of_ok hencode]
      cases hwrite : storage.write raw with
      | error w => exact .inr ⟨.inr (.inr ⟨raw, w, rfl, hwrite⟩), .io w.1, w.2, rfl, .inl ⟨w.1, rfl⟩⟩
      | ok _ =>
        refine .inl ⟨?_, raw, rfl, rfl⟩
        rintro (⟨e, he⟩ | ⟨e, he⟩ | ⟨raw', e, hraw', he⟩)
        · cases he
        · cases he
        · obtain rfl := Except.ok.inj hraw'
          cases hwrite.symm.trans he

/-- A flush changes the file only. -/
theorem flush_byPubkey (storage : Storage) (s : PeerStore) :
    (flush storage s).2.byPubkey = s.byPubkey := by
  obtain ⟨-, raw, -, h⟩ | ⟨-, e, file, h, -⟩ := flush_cases storage s
  · rw [h]
  · rw [h]

/-- A flush fails with an I/O or a TOML error. -/
theorem flush_error {storage : Storage} {s : PeerStore} {e : Error}
    (h : (flush storage s).1 = .error e) : (∃ text, e = .io text) ∨ ∃ text, e = .toml text := by
  obtain ⟨-, raw, -, hflush⟩ | ⟨-, e', file, hflush, hkind⟩ := flush_cases storage s
  · rw [hflush] at h
    cases h
  · rw [hflush] at h
    obtain rfl := Except.error.inj h
    exact hkind

/-- An insertion makes its entry, and fails when the new map cannot be written. -/
theorem insert_cases (hexEncode : List UInt8 → String) (storage : Storage) (s : PeerStore)
    (pubkey : Bytes 32) (name : String) (pairedAt : UInt64) {m : PeerMap}
    (hm : s.byPubkey.insert pubkey ⟨name, hexEncode pubkey.toList, pairedAt⟩ = m) :
    (¬ storage.Fails m ∧
        ∃ file, s.insert hexEncode storage pubkey name pairedAt = (.ok (), ⟨file, m⟩)) ∨
      storage.Fails m ∧
        ∃ e file, s.insert hexEncode storage pubkey name pairedAt = (.error e, ⟨file, m⟩) := by
  subst hm
  unfold insert
  obtain ⟨hworks, raw, -, h⟩ | ⟨hfails, e, file, h, -⟩ := flush_cases storage
    { s with byPubkey := s.byPubkey.insert pubkey ⟨name, hexEncode pubkey.toList, pairedAt⟩ }
  · exact .inl ⟨hworks, some raw, h⟩
  · exact .inr ⟨hfails, e, file, h⟩

/-- An insertion changes the entry of its key only. -/
theorem get_insert_of_ne {hexEncode : List UInt8 → String} {s : PeerStore} {pubkey k : Bytes 32}
    (h : k ≠ pubkey) (storage : Storage) (name : String) (pairedAt : UInt64) :
    (s.insert hexEncode storage pubkey name pairedAt).2.get k = s.get k := by
  unfold get insert
  rw [flush_byPubkey]
  exact Finmap.lookup_insert_of_ne _ h

/-- After an insertion, which may have failed to reach the disk, its key is known. -/
theorem get_insert_self {hexEncode : List UInt8 → String} {s : PeerStore} {pubkey : Bytes 32}
    (storage : Storage) (name : String) (pairedAt : UInt64) :
    (s.insert hexEncode storage pubkey name pairedAt).2.get pubkey =
      some ⟨name, hexEncode pubkey.toList, pairedAt⟩ := by
  unfold get insert
  rw [flush_byPubkey]
  exact Finmap.lookup_insert _

end PeerStore

end Borderless.Transport
