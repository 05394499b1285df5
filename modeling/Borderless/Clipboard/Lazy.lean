import Mathlib.Data.Finmap
import Borderless.Core

/-!
# The lazy payload store

`crates/clipboard/src/lazy.rs`: the producer-side cache of large payloads. `byHash` is the hash map,
`order` the insertion order from the oldest entry, and `totalBytes` the running sum of the stored
lengths. BLAKE3 is a parameter.
-/

namespace Borderless.Clipboard

/-- `INLINE_THRESHOLD`: payloads of at most this many bytes ride inside the snapshot. -/
def inlineThreshold : ℕ := 256 * 1024

/-- `DEFAULT_TOTAL_CAP`: the default budget of a store. -/
def defaultTotalCap : ℕ := 256 * 1024 * 1024

/-- The hash map from a payload's hash to its bytes. -/
abbrev PayloadMap := Finmap fun _ : Bytes 32 => List UInt8

/-- `LazyStore`, the contents of its mutex. -/
structure LazyStore where
  /-- The payloads. -/
  byHash : PayloadMap
  /-- The hashes in insertion order, the oldest first. -/
  order : List (Bytes 32)
  /-- The sum of the stored lengths. -/
  totalBytes : ℕ
  /-- The budget. -/
  cap : ℕ

namespace LazyStore

/-- `LazyStore::with_cap`: an empty store with a budget. -/
def withCap (cap : ℕ) : LazyStore := ⟨∅, [], 0, cap⟩

/-- `LazyStore::new`: an empty store with the default budget. -/
def new : LazyStore := withCap defaultTotalCap

/-- The eviction loop of `insert`: while `need` more bytes do not fit under `cap`, pop the oldest
hash and remove its payload. Truncated subtraction is `saturating_sub`. -/
def evict (cap need : ℕ) : List (Bytes 32) → PayloadMap → ℕ → List (Bytes 32) × PayloadMap × ℕ
  | [], byHash, total => ([], byHash, total)
  | oldest :: order, byHash, total =>
    if cap < total + need then
      match byHash.lookup oldest with
      | some removed => evict cap need order (byHash.erase oldest) (total - removed.length)
      | none => evict cap need order byHash total
    else (oldest :: order, byHash, total)

/-- `LazyStore::insert`: the payload's hash, and the store with the payload in it. -/
def insert (blake3 : List UInt8 → Bytes 32) (s : LazyStore) (bytes : List UInt8) :
    Bytes 32 × LazyStore :=
  let hash := blake3 bytes
  -- a payload that is there already keeps its place in the order
  if hash ∈ s.byHash then (hash, s)
  else
    let (order, byHash, total) := evict s.cap bytes.length s.order s.byHash s.totalBytes
    (hash, { s with
      byHash := byHash.insert hash bytes
      order := order ++ [hash]
      totalBytes := total + bytes.length })

/-- `LazyStore::get`: the payload with the hash, if it is stored. -/
def get (s : LazyStore) (hash : Bytes 32) : Option (List UInt8) := s.byHash.lookup hash

/-- `LazyStore::remove`: the payload, its length and its place in the order go together. -/
def remove (s : LazyStore) (hash : Bytes 32) : LazyStore :=
  match s.byHash.lookup hash with
  | some bytes => { s with
      byHash := s.byHash.erase hash
      totalBytes := s.totalBytes - bytes.length
      order := s.order.filter (· ≠ hash) }
  | none => s

/-- `LazyStore::len`: the number of payloads. -/
def len (s : LazyStore) : ℕ := s.byHash.keys.card

end LazyStore

/-- `produce_image`: an inline image up to the threshold; above it, a handle whose bytes go into
the store. -/
def produceImage (blake3 : List UInt8 → Bytes 32) (store : LazyStore) (bytes : List UInt8)
    (format : ImageFormat) : ClipItem × LazyStore :=
  let hash := blake3 bytes
  if bytes.length ≤ inlineThreshold then
    (.image format hash (.inline bytes), store)
  else
    (.image format hash (.onDemand hash (UInt64.ofNat bytes.length)),
      (store.insert blake3 bytes).2)

/-- `serve_fetch`: the bytes of a payload, which are inline or in the store. -/
def serveFetch (store : LazyStore) : LazyPayload → Option (List UInt8)
  | .inline b => some b
  | .onDemand hash _ => store.get hash

end Borderless.Clipboard
