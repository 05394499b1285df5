import Borderless.Clipboard.LazyRefinement
import Borderless.Runtime.HubRouting

/-!
# Large images on the lazy path

The producer of an image and the chunker of a fetch are in different crates. `ProducesImage` says
what `produce_image` makes of a store, and `ChunksPayload` what `chunk_fetch_response` makes of the
bytes. `image_survives_lazy_path` puts them together: an image over the threshold, whatever its
length, is in the store under the hash of its item, and its chunks give it back.
-/

namespace Borderless.Clipboard

namespace LazyStore

variable {blake3 : List UInt8 → Bytes 32} {cap : ℕ} {s : LazyStore} {b : List UInt8}

/-- A store of some run shows a reference cache. -/
theorem exists_represents (hs : (lazyStore blake3 cap).Reachable s) :
    ∃ q, Represents blake3 cap s q := by
  refine hs.invariant (I := fun s => ∃ q, Represents blake3 cap s q) ?_ ?_
  · rintro _ rfl
    exact ⟨_, represents_withCap blake3 cap⟩
  · rintro s c t ⟨q, hq⟩ - hstep
    obtain rfl := Option.some.inj hstep
    exact ⟨_, (lazyStore_simulates blake3 cap s q c hq).2⟩

/-- Every payload in the store is under its hash. -/
theorem blake3_of_get (hs : (lazyStore blake3 cap).Reachable s) {hash : Bytes 32}
    {held : List UInt8} (h : s.get hash = some held) : blake3 held = hash := by
  obtain ⟨q, hq⟩ := exists_represents hs
  rw [hq.get_eq] at h
  exact hq.hashed ⟨hash, held⟩ (List.of_mem_dlookup h)

/-- The store has no payload whose hash collides with that of `b`. -/
def NoCollision (blake3 : List UInt8 → Bytes 32) (s : LazyStore) (b : List UInt8) : Prop :=
  ∀ hash held, s.get hash = some held → blake3 held = blake3 b → held = b

/-- Right after its insertion a payload is in the store, also when it was there before, and when it
is over the budget. -/
theorem get_insert (hs : (lazyStore blake3 cap).Reachable s) (hfree : s.NoCollision blake3 b) :
    (s.insert blake3 b).2.get (blake3 b) = some b := by
  unfold insert
  dsimp only
  split_ifs with hmem
  · -- the entry under the hash is the payload, since it does not collide
    obtain ⟨held, hheld⟩ := Finmap.mem_iff.1 hmem
    have hget : s.get (blake3 b) = some held := hheld
    rw [hget, hfree _ _ hget (blake3_of_get hs hget)]
  · exact Finmap.lookup_insert _

end LazyStore

/-- What `produce_image` is to make of an image: an item with its hash, whose payload is inline up
to the threshold, and else a handle of the size of the image, which resolves to it. -/
structure ProducesImage (blake3 : List UInt8 → Bytes 32) (s : LazyStore) (b : List UInt8)
    (format : ImageFormat) (item : ClipItem) (t : LazyStore) : Prop where
  /-- The item resolves to the image. -/
  resolves : ∃ data, item = .image format (blake3 b) data ∧ serveFetch t data = some b
  /-- Up to the threshold the payload is inline, and the store is as before. -/
  inline : b.length ≤ inlineThreshold → item = .image format (blake3 b) (.inline b) ∧ t = s
  /-- Over the threshold the payload is a handle. -/
  onDemand : inlineThreshold < b.length →
    ∃ size : UInt64, size.toNat = b.length ∧
      item = .image format (blake3 b) (.onDemand (blake3 b) size)

/-- `produce_image` does so in every store of a run that has no collision with the image. -/
theorem producesImage_of_noCollision {blake3 : List UInt8 → Bytes 32} {cap : ℕ} {s : LazyStore}
    {b : List UInt8} (hs : (lazyStore blake3 cap).Reachable s) (hfree : s.NoCollision blake3 b)
    (hsize : b.length < 2^64) (format : ImageFormat) :
    ProducesImage blake3 s b format (produceImage blake3 s b format).1
      (produceImage blake3 s b format).2 := by
  have hsize' : (UInt64.ofNat b.length).toNat = b.length := by
    rw [UInt64.toNat_ofNat', Nat.mod_eq_of_lt hsize]
  unfold produceImage
  dsimp only
  split_ifs with hle
  · exact ⟨⟨_, rfl, rfl⟩, fun _ => ⟨rfl, rfl⟩, fun hlt => absurd hle (not_le.2 hlt)⟩
  · refine ⟨⟨_, rfl, ?_⟩, fun hle' => absurd hle' hle, fun _ => ⟨_, hsize', rfl⟩⟩
    exact LazyStore.get_insert hs hfree

end Borderless.Clipboard

namespace Borderless.Runtime

open Borderless.Clipboard Transition

/-- What `chunk_fetch_response` is to make of a payload: frames with its hash, numbered from zero,
each with the number of all, whose chunks are of the size of a chunk or less, not empty unless the
payload is, and the payload when they are put together. -/
structure ChunksPayload (hash : Bytes 32) (b : List UInt8) (frames : List WireFrame) : Prop where
  /-- There is a frame. -/
  ne_nil : frames ≠ []
  /-- The chunks of the frames by their indices. -/
  chunks : ∃ chunks : List (List UInt8), frames.length = chunks.length ∧ chunks.flatten = b ∧
    (∀ chunk ∈ chunks, chunk.length ≤ fetchChunkSize ∧ (b ≠ [] → chunk ≠ [])) ∧
    ∀ i (h : i < chunks.length), ∃ idx total : UInt32, idx.toNat = i ∧
      total.toNat = frames.length ∧ frames[i]? = some (.fetchResponse hash idx total chunks[i])

/-- Frames that number fewer than `2^32` chunks. -/
theorem chunksPayload_of_zipIdx {hash : Bytes 32} {b : List UInt8} {chunks : List (List UInt8)}
    (hne : chunks ≠ []) (hflatten : chunks.flatten = b)
    (hchunks : ∀ chunk ∈ chunks, chunk.length ≤ fetchChunkSize ∧ (b ≠ [] → chunk ≠ []))
    (hcount : chunks.length < 2^32) :
    ChunksPayload hash b (chunks.zipIdx.map fun (chunk, i) =>
      .fetchResponse hash (UInt32.ofNat i) (UInt32.ofNat chunks.length) chunk) := by
  refine ⟨by simpa using hne, chunks, by simp, hflatten, hchunks, fun i hi => ?_⟩
  refine ⟨UInt32.ofNat i, UInt32.ofNat chunks.length, ?_, ?_, ?_⟩
  · rw [UInt32.toNat_ofNat', Nat.mod_eq_of_lt (by omega)]
  · rw [UInt32.toNat_ofNat', Nat.mod_eq_of_lt hcount]
    simp
  · simp [List.getElem?_eq_getElem hi]

/-- `chunk_fetch_response` does so for a payload of fewer than `2^32` chunks. -/
theorem chunksPayload_chunkFetchResponse (hash : Bytes 32) {b : List UInt8}
    (hcount : (b.length + fetchChunkSize - 1) / fetchChunkSize < 2^32) :
    ChunksPayload hash b (chunkFetchResponse hash b) := by
  have hsize : 0 < fetchChunkSize := by decide
  unfold chunkFetchResponse
  split_ifs with hempty
  · subst hempty
    have hne : ([[]] : List (List UInt8)) ≠ [] := by simp
    exact chunksPayload_of_zipIdx hne rfl (by simp) (by simp)
  · have hlength := List.length_toChunks hsize b
    rw [← hlength] at hcount ⊢
    refine chunksPayload_of_zipIdx (fun hnil => hempty ?_) (List.flatten_toChunks _ _)
      (fun chunk hmem => ?_) hcount
    · rw [← List.flatten_toChunks fetchChunkSize b, hnil, List.flatten_nil]
    · obtain ⟨hne, hle⟩ := List.mem_toChunks hsize hmem
      exact ⟨hle, fun _ => hne⟩

/-- Large images survive the lazy path. In every store of a run, an image of fewer than `2^32`
chunks that collides with no stored payload gets an item with its hash that resolves to the image
right after `produce_image`, inline with the store untouched up to the threshold and as a handle of
its size above it; and the reply to a fetch is the image in numbered chunks. -/
theorem image_survives_lazy_path (blake3 : List UInt8 → Bytes 32) (cap : ℕ) (s : LazyStore)
    (hs : (lazyStore blake3 cap).Reachable s) (b : List UInt8) (format : ImageFormat)
    (hfree : s.NoCollision blake3 b)
    (hcount : (b.length + fetchChunkSize - 1) / fetchChunkSize < 2^32) :
    ProducesImage blake3 s b format (produceImage blake3 s b format).1
        (produceImage blake3 s b format).2 ∧
      ∀ hash, ChunksPayload hash b (chunkFetchResponse hash b) := by
  have hsize : b.length < 2^64 := by
    unfold fetchChunkSize at hcount
    omega
  exact ⟨producesImage_of_noCollision hs hfree hsize format,
    fun hash => chunksPayload_chunkFetchResponse hash hcount⟩

section Example

/-- An image that is over the threshold and over the budget of its store is served in two chunks. -/
theorem image_survives_small_store :
    ProducesImage firstByteHash (.withCap 4) (.replicate (inlineThreshold + 1) 7) .png
        (produceImage firstByteHash (.withCap 4) (.replicate (inlineThreshold + 1) 7) .png).1
        (produceImage firstByteHash (.withCap 4) (.replicate (inlineThreshold + 1) 7) .png).2 ∧
      ∀ hash, ChunksPayload hash (.replicate (inlineThreshold + 1) 7)
        (chunkFetchResponse hash (.replicate (inlineThreshold + 1) 7)) := by
  refine image_survives_lazy_path firstByteHash 4 (.withCap 4) (.init rfl) _ .png ?_ ?_
  · intro hash held hget
    simp [LazyStore.get, LazyStore.withCap] at hget
  · rw [List.length_replicate]
    decide

end Example

end Borderless.Runtime
