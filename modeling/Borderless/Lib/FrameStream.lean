import Mathlib.Data.List.Basic
import Mathlib.Tactic.Common

/-!
# Streams of frames

A stream carries whole frames one after the other, and a reader takes them apart: it holds the part
of the current frame that it has read, and from that part alone it knows how many elements it still
wants (`Delimits`). The elements that it has read and those that are still to come are `AlignedTo`
given frames when together they are these frames, and the first part is of the first frame; they are
`Aligned` when there are such frames.

Appending a frame, and reading no more than what is wanted, keep this (`AlignedTo.append`,
`AlignedTo.read`). A reader that wants nothing holds the first frame, and one that waits while
nothing is to come has read nothing (`AlignedTo.cases`).
-/

namespace FrameStream

variable {β : Type*} {F : List β → Prop} {want : List β → Option ℕ} {buf rest : List β}

/-- Of every part of a frame `want` tells a number of elements that the frame still has, and zero
for the whole frame only. -/
def Delimits (want : List β → Option ℕ) (F : List β → Prop) : Prop :=
  ∀ buf f, F f → buf <+: f → ∃ n, want buf = some n ∧ buf.length + n ≤ f.length ∧ (n = 0 → buf = f)

/-- The elements `buf` that are read and the elements `rest` that are to come are the frames `fs`,
and `buf` is a part of the first. -/
structure AlignedTo (fs : List (List β)) (buf rest : List β) : Prop where
  /-- Together they are the frames. -/
  flatten : buf ++ rest = fs.flatten
  /-- What is read is a part of the first frame. -/
  head : ∀ f ∈ fs.head?, buf <+: f

/-- The elements `buf` that are read and the elements `rest` that are to come are whole frames, and
`buf` is a part of the first. -/
def Aligned (F : List β → Prop) (buf rest : List β) : Prop :=
  ∃ fs : List (List β), (∀ f ∈ fs, F f) ∧ buf ++ rest = fs.flatten ∧ ∀ f ∈ fs.head?, buf <+: f

/-- A stream is aligned when it is aligned to some frames. -/
theorem aligned_iff : Aligned F buf rest ↔ ∃ fs, (∀ f ∈ fs, F f) ∧ AlignedTo fs buf rest := by
  constructor
  · rintro ⟨fs, hfs, heq, hhead⟩
    exact ⟨fs, hfs, heq, hhead⟩
  · rintro ⟨fs, hfs, h⟩
    exact ⟨fs, hfs, h.flatten, h.head⟩

variable {fs : List (List β)}

/-- The empty stream is aligned to no frames. -/
theorem alignedTo_nil : AlignedTo ([] : List (List β)) [] [] := ⟨rfl, by simp⟩

/-- A frame may be appended. -/
theorem AlignedTo.append (h : AlignedTo fs buf rest) (f : List β) :
    AlignedTo (fs ++ [f]) buf (rest ++ f) := by
  constructor
  · rw [← List.append_assoc, h.flatten, List.flatten_append, List.flatten_singleton]
  · cases fs with
    | nil =>
      -- an empty stream has no part that is read
      have hbuf : buf = [] := (List.append_eq_nil_iff.1 h.flatten).1
      rw [hbuf]
      exact fun g _ => List.nil_prefix
    | cons g fs => exact h.head

/-- Elements may be read as long as they are wanted. -/
theorem AlignedTo.read (hd : Delimits want F) (hfs : ∀ f ∈ fs, F f) {a : List β} {n : ℕ}
    (h : AlignedTo fs buf (a ++ rest)) (hn : want buf = some n) (ha : a.length ≤ n) :
    AlignedTo fs (buf ++ a) rest := by
  have heq := h.flatten
  rw [← List.append_assoc] at heq
  refine ⟨heq, fun f hf => ?_⟩
  obtain ⟨m, hm, hle, -⟩ := hd buf f (hfs f (List.mem_of_mem_head? hf)) (h.head f hf)
  obtain rfl : n = m := Option.some.inj (hn.symm.trans hm)
  obtain ⟨fs', rfl⟩ := List.head?_eq_some_iff.1 hf
  have hpre : buf ++ a <+: f ++ fs'.flatten := ⟨rest, heq⟩
  have hlen : (buf ++ a).length ≤ f.length := by
    rw [List.length_append]
    omega
  exact List.prefix_of_prefix_length_le hpre (List.prefix_append ..) hlen

/-- Where a reader of a stream of frames is: no frame is left; or the reader holds the first frame,
and the rest is aligned to the other frames; or it holds less than the first frame and wants
elements, and some are to come. -/
theorem AlignedTo.cases (hd : Delimits want F) (hfs : ∀ f ∈ fs, F f) (h : AlignedTo fs buf rest) :
    fs = [] ∧ buf = [] ∧ rest = [] ∨
    (∃ fs', fs = buf :: fs' ∧ want buf = some 0 ∧ AlignedTo fs' [] rest) ∨
    (∃ f fs' n, fs = f :: fs' ∧ buf <+: f ∧ buf.length < f.length ∧ want buf = some (n + 1)) ∧
      rest ≠ [] := by
  cases fs with
  | nil => exact .inl ⟨rfl, List.append_eq_nil_iff.1 h.flatten⟩
  | cons f fs =>
    have hpre : buf <+: f := h.head f rfl
    obtain ⟨n, hn, hle, hwhole⟩ := hd buf f (hfs f List.mem_cons_self) hpre
    cases n with
    | zero =>
      obtain rfl : buf = f := hwhole rfl
      have hrest : rest = fs.flatten := List.append_cancel_left h.flatten
      exact .inr (.inl ⟨fs, rfl, hn, hrest, fun g _ => List.nil_prefix⟩)
    | succ n =>
      refine .inr (.inr ⟨⟨f, fs, n, rfl, hpre, by omega, hn⟩, ?_⟩)
      rintro rfl
      have hlen := congrArg List.length h.flatten
      simp only [List.append_nil, List.flatten_cons, List.length_append] at hlen
      omega

/-- The empty stream is aligned. -/
theorem aligned_nil : Aligned F [] [] := ⟨[], by simp⟩

/-- A frame may be appended. -/
theorem Aligned.append (h : Aligned F buf rest) {f : List β} (hf : F f) :
    Aligned F buf (rest ++ f) := by
  obtain ⟨fs, hfs, h⟩ := aligned_iff.1 h
  refine aligned_iff.2 ⟨fs ++ [f], ?_, h.append f⟩
  simp only [List.mem_append, List.mem_singleton]
  rintro g (hg | rfl)
  · exact hfs g hg
  · exact hf

/-- Elements may be read as long as they are wanted. -/
theorem Aligned.read (hd : Delimits want F) {a : List β} {n : ℕ} (h : Aligned F buf (a ++ rest))
    (hn : want buf = some n) (ha : a.length ≤ n) : Aligned F (buf ++ a) rest := by
  obtain ⟨fs, hfs, h⟩ := aligned_iff.1 h
  exact aligned_iff.2 ⟨fs, hfs, h.read hd hfs hn ha⟩

/-- Where a reader of an aligned stream is: the stream is empty; or the reader holds a whole frame,
and the rest is aligned; or it wants elements, and some are to come. -/
theorem Aligned.cases (hd : Delimits want F) (h : Aligned F buf rest) :
    buf = [] ∧ rest = [] ∨
    want buf = some 0 ∧ F buf ∧ Aligned F [] rest ∨
    (∃ n, want buf = some (n + 1)) ∧ rest ≠ [] := by
  obtain ⟨fs, hfs, h⟩ := aligned_iff.1 h
  rcases h.cases hd hfs with ⟨-, hnil⟩ | ⟨fs', rfl, hn, hrest⟩ | ⟨⟨f, fs', n, -, -, -, hn⟩, hne⟩
  · exact .inl hnil
  · rw [List.forall_mem_cons] at hfs
    exact .inr (.inl ⟨hn, hfs.1, aligned_iff.2 ⟨fs', hfs.2, hrest⟩⟩)
  · exact .inr (.inr ⟨⟨n, hn⟩, hne⟩)

end FrameStream
