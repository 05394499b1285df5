import Mathlib.Algebra.Order.Ring.Nat
import Mathlib.Data.Nat.Log
import Mathlib.Data.Vector.Defs
import Mathlib.Tactic.Common

/-!
# The postcard format

The parts of the postcard wire format: an unsigned integer is a varint, seven bits to a byte with
the lowest first; the variant of an enumeration is the varint of its number; a sequence is the
varint of its length and then its elements; a fixed-size array is its elements. `varintLength` is
the length of a varint.

A `Reader` takes a value from the start of the bytes. It `Reads` a value from its encoding when it
returns the value and what follows the encoding, and fails on an encoding that is cut short. Readers
one after the other read what was written one after the other (`Reads.bind`).
-/

namespace Postcard

/-- A varint: every byte but the last has its high bit set. -/
def varint (n : ℕ) : List UInt8 :=
  if n < 128 then [UInt8.ofNat n] else UInt8.ofNat (n % 128 + 128) :: varint (n / 128)
termination_by n
decreasing_by omega

/-- The length of the varint of a number. -/
def varintLength (n : ℕ) : ℕ := Nat.log 128 n + 1

/-- A sequence of bytes. -/
def bytes (bs : List UInt8) : List UInt8 := varint bs.length ++ bs

/-- A string, as the bytes of its UTF-8 encoding. -/
def string (s : String) : List UInt8 := bytes s.toUTF8.data.toList

/-- A sequence of elements with an encoding. -/
def seq {α : Type*} (encode : α → List UInt8) (l : List α) : List UInt8 :=
  varint l.length ++ l.flatMap encode

/-- The length of a varint. -/
@[simp] theorem length_varint (n : ℕ) : (varint n).length = varintLength n := by
  induction n using Nat.strong_induction_on with
  | _ n ih =>
    unfold varint varintLength
    split_ifs with hn
    · rw [Nat.log_of_lt hn, List.length_singleton]
    · rw [List.length_cons, ih (n / 128) (by omega), Nat.log_of_one_lt_of_le (by omega) (by omega)]
      rfl

/-- The length of a byte sequence, with its own length in front. -/
@[simp] theorem length_bytes (bs : List UInt8) :
    (bytes bs).length = varintLength bs.length + bs.length := by
  rw [bytes, List.length_append, length_varint]

/-- The length of a string is that of its UTF-8 bytes. -/
@[simp] theorem length_string (s : String) :
    (string s).length = varintLength s.utf8ByteSize + s.utf8ByteSize := length_bytes _

/-- A number below 128 is its own varint. -/
theorem varint_of_lt {n : ℕ} (h : n < 128) : varint n = [UInt8.ofNat n] := by
  rw [varint, if_pos h]

/-- It has one byte. -/
theorem varintLength_of_lt {n : ℕ} (h : n < 128) : varintLength n = 1 := by
  rw [varintLength, Nat.log_of_lt h]

/-- A number from 128 on has a varint of at least two bytes. -/
theorem two_le_varintLength {n : ℕ} (h : 128 ≤ n) : 2 ≤ varintLength n :=
  Nat.succ_le_succ (Nat.log_pos (by omega) h)

/-- A number below `128^k` has a varint of at most `k` bytes. -/
theorem varintLength_le {n k : ℕ} (hk : k ≠ 0) (h : n < 128^k) : varintLength n ≤ k :=
  Nat.log_lt_of_lt_pow' hk h

/-- The varint of a `u64` has at most ten bytes. -/
theorem varintLength_toNat_le (n : UInt64) : varintLength n.toNat ≤ 10 :=
  varintLength_le (by omega) (lt_of_lt_of_le n.toNat_lt (by decide))

/-! ## Readers -/

/-- Takes a value from the start of the bytes, and returns the bytes after it. -/
abbrev Reader (α : Type) := StateT (List UInt8) Option α

/-- An array of a fixed size. -/
def Reader.array (n : ℕ) : Reader (List.Vector UInt8 n) := fun bs =>
  if h : n ≤ bs.length then some (⟨bs.take n, List.length_take_of_le h⟩, bs.drop n) else none

/-- A number, from its varint. -/
def Reader.varint : Reader ℕ
  | [] => none
  | b :: bs =>
    if b.toNat < 128 then some (b.toNat, bs)
    else (Reader.varint bs).map fun r => (b.toNat - 128 + 128 * r.1, r.2)

/-- A number of 16 bits. -/
def Reader.u16 : Reader UInt16 := do
  let n ← Reader.varint
  if n < 2^16 then pure (UInt16.ofNat n) else failure

/-- A sequence of bytes. -/
def Reader.bytes : Reader (List UInt8) := do
  let n ← Reader.varint
  let bs ← Reader.array n
  pure bs.toList

/-- A string, from the bytes of its UTF-8 encoding. -/
def Reader.string : Reader String := do
  let bs ← Reader.bytes
  StateT.lift (String.fromUTF8? ⟨bs.toArray⟩)

/-- The reader returns the value and what follows its encoding, and fails on a part of it. -/
structure Reads {α : Type} (r : Reader α) (encoding : List UInt8) (x : α) : Prop where
  /-- Of the whole encoding. -/
  whole : ∀ rest, r (encoding ++ rest) = some (x, rest)
  /-- Of a part. -/
  part : ∀ part, part <+: encoding → part ≠ encoding → r part = none

section Reads

variable {α β : Type} {r : Reader α} {e e' : List UInt8} {x : α} {y : β}

/-- A value that is already there takes no bytes. -/
theorem Reads.pure (x : α) : Reads (Pure.pure x) [] x :=
  ⟨fun _ => rfl, fun _ hpre hne => absurd (List.prefix_nil.1 hpre) hne⟩

/-- A reader after another one reads two encodings, of which the second may depend on the first
value. -/
theorem Reads.bind {f : α → Reader β} (hr : Reads r e x) (hf : Reads (f x) e' y) :
    Reads (r >>= f) (e ++ e') y := by
  constructor
  · intro rest
    show (r (e ++ e' ++ rest)).bind (fun p => f p.1 p.2) = _
    rw [List.append_assoc, hr.whole]
    exact hf.whole rest
  · intro part hpre hne
    show (r part).bind (fun p => f p.1 p.2) = none
    -- the cut is after the first encoding, or in it
    by_cases hcut : e <+: part
    · obtain ⟨part', rfl⟩ := hcut
      rw [hr.whole]
      refine hf.part part' ((List.prefix_append_right_inj e).1 hpre) fun h => hne ?_
      rw [h]
    · have hpre' : part <+: e :=
        (List.prefix_or_prefix_of_prefix hpre (List.prefix_append e e')).resolve_right hcut
      rw [hr.part part hpre' fun h => hcut (h ▸ List.prefix_rfl)]
      rfl

/-- A reader that consumes nothing may follow. -/
theorem Reads.bind_nil {f : α → Reader β} (hr : Reads r e x) (hf : Reads (f x) [] y) :
    Reads (r >>= f) e y := by
  have h := hr.bind hf
  rwa [List.append_nil] at h

/-- The bytes of an array are read back. -/
theorem reads_array {n : ℕ} (v : List.Vector UInt8 n) : Reads (Reader.array n) v.toList v := by
  obtain ⟨bs, rfl⟩ := v
  constructor
  · intro rest
    have hle : bs.length ≤ (bs ++ rest).length := by simp
    have htake : (bs ++ rest).take bs.length = bs := List.take_left
    have hdrop : (bs ++ rest).drop bs.length = rest := List.drop_left
    exact (dif_pos hle).trans (congrArg some (Prod.ext (Subtype.ext htake) hdrop))
  · intro part hpre hne
    have hlt : part.length < bs.length :=
      lt_of_le_of_ne hpre.length_le fun h => hne (hpre.eq_of_length h)
    exact dif_neg (not_le.2 hlt)

/-- A varint is read back. -/
theorem reads_varint (n : ℕ) : Reads Reader.varint (varint n) n := by
  induction n using Nat.strong_induction_on with
  | _ n ih =>
    unfold varint
    split_ifs with hn
    · have hbyte : (UInt8.ofNat n).toNat = n := by
        rw [UInt8.toNat_ofNat']
        omega
      constructor
      · intro rest
        simp [Reader.varint, hbyte, hn]
      · intro part hpre hne
        rcases List.prefix_cons_iff.1 hpre with rfl | ⟨t, rfl, ht⟩
        · rfl
        · rw [List.prefix_nil.1 ht] at hne
          exact absurd rfl hne
    · have hbyte : (UInt8.ofNat (n % 128 + 128)).toNat = n % 128 + 128 := by
        rw [UInt8.toNat_ofNat']
        omega
      have hrest := ih (n / 128) (by omega)
      constructor
      · intro rest
        rw [List.cons_append, Reader.varint, hbyte, if_neg (by omega), hrest.whole]
        simp
        omega
      · intro part hpre hne
        rcases List.prefix_cons_iff.1 hpre with rfl | ⟨t, rfl, ht⟩
        · rfl
        · have hcut := hrest.part t ht fun h => hne (by rw [h])
          rw [Reader.varint, hbyte, if_neg (by omega), hcut]
          rfl

/-- A number of 16 bits is read back. -/
theorem reads_u16 (n : UInt16) : Reads Reader.u16 (varint n.toNat) n := by
  refine (reads_varint n.toNat).bind_nil ?_
  rw [if_pos n.toNat_lt, UInt16.ofNat_toNat]
  exact Reads.pure n

/-- A byte sequence is read back. -/
theorem reads_bytes (bs : List UInt8) : Reads Reader.bytes (bytes bs) bs := by
  refine (reads_varint bs.length).bind ?_
  exact (reads_array ⟨bs, rfl⟩).bind_nil (Reads.pure bs)

/-- A string is read back. -/
theorem reads_string (s : String) : Reads Reader.string (string s) s := by
  have hutf8 : String.fromUTF8? ⟨s.toUTF8.data.toList.toArray⟩ = some s := by
    rw [Array.toArray_toList]
    exact dif_pos s.isValidUTF8
  refine (reads_bytes s.toUTF8.data.toList).bind_nil ?_
  rw [hutf8]
  exact Reads.pure s

end Reads

end Postcard
