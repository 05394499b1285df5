import Borderless.Core
import Mathlib.Data.List.Induction
import Mathlib.Data.Nat.Digits.Defs
import Mathlib.Tactic.Ring

/-!
# The short authentication string

`crates/transport/src/sas.rs`: the six digits that two users compare when they pair their nodes. The
number is made of the first four bytes of a hash of the two keys, in order, and a salt.

Both users see the same text if both sides hash the same keys and salt, whichever side is first, and
otherwise only if the hash functions agree by chance: the hashed bytes are then different
(`sas_compared`).
-/

namespace Borderless.Transport

/-- `ShortAuthString`: the number that the users compare. -/
structure ShortAuthString where
  /-- The number. -/
  value : UInt32
deriving DecidableEq

/-- `ShortAuthString::to_string_padded`: the decimal digits, with zeros in front up to six. -/
def ShortAuthString.toStringPadded (s : ShortAuthString) : String :=
  let digits := Nat.toDigits 10 s.value.toNat
  .ofList (List.replicate (6 - digits.length) '0' ++ digits)

/-- What is hashed first. -/
def sasLabel : List UInt8 := "borderless/sas/v0".toUTF8.toList

/-- The keys in order. -/
def sasKeys (pkA pkB : Bytes 32) : Bytes 32 × Bytes 32 :=
  if pkA.toList ≤ pkB.toList then (pkA, pkB) else (pkB, pkA)

/-- All that is hashed. -/
def sasInput (pkA pkB : Bytes 32) (salt : List UInt8) : List UInt8 :=
  let (lo, hi) := sasKeys pkA pkB
  sasLabel ++ lo.toList ++ hi.toList ++ salt

/-- `sas_digits`: the first four bytes of the hash as a number, and of that the last six digits. -/
def sasDigits (blake3 : List UInt8 → Bytes 32) (pkA pkB : Bytes 32) (salt : List UInt8) :
    ShortAuthString :=
  let digest := blake3 (sasInput pkA pkB salt)
  let int := (digest.toList.take 4).foldl (fun int b => int * 256 + b.toUInt32) 0
  ⟨int % 1000000⟩

/-- The number that bytes are, the most significant first. -/
def bigEndian (bytes : List UInt8) : ℕ := Nat.ofDigits 256 (bytes.reverse.map UInt8.toNat)

/-! ## The number -/

/-- The number of one more byte. -/
theorem bigEndian_concat (bytes : List UInt8) (b : UInt8) :
    bigEndian (bytes ++ [b]) = bigEndian bytes * 256 + b.toNat := by
  unfold bigEndian
  rw [List.reverse_append, List.reverse_singleton, List.singleton_append, List.map_cons,
    Nat.ofDigits_cons]
  ring

/-- The number of so many bytes is below a power of 256. -/
theorem bigEndian_lt (bytes : List UInt8) : bigEndian bytes < 256 ^ bytes.length := by
  have hlt := Nat.ofDigits_lt_base_pow_length (b := 256) (l := bytes.reverse.map UInt8.toNat)
    (by decide) (by
      intro d hd
      obtain ⟨b, -, rfl⟩ := List.mem_map.1 hd
      exact b.toNat_lt)
  rwa [List.length_map, List.length_reverse] at hlt

/-- The loop over the first bytes does not wrap. -/
theorem toNat_foldl_bytes (bytes : List UInt8) (hlen : bytes.length ≤ 4) :
    (bytes.foldl (fun int b => int * 256 + b.toUInt32) (0 : UInt32)).toNat = bigEndian bytes := by
  induction bytes using List.reverseRecOn with
  | nil => rfl
  | append_singleton bytes b ih =>
    rw [List.length_append, List.length_singleton] at hlen
    have hbefore := ih (by omega)
    have hlt := bigEndian_lt bytes
    have hpow : 256 ^ bytes.length ≤ 256 ^ 3 := Nat.pow_le_pow_right (by decide) (by omega)
    have hbyte := b.toNat_lt
    rw [List.foldl_concat, UInt32.toNat_add, UInt32.toNat_mul, hbefore, bigEndian_concat,
      UInt8.toNat_toUInt32]
    have h256 : (256 : UInt32).toNat = 256 := rfl
    rw [h256]
    omega

/-- The number is that of the first four bytes of the hash, up to six digits. -/
theorem value_sasDigits (blake3 : List UInt8 → Bytes 32) (pkA pkB : Bytes 32) (salt : List UInt8) :
    (sasDigits blake3 pkA pkB salt).value.toNat =
      bigEndian ((blake3 (sasInput pkA pkB salt)).toList.take 4) % 10 ^ 6 := by
  have hfold := toNat_foldl_bytes ((blake3 (sasInput pkA pkB salt)).toList.take 4)
    (List.length_take_le 4 _)
  unfold sasDigits
  dsimp only
  rw [UInt32.toNat_mod, hfold]
  rfl

/-! ## The text -/

/-- Six digits, from which the number can be read. -/
theorem toStringPadded_spec {s : ShortAuthString} (hs : s.value.toNat < 10 ^ 6) :
    s.toStringPadded.toList.length = 6 ∧ (∀ c ∈ s.toStringPadded.toList, c.isDigit) ∧
      Nat.ofDigitChars 10 s.toStringPadded.toList 0 = s.value.toNat := by
  have hlen : (Nat.toDigits 10 s.value.toNat).length ≤ 6 :=
    (Nat.length_toDigits_le_iff (by decide) (by decide)).2 hs
  unfold ShortAuthString.toStringPadded
  dsimp only
  rw [String.toList_ofList]
  refine ⟨?_, ?_, ?_⟩
  · rw [List.length_append, List.length_replicate]
    omega
  · intro c hc
    rcases List.mem_append.1 hc with hzero | hdigit
    · rw [(List.mem_replicate.1 hzero).2]
      rfl
    · exact Nat.isDigit_of_mem_toDigits (by decide) (by decide) hdigit
  · rw [Nat.ofDigitChars_append, Nat.ofDigitChars_replicate_zero, Nat.mul_zero,
      Nat.ofDigitChars_ten_toDigits]

/-! ## What is hashed -/

/-- The order of the arguments does not count. -/
theorem sasKeys_comm (pkA pkB : Bytes 32) : sasKeys pkB pkA = sasKeys pkA pkB := by
  unfold sasKeys
  by_cases hAB : pkA.toList ≤ pkB.toList
  · by_cases hBA : pkB.toList ≤ pkA.toList
    · have hsame : pkA = pkB := Subtype.ext (List.le_antisymm hAB hBA)
      rw [hsame]
    · rw [if_neg hBA, if_pos hAB]
  · have hBA : pkB.toList ≤ pkA.toList := (List.le_total _ _).resolve_left hAB
    rw [if_pos hBA, if_neg hAB]

/-- The ordered keys are the same for the same two keys only. -/
theorem sasKeys_eq_iff {pkA pkB pkA' pkB' : Bytes 32} :
    sasKeys pkA pkB = sasKeys pkA' pkB' ↔ pkA = pkA' ∧ pkB = pkB' ∨ pkA = pkB' ∧ pkB = pkA' := by
  constructor
  · intro h
    unfold sasKeys at h
    split_ifs at h <;> simp only [Prod.mk.injEq] at h <;> tauto
  · rintro (⟨rfl, rfl⟩ | ⟨rfl, rfl⟩)
    · rfl
    · exact sasKeys_comm _ _

/-- What is hashed has the two keys, in any order, and the salt in it. -/
theorem sasInput_eq_iff {pkA pkB pkA' pkB' : Bytes 32} {salt salt' : List UInt8} :
    sasInput pkA pkB salt = sasInput pkA' pkB' salt' ↔
      (pkA = pkA' ∧ pkB = pkB' ∨ pkA = pkB' ∧ pkB = pkA') ∧ salt = salt' := by
  rw [← sasKeys_eq_iff]
  unfold sasInput
  dsimp only
  constructor
  · intro h
    rw [List.append_assoc, List.append_assoc, List.append_assoc, List.append_assoc,
      List.append_cancel_left_eq] at h
    obtain ⟨hlo, h⟩ := List.append_inj h (by simp)
    obtain ⟨hhi, hsalt⟩ := List.append_inj h (by simp)
    exact ⟨Prod.ext (Subtype.ext hlo) (Subtype.ext hhi), hsalt⟩
  · rintro ⟨hkeys, rfl⟩
    rw [hkeys]

/-- What two users compare, for every hash function. Each sees six digits, from which the number of the
first four bytes of the hash can be read up to six digits; so both see the same text if and only if
these numbers are equal. And what is hashed on the two sides is equal if and only if both have the same
two keys, in whatever order, and the same salt. -/
theorem sas_compared (blake3 : List UInt8 → Bytes 32) (pkA pkB pkA' pkB' : Bytes 32)
    (salt salt' : List UInt8) :
    ((sasDigits blake3 pkA pkB salt).toStringPadded.toList.length = 6 ∧
        (∀ c ∈ (sasDigits blake3 pkA pkB salt).toStringPadded.toList, c.isDigit) ∧
        Nat.ofDigitChars 10 (sasDigits blake3 pkA pkB salt).toStringPadded.toList 0 =
          bigEndian ((blake3 (sasInput pkA pkB salt)).toList.take 4) % 10 ^ 6) ∧
      ((sasDigits blake3 pkA pkB salt).toStringPadded =
          (sasDigits blake3 pkA' pkB' salt').toStringPadded ↔
        bigEndian ((blake3 (sasInput pkA pkB salt)).toList.take 4) % 10 ^ 6 =
          bigEndian ((blake3 (sasInput pkA' pkB' salt')).toList.take 4) % 10 ^ 6) ∧
      (sasInput pkA pkB salt = sasInput pkA' pkB' salt' ↔
        (pkA = pkA' ∧ pkB = pkB' ∨ pkA = pkB' ∧ pkB = pkA') ∧ salt = salt') := by
  have hvalue := value_sasDigits blake3 pkA pkB salt
  have hvalue' := value_sasDigits blake3 pkA' pkB' salt'
  have hlt : (sasDigits blake3 pkA pkB salt).value.toNat < 10 ^ 6 := by
    rw [hvalue]
    exact Nat.mod_lt _ (by decide)
  have hlt' : (sasDigits blake3 pkA' pkB' salt').value.toNat < 10 ^ 6 := by
    rw [hvalue']
    exact Nat.mod_lt _ (by decide)
  obtain ⟨hlen, hdigits, hread⟩ := toStringPadded_spec hlt
  obtain ⟨-, -, hread'⟩ := toStringPadded_spec hlt'
  refine ⟨⟨hlen, hdigits, by rw [hread, hvalue]⟩, ?_, sasInput_eq_iff⟩
  rw [← hvalue, ← hvalue']
  constructor
  · intro htext
    rw [← hread, htext, hread']
  · intro hnumber
    unfold ShortAuthString.toStringPadded
    rw [hnumber]

end Borderless.Transport
