import Mathlib.Tactic.Common

/-!
# Hexadecimal text

Bytes as lowercase hexadecimal digits, and the decoding of digits of either case. Decoding gives
back what was encoded.
-/

namespace Hex

/-- The lowercase digit of a number below 16. -/
def digit (n : ℕ) : Char := Char.ofNat (if n < 10 then 48 + n else 87 + n)

/-- The number of a digit of either case. -/
def value (c : Char) : Option ℕ :=
  let n := c.toNat
  if 48 ≤ n ∧ n ≤ 57 then some (n - 48)
  else if 97 ≤ n ∧ n ≤ 102 then some (n - 87)
  else if 65 ≤ n ∧ n ≤ 70 then some (n - 55)
  else none

/-- The digits of some bytes, two for each. -/
def encodeChars : List UInt8 → List Char
  | [] => []
  | b :: bytes => digit (b.toNat / 16) :: digit (b.toNat % 16) :: encodeChars bytes

/-- The bytes of some digits, or `none` where they are not pairs of digits. -/
def decodeChars : List Char → Option (List UInt8)
  | [] => some []
  | [_] => none
  | c :: c' :: chars => do
    let high ← value c
    let low ← value c'
    let bytes ← decodeChars chars
    some (UInt8.ofNat (16 * high + low) :: bytes)

/-- The text of some bytes. -/
def encode (bytes : List UInt8) : String := .ofList (encodeChars bytes)

/-- The bytes of a text. -/
def decode (text : String) : Option (List UInt8) := decodeChars text.toList

/-- A digit has the value that it was written for. -/
theorem value_digit {n : ℕ} (h : n < 16) : value (digit n) = some n := by
  have hall : ∀ n < 16, value (digit n) = some n := by decide
  exact hall n h

/-- What was encoded decodes to the bytes. -/
theorem decodeChars_encodeChars (bytes : List UInt8) :
    decodeChars (encodeChars bytes) = some bytes := by
  induction bytes with
  | nil => rfl
  | cons b bytes ih =>
    have hlt : b.toNat < 256 := b.toNat_lt
    have hhigh : value (digit (b.toNat / 16)) = some (b.toNat / 16) := value_digit (by omega)
    have hlow : value (digit (b.toNat % 16)) = some (b.toNat % 16) := value_digit (by omega)
    have hbyte : UInt8.ofNat (16 * (b.toNat / 16) + b.toNat % 16) = b := by
      rw [Nat.div_add_mod, UInt8.ofNat_toNat]
    simp only [encodeChars, decodeChars, hhigh, hlow, ih, Option.bind_eq_bind, Option.bind_some,
      hbyte]

/-- Decoding gives back the bytes. -/
theorem decode_encode (bytes : List UInt8) : decode (encode bytes) = some bytes := by
  unfold decode encode
  rw [String.toList_ofList, decodeChars_encodeChars]

end Hex
