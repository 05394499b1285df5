import Borderless.Core

/-!
# Errors and framing

The error type of `crates/transport`, and the framing of both Hellos and frames: a length in four
little-endian bytes, then the payload. The texts of errors that come from outside the repository
(I/O, postcard, TOML, rustls) are parameters where they arise.
-/

namespace Borderless.Transport

/-- The crate-level error, without the variants that no modelled function returns. -/
inductive Error
  /-- IO error from disk or sockets. -/
  | io (e : String)
  /-- Codec or framing problem. -/
  | codec (e : String)
  /-- Identity or signature verification. -/
  | identity (e : String)
  /-- TOML of the peer store. -/
  | toml (e : String)
  /-- Pairing protocol: pin mismatch or unknown peer. -/
  | pairing (e : String)
  /-- TLS handshake failure. -/
  | tls (e : String)
deriving DecidableEq

/-- `Display` of an error. -/
def Error.display : Error → String
  | io e => s!"io: {e}"
  | codec e => s!"codec: {e}"
  | identity e => s!"identity: {e}"
  | toml e => s!"toml: {e}"
  | pairing e => s!"pairing: {e}"
  | tls e => s!"tls: {e}"

/-- `MAX_FRAME`: the largest payload of a frame. -/
def maxFrame : ℕ := 64 * 1024 * 1024

/-- `(n as u32).to_le_bytes()`: the four low bytes of a number, the lowest first. -/
def u32ToLe (n : ℕ) : List UInt8 :=
  [UInt8.ofNat n, UInt8.ofNat (n / 2^8), UInt8.ofNat (n / 2^16), UInt8.ofNat (n / 2^24)]

/-- `u32::from_le_bytes`: the number that bytes are, the lowest first. -/
def u32FromLe : List UInt8 → ℕ
  | [] => 0
  | b :: bs => b.toNat + 2^8 * u32FromLe bs

/-- A length takes four bytes. -/
@[simp] theorem length_u32ToLe (n : ℕ) : (u32ToLe n).length = 4 := rfl

/-- The length bytes read back as the length, truncated to 32 bits. -/
theorem u32FromLe_u32ToLe (n : ℕ) : u32FromLe (u32ToLe n) = n % 2^32 := by
  unfold u32ToLe u32FromLe u32FromLe u32FromLe u32FromLe u32FromLe
  simp only [UInt8.toNat_ofNat']
  omega

/-- A payload in its frame. -/
def framed (payload : List UInt8) : List UInt8 := u32ToLe payload.length ++ payload

/-- A framed payload is four bytes longer. -/
@[simp] theorem length_framed (payload : List UInt8) :
    (framed payload).length = 4 + payload.length := by
  rw [framed, List.length_append, length_u32ToLe]

/-- `read_exact`: the next `n` bytes of the stream, and the rest. Where the stream ends before, the
error is that of the stream. -/
def readExact (n : ℕ) (incoming : List UInt8) (readError : String) :
    Except Error (List UInt8 × List UInt8) :=
  if n ≤ incoming.length then .ok (incoming.take n, incoming.drop n) else .error (.io readError)

/-- `read_exact` succeeds when there are enough bytes, and takes as many. -/
theorem readExact_ok_iff {n : ℕ} {incoming bytes rest : List UInt8} {readError : String} :
    readExact n incoming readError = .ok (bytes, rest) ↔
      n ≤ incoming.length ∧ incoming.take n = bytes ∧ incoming.drop n = rest := by
  unfold readExact
  split_ifs with hle <;> simp [hle]

end Borderless.Transport
