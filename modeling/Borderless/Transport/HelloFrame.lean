import Borderless.Transport.Handshake

/-!
# The frame of a Hello

`handshake` of `crates/transport/src/connection.rs` encodes its Hello and writes it with
`write_framed_raw`, which takes a payload of any length; `read_hello` of the peer refuses a payload
of more than 16 KiB. The name is the one part of a Hello without a bound: it comes from the
configuration as it is. `hello_read_iff` tells for which names the peer reads our Hello; with a
longer one a node completes no handshake (`handshake_of_long_name`).

The postcard format of a Hello is that of its fields in their order.
-/

namespace Borderless.Transport

/-- The codec encodes Hellos in the postcard format. -/
def Crates.IsPostcard (c : Crates) : Prop := ∀ hello, c.encodeHello hello = .ok hello.postcard

/-- What `handshake` puts on the stream for our Hello: what `write_framed_raw` makes of its encoding. -/
def writtenHello (c : Crates) (call : HandshakeCall) : Except Error (List UInt8) := do
  let bytes ← (c.encodeHello (ourHello call)).mapError fun e => Error.codec s!"hello encode: {e}"
  .ok (writeFramedRaw call.stream bytes).1

/-- `read_hello` of a peer returns our Hello, and leaves what we write after it. -/
def HelloRead (c : Crates) (call : HandshakeCall) : Prop :=
  ∃ written, writtenHello c call = .ok written ∧ ∀ (stream : Stream) (rest : List UInt8),
    stream.incoming = written ++ rest → readHello c stream = .ok (ourHello call, rest)

section Read

variable {c : Crates} {call peer : HandshakeCall} {store : PeerStore} {stream : Stream}
  {payload written rest : List UInt8}

/-- Bytes that have arrived are read. -/
theorem readExact_append {n : ℕ} {bytes : List UInt8} (h : bytes.length = n) (rest : List UInt8)
    (readError : String) : readExact n (bytes ++ rest) readError = .ok (bytes, rest) := by
  have hle : n ≤ (bytes ++ rest).length := by
    rw [List.length_append]
    omega
  rw [readExact, if_pos hle, List.take_left' h, List.drop_left' h]

/-- What is read of a frame: the length bytes give the length of the payload modulo `2^32`. -/
theorem readHello_framed (hstream : stream.incoming = framed payload ++ rest) {len : ℕ}
    (hlen : payload.length % 2^32 = len) :
    readHello c stream =
      if 16 * 1024 < len then .error (.codec s!"hello too large: {len}")
      else ((c.decodeHello (payload.take len)).mapError fun e =>
        Error.codec s!"hello decode: {e}").map fun hello => (hello, payload.drop len ++ rest) := by
  have hle : len ≤ payload.length := hlen ▸ Nat.mod_le _ _
  have hhead : readExact 4 stream.incoming stream.readError =
      .ok (u32ToLe payload.length, payload ++ rest) := by
    rw [hstream, framed, List.append_assoc]
    exact readExact_append (length_u32ToLe _) _ _
  have hbody : readExact len (payload ++ rest) stream.readError =
      .ok (payload.take len, payload.drop len ++ rest) := by
    have h := readExact_append (List.length_take_of_le hle) (payload.drop len ++ rest)
      stream.readError
    rwa [← List.append_assoc, List.take_append_drop] at h
  unfold readHello
  rw [hhead]
  simp only [bind, Except.bind, u32FromLe_u32ToLe, hlen]
  split_ifs
  · rfl
  · rw [hbody]
    dsimp only
    cases c.decodeHello (payload.take len) <;> rfl

/-- The length of our Hello. -/
theorem length_postcard_ourHello (call : HandshakeCall) :
    (ourHello call).postcard.length =
      98 + Postcard.varintLength call.name.utf8ByteSize + call.name.utf8ByteSize := by
  have hkey : (ourHello call).pubkey.toList.length = 32 := List.Vector.toList_length _
  have hsig : (ourHello call).signature.length = 64 := List.Vector.toList_length _
  have hversion : Postcard.varintLength (ourHello call).maxProtocol.number.toNat = 1 :=
    Postcard.varintLength_of_lt (show (0 : UInt16).toNat < 128 by decide)
  have hsiglen : Postcard.varintLength 64 = 1 := Postcard.varintLength_of_lt (by omega)
  have hname : (ourHello call).name = call.name := rfl
  calc (ourHello call).postcard.length
      = 32 + (Postcard.varintLength call.name.utf8ByteSize + call.name.utf8ByteSize +
          (1 + (1 + 64))) := by
        unfold SignedHello.postcard
        rw [List.length_append, List.length_append, List.length_append, Postcard.length_string,
          Postcard.length_varint, Postcard.length_bytes, hkey, hsig, hversion, hsiglen, hname]
    _ = 98 + Postcard.varintLength call.name.utf8ByteSize + call.name.utf8ByteSize := by omega

/-- It is within the limit of the reader for names of at most 16284 bytes. -/
theorem length_postcard_ourHello_le_iff (call : HandshakeCall) :
    (ourHello call).postcard.length ≤ 16 * 1024 ↔ call.name.utf8ByteSize ≤ 16284 := by
  rw [length_postcard_ourHello]
  constructor
  · intro h
    by_contra hlong
    have hvar := Postcard.two_le_varintLength (n := call.name.utf8ByteSize) (by omega)
    omega
  · intro h
    have hvar : Postcard.varintLength call.name.utf8ByteSize ≤ 2 :=
      Postcard.varintLength_le (by omega) (lt_of_le_of_lt h (by decide))
    omega

/-- The Hello is written in the postcard format, behind its length. -/
theorem writtenHello_eq (hp : c.IsPostcard) (call : HandshakeCall) :
    writtenHello c call = .ok (framed (ourHello call).postcard) := by
  unfold writtenHello
  rw [hp]
  rfl

/-- Our Hello is read when it is within the limit. -/
theorem readHello_of_length_le (hc : c.Codec) (hp : c.IsPostcard)
    (hstream : stream.incoming = framed (ourHello call).postcard ++ rest)
    (h : (ourHello call).postcard.length ≤ 16 * 1024) :
    readHello c stream = .ok (ourHello call, rest) := by
  have hlen : (ourHello call).postcard.length % 2^32 = (ourHello call).postcard.length := by omega
  rw [readHello_framed hstream hlen, if_neg (by omega), List.take_length, List.drop_length,
    hc.round_trip _ _ (hp _)]
  rfl

/-- A larger one is refused: for its length, or, where the length bytes say less than the whole,
because what is read of it is cut short. -/
theorem readHello_of_lt_length (hc : c.Codec) (hp : c.IsPostcard)
    (hstream : stream.incoming = framed (ourHello call).postcard ++ rest)
    (h : 16 * 1024 < (ourHello call).postcard.length) :
    ∃ text, readHello c stream = .error (.codec text) := by
  rw [readHello_framed hstream rfl]
  split_ifs with hlarge
  · exact ⟨_, rfl⟩
  · have hcut : (ourHello call).postcard.take ((ourHello call).postcard.length % 2^32) ≠
        (ourHello call).postcard := by
      intro heq
      have hlen := congrArg List.length heq
      rw [List.length_take] at hlen
      omega
    obtain ⟨e, he⟩ := hc.strict_prefix _ _ (hp _) _ (List.take_prefix _ _) hcut
    rw [he]
    exact ⟨_, rfl⟩

/-- The peer reads our Hello when it is within the limit. -/
theorem helloRead_iff_length_le (hc : c.Codec) (hp : c.IsPostcard) :
    HelloRead c call ↔ (ourHello call).postcard.length ≤ 16 * 1024 := by
  unfold HelloRead
  simp only [writtenHello_eq hp, Except.ok.injEq, exists_eq_left']
  constructor
  · intro h
    by_contra hlong
    let stream : Stream := ⟨framed (ourHello call).postcard ++ [], "", none⟩
    obtain ⟨text, hread⟩ : ∃ text, readHello c stream = .error (.codec text) :=
      readHello_of_lt_length hc hp rfl (not_le.1 hlong)
    rw [h stream [] rfl] at hread
    cases hread
  · intro h stream rest hstream
    exact readHello_of_length_le hc hp hstream h

/-- A peer refuses the Hello of a longer name: its handshake fails, and its store is unchanged. -/
theorem handshake_of_long_name (hc : c.Codec) (hp : c.IsPostcard)
    (hlong : 16284 < call.name.utf8ByteSize) (hwritten : writtenHello c call = .ok written)
    (hstream : peer.stream.incoming = written ++ rest) :
    ∃ e, handshake c peer store = (.error e, store) := by
  rw [writtenHello_eq hp] at hwritten
  obtain rfl := Except.ok.inj hwritten
  have hlength := mt (length_postcard_ourHello_le_iff call).1 (not_le.2 hlong)
  obtain ⟨text, hread⟩ := readHello_of_lt_length hc hp hstream (not_le.1 hlength)
  unfold handshake
  cases hexchange : exchangeHellos c peer with
  | error e => exact ⟨e, rfl⟩
  | ok received =>
    obtain ⟨rest', hreceived⟩ := received_of_exchange hexchange
    rw [hread] at hreceived
    cases hreceived

end Read

/-- The Hellos that can be read. For every identity, exporter and name, what `handshake` writes for
our Hello is read by `read_hello` of the peer, which returns our Hello, precisely when the name has
at most 16284 bytes. -/
theorem hello_read_iff (c : Crates) (hc : c.Codec) (hp : c.IsPostcard) (call : HandshakeCall) :
    HelloRead c call ↔ call.name.utf8ByteSize ≤ 16284 := by
  rw [helloRead_iff_length_le hc hp, length_postcard_ourHello_le_iff]

section Example

/-- The stand-in codec is postcard. -/
theorem isPostcard_sampleCrates : sampleCrates.IsPostcard := fun _ => rfl

/-- A call of a node with this name. -/
def namedCall (name : String) : HandshakeCall := { sampleCall [] true none true with name := name }

/-- The call with a name has it. -/
theorem name_namedCall (name : String) : (namedCall name).name = name := rfl

/-- The Hello of `alice` is read. -/
theorem alice_hello_read : HelloRead sampleCrates (namedCall "alice") :=
  (hello_read_iff sampleCrates sampleCrates_codec isPostcard_sampleCrates
    (namedCall "alice")).2 (by decide)

/-- A name of `n` letters. -/
def longName (n : ℕ) : String := "".pushn 'a' n

/-- The name of `n` letters has `n` bytes. -/
theorem utf8ByteSize_longName (n : ℕ) : (longName n).utf8ByteSize = n := by
  rw [longName, String.pushn_eq_repeat_push]
  induction n with
  | zero => rfl
  | succ n ih =>
    rw [Nat.repeat, String.utf8ByteSize_push, ih]
    rfl

/-- The Hello of a name of 16285 letters is not read. -/
theorem long_hello_not_read :
    ¬ ∀ c : Crates, c.Codec → c.IsPostcard → ∀ call, HelloRead c call := by
  intro h
  have hread := h _ sampleCrates_codec isPostcard_sampleCrates (namedCall (longName 16285))
  rw [helloRead_iff_length_le sampleCrates_codec isPostcard_sampleCrates,
    length_postcard_ourHello_le_iff, name_namedCall, utf8ByteSize_longName] at hread
  omega

end Example

end Borderless.Transport
