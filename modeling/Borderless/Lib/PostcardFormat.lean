import Borderless.Lib.Postcard

/-!
# Formats in postcard

The readers of the postcard format with the bounds of the machine types: the varint of a number has
no more bytes than its type needs, a signed number is in zigzag form, and a length is a `usize`. The
bounds refuse an overlong varint of a type, but not every longer one than the shortest.

A reader and an encoder are a format (`IsFormat`) when the reader reads what was encoded, and what
it returns has no longer encoding than the bytes that it was read from. Both parts are proved along
the reader: `Readable.bind` and `Consumes.bind` are the rules for a reader after another one,
`readable_enum` and `consumes_enum` those for an enumeration. Encodings of a format that follow one
another are taken apart in one way only (`IsFormat.flatMap_injective`).
-/

namespace Postcard

/-! ## Bounded numbers -/

/-- The reader, with a refusal of what takes more than `k` bytes. -/
def Reader.limit {α : Type} (k : ℕ) (r : Reader α) : Reader α := fun bs =>
  (r bs).filter fun p => decide (bs.length ≤ p.2.length + k)

/-- A value of so many bits, from the varint of its number: the varint has no more bytes than such
numbers need. -/
def Reader.number {α : Type} (bits : ℕ) (ofNat : ℕ → α) : Reader α := do
  let n ← Reader.varint.limit ((bits + 6) / 7)
  if n < 2^bits then pure (ofNat n) else failure

/-- The number of a signed value: the sign is the lowest bit. -/
def zigzag (n : Int32) : ℕ := if 0 ≤ n.toInt then (2 * n.toInt).toNat else (-2 * n.toInt - 1).toNat

/-- The signed value of a number. -/
def unzigzag (n : ℕ) : Int32 :=
  if n % 2 = 0 then Int32.ofInt (n / 2) else Int32.ofInt (-(n / 2) - 1)

/-- A number of 32 bits is mapped to one below 2³². -/
theorem zigzag_lt (n : Int32) : zigzag n < 2^32 := by
  have hlt := n.toInt_lt
  have hle := n.le_toInt
  unfold zigzag
  split_ifs <;> omega

/-- The mapping is undone. -/
theorem unzigzag_zigzag (n : Int32) : unzigzag (zigzag n) = n := by
  unfold zigzag unzigzag
  split_ifs with hsign hodd hodd
  · have hhalf : ((2 * n.toInt).toNat : ℤ) / 2 = n.toInt := by omega
    rw [hhalf, Int32.ofInt_toInt]
  · omega
  · omega
  · have hhalf : -(((-2 * n.toInt - 1).toNat : ℤ) / 2) - 1 = n.toInt := by omega
    rw [hhalf, Int32.ofInt_toInt]

/-- Every number below 2³² is mapped to. -/
theorem zigzag_unzigzag {n : ℕ} (h : n < 2^32) : zigzag (unzigzag n) = n := by
  have hsmall : ∀ z : ℤ, -2^31 ≤ z → z < 2^31 → (Int32.ofInt z).toInt = z := by
    intro z hle hlt
    rw [Int32.toInt_ofInt]
    exact Int.bmod_eq_of_le hle hlt
  unfold unzigzag
  split_ifs with heven
  · unfold zigzag
    rw [hsmall _ (by omega) (by omega), if_pos (by omega)]
    omega
  · unfold zigzag
    rw [hsmall _ (by omega) (by omega), if_neg (by omega)]
    omega

/-! ## Formats -/

/-- What the reader returns has no longer encoding than the bytes that the reader has taken, together
with those that were taken before. -/
def Consumes {α : Type} (r : Reader α) (before : List UInt8) (encode : α → List UInt8) : Prop :=
  ∀ bs x rest, r bs = some (x, rest) →
    (encode x).length + rest.length ≤ before.length + bs.length

section Consumes

variable {α β : Type} {r : Reader α} {before : List UInt8} {encode : α → List UInt8}
  {encode' : β → List UInt8}

/-- At the end the value has the encodings of its parts. -/
theorem Consumes.pure {x : α} (h : encode x = before) : Consumes (Pure.pure x) before encode := by
  intro bs y rest hread
  obtain ⟨rfl, rfl⟩ := Prod.mk.inj (Option.some.inj hread)
  rw [h]

/-- A reader that fails returns nothing that could have a longer encoding. -/
theorem Consumes.failure : Consumes (failure : Reader α) before encode :=
  fun _ _ _ hread => by cases hread

/-- A value that is computed from what was read. -/
theorem Consumes.lift {o : Option α} (h : ∀ x, o = some x → encode x = before) :
    Consumes (StateT.lift o) before encode := by
  intro bs x rest hread
  obtain ⟨y, hy, hread⟩ := Option.bind_eq_some_iff.1 hread
  obtain ⟨rfl, rfl⟩ := Prod.mk.inj (Option.some.inj hread)
  rw [h y hy]

/-- What a reader has taken was taken before the next one. -/
theorem Consumes.bind {f : α → Reader β} (hr : Consumes r [] encode)
    (hf : ∀ x, Consumes (f x) (before ++ encode x) encode') : Consumes (r >>= f) before encode' := by
  intro bs y rest hread
  obtain ⟨⟨x, mid⟩, hx, hy⟩ := Option.bind_eq_some_iff.1 hread
  have htaken := hr bs x mid hx
  have hrest := hf x mid y rest hy
  rw [List.length_append] at hrest
  rw [List.length_nil] at htaken
  omega

/-- With a limit, what a reader returns has no longer encoding either. -/
theorem consumes_limit (h : Consumes r before encode) (k : ℕ) :
    Consumes (r.limit k) before encode := by
  intro bs x rest hread
  exact h bs x rest (Option.filter_eq_some_iff.1 hread).1

/-- The varint of a number is the shortest one. -/
theorem consumes_varint : Consumes Reader.varint [] varint := by
  intro bs
  induction bs with
  | nil => exact fun _ _ hread => by cases hread
  | cons b bs ih =>
    intro n rest hread
    rw [Reader.varint] at hread
    rw [length_varint]
    split_ifs at hread with hb
    · obtain ⟨rfl, rfl⟩ := Prod.mk.inj (Option.some.inj hread)
      rw [varintLength_of_lt hb, List.length_cons]
      omega
    · obtain ⟨⟨m, rest'⟩, hm, heq⟩ := Option.map_eq_some_iff.1 hread
      obtain ⟨rfl, rfl⟩ := Prod.mk.inj heq
      have htaken := ih m rest' hm
      rw [length_varint, List.length_nil] at htaken
      -- the first byte holds the lowest digit
      have hlog : varintLength (b.toNat - 128 + 128 * m) ≤ varintLength m + 1 := by
        have hbyte := b.toNat_lt
        by_cases hlt : b.toNat - 128 + 128 * m < 128
        · rw [varintLength_of_lt hlt]
          omega
        · have hdiv : (b.toNat - 128 + 128 * m) / 128 = m := by omega
          rw [varintLength, Nat.log_of_one_lt_of_le (by omega) (by omega), hdiv, varintLength]
      rw [List.length_cons, List.length_nil]
      dsimp only at hlog ⊢
      omega

end Consumes

section Reads

variable {α β : Type} {r : Reader α} {e e' : List UInt8} {x : α} {y : β}

/-- A limit does not matter to a value that is within it. -/
theorem reads_limit (h : Reads r e x) {k : ℕ} (hk : e.length ≤ k) : Reads (r.limit k) e x := by
  constructor
  · intro rest
    rw [Reader.limit, h.whole, Option.filter_some, if_pos (decide_eq_true ?_)]
    rw [List.length_append, Nat.add_comm]
    exact Nat.add_le_add_left hk _
  · intro part hpre hne
    rw [Reader.limit, h.part part hpre hne]
    rfl

/-- A number of so many bits is read back. -/
theorem reads_number {bits n : ℕ} (hbits : bits ≠ 0) (h : n < 2^bits) (ofNat : ℕ → α) :
    Reads (Reader.number bits ofNat) (varint n) (ofNat n) := by
  have hlength : (varint n).length ≤ (bits + 6) / 7 := by
    rw [length_varint]
    refine varintLength_le (by omega) (lt_of_lt_of_le h ?_)
    calc 2^bits ≤ 2^(7 * ((bits + 6) / 7)) := Nat.pow_le_pow_right (by omega) (by omega)
      _ = 128^((bits + 6) / 7) := by rw [Nat.pow_mul]
  refine (reads_limit (reads_varint n) hlength).bind_nil ?_
  rw [if_pos h]
  exact Reads.pure _

/-- The reader reads the value from its encoding, if the encoding fits in memory. -/
def Readable (r : Reader α) (e : List UInt8) (x : α) : Prop := e.length < 2^64 → Reads r e x

/-- A value that is read back is readable. -/
theorem Reads.readable (h : Reads r e x) : Readable r e x := fun _ => h

/-- A value that is already there is readable from no bytes. -/
theorem Readable.pure (x : α) : Readable (Pure.pure x) [] x := (Reads.pure x).readable

/-- A value and what depends on it are readable one after the other. -/
theorem Readable.bind {f : α → Reader β} (hr : Readable r e x) (hf : Readable (f x) e' y) :
    Readable (r >>= f) (e ++ e') y := by
  intro hfits
  rw [List.length_append] at hfits
  exact (hr (by omega)).bind (hf (by omega))

/-- What is made of a readable value is readable. -/
theorem Readable.bind_nil {f : α → Reader β} (hr : Readable r e x) (hf : Readable (f x) [] y) :
    Readable (r >>= f) e y := by
  have h := hr.bind hf
  rwa [List.append_nil] at h

end Reads

/-- The reader and the encoder belong together: the reader reads what is encoded, and what it
returns has no longer encoding than the bytes that it was read from. -/
structure IsFormat {α : Type} (r : Reader α) (encode : α → List UInt8) : Prop where
  /-- An encoding is read. -/
  reads : ∀ x, Readable r (encode x) x
  /-- An encoding is the shortest one that is read. -/
  consumes : Consumes r [] encode

/-- One byte. -/
def Reader.u8 : Reader UInt8
  | [] => none
  | b :: bs => some (b, bs)

/-- A Boolean value. -/
def Reader.bool : Reader Bool := do
  let b ← Reader.u8
  if b = 0 then pure false else if b = 1 then pure true else failure

/-- A length. -/
def Reader.usize : Reader ℕ := Reader.number 64 id

/-- A byte vector. -/
def Reader.byteVec : Reader (List UInt8) := do
  let n ← Reader.usize
  let bs ← Reader.array n
  pure bs.toList

/-- A string: its bytes are UTF-8. -/
def Reader.utf8 : Reader String := do
  let bs ← Reader.byteVec
  StateT.lift (String.fromUTF8? ⟨bs.toArray⟩)

/-- So many elements. -/
def Reader.times {α : Type} (r : Reader α) : ℕ → Reader (List α)
  | 0 => pure []
  | n + 1 => do
    let x ← r
    let xs ← r.times n
    pure (x :: xs)

/-- A vector. -/
def Reader.vec {α : Type} (r : Reader α) : Reader (List α) := do
  let n ← Reader.usize
  r.times n

/-- A value of an enumeration: the number of the variant, and then the variant. -/
def Reader.enum {α : Type} (variants : ℕ → Reader α) : Reader α := do
  let n ← Reader.number 32 id
  variants n

/-- A Boolean value. -/
def bool (b : Bool) : List UInt8 := [if b then 1 else 0]

section IsFormat

variable {α : Type} {r : Reader α} {encode : α → List UInt8}

/-- Varints are the format of every type that is in bijection with the numbers of so many bits. -/
theorem isFormat_number {bits : ℕ} (hbits : bits ≠ 0) {ofNat : ℕ → α} {toNat : α → ℕ}
    (hlt : ∀ x, toNat x < 2^bits) (hleft : ∀ x, ofNat (toNat x) = x)
    (hright : ∀ n < 2^bits, toNat (ofNat n) = n) :
    IsFormat (Reader.number bits ofNat) fun x => varint (toNat x) := by
  constructor
  · intro x
    have h := reads_number hbits (hlt x) ofNat
    rw [hleft] at h
    exact h.readable
  · refine (consumes_limit consumes_varint _).bind fun n => ?_
    split_ifs with hn
    · refine Consumes.pure ?_
      rw [hright n hn, List.nil_append]
    · exact Consumes.failure

/-- The format of `u16`. -/
theorem isFormat_u16 : IsFormat (Reader.number 16 UInt16.ofNat) fun x => varint x.toNat :=
  isFormat_number (by omega) UInt16.toNat_lt (fun _ => UInt16.ofNat_toNat)
    fun _ => UInt16.toNat_ofNat_of_lt'

/-- The format of `u32`. -/
theorem isFormat_u32 : IsFormat (Reader.number 32 UInt32.ofNat) fun x => varint x.toNat :=
  isFormat_number (by omega) UInt32.toNat_lt (fun _ => UInt32.ofNat_toNat)
    fun _ => UInt32.toNat_ofNat_of_lt'

/-- The format of `u64`. -/
theorem isFormat_u64 : IsFormat (Reader.number 64 UInt64.ofNat) fun x => varint x.toNat :=
  isFormat_number (by omega) UInt64.toNat_lt (fun _ => UInt64.ofNat_toNat)
    fun _ => UInt64.toNat_ofNat_of_lt'

/-- The format of `i32`, in zigzag order. -/
theorem isFormat_i32 : IsFormat (Reader.number 32 unzigzag) fun x => varint (zigzag x) :=
  isFormat_number (by omega) zigzag_lt unzigzag_zigzag fun _ => zigzag_unzigzag

/-- The format of `u8`, which is the byte itself. -/
theorem isFormat_u8 : IsFormat Reader.u8 fun b => [b] := by
  constructor
  · intro b
    refine Reads.readable ⟨fun rest => rfl, fun part hpre hne => ?_⟩
    rcases List.prefix_cons_iff.1 hpre with rfl | ⟨t, rfl, ht⟩
    · rfl
    · rw [List.prefix_nil.1 ht] at hne
      exact absurd rfl hne
  · rintro (_ | ⟨b, bs⟩) x rest hread
    · cases hread
    · obtain ⟨rfl, rfl⟩ := Prod.mk.inj (Option.some.inj hread)
      show 1 + bs.length ≤ 0 + (bs.length + 1)
      omega

/-- The format of `bool`, a byte that is zero or one. -/
theorem isFormat_bool : IsFormat Reader.bool bool := by
  constructor
  · intro b
    refine (isFormat_u8.reads _).bind_nil ?_
    cases b <;> exact Readable.pure _
  · refine isFormat_u8.consumes.bind fun b => ?_
    split_ifs with hfalse htrue
    · exact Consumes.pure (by rw [hfalse]; rfl)
    · exact Consumes.pure (by rw [htrue]; rfl)
    · exact Consumes.failure

/-- The format of a byte array, which has no length in front. -/
theorem isFormat_array (n : ℕ) : IsFormat (Reader.array n) List.Vector.toList := by
  constructor
  · exact fun v => (reads_array v).readable
  · intro bs v rest hread
    unfold Reader.array at hread
    split_ifs at hread with hle
    obtain ⟨-, rfl⟩ := Prod.mk.inj (Option.some.inj hread)
    have hlength : v.toList.length = n := List.Vector.toList_length v
    rw [hlength, List.length_drop, List.length_nil]
    omega

/-- A length is read if it is one of something in memory. -/
theorem readable_usize {n : ℕ} (h : n < 2^64) : Readable Reader.usize (varint n) n :=
  (reads_number (by omega) h id).readable

/-- The varint of a number is the shortest that is read as the number. -/
theorem consumes_number (bits : ℕ) : Consumes (Reader.number bits id) [] varint := by
  refine (consumes_limit consumes_varint _).bind fun n => ?_
  split_ifs
  · exact Consumes.pure rfl
  · exact Consumes.failure

/-- The format of a byte vector, with its length in front. -/
theorem isFormat_byteVec : IsFormat Reader.byteVec bytes := by
  constructor
  · intro bs hfits
    have hlt : bs.length < 2^64 := by
      rw [length_bytes] at hfits
      omega
    revert hfits
    refine (readable_usize hlt).bind ?_
    exact (reads_array ⟨bs, rfl⟩).readable.bind_nil (Readable.pure bs)
  · refine (consumes_number 64).bind fun n => ?_
    refine (isFormat_array n).consumes.bind fun v => ?_
    refine Consumes.pure ?_
    rw [bytes, List.Vector.toList_length, List.nil_append]

/-- The format of a string, whose bytes are UTF-8. -/
theorem isFormat_utf8 : IsFormat Reader.utf8 string := by
  constructor
  · intro s
    have hutf8 : String.fromUTF8? ⟨s.toUTF8.data.toList.toArray⟩ = some s := by
      rw [Array.toArray_toList]
      exact dif_pos s.isValidUTF8
    refine (isFormat_byteVec.reads s.toUTF8.data.toList).bind_nil ?_
    rw [hutf8]
    exact Readable.pure s
  · refine isFormat_byteVec.consumes.bind fun bs => ?_
    refine Consumes.lift fun s hs => ?_
    -- the bytes of the string are those that were read
    have hbytes : s.toUTF8 = ⟨bs.toArray⟩ := by
      unfold String.fromUTF8? at hs
      split_ifs at hs
      rw [← Option.some.inj hs]
      rfl
    rw [string, hbytes, List.toList_toArray, List.nil_append]

/-- A varint has a byte. -/
theorem varint_ne_nil (n : ℕ) : varint n ≠ [] := by
  intro h
  have hlength := length_varint n
  rw [h, varintLength, List.length_nil] at hlength
  omega

/-- So many elements take at least one byte each. -/
theorem length_le_flatMap (hne : ∀ x, encode x ≠ []) (l : List α) :
    l.length ≤ (l.flatMap encode).length := by
  induction l with
  | nil => exact Nat.le_refl _
  | cons x l ih =>
    have hpos := List.length_pos_iff.2 (hne x)
    rw [List.flatMap_cons, List.length_append, List.length_cons]
    omega

/-- As many elements as there are can be read one after the other. -/
theorem readable_times (h : IsFormat r encode) (l : List α) :
    Readable (r.times l.length) (l.flatMap encode) l := by
  induction l with
  | nil => exact Readable.pure []
  | cons x l ih =>
    rw [List.flatMap_cons, List.length_cons, Reader.times]
    refine (h.reads x).bind ?_
    exact ih.bind_nil (Readable.pure _)

/-- So many elements are read, and each has taken its bytes. -/
theorem times_eq_some (h : IsFormat r encode) {n : ℕ} {bs rest : List UInt8} {l : List α}
    (hread : r.times n bs = some (l, rest)) :
    l.length = n ∧ (l.flatMap encode).length + rest.length ≤ bs.length := by
  induction n generalizing bs l with
  | zero =>
    obtain ⟨rfl, rfl⟩ := Prod.mk.inj (Option.some.inj hread)
    exact ⟨rfl, by simp⟩
  | succ n ih =>
    obtain ⟨⟨x, mid⟩, hx, hread⟩ := Option.bind_eq_some_iff.1 hread
    obtain ⟨⟨xs, mid'⟩, hxs, hread⟩ := Option.bind_eq_some_iff.1 hread
    obtain ⟨rfl, rfl⟩ := Prod.mk.inj (Option.some.inj hread)
    have htaken := h.consumes bs x mid hx
    obtain ⟨hlength, hrest⟩ := ih hxs
    rw [List.length_nil] at htaken
    rw [List.flatMap_cons, List.length_append, List.length_cons, hlength]
    exact ⟨rfl, by omega⟩

/-- The format of a vector, with its length in front. No element is empty, so a length that lies is
noticed at the end of the input. -/
theorem isFormat_vec (h : IsFormat r encode) (hne : ∀ x, encode x ≠ []) :
    IsFormat r.vec (seq encode) := by
  constructor
  · intro l hfits
    have hlt : l.length < 2^64 := by
      have hle := length_le_flatMap hne l
      rw [seq, List.length_append] at hfits
      omega
    revert hfits
    exact (readable_usize hlt).bind (readable_times h l)
  · refine (consumes_number 64).bind fun n => ?_
    intro bs l rest hread
    obtain ⟨rfl, hrest⟩ := times_eq_some h hread
    rw [seq, List.length_append, List.nil_append]
    omega

/-- Encodings one after the other are taken apart in one way only. -/
theorem IsFormat.flatMap_injective (h : IsFormat r encode) (hne : ∀ x, encode x ≠ [])
    {l l' : List α} (hfits : (l.flatMap encode).length < 2^64)
    (heq : l.flatMap encode = l'.flatMap encode) : l = l' := by
  induction l generalizing l' with
  | nil =>
    cases l' with
    | nil => rfl
    | cons y l' =>
      have hnil := (List.append_eq_nil_iff.1 heq.symm).1
      exact absurd hnil (hne y)
  | cons x l ih =>
    cases l' with
    | nil =>
      have hnil := (List.append_eq_nil_iff.1 heq).1
      exact absurd hnil (hne x)
    | cons y l' =>
      have hlen := congrArg List.length heq
      rw [List.flatMap_cons, List.length_append] at hfits
      rw [List.flatMap_cons, List.flatMap_cons, List.length_append, List.length_append] at hlen
      rw [List.flatMap_cons, List.flatMap_cons] at heq
      -- the reader takes the same first value from both
      have hx := (h.reads x (by omega)).whole (l.flatMap encode)
      have hy := (h.reads y (by omega)).whole (l'.flatMap encode)
      rw [heq, hy] at hx
      obtain ⟨rfl, hrest⟩ := Prod.mk.inj (Option.some.inj hx)
      rw [ih (by omega) hrest.symm]

/-- A variant of an enumeration is read. -/
theorem readable_enum {variants : ℕ → Reader α} {n : ℕ} (hn : n < 2^32) {e : List UInt8} {x : α}
    (h : Readable (variants n) e x) : Readable (Reader.enum variants) (varint n ++ e) x :=
  (reads_number (by omega) hn id).readable.bind h

/-- A variant without fields is read. -/
theorem readable_unit {variants : ℕ → Reader α} {n : ℕ} (hn : n < 2^32) {x : α}
    (h : variants n = pure x) : Readable (Reader.enum variants) (varint n) x := by
  refine (reads_number (by omega) hn id).readable.bind_nil ?_
  rw [id, h]
  exact Readable.pure x

/-- The variants of an enumeration take their bytes after those of the number. -/
theorem consumes_enum {variants : ℕ → Reader α}
    (h : ∀ n, Consumes (variants n) (varint n) encode) :
    Consumes (Reader.enum variants) [] encode :=
  (consumes_number 32).bind h

end IsFormat

end Postcard
