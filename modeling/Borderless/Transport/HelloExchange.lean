import Borderless.Lib.Simulation
import Borderless.Transport.HelloFrame

/-!
# Two handshakes on one stream

`handshake` of `crates/transport/src/connection.rs` at both ends of a TLS session, up to the checks of
the Hello: the side that dials writes before it reads, the side that listens reads before it writes.
Each direction of the stream holds a bounded number of bytes, so a write takes as many steps as the
reader makes room for. A side that has ended may drop its stream, and then the other side reads to
the end of what has arrived, and its writes fail.

`Stage` lists how far the two can be, with the bytes of each frame that are written, on the way and
read. `hello_exchange` says what follows: the two never wait for each other, both end after a bounded
number of steps, and what each of them ends with depends on the two names only.
-/

namespace Borderless.Transport

open Transition

/-- The sides of a TLS session. -/
inductive Role
  /-- The side that dials. -/
  | dialer
  /-- The side that listens. -/
  | listener
deriving DecidableEq

/-- The other side. -/
def Role.other : Role → Role
  | dialer => listener
  | listener => dialer

/-- What a side does. -/
inductive HelloTask
  /-- It is in `write_framed_raw`, and `rest` is not written yet; it may have read a Hello before. -/
  | writing (rest : List UInt8) (read : Option SignedHello)
  /-- It is in `read_hello`, and has read `buf`. -/
  | reading (buf : List UInt8)
  /-- It has the Hello of the other side, or has failed. -/
  | done (result : Except Error SignedHello)

/-- One side of the exchange. -/
structure HelloSide where
  /-- What it does. -/
  task : HelloTask
  /-- The bytes that are on the way to it. -/
  inbox : List UInt8
  /-- It has dropped its stream. -/
  dropped : Bool

/-- What happens at a side. -/
inductive HelloAct
  /-- It writes `k` bytes. -/
  | write (k : ℕ)
  /-- Its write fails. -/
  | writeFail (e : String)
  /-- It reads `k` bytes. -/
  | read (k : ℕ)
  /-- It finds the stream at its end. -/
  | readEof (e : String)
  /-- It has read a Hello, or a length that it refuses. -/
  | hello
  /-- It drops its stream. -/
  | drop

/-- How many bytes `read_hello` still wants after it has read `buf`. -/
def missingHello (buf : List UInt8) : Except Error ℕ :=
  if buf.length < 4 then .ok (4 - buf.length)
  else
    let len := u32FromLe (buf.take 4)
    if 16 * 1024 < len then .error (.codec s!"hello too large: {len}")
    else .ok (4 + len - buf.length)

/-- `borderless_core::decode` of a Hello that is read. -/
def decodeHello (c : Crates) (buf : List UInt8) : Except Error SignedHello :=
  (c.decodeHello (buf.drop 4)).mapError fun e => .codec s!"hello decode: {e}"

/-- The two calls of `handshake`, and how many bytes each direction of the stream holds. -/
structure HelloSetup where
  /-- The call of each side. -/
  call : Role → HandshakeCall
  /-- The capacity of a direction. -/
  capacity : ℕ

namespace HelloSetup

variable (c : Crates) (setup : HelloSetup)

/-- What a side does after it has written its Hello: that of the other side is read, or is now to be
read. -/
def written : Option SignedHello → HelloTask
  | some hello => .done (.ok hello)
  | none => .reading []

/-- What a side does when it has encoded its Hello. -/
def begin (call : HandshakeCall) : HelloTask :=
  match writtenHello c call with
  | .ok bytes => if call.isInitiator then .writing bytes none else .reading []
  | .error e => .done (.error e)

/-- What a side does when it has read a Hello, or failed to. -/
def afterRead (call : HandshakeCall) (result : Except Error SignedHello) : HelloTask :=
  match result with
  | .ok hello =>
    if call.isInitiator then .done (.ok hello)
    else
      match writtenHello c call with
      | .ok bytes => .writing bytes (some hello)
      | .error e => .done (.error e)
  | .error e => .done (.error e)

/-- What one side does: its task, the bytes that are left on the way to it, the bytes that it writes,
and whether it has dropped its stream. -/
def act (X : Role) (side peer : HelloSide) : HelloAct → Option (HelloSide × List UInt8)
  | .write k =>
    match side.task with
    | .writing rest read =>
      -- a write to a stream that the other side has dropped may still succeed
      if 0 < k ∧ k ≤ rest.length ∧ peer.inbox.length + k ≤ setup.capacity then
        let task := if k < rest.length then .writing (rest.drop k) read else written read
        some ({ side with task := task }, rest.take k)
      else none
    | _ => none
  | .writeFail e =>
    match side.task with
    | .writing _ _ =>
      if peer.dropped then some ({ side with task := .done (.error (.io e)) }, []) else none
    | _ => none
  | .read k =>
    match side.task with
    | .reading buf =>
      match missingHello buf with
      | .ok n =>
        if 0 < k ∧ k ≤ n ∧ k ≤ side.inbox.length then
          some ({ side with
            task := .reading (buf ++ side.inbox.take k), inbox := side.inbox.drop k }, [])
        else none
      | .error _ => none
    | _ => none
  | .readEof e =>
    match side.task with
    | .reading buf =>
      match missingHello buf with
      | .ok (_ + 1) =>
        if side.inbox = [] ∧ peer.dropped then
          some ({ side with task := .done (.error (.io e)) }, [])
        else none
      | _ => none
    | _ => none
  | .hello =>
    match side.task with
    | .reading buf =>
      match missingHello buf with
      | .ok 0 => some ({ side with task := afterRead c (setup.call X) (decodeHello c buf) }, [])
      | .ok (_ + 1) => none
      | .error e => some ({ side with task := .done (.error e) }, [])
    | _ => none
  | .drop =>
    match side.task with
    | .done _ => if side.dropped then none else some ({ side with dropped := true }, [])
    | _ => none

/-- The sides of the exchange at its start. -/
def start : Role → HelloSide := fun X => ⟨begin c (setup.call X), [], false⟩

/-- One step: what a side writes is on its way to the other. -/
def step (s : Role → HelloSide) (a : Role × HelloAct) : Option (Role → HelloSide) :=
  (setup.act c a.1 (s a.1) (s a.1.other) a.2).map fun (side, bytes) =>
    fun X => if X = a.1 then side else { s X with inbox := (s X).inbox ++ bytes }

end HelloSetup

/-- The exchange of Hellos. -/
def helloExchange (c : Crates) (setup : HelloSetup) : System (Role → HelloSide) (Role × HelloAct) where
  init s := s = setup.start c
  step := setup.step c

/-! ## What a side can do -/

section Acts

variable {c : Crates} {setup : HelloSetup} {X : Role} {side side' peer : HelloSide} {a : HelloAct}
  {bytes : List UInt8}

/-- A side that writes. -/
theorem act_of_writing {rest : List UInt8} {read : Option SignedHello}
    (htask : side.task = .writing rest read)
    (hact : setup.act c X side peer a = some (side', bytes)) :
    (∃ k, 0 < k ∧ k ≤ rest.length ∧ bytes = rest.take k ∧ side' = { side with
      task := if k < rest.length then .writing (rest.drop k) read else HelloSetup.written read }) ∨
    (∃ e, peer.dropped = true ∧ bytes = [] ∧
      side' = { side with task := .done (.error (.io e)) }) := by
  unfold HelloSetup.act at hact
  cases a with
  | write k =>
    simp only [htask] at hact
    split at hact
    · next hk =>
      obtain ⟨rfl, rfl⟩ := Prod.mk.inj (Option.some.inj hact)
      exact .inl ⟨k, hk.1, hk.2.1, rfl, rfl⟩
    · cases hact
  | writeFail e =>
    simp only [htask] at hact
    split_ifs at hact with hdropped
    obtain ⟨rfl, rfl⟩ := Prod.mk.inj (Option.some.inj hact)
    exact .inr ⟨e, hdropped, rfl, rfl⟩
  | read k | readEof e | hello | drop =>
    simp only [htask] at hact
    cases hact

/-- A side that reads. -/
theorem act_of_reading {buf : List UInt8} (htask : side.task = .reading buf)
    (hact : setup.act c X side peer a = some (side', bytes)) :
    bytes = [] ∧
    ((∃ k n, missingHello buf = .ok n ∧ 0 < k ∧ k ≤ n ∧ k ≤ side.inbox.length ∧ side' = { side with
      task := .reading (buf ++ side.inbox.take k), inbox := side.inbox.drop k }) ∨
    (∃ e n, missingHello buf = .ok (n + 1) ∧ side.inbox = [] ∧ peer.dropped = true ∧
      side' = { side with task := .done (.error (.io e)) }) ∨
    (missingHello buf = .ok 0 ∧ side' = { side with
      task := HelloSetup.afterRead c (setup.call X) (decodeHello c buf) }) ∨
    ∃ e, missingHello buf = .error e ∧ side' = { side with task := .done (.error e) }) := by
  unfold HelloSetup.act at hact
  cases a with
  | read k =>
    simp only [htask] at hact
    split at hact
    · next n hn =>
      split_ifs at hact with hk
      obtain ⟨rfl, rfl⟩ := Prod.mk.inj (Option.some.inj hact)
      exact ⟨rfl, .inl ⟨k, n, hn, hk.1, hk.2.1, hk.2.2, rfl⟩⟩
    · cases hact
  | readEof e =>
    simp only [htask] at hact
    split at hact
    · next n hn =>
      split_ifs at hact with hend
      obtain ⟨rfl, rfl⟩ := Prod.mk.inj (Option.some.inj hact)
      exact ⟨rfl, .inr (.inl ⟨e, n, hn, hend.1, hend.2, rfl⟩)⟩
    · cases hact
  | hello =>
    simp only [htask] at hact
    split at hact
    · next hn =>
      obtain ⟨rfl, rfl⟩ := Prod.mk.inj (Option.some.inj hact)
      exact ⟨rfl, .inr (.inr (.inl ⟨hn, rfl⟩))⟩
    · cases hact
    · next e he =>
      obtain ⟨rfl, rfl⟩ := Prod.mk.inj (Option.some.inj hact)
      exact ⟨rfl, .inr (.inr (.inr ⟨e, he, rfl⟩))⟩
  | write k | writeFail e | drop =>
    simp only [htask] at hact
    cases hact

/-- A side that has ended. -/
theorem act_of_done {result : Except Error SignedHello} (htask : side.task = .done result)
    (hact : setup.act c X side peer a = some (side', bytes)) :
    bytes = [] ∧ side.dropped = false ∧ side' = { side with dropped := true } := by
  unfold HelloSetup.act at hact
  cases a with
  | drop =>
    simp only [htask] at hact
    split_ifs at hact with hdropped
    obtain ⟨rfl, rfl⟩ := Prod.mk.inj (Option.some.inj hact)
    exact ⟨rfl, Bool.eq_false_iff.2 hdropped, by rw [htask]⟩
  | write k | writeFail e | read k | readEof e | hello =>
    simp only [htask] at hact
    cases hact

/-- A side that writes can write where there is room. -/
theorem can_write {rest : List UInt8} {read : Option SignedHello}
    (htask : side.task = .writing rest read) (hrest : rest ≠ [])
    (hroom : peer.inbox.length < setup.capacity) : ∃ a, (setup.act c X side peer a).isSome := by
  refine ⟨.write 1, ?_⟩
  have hpos : 1 ≤ rest.length := List.length_pos_iff.2 hrest
  simp only [HelloSetup.act, htask]
  rw [if_pos ⟨by omega, hpos, by omega⟩]
  rfl

/-- A side that reads can go on when something has arrived, or it wants nothing more. -/
theorem can_read {buf : List UInt8} (htask : side.task = .reading buf)
    (hready : side.inbox ≠ [] ∨ ∀ n, missingHello buf ≠ .ok (n + 1)) :
    ∃ a, (setup.act c X side peer a).isSome := by
  cases hn : missingHello buf with
  | error e => exact ⟨.hello, by simp [HelloSetup.act, htask, hn]⟩
  | ok n =>
    cases n with
    | zero => exact ⟨.hello, by simp [HelloSetup.act, htask, hn]⟩
    | succ n =>
      have hne := hready.resolve_right fun h => h n hn
      have hpos : 1 ≤ side.inbox.length := List.length_pos_iff.2 hne
      exact ⟨.read 1, by simp [HelloSetup.act, htask, hn, hpos]⟩

end Acts

/-! ## The start of a frame -/

section Prefix

variable {c : Crates} {call : HandshakeCall} {buf : List UInt8}

/-- The frame of our Hello. -/
def helloFrame (call : HandshakeCall) : List UInt8 := framed (ourHello call).postcard

/-- Our Hello is within the limit of `read_hello`. -/
def ShortHello (call : HandshakeCall) : Prop := (ourHello call).postcard.length ≤ 16 * 1024

/-- A framed Hello is not empty. -/
theorem helloFrame_ne_nil (call : HandshakeCall) : helloFrame call ≠ [] := by
  rw [← List.length_pos_iff, helloFrame, length_framed]
  omega

/-- What is read is no more than what the length says. -/
def Wanted (buf : List UInt8) : Prop := buf.length ≤ 4 + u32FromLe (buf.take 4)

/-- Nothing that was read is more than wanted when nothing was read. -/
theorem wanted_nil : Wanted [] := Nat.zero_le _

/-- Reading bytes that are wanted. -/
theorem Wanted.append (h : Wanted buf) {a : List UInt8} {n : ℕ} (hn : missingHello buf = .ok n)
    (hle : a.length ≤ n) : Wanted (buf ++ a) := by
  unfold Wanted at h ⊢
  unfold missingHello at hn
  dsimp only at hn
  rw [List.length_append]
  split_ifs at hn with hshort hlarge
  · have hn := Except.ok.inj hn
    omega
  · have hn := Except.ok.inj hn
    rw [List.take_append_of_le_length (by omega)]
    omega

/-- The length bytes of a frame that is read in part. -/
theorem u32FromLe_of_prefix {payload : List UInt8} (hpre : buf <+: framed payload)
    (hbuf : 4 ≤ buf.length) : u32FromLe (buf.take 4) = payload.length % 2^32 := by
  have htake : buf.take 4 = u32ToLe payload.length := by
    rw [List.prefix_iff_eq_take.1 hpre, List.take_take, min_eq_left hbuf]
    exact List.take_left' (length_u32ToLe _)
  rw [htake, u32FromLe_u32ToLe]

/-- How `read_hello` goes on after a part of our Hello: it wants bytes that are still to come; or it
has the whole of a Hello within the limit, and returns it; or it refuses a longer one. -/
theorem missingHello_cases (hc : c.Codec) (hp : c.IsPostcard) (hpre : buf <+: helloFrame call)
    (hwanted : Wanted buf) :
    ((∃ n, missingHello buf = .ok (n + 1)) ∧ buf ≠ helloFrame call) ∨
    (missingHello buf = .ok 0 ∧ ShortHello call ∧ buf = helloFrame call ∧
      decodeHello c buf = .ok (ourHello call)) ∨
    (¬ ShortHello call ∧ ((∃ e, missingHello buf = .error e) ∨
      missingHello buf = .ok 0 ∧ ∃ e, decodeHello c buf = .error e)) := by
  have hframe : (helloFrame call).length = 4 + (ourHello call).postcard.length := length_framed _
  unfold missingHello
  dsimp only
  split_ifs with hshort hlarge
  · refine .inl ⟨⟨3 - buf.length, by congr 1; omega⟩, fun heq => ?_⟩
    rw [heq] at hshort
    omega
  · have hlen := u32FromLe_of_prefix hpre (by omega)
    refine .inr (.inr ⟨fun hle => ?_, .inl ⟨_, rfl⟩⟩)
    unfold ShortHello at hle
    omega
  · have hlen := u32FromLe_of_prefix hpre (by omega)
    unfold Wanted at hwanted
    rcases Nat.eq_or_lt_of_le hwanted with hwhole | hpart
    · have hzero : 4 + u32FromLe (buf.take 4) - buf.length = 0 := by omega
      rw [hzero]
      by_cases hle : ShortHello call
      · have hle' := hle
        unfold ShortHello at hle'
        have heq : buf = helloFrame call := hpre.eq_of_length (by omega)
        refine .inr (.inl ⟨rfl, hle, heq, ?_⟩)
        have hdrop : buf.drop 4 = (ourHello call).postcard := by
          rw [heq]
          exact List.drop_left' (length_u32ToLe _)
        rw [decodeHello, hdrop, hc.round_trip _ _ (hp _)]
        rfl
      · -- the length bytes say less than the whole, so what is read of it is cut short
        refine .inr (.inr ⟨hle, .inr ⟨rfl, ?_⟩⟩)
        have hpart : buf.drop 4 <+: (ourHello call).postcard := by
          have h := hpre.drop 4
          rwa [helloFrame, framed, List.drop_left' (length_u32ToLe _)] at h
        have hne : buf.drop 4 ≠ (ourHello call).postcard := by
          intro heq
          have hlength := congrArg List.length heq
          rw [List.length_drop] at hlength
          unfold ShortHello at hle
          omega
        obtain ⟨e, he⟩ := hc.strict_prefix _ _ (hp _) _ hpart hne
        exact ⟨_, by rw [decodeHello, he]; rfl⟩
    · refine .inl ⟨⟨4 + u32FromLe (buf.take 4) - buf.length - 1, by congr 1; omega⟩, fun heq => ?_⟩
      rw [heq, hframe] at hpart
      rw [heq] at hlen
      omega

end Prefix

/-! ## How far the two sides are -/

/-- The states that the exchange of the calls `d` and `l` reaches. -/
inductive Stage (d l : HandshakeCall) : HelloSide → HelloSide → Prop
  /-- The dialer writes its Hello. -/
  | greeting {rest buf p : List UInt8} (hrest : rest ≠ []) (hframe : buf ++ p ++ rest = helloFrame d)
      (hbuf : Wanted buf) : Stage d l ⟨.writing rest none, [], false⟩ ⟨.reading buf, p, false⟩
  /-- The Hello of the dialer is on its way. -/
  | greeted {buf p : List UInt8} (hframe : buf ++ p = helloFrame d) (hbuf : Wanted buf) :
      Stage d l ⟨.reading [], [], false⟩ ⟨.reading buf, p, false⟩
  /-- The listener has the Hello of the dialer, and writes its own. -/
  | answering {rest buf p : List UInt8} (hshort : ShortHello d) (hrest : rest ≠ [])
      (hframe : buf ++ p ++ rest = helloFrame l) (hbuf : Wanted buf) :
      Stage d l ⟨.reading buf, p, false⟩ ⟨.writing rest (some (ourHello d)), [], false⟩
  /-- The Hello of the listener is on its way. -/
  | answered {buf p : List UInt8} {b : Bool} (hshort : ShortHello d)
      (hframe : buf ++ p = helloFrame l) (hbuf : Wanted buf) :
      Stage d l ⟨.reading buf, p, false⟩ ⟨.done (.ok (ourHello d)), [], b⟩
  /-- Both have the Hello of the other. -/
  | met {b b' : Bool} (hshort : ShortHello d) (hshort' : ShortHello l) :
      Stage d l ⟨.done (.ok (ourHello l)), [], b⟩ ⟨.done (.ok (ourHello d)), [], b'⟩
  /-- The dialer has refused the Hello of the listener. -/
  | unanswered {e : Error} {p : List UInt8} {b b' : Bool} {task : HelloTask} (hshort : ShortHello d)
      (hlong : ¬ ShortHello l) (htask : (∃ rest, rest ≠ [] ∧
        task = .writing rest (some (ourHello d))) ∨ ∃ result, task = .done result) :
      Stage d l ⟨.done (.error e), p, b⟩ ⟨task, [], b'⟩
  /-- The listener has refused the Hello of the dialer. -/
  | refused {e : Error} {p : List UInt8} {b b' : Bool} {task : HelloTask} (hlong : ¬ ShortHello d)
      (htask : (∃ rest, rest ≠ [] ∧ task = .writing rest none) ∨ task = .reading [] ∨
        ∃ e, task = .done (.error e)) :
      Stage d l ⟨task, [], b⟩ ⟨.done (.error e), p, b'⟩

/-- What a task has still to do, as a number that falls with each of its steps; `answer` is what it
has to do after it has read a Hello. -/
def HelloTask.todo (answer : ℕ) : HelloTask → ℕ
  | writing rest none => 2 * rest.length + 2
  | writing rest (some _) => 2 * rest.length + 1
  | reading _ => answer + 1
  | done _ => 0

/-- What a side has still to do: its task, what it has to read, and to drop its stream. -/
def HelloSide.todo (answer : ℕ) (side : HelloSide) : ℕ :=
  side.task.todo answer + side.inbox.length + if side.dropped then 0 else 1

/-- What the two sides have still to do. -/
def todo (l : HandshakeCall) (d' l' : HelloSide) : ℕ :=
  d'.todo 0 + l'.todo (2 * (helloFrame l).length + 1)

section Steps

variable {c : Crates} {setup : HelloSetup} {d l side peer : HelloSide} {a : HelloAct}
  {bytes : List UInt8}

/-- A prefix of a frame that is on its way. -/
theorem prefix_of_append {buf p rest frame : List UInt8} (h : buf ++ p ++ rest = frame) :
    buf <+: frame := by
  rw [← h, List.append_assoc]
  exact List.prefix_append _ _

/-- A step of the dialer. -/
theorem Stage.dialer_step (hc : c.Codec) (hp : c.IsPostcard)
    (hrole : (setup.call .dialer).isInitiator = true)
    (h : Stage (setup.call .dialer) (setup.call .listener) d l)
    (hact : setup.act c .dialer d l a = some (side, bytes)) :
    Stage (setup.call .dialer) (setup.call .listener) side { l with inbox := l.inbox ++ bytes } ∧
      todo (setup.call .listener) side { l with inbox := l.inbox ++ bytes } <
        todo (setup.call .listener) d l := by
  cases h with
  | @greeting rest buf p hrest hframe hbuf =>
    rcases act_of_writing rfl hact with ⟨k, hpos, hle, rfl, rfl⟩ | ⟨e, hdropped, -⟩
    · split_ifs with hlt
      · refine ⟨.greeting ?_ ?_ hbuf, ?_⟩
        · rw [← List.length_pos_iff, List.length_drop]
          omega
        · rw [← hframe, List.append_assoc, List.append_assoc, List.append_assoc,
            List.take_append_drop]
        · simp [todo, HelloSide.todo, HelloTask.todo]
          omega
      · have hk : k = rest.length := by omega
        rw [hk, List.take_length]
        refine ⟨.greeted ?_ hbuf, ?_⟩
        · rw [← hframe, List.append_assoc]
        · simp [todo, HelloSide.todo, HelloTask.todo, HelloSetup.written]
          omega
    · cases hdropped
  | @greeted buf p hframe hbuf =>
    -- nothing has arrived
    obtain ⟨-, ⟨k, n, -, hpos, -, hlen, -⟩ | ⟨e, n, -, -, hdropped, -⟩ | ⟨hn, -⟩ | ⟨e, he, -⟩⟩ :=
      act_of_reading rfl hact
    · rw [List.length_nil] at hlen
      omega
    · cases hdropped
    · cases hn
    · cases he
  | @answering rest buf p hshort hrest hframe hbuf =>
    have hcases := missingHello_cases hc hp (prefix_of_append hframe) hbuf
    obtain ⟨rfl, ⟨k, n, hn, hpos, hle, hlen, rfl⟩ | ⟨e, n, -, -, hdropped, -⟩ | ⟨hn, rfl⟩ |
      ⟨e, he, rfl⟩⟩ := act_of_reading rfl hact
    · have hlen' : k ≤ p.length := hlen
      refine ⟨.answering hshort hrest ?_ (hbuf.append hn ?_), ?_⟩
      · rw [← hframe, List.append_assoc buf, List.take_append_drop]
      · rw [List.length_take_of_le hlen]
        exact hle
      · simp [todo, HelloSide.todo, HelloTask.todo]
        omega
    · cases hdropped
    · rcases hcases with ⟨⟨n, hn'⟩, -⟩ | ⟨-, -, heq, -⟩ | ⟨hlong, ⟨e, he⟩ | ⟨-, e, he⟩⟩
      · cases hn.symm.trans hn'
      · -- the last bytes are not written yet
        rw [heq, List.append_assoc] at hframe
        have hnil := List.append_right_eq_self.1 hframe
        exact absurd (List.append_eq_nil_iff.1 hnil).2 hrest
      · cases hn.symm.trans he
      · rw [he]
        refine ⟨.unanswered hshort hlong (.inl ⟨rest, hrest, rfl⟩), ?_⟩
        simp [todo, HelloSide.todo, HelloTask.todo, HelloSetup.afterRead]
    · rcases hcases with ⟨⟨n, hn'⟩, -⟩ | ⟨hn, -⟩ | ⟨hlong, -⟩
      · cases he.symm.trans hn'
      · cases he.symm.trans hn
      · refine ⟨.unanswered hshort hlong (.inl ⟨rest, hrest, rfl⟩), ?_⟩
        simp [todo, HelloSide.todo, HelloTask.todo]
  | @answered buf p b hshort hframe hbuf =>
    have hpre : buf <+: helloFrame (setup.call .listener) := ⟨p, hframe⟩
    have hcases := missingHello_cases hc hp hpre hbuf
    obtain ⟨rfl, ⟨k, n, hn, hpos, hle, hlen, rfl⟩ | ⟨e, n, hn, hinbox, -, -⟩ | ⟨hn, rfl⟩ |
      ⟨e, he, rfl⟩⟩ := act_of_reading rfl hact
    · have hlen' : k ≤ p.length := hlen
      refine ⟨.answered hshort ?_ (hbuf.append hn ?_), ?_⟩
      · rw [← hframe, List.append_assoc, List.take_append_drop]
      · rw [List.length_take_of_le hlen]
        exact hle
      · simp [todo, HelloSide.todo, HelloTask.todo]
        omega
    · -- the stream does not end within the frame
      obtain rfl : p = [] := hinbox
      rw [List.append_nil] at hframe
      rcases hcases with ⟨-, hne⟩ | ⟨hn', -⟩ | ⟨-, ⟨e, he⟩ | ⟨hn', -⟩⟩
      · exact absurd hframe hne
      · cases hn.symm.trans hn'
      · cases hn.symm.trans he
      · cases hn.symm.trans hn'
    · rcases hcases with ⟨⟨n, hn'⟩, -⟩ | ⟨-, hshort', heq, hdecode⟩ | ⟨hlong, ⟨e, he⟩ | ⟨-, e, he⟩⟩
      · cases hn.symm.trans hn'
      · rw [heq] at hframe
        obtain rfl := List.append_right_eq_self.1 hframe
        rw [hdecode]
        simp only [HelloSetup.afterRead, hrole, if_true]
        refine ⟨.met hshort hshort', ?_⟩
        simp [todo, HelloSide.todo, HelloTask.todo]
      · cases hn.symm.trans he
      · rw [he]
        refine ⟨.unanswered hshort hlong (.inr ⟨_, rfl⟩), ?_⟩
        simp [todo, HelloSide.todo, HelloTask.todo, HelloSetup.afterRead]
    · rcases hcases with ⟨⟨n, hn'⟩, -⟩ | ⟨hn, -⟩ | ⟨hlong, -⟩
      · cases he.symm.trans hn'
      · cases he.symm.trans hn
      · refine ⟨.unanswered hshort hlong (.inr ⟨_, rfl⟩), ?_⟩
        simp [todo, HelloSide.todo, HelloTask.todo]
  | @met b b' hshort hshort' =>
    obtain ⟨rfl, hdropped, rfl⟩ := act_of_done rfl hact
    obtain rfl : b = false := hdropped
    refine ⟨.met hshort hshort', ?_⟩
    simp [todo, HelloSide.todo, HelloTask.todo]
  | @unanswered e p b b' task hshort hlong htask =>
    obtain ⟨rfl, hdropped, rfl⟩ := act_of_done rfl hact
    obtain rfl : b = false := hdropped
    refine ⟨.unanswered hshort hlong htask, ?_⟩
    simp [todo, HelloSide.todo, HelloTask.todo]
  | @refused e p b b' task hlong htask =>
    rcases htask with ⟨rest, hrest, rfl⟩ | rfl | ⟨e', rfl⟩
    · rcases act_of_writing rfl hact with ⟨k, hpos, hle, rfl, rfl⟩ | ⟨e', -, rfl, rfl⟩
      · split_ifs with hlt
        · refine ⟨.refused hlong (.inl ⟨rest.drop k, ?_, rfl⟩), ?_⟩
          · rw [ne_eq, List.drop_eq_nil_iff]
            omega
          · simp [todo, HelloSide.todo, HelloTask.todo]
            omega
        · refine ⟨.refused hlong (.inr (.inl rfl)), ?_⟩
          simp [todo, HelloSide.todo, HelloTask.todo, HelloSetup.written]
          omega
      · refine ⟨.refused hlong (.inr (.inr ⟨_, rfl⟩)), ?_⟩
        simp [todo, HelloSide.todo, HelloTask.todo]
    · obtain ⟨rfl, ⟨k, n, -, hpos, -, hlen, -⟩ | ⟨e', n, -, -, -, rfl⟩ | ⟨hn, -⟩ | ⟨e', he, -⟩⟩ :=
        act_of_reading rfl hact
      · rw [List.length_nil] at hlen
        omega
      · refine ⟨.refused hlong (.inr (.inr ⟨_, rfl⟩)), ?_⟩
        simp [todo, HelloSide.todo, HelloTask.todo]
      · cases hn
      · cases he
    · obtain ⟨rfl, hdropped, rfl⟩ := act_of_done rfl hact
      obtain rfl : b = false := hdropped
      refine ⟨.refused hlong (.inr (.inr ⟨e', rfl⟩)), ?_⟩
      simp [todo, HelloSide.todo, HelloTask.todo]

/-- A step of the listener. -/
theorem Stage.listener_step (hc : c.Codec) (hp : c.IsPostcard)
    (hrole : (setup.call .listener).isInitiator = false)
    (h : Stage (setup.call .dialer) (setup.call .listener) d l)
    (hact : setup.act c .listener l d a = some (side, bytes)) :
    Stage (setup.call .dialer) (setup.call .listener) { d with inbox := d.inbox ++ bytes } side ∧
      todo (setup.call .listener) { d with inbox := d.inbox ++ bytes } side <
        todo (setup.call .listener) d l := by
  cases h with
  | @greeting rest buf p hrest hframe hbuf =>
    have hcases := missingHello_cases hc hp (prefix_of_append hframe) hbuf
    obtain ⟨rfl, ⟨k, n, hn, hpos, hle, hlen, rfl⟩ | ⟨e, n, -, -, hdropped, -⟩ | ⟨hn, rfl⟩ |
      ⟨e, he, rfl⟩⟩ := act_of_reading rfl hact
    · have hlen' : k ≤ p.length := hlen
      refine ⟨.greeting hrest ?_ (hbuf.append hn ?_), ?_⟩
      · rw [← hframe, List.append_assoc buf, List.take_append_drop]
      · rw [List.length_take_of_le hlen]
        exact hle
      · simp [todo, HelloSide.todo, HelloTask.todo]
        omega
    · cases hdropped
    · rcases hcases with ⟨⟨n, hn'⟩, -⟩ | ⟨-, -, heq, -⟩ | ⟨hlong, ⟨e, he⟩ | ⟨-, e, he⟩⟩
      · cases hn.symm.trans hn'
      · -- the last bytes are not written yet
        rw [heq, List.append_assoc] at hframe
        have hnil := List.append_right_eq_self.1 hframe
        exact absurd (List.append_eq_nil_iff.1 hnil).2 hrest
      · cases hn.symm.trans he
      · rw [he]
        refine ⟨.refused hlong (.inl ⟨rest, hrest, rfl⟩), ?_⟩
        simp [todo, HelloSide.todo, HelloTask.todo, HelloSetup.afterRead]
    · rcases hcases with ⟨⟨n, hn'⟩, -⟩ | ⟨hn, -⟩ | ⟨hlong, -⟩
      · cases he.symm.trans hn'
      · cases he.symm.trans hn
      · refine ⟨.refused hlong (.inl ⟨rest, hrest, rfl⟩), ?_⟩
        simp [todo, HelloSide.todo, HelloTask.todo]
  | @greeted buf p hframe hbuf =>
    have hpre : buf <+: helloFrame (setup.call .dialer) := ⟨p, hframe⟩
    have hcases := missingHello_cases hc hp hpre hbuf
    obtain ⟨rfl, ⟨k, n, hn, hpos, hle, hlen, rfl⟩ | ⟨e, n, -, -, hdropped, -⟩ | ⟨hn, rfl⟩ |
      ⟨e, he, rfl⟩⟩ := act_of_reading rfl hact
    · have hlen' : k ≤ p.length := hlen
      refine ⟨.greeted ?_ (hbuf.append hn ?_), ?_⟩
      · rw [← hframe, List.append_assoc, List.take_append_drop]
      · rw [List.length_take_of_le hlen]
        exact hle
      · simp [todo, HelloSide.todo, HelloTask.todo]
        omega
    · cases hdropped
    · rcases hcases with ⟨⟨n, hn'⟩, -⟩ | ⟨-, hshort, heq, hdecode⟩ | ⟨hlong, ⟨e, he⟩ | ⟨-, e, he⟩⟩
      · cases hn.symm.trans hn'
      · -- the listener has the Hello, and goes on to write its own
        rw [heq] at hframe
        obtain rfl := List.append_right_eq_self.1 hframe
        rw [hdecode]
        simp only [HelloSetup.afterRead, hrole, Bool.false_eq_true, if_false, writtenHello_eq hp]
        refine ⟨.answering hshort (helloFrame_ne_nil _) rfl wanted_nil, ?_⟩
        simp [todo, HelloSide.todo, HelloTask.todo, helloFrame]
      · cases hn.symm.trans he
      · rw [he]
        refine ⟨.refused hlong (.inr (.inl rfl)), ?_⟩
        simp [todo, HelloSide.todo, HelloTask.todo, HelloSetup.afterRead]
    · rcases hcases with ⟨⟨n, hn'⟩, -⟩ | ⟨hn, -⟩ | ⟨hlong, -⟩
      · cases he.symm.trans hn'
      · cases he.symm.trans hn
      · refine ⟨.refused hlong (.inr (.inl rfl)), ?_⟩
        simp [todo, HelloSide.todo, HelloTask.todo]
  | @answering rest buf p hshort hrest hframe hbuf =>
    rcases act_of_writing rfl hact with ⟨k, hpos, hle, rfl, rfl⟩ | ⟨e, hdropped, -⟩
    · split_ifs with hlt
      · refine ⟨.answering hshort ?_ ?_ hbuf, ?_⟩
        · rw [← List.length_pos_iff, List.length_drop]
          omega
        · rw [← hframe, List.append_assoc, List.append_assoc, List.append_assoc,
            List.take_append_drop]
        · simp [todo, HelloSide.todo, HelloTask.todo]
          omega
      · have hk : k = rest.length := by omega
        rw [hk, List.take_length]
        refine ⟨.answered hshort ?_ hbuf, ?_⟩
        · rw [← hframe, List.append_assoc]
        · simp [todo, HelloSide.todo, HelloTask.todo, HelloSetup.written]
          omega
    · cases hdropped
  | @answered buf p b hshort hframe hbuf =>
    obtain ⟨rfl, hdropped, rfl⟩ := act_of_done rfl hact
    obtain rfl : b = false := hdropped
    rw [List.append_nil]
    refine ⟨.answered hshort hframe hbuf, ?_⟩
    simp [todo, HelloSide.todo, HelloTask.todo]
  | @met b b' hshort hshort' =>
    obtain ⟨rfl, hdropped, rfl⟩ := act_of_done rfl hact
    obtain rfl : b' = false := hdropped
    refine ⟨.met hshort hshort', ?_⟩
    simp [todo, HelloSide.todo, HelloTask.todo]
  | @unanswered e p b b' task hshort hlong htask =>
    rcases htask with ⟨rest, hrest, rfl⟩ | ⟨result, rfl⟩
    · rcases act_of_writing rfl hact with ⟨k, hpos, hle, rfl, rfl⟩ | ⟨e', -, rfl, rfl⟩
      · split_ifs with hlt
        · refine ⟨.unanswered hshort hlong (.inl ⟨rest.drop k, ?_, rfl⟩), ?_⟩
          · rw [ne_eq, List.drop_eq_nil_iff]
            omega
          · simp [todo, HelloSide.todo, HelloTask.todo]
            omega
        · refine ⟨.unanswered hshort hlong (.inr ⟨_, rfl⟩), ?_⟩
          simp [todo, HelloSide.todo, HelloTask.todo, HelloSetup.written]
          omega
      · refine ⟨.unanswered hshort hlong (.inr ⟨_, rfl⟩), ?_⟩
        simp [todo, HelloSide.todo, HelloTask.todo]
    · obtain ⟨rfl, hdropped, rfl⟩ := act_of_done rfl hact
      obtain rfl : b' = false := hdropped
      refine ⟨.unanswered hshort hlong (.inr ⟨result, rfl⟩), ?_⟩
      simp [todo, HelloSide.todo, HelloTask.todo]
  | @refused e p b b' task hlong htask =>
    obtain ⟨rfl, hdropped, rfl⟩ := act_of_done rfl hact
    obtain rfl : b' = false := hdropped
    refine ⟨.refused hlong htask, ?_⟩
    simp [todo, HelloSide.todo, HelloTask.todo]

/-- In every stage one side is done, or a side can go on. -/
theorem Stage.can_step (hc : c.Codec) (hp : c.IsPostcard) (hcapacity : 0 < setup.capacity)
    (h : Stage (setup.call .dialer) (setup.call .listener) d l) :
    ((∃ result, d.task = .done result) ∧ ∃ result, l.task = .done result) ∨
      (∃ a, (setup.act c .dialer d l a).isSome) ∨ ∃ a, (setup.act c .listener l d a).isSome := by
  cases h with
  | @greeting rest buf p hrest hframe hbuf =>
    by_cases hroom : p.length < setup.capacity
    · exact .inr (.inl (can_write rfl hrest hroom))
    · have hp : p ≠ [] := by
        rw [← List.length_pos_iff]
        omega
      exact .inr (.inr (can_read rfl (.inl hp)))
  | @greeted buf p hframe hbuf =>
    refine .inr (.inr (can_read rfl ?_))
    have hpre : buf <+: helloFrame (setup.call .dialer) := ⟨p, hframe⟩
    rcases missingHello_cases hc hp hpre hbuf with ⟨-, hne⟩ | ⟨hn, -⟩ | ⟨-, ⟨e, he⟩ | ⟨hn, -⟩⟩
    · refine .inl ?_
      rintro rfl
      rw [List.append_nil] at hframe
      exact hne hframe
    · exact .inr fun n hn' => by cases hn.symm.trans hn'
    · exact .inr fun n hn' => by cases he.symm.trans hn'
    · exact .inr fun n hn' => by cases hn.symm.trans hn'
  | @answering rest buf p hshort hrest hframe hbuf =>
    by_cases hroom : p.length < setup.capacity
    · exact .inr (.inr (can_write rfl hrest hroom))
    · have hp : p ≠ [] := by
        rw [← List.length_pos_iff]
        omega
      exact .inr (.inl (can_read rfl (.inl hp)))
  | @answered buf p b hshort hframe hbuf =>
    refine .inr (.inl (can_read rfl ?_))
    have hpre : buf <+: helloFrame (setup.call .listener) := ⟨p, hframe⟩
    rcases missingHello_cases hc hp hpre hbuf with ⟨-, hne⟩ | ⟨hn, -⟩ | ⟨-, ⟨e, he⟩ | ⟨hn, -⟩⟩
    · refine .inl ?_
      rintro rfl
      rw [List.append_nil] at hframe
      exact hne hframe
    · exact .inr fun n hn' => by cases hn.symm.trans hn'
    · exact .inr fun n hn' => by cases he.symm.trans hn'
    · exact .inr fun n hn' => by cases hn.symm.trans hn'
  | @met b b' hshort hshort' => exact .inl ⟨⟨_, rfl⟩, _, rfl⟩
  | @unanswered e p b b' task hshort hlong htask =>
    rcases htask with ⟨rest, hrest, rfl⟩ | ⟨result, rfl⟩
    · cases b with
      | true => exact .inr (.inr ⟨.writeFail "", by simp [HelloSetup.act]⟩)
      | false => exact .inr (.inl ⟨.drop, by simp [HelloSetup.act]⟩)
    · exact .inl ⟨⟨_, rfl⟩, _, rfl⟩
  | @refused e p b b' task hlong htask =>
    rcases htask with ⟨rest, hrest, rfl⟩ | rfl | ⟨e', rfl⟩
    · cases b' with
      | true => exact .inr (.inl ⟨.writeFail "", by simp [HelloSetup.act]⟩)
      | false => exact .inr (.inr ⟨.drop, by simp [HelloSetup.act]⟩)
    · cases b' with
      | true => exact .inr (.inl ⟨.readEof "", by simp [HelloSetup.act, missingHello]⟩)
      | false => exact .inr (.inr ⟨.drop, by simp [HelloSetup.act]⟩)
    · exact .inl ⟨⟨_, rfl⟩, _, rfl⟩

end Steps

/-! ## The exchange -/

section Exchange

variable {c : Crates} {setup : HelloSetup} {s t : Role → HelloSide} {a : Role × HelloAct}

/-- The stage of the two sides. -/
def AtStage (setup : HelloSetup) (s : Role → HelloSide) : Prop :=
  Stage (setup.call .dialer) (setup.call .listener) (s .dialer) (s .listener)

/-- The exchange begins with the Hello of the dialer. -/
theorem atStage_start (hp : c.IsPostcard) (hdial : (setup.call .dialer).isInitiator = true)
    (hlisten : (setup.call .listener).isInitiator = false) : AtStage setup (setup.start c) := by
  unfold AtStage HelloSetup.start HelloSetup.begin
  rw [writtenHello_eq hp, writtenHello_eq hp]
  simp only [hdial, hlisten, if_true, Bool.false_eq_true, if_false]
  exact .greeting (helloFrame_ne_nil _) rfl wanted_nil

/-- A step leads to a stage with less to do. -/
theorem atStage_step (hc : c.Codec) (hp : c.IsPostcard)
    (hdial : (setup.call .dialer).isInitiator = true)
    (hlisten : (setup.call .listener).isInitiator = false) (hs : AtStage setup s)
    (hstep : (helloExchange c setup).step s a = some t) :
    AtStage setup t ∧ todo (setup.call .listener) (t .dialer) (t .listener) <
      todo (setup.call .listener) (s .dialer) (s .listener) := by
  obtain ⟨⟨side, bytes⟩, hact, rfl⟩ := Option.map_eq_some_iff.1 hstep
  obtain ⟨X, act⟩ := a
  cases X with
  | dialer => exact Stage.dialer_step hc hp hdial hs hact
  | listener => exact Stage.listener_step hc hp hlisten hs hact

/-- What one side can do is a step. -/
theorem isSome_step {X : Role} {act : HelloAct} (h : (setup.act c X (s X) (s X.other) act).isSome) :
    ((helloExchange c setup).step s (X, act)).isSome := by
  show (Option.map _ _).isSome
  rwa [Option.isSome_map]

end Exchange

/-- The side has ended the exchange. -/
def HelloSide.IsDone (side : HelloSide) : Prop := ∃ result, side.task = .done result

/-- What both sides have ended with. -/
theorem Stage.results {d l : HandshakeCall} {side side' : HelloSide} (h : Stage d l side side')
    (hside : side.IsDone) (hside' : side'.IsDone) :
    (ShortHello d ∧ ShortHello l ∧ side.task = .done (.ok (ourHello l)) ∧
      side'.task = .done (.ok (ourHello d))) ∨
    (ShortHello d ∧ ¬ ShortHello l ∧ ∃ e, side.task = .done (.error e)) ∨
    (¬ ShortHello d ∧ (∃ e, side.task = .done (.error e)) ∧ ∃ e, side'.task = .done (.error e)) := by
  cases h with
  | greeting | greeted | answering | answered =>
    obtain ⟨result, hresult⟩ := hside
    cases hresult
  | met hshort hshort' => exact .inl ⟨hshort, hshort', rfl, rfl⟩
  | @unanswered e p b b' task hshort hlong htask => exact .inr (.inl ⟨hshort, hlong, e, rfl⟩)
  | @refused e p b b' task hlong htask =>
    rcases htask with ⟨rest, -, rfl⟩ | rfl | ⟨e', rfl⟩
    · obtain ⟨result, hresult⟩ := hside
      cases hresult
    · obtain ⟨result, hresult⟩ := hside
      cases hresult
    · exact .inr (.inr ⟨hlong, ⟨e', rfl⟩, e, rfl⟩)

/-- A side reads the Hello of the other from a stream that holds it. -/
theorem exchangeHellos_helloFrame {c : Crates} (hc : c.Codec) (hp : c.IsPostcard)
    {call peer : HandshakeCall} (hshort : ShortHello peer) (readError : String) :
    exchangeHellos c { call with stream := ⟨helloFrame peer, readError, none⟩ } =
      .ok (ourHello peer, []) := by
  have hread : readHello c ⟨helloFrame peer, readError, none⟩ = .ok (ourHello peer, []) :=
    readHello_of_length_le hc hp (List.append_nil _).symm hshort
  unfold exchangeHellos
  rw [hp]
  simp only [Except.mapError, writeFramedRaw, hread]
  cases call.isInitiator <;> rfl

/-- Two handshakes on one stream. Whatever the stream holds at a time, the side that dials and the
side that listens never wait for each other; both end after a bounded number of steps; and then both
have the Hello of the other if both names have at most 16284 bytes, as `exchangeHellos` returns it from
a stream with that Hello; with a longer name of the dialer both fail, and with a longer name of the
listener the dialer does. -/
theorem hello_exchange (c : Crates) (hc : c.Codec) (hp : c.IsPostcard) (setup : HelloSetup)
    (hdial : (setup.call .dialer).isInitiator = true)
    (hlisten : (setup.call .listener).isInitiator = false) (hcapacity : 0 < setup.capacity) :
    (∀ s, (helloExchange c setup).Reachable s → (∃ X, ¬ (s X).IsDone) →
      ∃ a, ((helloExchange c setup).step s a).isSome) ∧
    (∀ as s, (helloExchange c setup).run (setup.start c) as = some s → as.length ≤
      2 * ((helloFrame (setup.call .dialer)).length + (helloFrame (setup.call .listener)).length) +
        6) ∧
    ∀ s, (helloExchange c setup).Reachable s → (∀ X, (s X).IsDone) →
      ((∀ X, (setup.call X).name.utf8ByteSize ≤ 16284) → ∀ X,
        (s X).task = .done (.ok (ourHello (setup.call X.other))) ∧
        ∀ readError, exchangeHellos c { setup.call X with
          stream := ⟨helloFrame (setup.call X.other), readError, none⟩ } =
            .ok (ourHello (setup.call X.other), [])) ∧
      (16284 < (setup.call .dialer).name.utf8ByteSize → ∀ X, ∃ e, (s X).task = .done (.error e)) ∧
      (16284 < (setup.call .listener).name.utf8ByteSize →
        ∃ e, (s .dialer).task = .done (.error e)) := by
  have hstage : ∀ s, (helloExchange c setup).Reachable s → AtStage setup s := by
    intro s hs
    refine hs.invariant ?_ fun s a t hs _ hstep => (atStage_step hc hp hdial hlisten hs hstep).1
    rintro _ rfl
    exact atStage_start hp hdial hlisten
  have hname : ∀ X, ShortHello (setup.call X) ↔ (setup.call X).name.utf8ByteSize ≤ 16284 :=
    fun X => length_postcard_ourHello_le_iff (setup.call X)
  refine ⟨fun s hs hrunning => ?_, fun as s hrun => ?_, fun s hs hdone => ⟨fun hshort X => ?_,
    fun hlong X => ?_, fun hlong => ?_⟩⟩
  · rcases (hstage s hs).can_step hc hp hcapacity with ⟨hd, hl⟩ | ⟨a, ha⟩ | ⟨a, ha⟩
    · obtain ⟨X, hX⟩ := hrunning
      cases X with
      | dialer => exact absurd hd hX
      | listener => exact absurd hl hX
    · exact ⟨(.dialer, a), isSome_step ha⟩
    · exact ⟨(.listener, a), isSome_step ha⟩
  · have hlength := System.length_add_le (I := AtStage setup)
      (fun s a t hs hstep => atStage_step hc hp hdial hlisten hs hstep)
      (atStage_start hp hdial hlisten) hrun
    have htodo : todo (setup.call .listener) (setup.start c .dialer) (setup.start c .listener) =
        2 * ((helloFrame (setup.call .dialer)).length +
          (helloFrame (setup.call .listener)).length) + 6 := by
      simp only [todo, HelloSide.todo, HelloTask.todo, HelloSetup.start, HelloSetup.begin,
        writtenHello_eq hp, hdial, hlisten, if_true, Bool.false_eq_true, if_false, List.length_nil]
      unfold helloFrame
      omega
    omega
  · rcases (hstage s hs).results (hdone .dialer) (hdone .listener) with
      ⟨-, -, hd, hl⟩ | ⟨-, hlong, -⟩ | ⟨hlong, -⟩
    · refine ⟨?_, exchangeHellos_helloFrame hc hp ((hname X.other).2 (hshort X.other))⟩
      cases X with
      | dialer => exact hd
      | listener => exact hl
    · exact absurd ((hname .listener).2 (hshort .listener)) hlong
    · exact absurd ((hname .dialer).2 (hshort .dialer)) hlong
  · have hlong' := mt (hname .dialer).1 (not_le.2 hlong)
    rcases (hstage s hs).results (hdone .dialer) (hdone .listener) with
      ⟨hshort, -⟩ | ⟨hshort, -⟩ | ⟨-, hd, hl⟩
    · exact absurd hshort hlong'
    · exact absurd hshort hlong'
    · cases X with
      | dialer => exact hd
      | listener => exact hl
  · have hlong' := mt (hname .listener).1 (not_le.2 hlong)
    rcases (hstage s hs).results (hdone .dialer) (hdone .listener) with
      ⟨-, hshort, -⟩ | ⟨-, -, hd⟩ | ⟨-, hd, -⟩
    · exact absurd hshort hlong'
    · exact hd
    · exact hd

/-- `alice` dials `bob`, over a stream of 16 bytes each way. -/
def namedSetup : HelloSetup where
  call
    | .dialer => namedCall "alice"
    | .listener => { namedCall "bob" with isInitiator := false }
  capacity := 16

/-- The two can take a step at the start. -/
theorem hello_exchange_namedSetup :
    ∃ a, ((helloExchange sampleCrates namedSetup).step (namedSetup.start sampleCrates) a).isSome := by
  refine (hello_exchange sampleCrates sampleCrates_codec isPostcard_sampleCrates namedSetup rfl
    rfl (by decide)).1 _ (.init rfl) ⟨.dialer, ?_⟩
  rintro ⟨result, hresult⟩
  cases hresult

end Borderless.Transport
