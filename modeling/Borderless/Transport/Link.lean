import Borderless.Lib.Transition
import Borderless.Transport.Connection

/-!
# One direction of a session

Any number of tasks call `send_frame` on a `Connection`, the transport delivers the bytes that they
write, in order and in arbitrary pieces, and the peer calls `recv_frame` again and again. The
transport may be cut at any time; what is not delivered then is lost. A call of `send_frame` checks
its frame before it waits for the lock, and the order in which the calls get the lock is recorded
(`Link.order`), in agreement with the calls (`Link.CallsInOrder`).
-/

namespace Borderless.Transport

open FrameStream Transition

/-- A frame that passes the checks of `send_frame`, with its payload. -/
structure Sent (c : FrameCodec) where
  /-- The frame. -/
  frame : WireFrame
  /-- Its payload. -/
  payload : Payload c
  /-- The payload is the one that `send_frame` computes. -/
  checked : c.payload frame = .ok payload

/-- How far a call of `send_frame` is. -/
inductive SendStage (c : FrameCodec)
  /-- It has returned an error before it came to the lock. -/
  | refused (e : Error)
  /-- It waits for the lock. -/
  | waiting (sent : Sent c)
  /-- It holds the lock. -/
  | holding (sent : Sent c)
  /-- It has held the lock, and has returned. -/
  | returned (sent : Sent c) (result : Except Error Unit)

/-- A call of `send_frame`. -/
structure SendCall (c : FrameCodec) where
  /-- The argument. -/
  frame : WireFrame
  /-- How far it is. -/
  stage : SendStage c

/-- The mutex of the connection, seen from `send_frame`. -/
inductive SendLock
  /-- No task holds it. -/
  | free
  /-- A call of `recv_frame` on the same connection holds it. -/
  | receiving
  /-- The call `i` of `send_frame` holds it, and has not written `rest` yet. -/
  | held (i : ℕ) (rest : List UInt8)
deriving DecidableEq

/-- The bytes of the current frame that are not written yet. -/
def SendLock.unsent : SendLock → List UInt8
  | .held _ rest => rest
  | .free | .receiving => []

/-- One direction of a session. -/
structure Link (c : FrameCodec) where
  /-- All calls of `send_frame` so far. -/
  calls : List (SendCall c)
  /-- The mutex of the sending connection. -/
  lock : SendLock
  /-- The calls that have got the lock, in order, with what they send. -/
  order : List (ℕ × Sent c)
  /-- The bytes that are written and not delivered. -/
  wire : List UInt8
  /-- Whether the transport is cut. -/
  isCut : Bool
  /-- All bytes that were delivered so far. -/
  arrived : List UInt8
  /-- The bytes that are delivered and not read. -/
  inbox : List UInt8
  /-- What the peer's current call of `recv_frame` has read. -/
  buf : List UInt8
  /-- What the peer's calls of `recv_frame` have returned. -/
  results : List (Except Error WireFrame)

/-- The steps of a link. -/
inductive LinkLabel
  /-- A task calls `send_frame`. -/
  | call (frame : WireFrame)
  /-- The call `i` gets the lock. -/
  | lock (i : ℕ)
  /-- The holder of the lock writes `n` bytes. -/
  | write (n : ℕ)
  /-- The holder of the lock has written everything, and returns. -/
  | finish
  /-- The holder of the lock fails to write, and returns. -/
  | fail (e : String)
  /-- A call of `recv_frame` on the sending connection gets the lock. -/
  | recvLock
  /-- A call of `recv_frame` on the sending connection gives the lock back. -/
  | recvUnlock
  /-- The transport delivers `n` bytes. -/
  | deliver (n : ℕ)
  /-- The transport is cut. -/
  | cut
  /-- The peer reads `n` bytes. -/
  | read (n : ℕ)
  /-- The peer has read a whole frame, and returns. -/
  | recv
  /-- The peer fails to read a frame, and returns. -/
  | recvFail (e : String)

namespace Link

variable {c : FrameCodec}

/-- A link on which nothing has been sent. -/
def start (c : FrameCodec) : Link c := ⟨[], .free, [], [], false, [], [], [], []⟩

/-- The stage of a call that has done its checks. -/
def checkedStage (c : FrameCodec) (frame : WireFrame) : SendStage c :=
  match h : c.payload frame with
  | .ok payload => .waiting ⟨frame, payload, h⟩
  | .error e => .refused e

/-- The call `i` gives the lock back and returns. -/
def release (s : Link c) (i : ℕ) (result : Except Error Unit) : Option (Link c) :=
  match s.calls[i]? with
  | some ⟨frame, .holding sent⟩ =>
    some { s with lock := .free, calls := s.calls.set i ⟨frame, .returned sent result⟩ }
  | _ => none

/-- One step. -/
def step (s : Link c) : LinkLabel → Option (Link c)
  | .call frame => some { s with calls := s.calls ++ [⟨frame, checkedStage c frame⟩] }
  | .lock i =>
    match s.lock, s.calls[i]? with
    | .free, some ⟨frame, .waiting sent⟩ =>
      some { s with
        lock := .held i (framed sent.payload.bytes)
        order := s.order ++ [(i, sent)]
        calls := s.calls.set i ⟨frame, .holding sent⟩ }
    | _, _ => none
  | .write n =>
    match s.lock with
    | .held i rest =>
      if 0 < n ∧ n ≤ rest.length then
        -- what is written after a cut is lost
        some { s with
          lock := .held i (rest.drop n)
          wire := if s.isCut then s.wire else s.wire ++ rest.take n }
      else none
    | _ => none
  | .finish =>
    match s.lock with
    | .held i [] => s.release i (.ok ())
    | _ => none
  | .fail e =>
    match s.isCut, s.lock with
    | true, .held i _ => s.release i (.error (.io e))
    | _, _ => none
  | .recvLock =>
    match s.lock with
    | .free => some { s with lock := .receiving }
    | _ => none
  | .recvUnlock =>
    match s.lock with
    | .receiving => some { s with lock := .free }
    | _ => none
  | .deliver n =>
    if s.isCut = false ∧ 0 < n ∧ n ≤ s.wire.length then
      some { s with
        wire := s.wire.drop n
        arrived := s.arrived ++ s.wire.take n
        inbox := s.inbox ++ s.wire.take n }
    else none
  | .cut => some { s with isCut := true, wire := [] }
  | .read n =>
    match missing s.buf with
    | .ok m =>
      if 0 < n ∧ n ≤ m ∧ n ≤ s.inbox.length then
        some { s with buf := s.buf ++ s.inbox.take n, inbox := s.inbox.drop n }
      else none
    | .error _ => none
  | .recv =>
    match missing s.buf with
    | .ok 0 => some { s with buf := [], results := s.results ++ [c.received s.buf] }
    | _ => none
  | .recvFail e =>
    match missing s.buf with
    | .ok 0 => none
    | .ok (_ + 1) =>
      -- `read_exact` fails at the end of the stream only
      if s.isCut = true ∧ s.inbox = [] then
        some { s with buf := [], results := s.results ++ [.error (.io e)] }
      else none
    | .error e' => some { s with buf := [], results := s.results ++ [.error e'] }

end Link

/-- One direction of a session, from its start. -/
def link (c : FrameCodec) : System (Link c) LinkLabel where
  init s := s = Link.start c
  step := Link.step

/-! ## The calls and the lock -/

/-- What a call sends, if it has got the lock. -/
def SendStage.acquired {c : FrameCodec} : SendStage c → Option (Sent c)
  | .holding x | .returned x _ => some x
  | .refused _ | .waiting _ => none

/-- The outcome of the checks of a call of `send_frame` with `frame`. -/
def SendStage.Checked {c : FrameCodec} (frame : WireFrame) : SendStage c → Prop
  | .refused e => c.payload frame = .error e
  | .waiting x | .holding x | .returned x _ => x.frame = frame

namespace Link

variable {c : FrameCodec} {s t : Link c}

/-! ## The steps -/

section Steps

variable {i n : ℕ} {e : String}

/-- The holder of the lock returns. -/
theorem release_eq_some {result : Except Error Unit} (h : s.release i result = some t) :
    ∃ frame x, s.calls[i]? = some ⟨frame, .holding x⟩ ∧
      t = { s with lock := .free, calls := s.calls.set i ⟨frame, .returned x result⟩ } := by
  unfold release at h
  split at h
  · next frame x hi => exact ⟨frame, x, hi, (Option.some.inj h).symm⟩
  · cases h

/-- A call gets the lock. -/
theorem step_lock (h : s.step (.lock i) = some t) :
    ∃ frame x, s.lock = .free ∧ s.calls[i]? = some ⟨frame, .waiting x⟩ ∧
      t = { s with
        lock := .held i (framed x.payload.bytes)
        order := s.order ++ [(i, x)]
        calls := s.calls.set i ⟨frame, .holding x⟩ } := by
  simp only [step] at h
  split at h
  · next frame x hlock hi => exact ⟨frame, x, hlock, hi, (Option.some.inj h).symm⟩
  · cases h

/-- The holder of the lock writes. -/
theorem step_write (h : s.step (.write n) = some t) :
    ∃ i rest, s.lock = .held i rest ∧
      t = { s with
        lock := .held i (rest.drop n)
        wire := if s.isCut then s.wire else s.wire ++ rest.take n } := by
  simp only [step] at h
  split at h
  · next i rest hlock =>
    by_cases hn : 0 < n ∧ n ≤ rest.length
    · rw [if_pos hn] at h
      exact ⟨i, rest, hlock, (Option.some.inj h).symm⟩
    · rw [if_neg hn] at h
      cases h
  · cases h

/-- The holder of the lock has written everything. -/
theorem step_finish (h : s.step .finish = some t) :
    ∃ i, s.lock = .held i [] ∧ s.release i (.ok ()) = some t := by
  simp only [step] at h
  split at h
  · next i hlock => exact ⟨i, hlock, h⟩
  · cases h

/-- The holder of the lock fails to write. -/
theorem step_fail (h : s.step (.fail e) = some t) :
    ∃ i rest, s.isCut = true ∧ s.lock = .held i rest ∧ s.release i (.error (.io e)) = some t := by
  simp only [step] at h
  split at h
  · next i rest hcut hlock => exact ⟨i, rest, hcut, hlock, h⟩
  · cases h

/-- The reader of the same side gets the lock. -/
theorem step_recvLock (h : s.step .recvLock = some t) :
    s.lock = .free ∧ t = { s with lock := .receiving } := by
  simp only [step] at h
  split at h
  · next hlock => exact ⟨hlock, (Option.some.inj h).symm⟩
  · cases h

/-- The reader of the same side gives the lock back. -/
theorem step_recvUnlock (h : s.step .recvUnlock = some t) :
    s.lock = .receiving ∧ t = { s with lock := .free } := by
  simp only [step] at h
  split at h
  · next hlock => exact ⟨hlock, (Option.some.inj h).symm⟩
  · cases h

/-- The transport delivers. -/
theorem step_deliver (h : s.step (.deliver n) = some t) :
    s.isCut = false ∧ t = { s with
      wire := s.wire.drop n
      arrived := s.arrived ++ s.wire.take n
      inbox := s.inbox ++ s.wire.take n } := by
  simp only [step] at h
  split_ifs at h with hn
  exact ⟨hn.1, (Option.some.inj h).symm⟩

/-- The peer reads. -/
theorem step_read (h : s.step (.read n) = some t) :
    ∃ m, missing s.buf = .ok m ∧ (0 < n ∧ n ≤ m ∧ n ≤ s.inbox.length) ∧
      t = { s with buf := s.buf ++ s.inbox.take n, inbox := s.inbox.drop n } := by
  simp only [step] at h
  split at h
  · next m hm =>
    split_ifs at h with hn
    exact ⟨m, hm, hn, (Option.some.inj h).symm⟩
  · cases h

/-- The peer returns a frame. -/
theorem step_recv (h : s.step .recv = some t) :
    missing s.buf = .ok 0 ∧
      t = { s with buf := [], results := s.results ++ [c.received s.buf] } := by
  simp only [step] at h
  split at h
  · next hm => exact ⟨hm, (Option.some.inj h).symm⟩
  · cases h

/-- The peer fails, at the end of a cut stream or over a length. -/
theorem step_recvFail (h : s.step (.recvFail e) = some t) :
    (∃ m, missing s.buf = .ok (m + 1) ∧ s.isCut = true ∧ s.inbox = [] ∧
      t = { s with buf := [], results := s.results ++ [.error (.io e)] }) ∨
    ∃ e', missing s.buf = .error e' ∧
      t = { s with buf := [], results := s.results ++ [.error e'] } := by
  simp only [step] at h
  split at h
  · cases h
  · next m hm =>
    split_ifs at h with hend
    exact .inl ⟨m, hm, hend.1, hend.2, (Option.some.inj h).symm⟩
  · next e' hm => exact .inr ⟨e', hm, (Option.some.inj h).symm⟩

end Steps

/-! ## The calls in the order of the lock -/

/-- The calls agree with the order of the lock. -/
structure CallsInOrder (s : Link c) : Prop where
  /-- No call gets the lock twice. -/
  nodup : (s.order.map Prod.fst).Nodup
  /-- The calls that have got the lock are recorded with what they send. -/
  mem_order : ∀ i x, (i, x) ∈ s.order ↔
    ∃ call, s.calls[i]? = some call ∧ call.stage.acquired = some x
  /-- A call that holds the lock does so in the state of the lock. -/
  holder : ∀ i call x, s.calls[i]? = some call → call.stage = .holding x →
    ∃ rest, s.lock = .held i rest
  /-- Every call has done its checks. -/
  checked : ∀ call ∈ s.calls, call.stage.Checked call.frame
  /-- As long as nothing is cut no call fails that has got the lock. -/
  succeeds : s.isCut = false → ∀ call ∈ s.calls, ∀ x result,
    call.stage = .returned x result → result = .ok ()

/-- What the calls and the order do not see leaves them in agreement. -/
theorem CallsInOrder.congr (h : s.CallsInOrder) (hcalls : t.calls = s.calls)
    (horder : t.order = s.order)
    (hlock : ∀ i, (∃ rest, s.lock = .held i rest) → ∃ rest, t.lock = .held i rest)
    (hcut : t.isCut = false → s.isCut = false) : t.CallsInOrder := by
  constructor
  · rw [horder]
    exact h.nodup
  · rw [horder, hcalls]
    exact h.mem_order
  · rw [hcalls]
    exact fun i call x hi hx => hlock i (h.holder i call x hi hx)
  · rw [hcalls]
    exact h.checked
  · rw [hcalls]
    exact fun hnot => h.succeeds (hcut hnot)

/-- The checks of a new call decide on its stage. -/
theorem checkedStage_spec (c : FrameCodec) (frame : WireFrame) :
    (checkedStage c frame).Checked frame ∧ (checkedStage c frame).acquired = none ∧
      ∀ x result, checkedStage c frame ≠ .returned x result := by
  unfold checkedStage
  split
  · next payload h =>
    have hframe : (Sent.mk frame payload h).frame = frame := rfl
    exact ⟨hframe, rfl, by simp⟩
  · next e he => exact ⟨he, rfl, by simp⟩

/-- A new call has not got the lock. -/
theorem callsInOrder_call (h : s.CallsInOrder) (frame : WireFrame) :
    CallsInOrder { s with calls := s.calls ++ [⟨frame, checkedStage c frame⟩] } := by
  obtain ⟨hchecked, hacquired, hreturned⟩ := checkedStage_spec c frame
  -- a call is an old one or the new one, which has not had the lock
  have hget : ∀ (i : ℕ) (call : SendCall c),
      (s.calls ++ [(⟨frame, checkedStage c frame⟩ : SendCall c)])[i]? = some call →
        s.calls[i]? = some call ∨ call = ⟨frame, checkedStage c frame⟩ := by
    intro i call hi
    rw [List.getElem?_append] at hi
    split_ifs at hi with hlt
    · exact .inl hi
    · exact .inr (List.mem_singleton.1 (List.mem_of_getElem? hi))
  constructor
  · exact h.nodup
  · intro i x
    rw [h.mem_order]
    constructor
    · rintro ⟨call, hcall, hx⟩
      have hlt := (List.getElem?_eq_some_iff.1 hcall).1
      exact ⟨call, (List.getElem?_append_left hlt).trans hcall, hx⟩
    · rintro ⟨call, hcall, hx⟩
      rcases hget i call hcall with hold | rfl
      · exact ⟨call, hold, hx⟩
      · cases hacquired.symm.trans hx
  · intro i call x hcall hx
    rcases hget i call hcall with hold | rfl
    · exact h.holder i call x hold hx
    · have hx' : (checkedStage c frame).acquired = some x := by
        rw [show checkedStage c frame = .holding x from hx]
        rfl
      cases hacquired.symm.trans hx'
  · intro call hcall
    rcases List.mem_append.1 hcall with hold | hnew
    · exact h.checked call hold
    · obtain rfl := List.mem_singleton.1 hnew
      exact hchecked
  · intro hnot call hcall x result hx
    rcases List.mem_append.1 hcall with hold | hnew
    · exact h.succeeds hnot call hold x result hx
    · obtain rfl := List.mem_singleton.1 hnew
      exact absurd hx (hreturned x result)

/-- A call that waits may get the lock when it is free. -/
theorem callsInOrder_lock (h : s.CallsInOrder) (hlock : s.lock = .free) {i : ℕ}
    {frame : WireFrame} {x : Sent c} (hi : s.calls[i]? = some ⟨frame, .waiting x⟩) :
    CallsInOrder { s with
      lock := .held i (framed x.payload.bytes)
      order := s.order ++ [(i, x)]
      calls := s.calls.set i ⟨frame, .holding x⟩ } := by
  have hlt := (List.getElem?_eq_some_iff.1 hi).1
  -- the call waits, so it is not in the order yet
  have hnot : ∀ y, (i, y) ∉ s.order := by
    intro y hy
    obtain ⟨call, hcall, hacquired⟩ := (h.mem_order i y).1 hy
    obtain rfl := Option.some.inj (hi.symm.trans hcall)
    cases hacquired
  constructor
  · show ((s.order ++ [(i, x)]).map Prod.fst).Nodup
    rw [List.map_append, List.nodup_append]
    refine ⟨h.nodup, List.nodup_singleton _, ?_⟩
    rintro j hj k hk rfl
    obtain ⟨p, hp, hpj⟩ := List.mem_map.1 hj
    obtain rfl : j = i := List.mem_singleton.1 hk
    obtain ⟨k, y⟩ := p
    obtain rfl : k = j := hpj
    exact hnot y hp
  · intro j y
    show (j, y) ∈ s.order ++ [(i, x)] ↔
      ∃ call, (s.calls.set i ⟨frame, .holding x⟩)[j]? = some call ∧ call.stage.acquired = some y
    rw [List.getElem?_set]
    by_cases hij : i = j
    · subst hij
      simp [hlt, hnot y, SendStage.acquired, eq_comm]
    · simp [hij, h.mem_order j y, Ne.symm hij]
  · intro j call y hcall hy
    change (s.calls.set i ⟨frame, .holding x⟩)[j]? = some call at hcall
    rw [List.getElem?_set] at hcall
    split_ifs at hcall with hij
    · subst hij
      exact ⟨_, rfl⟩
    · obtain ⟨rest, hrest⟩ := h.holder j call y hcall hy
      rw [hlock] at hrest
      cases hrest
  · intro call hcall
    rcases List.mem_or_eq_of_mem_set hcall with hold | rfl
    · exact h.checked call hold
    · have hchecked := h.checked _ (List.mem_of_getElem? hi)
      exact hchecked
  · intro hcut call hcall y result hy
    rcases List.mem_or_eq_of_mem_set hcall with hold | rfl
    · exact h.succeeds hcut call hold y result hy
    · cases hy

/-- The holder of the lock may return. -/
theorem callsInOrder_release (h : s.CallsInOrder) {i : ℕ} {rest : List UInt8}
    (hlock : s.lock = .held i rest) {result : Except Error Unit}
    (hresult : s.isCut = false → result = .ok ()) (hstep : s.release i result = some t) :
    t.CallsInOrder := by
  obtain ⟨frame, x, hi, rfl⟩ := release_eq_some hstep
  have hlt := (List.getElem?_eq_some_iff.1 hi).1
  constructor
  · exact h.nodup
  · intro j y
    show (j, y) ∈ s.order ↔ ∃ call, (s.calls.set i ⟨frame, .returned x result⟩)[j]? = some call ∧
      call.stage.acquired = some y
    rw [h.mem_order, List.getElem?_set]
    by_cases hij : i = j
    · -- the holder was recorded when it got the lock
      subst hij
      rw [hi, if_pos rfl, if_pos hlt]
      simp [SendStage.acquired]
    · rw [if_neg hij]
  · intro j call y hcall hy
    change (s.calls.set i ⟨frame, .returned x result⟩)[j]? = some call at hcall
    rw [List.getElem?_set] at hcall
    split_ifs at hcall with hij
    · obtain rfl := Option.some.inj hcall
      cases hy
    · -- another call that holds the lock
      obtain ⟨rest', hrest'⟩ := h.holder j call y hcall hy
      rw [hlock] at hrest'
      exact absurd (SendLock.held.inj hrest').1 hij
  · intro call hcall
    rcases List.mem_or_eq_of_mem_set hcall with hold | rfl
    · exact h.checked call hold
    · have hchecked := h.checked _ (List.mem_of_getElem? hi)
      exact hchecked
  · intro hcut call hcall y result' hy
    rcases List.mem_or_eq_of_mem_set hcall with hold | rfl
    · exact h.succeeds hcut call hold y result' hy
    · rw [← (SendStage.returned.inj hy).2]
      exact hresult hcut

/-- Every step keeps the calls and the order in agreement. -/
theorem callsInOrder_step (h : s.CallsInOrder) {a : LinkLabel} (hstep : s.step a = some t) :
    t.CallsInOrder := by
  cases a with
  | call frame =>
    obtain rfl := Option.some.inj hstep
    exact callsInOrder_call h frame
  | lock i =>
    obtain ⟨frame, x, hlock, hi, rfl⟩ := step_lock hstep
    exact callsInOrder_lock h hlock hi
  | write n =>
    obtain ⟨i, rest, hlock, rfl⟩ := step_write hstep
    refine h.congr rfl rfl (fun j hj => ?_) id
    rw [hlock] at hj
    obtain ⟨rest', hj⟩ := hj
    -- the holder stays the same
    obtain ⟨rfl, -⟩ := SendLock.held.inj hj
    exact ⟨_, rfl⟩
  | finish =>
    obtain ⟨i, hlock, hrelease⟩ := step_finish hstep
    exact callsInOrder_release h hlock (fun _ => rfl) hrelease
  | fail e =>
    obtain ⟨i, rest, hcut, hlock, hrelease⟩ := step_fail hstep
    refine callsInOrder_release h hlock (fun hnot => ?_) hrelease
    cases hcut.symm.trans hnot
  | recvLock =>
    obtain ⟨hlock, rfl⟩ := step_recvLock hstep
    refine h.congr rfl rfl (fun j hj => ?_) id
    rw [hlock] at hj
    obtain ⟨rest, hj⟩ := hj
    cases hj
  | recvUnlock =>
    obtain ⟨hlock, rfl⟩ := step_recvUnlock hstep
    refine h.congr rfl rfl (fun j hj => ?_) id
    rw [hlock] at hj
    obtain ⟨rest, hj⟩ := hj
    cases hj
  | deliver n =>
    obtain ⟨-, rfl⟩ := step_deliver hstep
    exact h.congr rfl rfl (fun _ => id) id
  | cut =>
    obtain rfl := Option.some.inj hstep
    exact h.congr rfl rfl (fun _ => id) nofun
  | read n =>
    obtain ⟨m, -, -, rfl⟩ := step_read hstep
    exact h.congr rfl rfl (fun _ => id) id
  | recv =>
    obtain ⟨-, rfl⟩ := step_recv hstep
    exact h.congr rfl rfl (fun _ => id) id
  | recvFail e =>
    rcases step_recvFail hstep with ⟨m, -, -, -, rfl⟩ | ⟨e', -, rfl⟩
    · exact h.congr rfl rfl (fun _ => id) id
    · exact h.congr rfl rfl (fun _ => id) id

end Link

end Borderless.Transport
