import Borderless.Input.X11
import Borderless.Lib.Truncation
import Mathlib.Data.Rat.Floor
import Mathlib.Tactic.Positivity
import Mathlib.Tactic.Ring

/-!
# The capture on X11

`dispatch_event` of `crates/pal-x11/src/capture.rs`: what the capture sends for each raw event of
the XInput extension. The values of a motion are fixed-point numbers, of which `mask_iter` finds the
axes in a bit mask.

`fp3232_to_i32` takes the integral part, which rounds down. `rawMotion_unbiased_iff` compares this
with rounding toward zero, over whole sequences of motions and over motions that are taken back.
-/

namespace Borderless.Input

open LastWrite Truncation

/-! ## Axes and values -/

/-- `xinput::Fp3232`, a fixed-point number. -/
structure Fp3232 where
  /-- The integral part. -/
  integral : Int32
  /-- The fraction, in units of `2^-32`. -/
  frac : UInt32
deriving DecidableEq

/-- `fp3232_to_i32`: the integral part, whatever the fraction. -/
def fp3232ToI32 (v : Fp3232) : Int32 := v.integral

/-- `word & (1 << bit) != 0`: the bit is set in the word. -/
def bitSet (word : UInt32) (bit : ℕ) : Bool := word &&& (1 : UInt32) <<< UInt32.ofNat bit != 0

/-- The variables of `mask_iter`. -/
structure MaskState where
  /-- `value_idx`. -/
  valueIdx : ℕ
  /-- `out`. -/
  out : List (ℕ × Fp3232)

/-- The body of the inner loop of `mask_iter`, for an axis whose bit is set or not. -/
def MaskState.visit (values : List Fp3232) (s : MaskState) (axis : ℕ) (set : Bool) : MaskState :=
  if set then
    { valueIdx := s.valueIdx + 1
      out := match values[s.valueIdx]? with
        | some v => s.out ++ [(axis, v)]
        | none => s.out }
  else s

/-- `mask_iter`: each axis whose bit is set, with the next value, as long as there are values. -/
def maskIter (mask : List UInt32) (values : List Fp3232) : List (ℕ × Fp3232) :=
  (mask.zipIdx.foldl
    (fun s p => (List.range 32).foldl
      (fun s bit => s.visit values (p.2 * 32 + bit) (bitSet p.1 bit)) s)
    (⟨0, []⟩ : MaskState)).out

/-- The axes of a mask, each with whether its bit is set. -/
def maskBits (mask : List UInt32) : List (ℕ × Bool) :=
  mask.zipIdx.flatMap fun p => (List.range 32).map fun bit => (p.2 * 32 + bit, bitSet p.1 bit)

/-- The axes whose bits are set. -/
def maskAxes (mask : List UInt32) : List ℕ := ((maskBits mask).filter Prod.snd).map Prod.fst

/-- The loop pairs the axes whose bits are set with the values that are left. -/
theorem foldl_visit (values : List Fp3232) (axes : List (ℕ × Bool)) (s : MaskState) :
    (axes.foldl (fun s p => s.visit values p.1 p.2) s).out =
      s.out ++ ((axes.filter Prod.snd).map Prod.fst).zip (values.drop s.valueIdx) := by
  -- on the axes, for every index into the values and every output so far
  induction axes generalizing s with
  | nil => simp
  | cons p axes ih =>
    obtain ⟨axis, set⟩ := p
    rw [List.foldl_cons, ih]
    cases set with
    | false => rfl
    | true =>
      rw [List.filter_cons_of_pos rfl, List.map_cons]
      cases hvalue : values[s.valueIdx]? with
      | none =>
        -- the values have run out
        have hdrop : values.drop s.valueIdx = [] :=
          List.drop_eq_nil_iff.2 (List.getElem?_eq_none_iff.1 hvalue)
        have hdrop' : values.drop (s.valueIdx + 1) = [] :=
          List.drop_eq_nil_iff.2 (Nat.le_succ_of_le (List.getElem?_eq_none_iff.1 hvalue))
        simp [MaskState.visit, hvalue, hdrop, hdrop']
      | some v =>
        obtain ⟨hlt, rfl⟩ := List.getElem?_eq_some_iff.1 hvalue
        rw [List.drop_eq_getElem_cons hlt, List.zip_cons_cons]
        simp [MaskState.visit, hvalue]

/-- `mask_iter` pairs the axes of the mask with the values, in their order. -/
theorem maskIter_eq_zip (mask : List UInt32) (values : List Fp3232) :
    maskIter mask values = (maskAxes mask).zip values := by
  have hbits : maskIter mask values =
      ((maskBits mask).foldl (fun (s : MaskState) p => s.visit values p.1 p.2) ⟨0, []⟩).out := by
    unfold maskIter maskBits
    rw [List.foldl_flatMap]
    simp only [List.foldl_map]
  rw [hbits, foldl_visit, List.drop_zero, List.nil_append]
  rfl

/-! ## Raw events -/

/-- The fields of a raw motion that the capture reads. -/
structure RawMotion where
  /-- `valuator_mask`. -/
  valuatorMask : List UInt32
  /-- `axisvalues_raw`. -/
  axisvaluesRaw : List Fp3232
deriving DecidableEq

/-- The raw events, with the details of keys and buttons. -/
inductive RawEvent
  | keyPress (detail : UInt32)
  | keyRelease (detail : UInt32)
  | buttonPress (detail : UInt32)
  | buttonRelease (detail : UInt32)
  | motion (ev : RawMotion)
deriving DecidableEq

/-- `handle_button`: the first three buttons, the two extra ones and the presses of the wheel have a
meaning, and all others keep the low byte of their number. -/
def handleButton (detail : UInt32) (pressed : Bool) : InputEvent :=
  if detail = 1 then .mouseButton .left pressed
  else if detail = 2 then .mouseButton .middle pressed
  else if detail = 3 then .mouseButton .right pressed
  else if detail = 4 ∧ pressed then .scroll 0 (-1)
  else if detail = 5 ∧ pressed then .scroll 0 1
  else if detail = 6 ∧ pressed then .scroll (-1) 0
  else if detail = 7 ∧ pressed then .scroll 1 0
  else if detail = 8 then .mouseButton .back pressed
  else if detail = 9 then .mouseButton .forward pressed
  -- a release of a wheel button comes here, too
  else .mouseButton (.other detail.toUInt8) pressed

/-- The loop of `dispatch_event` over the axes of a motion. -/
def motionDelta (ev : RawMotion) : Int32 × Int32 :=
  (maskIter ev.valuatorMask ev.axisvaluesRaw).foldl
    (fun d p =>
      if p.1 = 0 then (fp3232ToI32 p.2, d.2)
      else if p.1 = 1 then (d.1, fp3232ToI32 p.2)
      else d)
    (0, 0)

/-- The branch of `dispatch_event` for a motion. -/
def dispatchRawMotion (now : UInt64) (ev : RawMotion) : Option InputEvent :=
  let d := motionDelta ev
  if d.1 ≠ 0 ∨ d.2 ≠ 0 then some (.mouseMove d.1 d.2 now) else none

/-- `dispatch_event`: the event for the sink, if any, and the modifiers after it. -/
def dispatchEvent (map : KeyMap) (now : UInt64) (event : RawEvent) (modifiers : ModifierMask) :
    Option InputEvent × ModifierMask :=
  match event with
  | .keyPress detail => handleKey map detail true modifiers
  | .keyRelease detail => handleKey map detail false modifiers
  | .buttonPress detail => (some (handleButton detail true), modifiers)
  | .buttonRelease detail => (some (handleButton detail false), modifiers)
  | .motion ev => (dispatchRawMotion now ev, modifiers)

/-- What the loop of the capture sends for a sequence of events, each with the time at which it is
dispatched. -/
def captured (map : KeyMap) : ModifierMask → List (UInt64 × RawEvent) → List InputEvent
  | _, [] => []
  | modifiers, (now, event) :: events =>
    let result := dispatchEvent map now event modifiers
    result.1.toList ++ captured map result.2 events

/-! ## The numbers of a motion -/

namespace Fp3232

variable {v : Fp3232}

/-- The number that it stands for. -/
def value (v : Fp3232) : ℚ := v.integral.toInt + v.frac.toNat / 2^32

/-- If the number is negative it is whole. -/
def NegativeWhole (v : Fp3232) : Prop := v.integral < 0 → v.frac = 0

instance : DecidablePred NegativeWhole := fun _ => inferInstanceAs (Decidable (_ → _))

/-- The fraction of a number is not negative. -/
theorem fraction_nonneg (v : Fp3232) : (0 : ℚ) ≤ v.frac.toNat / 2^32 := by positivity

/-- The fraction of a number is below one. -/
theorem fraction_lt_one (v : Fp3232) : (v.frac.toNat : ℚ) / 2^32 < 1 := by
  have hlt : (v.frac.toNat : ℚ) < 2^32 := by exact_mod_cast v.frac.toNat_lt
  rwa [div_lt_one (by positivity)]

/-- The integral part is the number rounded down. -/
theorem floor_value (v : Fp3232) : ⌊v.value⌋ = (fp3232ToI32 v).toInt := by
  unfold value
  rw [Int.floor_intCast_add, Int.floor_eq_zero_iff.2 ⟨v.fraction_nonneg, v.fraction_lt_one⟩,
    add_zero]
  rfl

/-- A number is whole when its fraction is zero. -/
theorem fract_value_eq_zero_iff : Int.fract v.value = 0 ↔ v.frac = 0 := by
  have hfract : Int.fract v.value = v.frac.toNat / 2^32 := by
    rw [Int.fract, floor_value]
    unfold value fp3232ToI32
    ring
  rw [hfract, div_eq_zero_iff, or_iff_left (by positivity), Nat.cast_eq_zero]
  exact ⟨fun h => UInt32.toNat_inj.1 h, fun h => by rw [h]; rfl⟩

/-- A number is negative when its integral part is. -/
theorem value_neg_iff : v.value < 0 ↔ v.integral < 0 := by
  have hzero : (0 : Int32).toInt = 0 := by decide
  have hfloor := Int.floor_lt (z := 0) (a := v.value)
  rw [Int.cast_zero] at hfloor
  rw [← hfloor, floor_value, Int32.lt_iff_toInt_lt, hzero]
  rfl

end Fp3232

/-- The relative motion of an event. -/
def relativeMotion : InputEvent → ℤ × ℤ
  | .mouseMove dx dy _ => (dx.toInt, dy.toInt)
  | _ => (0, 0)

namespace RawMotion

variable {ev ev' : RawMotion}

/-- What a motion has for an axis. -/
def axis (ev : RawMotion) (a : ℕ) : Option Fp3232 :=
  lastWrite a (maskIter ev.valuatorMask ev.axisvaluesRaw)

/-- The exact motion on an axis. -/
def value (ev : RawMotion) (a : ℕ) : ℚ := ((ev.axis a).map Fp3232.value).getD 0

/-- The exact motion on the axes X and Y, rounded down. -/
def floors (ev : RawMotion) : ℤ × ℤ := (⌊ev.value 0⌋, ⌊ev.value 1⌋)

/-- The numbers of the axes X and Y are whole where they are negative. -/
def NegativeWhole (ev : RawMotion) : Prop := ∀ a < 2, ∀ v ∈ ev.axis a, v.NegativeWhole

/-- A motion has the negated numbers of another one. -/
structure Negates (ev ev' : RawMotion) : Prop where
  /-- On the same axes. -/
  mask : ev'.valuatorMask = ev.valuatorMask
  /-- The numbers. -/
  values : ev'.axisvaluesRaw.map Fp3232.value = ev.axisvaluesRaw.map fun v => -v.value

/-- A motion is whole where it is negative when this holds of the values of its axes. -/
theorem negativeWhole_iff :
    ev.NegativeWhole ↔ ∀ a < 2, ev.value a < 0 → Int.fract (ev.value a) = 0 := by
  refine forall₂_congr fun a _ => ?_
  unfold value
  cases ev.axis a with
  | none => simp
  | some v =>
    show (∀ w ∈ some v, w.NegativeWhole) ↔ (v.value < 0 → Int.fract v.value = 0)
    rw [Fp3232.value_neg_iff, Fp3232.fract_value_eq_zero_iff]
    exact ⟨fun h => h v rfl, fun h w hw => Option.some.inj hw ▸ h⟩

/-- The axes of the negated motion have the negated numbers. -/
theorem Negates.value_eq (h : ev.Negates ev') (a : ℕ) : ev'.value a = -ev.value a := by
  have hmap : ∀ (f : Fp3232 → ℚ) (ev : RawMotion), (ev.axis a).map f =
      lastWrite a ((maskAxes ev.valuatorMask).zip (ev.axisvaluesRaw.map f)) := by
    intro f ev
    unfold axis
    rw [maskIter_eq_zip, ← lastWrite_map, List.zip_map_right]
    rfl
  have hneg : (ev'.axis a).map Fp3232.value = (ev.axis a).map fun v => -v.value := by
    rw [hmap, hmap, h.mask, h.values]
  unfold value
  rw [hneg]
  cases ev.axis a with
  | none => simp
  | some v => rfl

end RawMotion

/-- The loop over the axes leaves the last value of each. -/
theorem foldl_motionDelta (l : List (ℕ × Fp3232)) (d : Int32 × Int32) :
    l.foldl (fun d p =>
      if p.1 = 0 then (fp3232ToI32 p.2, d.2)
      else if p.1 = 1 then (d.1, fp3232ToI32 p.2)
      else d) d =
    (((lastWrite 0 l).map fp3232ToI32).getD d.1, ((lastWrite 1 l).map fp3232ToI32).getD d.2) := by
  induction l generalizing d with
  | nil => rfl
  | cons p l ih =>
    obtain ⟨a, v⟩ := p
    rw [List.foldl_cons, ih, lastWrite, lastWrite]
    rcases a with _ | _ | a
    · cases lastWrite 0 l <;> simp
    · cases lastWrite 1 l <;> simp
    · simp

section Motion

variable {ev : RawMotion} {evs evs' : List (UInt64 × RawMotion)} {map : KeyMap} {m : ModifierMask}

/-- The motion of the axes, rounded down. -/
theorem toInt_motionDelta (ev : RawMotion) :
    ((motionDelta ev).1.toInt, (motionDelta ev).2.toInt) = ev.floors := by
  have hfloor : ∀ a, (((ev.axis a).map fp3232ToI32).getD 0).toInt = ⌊ev.value a⌋ := by
    intro a
    unfold RawMotion.value
    cases ev.axis a with
    | none => simp
    | some v => exact v.floor_value.symm
  unfold motionDelta
  rw [foldl_motionDelta]
  exact Prod.ext (hfloor 0) (hfloor 1)

/-- A motion is sent unless it rounds down to zero. -/
theorem delta_dispatchRawMotion (now : UInt64) (ev : RawMotion) :
    (dispatchRawMotion now ev).map relativeMotion =
      if ev.floors = 0 then none else some ev.floors := by
  have hzero : ∀ d : Int32, d = 0 ↔ d.toInt = 0 := fun d => by
    rw [← Int32.toInt_inj]
    rfl
  -- the test of the source, in terms of the numbers
  have hfloors : ev.floors = 0 ↔ (motionDelta ev).1 = 0 ∧ (motionDelta ev).2 = 0 := by
    rw [← toInt_motionDelta, ← Prod.mk_zero_zero, Prod.mk.injEq, hzero, hzero]
  unfold dispatchRawMotion
  dsimp only
  split_ifs with hmoved hstill hstill
  · exact absurd (hfloors.1 hstill) (not_and_or.2 hmoved)
  · exact congrArg some (toInt_motionDelta ev)
  · rfl
  · exact absurd (hfloors.2 (not_or.1 hmoved |>.imp not_not.1 not_not.1)) hstill

/-- A sequence of motions. -/
def motions (evs : List (UInt64 × RawMotion)) : List (UInt64 × RawEvent) :=
  evs.map fun p => (p.1, .motion p.2)

/-- What is sent for a sequence of motions. -/
theorem delta_captured (evs : List (UInt64 × RawMotion)) :
    (captured map m (motions evs)).map relativeMotion =
      (evs.map fun p => p.2.floors).filter (· ≠ 0) := by
  induction evs with
  | nil => rfl
  | cons p evs ih =>
    obtain ⟨now, ev⟩ := p
    -- a motion that rounds down to zero is filtered out on both sides
    have hone : ((dispatchRawMotion now ev).toList).map relativeMotion =
        [ev.floors].filter (· ≠ 0) := by
      rw [← Option.toList_map, delta_dispatchRawMotion]
      split_ifs with hzero <;> simp [hzero]
    show ((dispatchRawMotion now ev).toList ++ captured map m (motions evs)).map _ = _
    rw [List.map_append, hone, ih, ← List.filter_append]
    rfl

/-- The total of what is sent for a sequence of motions. -/
theorem sum_delta_captured (evs : List (UInt64 × RawMotion)) :
    ((captured map m (motions evs)).map relativeMotion).sum =
      ((evs.map fun p => ⌊p.2.value 0⌋).sum, (evs.map fun p => ⌊p.2.value 1⌋).sum) := by
  rw [delta_captured]
  induction evs with
  | nil => rfl
  | cons p evs ih =>
    have hfloors : ((p :: evs).map fun p => p.2.floors).filter (· ≠ 0) =
        [p.2.floors].filter (· ≠ 0) ++ (evs.map fun p => p.2.floors).filter (· ≠ 0) :=
      List.filter_append [p.2.floors] _
    have hone : ([p.2.floors].filter (· ≠ 0)).sum = p.2.floors := by
      by_cases hzero : p.2.floors = 0 <;> simp [hzero]
    rw [hfloors, List.sum_append, hone, ih]
    rfl

end Motion

/-! ## Bias -/

/-- Each motion of a sequence for which an event is sent is rounded toward zero. -/
def RoundsTowardZero (map : KeyMap) (m : ModifierMask) (evs : List (UInt64 × RawMotion)) : Prop :=
  ∀ p ∈ evs, ∀ e ∈ (dispatchEvent map p.1 (.motion p.2) m).1,
    relativeMotion e = (truncate (p.2.value 0), truncate (p.2.value 1))

/-- The motions of a sequence are the negated motions of another one. -/
def NegatesAll (evs evs' : List (UInt64 × RawMotion)) : Prop :=
  List.Forall₂ (fun p p' => p.2.Negates p'.2) evs evs'

section Bias

variable {evs evs' : List (UInt64 × RawMotion)} {map : KeyMap} {m : ModifierMask}

/-- Negated motions are rounded down from the negated values. -/
theorem NegatesAll.floor_eq (h : NegatesAll evs evs') (a : ℕ) :
    (evs'.map fun p => ⌊p.2.value a⌋) = (evs.map fun p => p.2.value a).map fun x => ⌊-x⌋ := by
  induction h with
  | nil => rfl
  | cons hp _ ih => rw [List.map_cons, List.map_cons, List.map_cons, ih, hp.value_eq]

/-- Both of two sequences are whole where they are negative precisely when the first is whole. -/
theorem NegatesAll.negativeWhole_iff (h : NegatesAll evs evs') :
    (∀ p ∈ evs ++ evs', p.2.NegativeWhole) ↔
      ∀ a < 2, ∀ x ∈ evs.map fun p => p.2.value a, Int.fract x = 0 := by
  rw [List.forall_mem_append]
  induction h with
  | nil => simp
  | @cons p p' evs evs' hp _ ih =>
    have hone : p.2.NegativeWhole ∧ p'.2.NegativeWhole ↔ ∀ a < 2, Int.fract (p.2.value a) = 0 := by
      rw [RawMotion.negativeWhole_iff, RawMotion.negativeWhole_iff, ← forall₂_and]
      refine forall₂_congr fun a _ => ?_
      rw [hp.value_eq, ← fract_eq_zero_iff_of_neg]
    simp only [List.map_cons, List.forall_mem_cons]
    rw [and_and_and_comm, hone, ih, ← forall₂_and]

/-- A sequence of motions and the negated one add up to zero when both are whole where they are
negative. -/
theorem NegatesAll.sum_eq_zero_iff (h : NegatesAll evs evs') :
    ((captured map m (motions evs)).map relativeMotion).sum +
        ((captured map m (motions evs')).map relativeMotion).sum = 0 ↔
      ∀ p ∈ evs ++ evs', p.2.NegativeWhole := by
  have haxis : ∀ a, (evs.map fun p => ⌊p.2.value a⌋).sum + (evs'.map fun p => ⌊p.2.value a⌋).sum =
      0 ↔ ∀ x ∈ evs.map fun p => p.2.value a, Int.fract x = 0 := by
    intro a
    have hfloor : (evs.map fun p => ⌊p.2.value a⌋) =
        (evs.map fun p => p.2.value a).map Int.floor := by
      rw [List.map_map]
      rfl
    rw [h.floor_eq, hfloor, sum_floor_add_sum_floor_neg_eq_zero_iff]
  rw [sum_delta_captured, sum_delta_captured, h.negativeWhole_iff, Nat.forall_lt_succ_right,
    Nat.forall_lt_succ_right, ← haxis, ← haxis, Prod.mk_add_mk, ← Prod.mk_zero_zero, Prod.mk.injEq]
  simp

/-- The motions of the events negated one by one. -/
theorem map_neg_relativeMotion (events : List InputEvent) :
    events.map (fun e => -relativeMotion e) = (events.map relativeMotion).map fun d => -d := by
  rw [List.map_map]
  rfl

/-- Where both sequences are whole where they are negative, what is sent for them is negated. -/
theorem NegatesAll.delta_captured (h : NegatesAll evs evs')
    (hwhole : ∀ p ∈ evs ++ evs', p.2.NegativeWhole) :
    (captured map m (motions evs')).map relativeMotion =
      (captured map m (motions evs)).map fun e => -relativeMotion e := by
  have hfloors : (evs'.map fun p => p.2.floors) =
      (evs.map fun p => p.2.floors).map fun d => -d := by
    have hwhole' := h.negativeWhole_iff.1 hwhole
    clear hwhole
    induction h with
    | nil => rfl
    | @cons p p' evs evs' hp _ ih =>
      simp only [List.map_cons, List.forall_mem_cons] at hwhole' ⊢
      have hneg : ∀ a < 2, ⌊p'.2.value a⌋ = -⌊p.2.value a⌋ := by
        intro a ha
        have hsum := floor_add_floor_neg_eq_zero_iff.2 (hwhole' a ha).1
        rw [hp.value_eq]
        omega
      rw [ih fun a ha => (hwhole' a ha).2]
      exact congrArg (· :: _) (Prod.ext (hneg 0 (by decide)) (hneg 1 (by decide)))
  -- the filter drops the same motions, since only zero is the negation of zero
  rw [map_neg_relativeMotion, Input.delta_captured, Input.delta_captured, hfloors, List.filter_map]
  congr 1
  refine List.filter_congr fun d _ => ?_
  simp

/-- A motion is rounded toward zero when it is whole where it is negative. -/
theorem rounds_motion_iff (now : UInt64) (ev : RawMotion) :
    (∀ e ∈ dispatchRawMotion now ev,
      relativeMotion e = (truncate (ev.value 0), truncate (ev.value 1))) ↔ ev.NegativeWhole := by
  have hfloors : ev.floors = (truncate (ev.value 0), truncate (ev.value 1)) ↔
      ev.NegativeWhole := by
    unfold RawMotion.floors
    rw [Prod.mk.injEq, floor_eq_truncate_iff, floor_eq_truncate_iff, RawMotion.negativeWhole_iff,
      Nat.forall_lt_succ_right, Nat.forall_lt_succ_right]
    simp
  have hdelta := delta_dispatchRawMotion now ev
  split_ifs at hdelta with hzero
  · -- nothing is sent, and a number that rounds down to zero is not negative
    rw [Option.map_eq_none_iff] at hdelta
    have hnonneg : ∀ a, ⌊ev.value a⌋ = 0 → 0 ≤ ev.value a := fun a ha =>
      (Int.floor_eq_zero_iff.1 ha).1
    rw [hdelta, RawMotion.negativeWhole_iff]
    refine iff_of_true (fun e he => nomatch he) fun a ha hneg => ?_
    have hcoord : ⌊ev.value a⌋ = 0 := by
      have hpair := Prod.mk.inj (hzero.trans Prod.mk_zero_zero.symm)
      rcases a with _ | _ | a
      · exact hpair.1
      · exact hpair.2
      · omega
    exact absurd (hnonneg a hcoord) (not_le.2 hneg)
  · obtain ⟨e, he, hmotion⟩ := Option.map_eq_some_iff.1 hdelta
    rw [he, ← hfloors, ← hmotion]
    exact ⟨fun h => h e rfl, fun h e' he' => Option.some.inj he' ▸ h⟩

/-- Raw motion. What is sent for a sequence of motions is rounded toward zero precisely when each
number on the axes X and Y that is negative is whole. For a sequence and the negated one, what is
sent is negated precisely when this is so in both; and this is also when a sequence and its reversal
add up to zero. -/
theorem rawMotion_unbiased_iff (map : KeyMap) (m : ModifierMask)
    (evs : List (UInt64 × RawMotion)) :
    (RoundsTowardZero map m evs ↔ ∀ p ∈ evs, p.2.NegativeWhole) ∧
    (∀ evs', NegatesAll evs evs' →
      ((captured map m (motions evs')).map relativeMotion =
          (captured map m (motions evs)).map (fun e => -relativeMotion e) ↔
        ∀ p ∈ evs ++ evs', p.2.NegativeWhole)) ∧
    (∀ back, NegatesAll evs.reverse back →
      (((captured map m (motions (evs ++ back))).map relativeMotion).sum = 0 ↔
        ∀ p ∈ evs ++ back, p.2.NegativeWhole)) := by
  refine ⟨forall₂_congr fun p _ => rounds_motion_iff p.1 p.2, fun evs' h => ⟨fun hneg => ?_, ?_⟩,
    fun back h => ?_⟩
  · -- negated sums add up to zero
    have hsum : ((captured map m (motions evs)).map relativeMotion).sum +
        ((captured map m (motions evs')).map relativeMotion).sum = 0 := by
      rw [hneg, map_neg_relativeMotion, ← List.sum_neg]
      exact add_neg_cancel _
    exact h.sum_eq_zero_iff.1 hsum
  · exact h.delta_captured
  · have happend : ((captured map m (motions (evs ++ back))).map relativeMotion).sum =
        ((captured map m (motions evs.reverse)).map relativeMotion).sum +
          ((captured map m (motions back)).map relativeMotion).sum := by
      rw [sum_delta_captured, sum_delta_captured, sum_delta_captured]
      simp [List.sum_reverse]
    rw [happend, h.sum_eq_zero_iff]
    simp

end Bias

section Example

/-- A motion to the left by half a unit. -/
def halfLeft : RawMotion := ⟨[0b1], [⟨-1, 0x80000000⟩]⟩

/-- It is sent as a motion by a whole unit. -/
theorem halfLeft_not_toward_zero : ¬ ∀ map m evs, RoundsTowardZero map m evs := by
  intro h
  have hround := h ⟨8, 8, 1, []⟩ .empty [(0, halfLeft)] (0, halfLeft) (List.mem_singleton_self _)
  have haxis : halfLeft.axis 0 = some ⟨-1, 0x80000000⟩ := by decide
  have hwhole := (rounds_motion_iff 0 halfLeft).1 hround 0 (by decide) _ haxis
  exact absurd (hwhole (by decide)) (by decide)

end Example

end Borderless.Input
