import Borderless.Input.X11Capture
import Borderless.Lib.Rank
import Mathlib.Data.Nat.Bitwise

/-!
# The axes of a raw motion

`mask_iter` of `crates/pal-x11/src/capture.rs` walks the bits of a valuator mask, word by word, with
a running index into the values of the event. Its output is what the mask and the values say
(`mem_maskIter_iff_of_lt`): each axis whose bit is set has the value at its rank, the number of set
bits before it, whether or not the values reach that far. So the axes X and Y of a motion have their
own values and never those of another axis (`motionDelta_eq`).
-/

namespace Borderless.Input

open LastWrite Rank

/-- The number of set bits of a word below the bit `b`. -/
def setBits (word : UInt32) (b : ℕ) : ℕ := Nat.count (fun i => word.toNat.testBit i) b

/-- The rank of the bit `b` of the word `w`, which is `word`: the number of set bits before it,
across all earlier words and lower bits. -/
def rank (mask : List UInt32) (w : ℕ) (word : UInt32) (b : ℕ) : ℕ :=
  ((mask.take w).map fun earlier => setBits earlier 32).sum + setBits word b

/-- Whether the bit of an axis is set. -/
def axisSet (mask : List UInt32) (a : ℕ) : Bool := (mask.getD (a / 32) 0).toNat.testBit (a % 32)

section Axes

variable {mask : List UInt32} {values : List Fp3232}

/-- The test of a bit in the source reads that bit of the number. -/
theorem bitSet_eq_testBit (word : UInt32) {bit : ℕ} (h : bit < 32) :
    bitSet word bit = word.toNat.testBit bit := by
  have hshift : ((1 : UInt32) <<< UInt32.ofNat bit).toNat = 2^bit := by
    have hone : (1 : UInt32).toNat = 1 := rfl
    have hmod : bit % 2^32 % 32 = bit := by omega
    have hlt : 2^bit < 2^32 := Nat.pow_lt_pow_right (by omega) h
    rw [UInt32.toNat_shiftLeft, UInt32.toNat_ofNat', hone, hmod, Nat.one_shiftLeft,
      Nat.mod_eq_of_lt hlt]
  have hand : (word &&& (1 : UInt32) <<< UInt32.ofNat bit).toNat =
      (word.toNat.testBit bit).toNat * 2^bit := by
    rw [UInt32.toNat_and, hshift, Nat.and_two_pow]
  have hzero : word &&& (1 : UInt32) <<< UInt32.ofNat bit = 0 ↔ word.toNat.testBit bit = false := by
    rw [← UInt32.toNat_inj, hand]
    cases word.toNat.testBit bit <;> simp
  unfold bitSet
  rw [Bool.eq_iff_iff, bne_iff_ne, ne_eq, hzero, Bool.not_eq_false]

/-- The axes of a mask, in order, each with its bit. -/
theorem maskBits_eq (mask : List UInt32) :
    maskBits mask = (List.range (32 * mask.length)).map fun a => (a, axisSet mask a) := by
  -- on the words, the last one apart
  induction mask using List.reverseRecOn with
  | nil => rfl
  | append_singleton mask word ih =>
    have hlast : maskBits (mask ++ [word]) = maskBits mask ++
        (List.range 32).map fun bit => (mask.length * 32 + bit, bitSet word bit) := by
      unfold maskBits
      rw [List.zipIdx_append, List.flatMap_append]
      simp
    have hlen : 32 * (mask ++ [word]).length = 32 * mask.length + 32 := by
      rw [List.length_append, List.length_singleton, Nat.mul_add]
    rw [hlast, ih, hlen, List.range_add, List.map_append, List.map_map]
    congr 1
    · refine List.map_congr_left fun a ha => ?_
      have hlt : a / 32 < mask.length := by
        rw [List.mem_range] at ha
        omega
      unfold axisSet
      rw [List.getD_append _ _ _ _ hlt]
    · refine List.map_congr_left fun bit hbit => ?_
      rw [List.mem_range] at hbit
      have hdiv : (32 * mask.length + bit) / 32 = mask.length := by omega
      have hmod : (32 * mask.length + bit) % 32 = bit := by omega
      have hword : axisSet (mask ++ [word]) (32 * mask.length + bit) = word.toNat.testBit bit := by
        unfold axisSet
        rw [hdiv, hmod, List.getD_append_right _ _ _ _ le_rfl, Nat.sub_self]
        rfl
      rw [Function.comp_apply, hword, bitSet_eq_testBit word hbit, Nat.mul_comm]

/-- The axes whose bits are set. -/
theorem maskAxes_eq_selected (mask : List UInt32) :
    maskAxes mask = selected (axisSet mask) (32 * mask.length) := by
  unfold maskAxes selected
  rw [maskBits_eq, List.filter_map, List.map_map]
  exact List.map_id _

/-- `mask_iter` pairs the set bits of the mask, in their order, with the values. -/
theorem maskIter_eq_zip_selected (mask : List UInt32) (values : List Fp3232) :
    maskIter mask values = (selected (axisSet mask) (32 * mask.length)).zip values := by
  rw [maskIter_eq_zip, maskAxes_eq_selected]

/-- The set axes below an axis are the set bits before its bit. -/
theorem count_axisSet {w b : ℕ} {word : UInt32} (hw : mask[w]? = some word) (hb : b < 32) :
    Nat.count (axisSet mask ·) (32 * w + b) = rank mask w word b := by
  have hblock : ∀ i c, c ≤ 32 →
      Nat.count (fun j => axisSet mask (32 * i + j)) c = setBits (mask.getD i 0) c := by
    intro i c hc
    unfold setBits Nat.count
    refine List.countP_congr fun j hj => ?_
    rw [List.mem_range] at hj
    have hdiv : (32 * i + j) / 32 = i := by omega
    have hmod : (32 * i + j) % 32 = j := by omega
    simp only [axisSet, hdiv, hmod]
  have hle : w ≤ mask.length := (List.getElem?_eq_some_iff.1 hw).1.le
  have htake : mask.take w = (List.range w).map fun i => mask.getD i 0 := by
    refine List.ext_getElem (by simp [hle]) fun i hi _ => ?_
    have hlt : i < mask.length := lt_of_lt_of_le (by simpa using hi) (List.length_take_le' w mask)
    rw [List.getElem_take, List.getElem_map, List.getElem_range, List.getD_eq_getElem _ _ hlt]
  have hword : mask.getD w 0 = word := by rw [List.getD_eq_getElem?_getD, hw, Option.getD_some]
  calc Nat.count (axisSet mask ·) (32 * w + b)
      = ((List.range w).map fun i => Nat.count (fun j => axisSet mask (32 * i + j)) 32).sum +
          Nat.count (fun j => axisSet mask (32 * w + j)) b := count_blocks _ 32 w b
    _ = ((List.range w).map fun i => setBits (mask.getD i 0) 32).sum + setBits word b := by
        rw [hblock w b hb.le, hword, List.map_congr_left fun i _ => hblock i 32 le_rfl]
    _ = rank mask w word b := by rw [rank, htake, List.map_map, Function.comp_def]

/-- The output is in increasing order of the axes. -/
theorem pairwise_maskIter (mask : List UInt32) (values : List Fp3232) :
    (maskIter mask values).Pairwise fun x y => x.1 < y.1 := by
  rw [maskIter_eq_zip_selected]
  exact pairwise_zip ..

/-- A bit of a word is in the output when it is set, and there is a value at its rank. -/
theorem mem_maskIter_iff_of_lt {w b : ℕ} (hb : b < 32) {v : Fp3232} :
    (32 * w + b, v) ∈ maskIter mask values ↔
      ∃ word, mask[w]? = some word ∧ word.toNat.testBit b ∧
        values[rank mask w word b]? = some v := by
  have hdiv : (32 * w + b) / 32 = w := by omega
  have hmod : (32 * w + b) % 32 = b := by omega
  rw [maskIter_eq_zip_selected, mem_zip_iff]
  constructor
  · rintro ⟨hlt, hset, hvalue⟩
    have hw : w < mask.length := by omega
    have hword : mask[w]? = some mask[w] := List.getElem?_eq_getElem hw
    rw [count_axisSet hword hb] at hvalue
    rw [axisSet, hdiv, hmod, List.getD_eq_getElem _ _ hw] at hset
    exact ⟨_, hword, hset, hvalue⟩
  · rintro ⟨word, hword, hset, hvalue⟩
    obtain ⟨hw, rfl⟩ := List.getElem?_eq_some_iff.1 hword
    rw [count_axisSet hword hb]
    refine ⟨by omega, ?_, hvalue⟩
    rw [axisSet, hdiv, hmod, List.getD_eq_getElem _ _ hw]
    exact hset

/-- `mask_iter` aligns the values with the axes. For every mask and every list of values, its output
is in increasing order of the axes, and it has exactly the pairs of an axis `32 * w + b` and the
value at the rank of the bit `b` of the word `w`, for the set bits whose rank is below the number of
values. -/
theorem maskIter_aligned (mask : List UInt32) (values : List Fp3232) :
    ((maskIter mask values).Pairwise fun x y => x.1 < y.1) ∧
    ∀ axis v, (axis, v) ∈ maskIter mask values ↔
      ∃ w b word, mask[w]? = some word ∧ b < 32 ∧ word.toNat.testBit b ∧ axis = 32 * w + b ∧
        ∃ h : rank mask w word b < values.length, v = values[rank mask w word b] := by
  refine ⟨pairwise_maskIter mask values, fun axis v => ?_⟩
  constructor
  · intro h
    have haxis : 32 * (axis / 32) + axis % 32 = axis := Nat.div_add_mod axis 32
    have hb : axis % 32 < 32 := Nat.mod_lt _ (by omega)
    rw [← haxis, mem_maskIter_iff_of_lt hb] at h
    obtain ⟨word, hword, hset, hvalue⟩ := h
    obtain ⟨hlt, rfl⟩ := List.getElem?_eq_some_iff.1 hvalue
    exact ⟨_, _, word, hword, hb, hset, haxis.symm, hlt, rfl⟩
  · rintro ⟨w, b, word, hword, hb, hset, rfl, hlt, rfl⟩
    exact (mem_maskIter_iff_of_lt hb).2 ⟨word, hword, hset, List.getElem?_eq_getElem hlt⟩

example : maskIter [0b101, 0b1] [⟨7, 0⟩, ⟨8, 0⟩] = [(0, ⟨7, 0⟩), (2, ⟨8, 0⟩)] := by decide

end Axes

section Motion

variable {ev : RawMotion}

/-- What a motion has for an axis is the value at the rank of its bit, if the bit is set. -/
theorem RawMotion.axis_eq {w b : ℕ} {word : UInt32} (hword : ev.valuatorMask[w]? = some word)
    (hb : b < 32) :
    ev.axis (32 * w + b) =
      if word.toNat.testBit b then ev.axisvaluesRaw[rank ev.valuatorMask w word b]? else none := by
  have hnodup : ((maskIter ev.valuatorMask ev.axisvaluesRaw).map Prod.fst).Nodup := by
    have h := pairwise_maskIter ev.valuatorMask ev.axisvaluesRaw
    exact (List.pairwise_map.2 h).imp ne_of_lt
  ext v
  rw [RawMotion.axis, lastWrite_eq_some_iff_mem hnodup, mem_maskIter_iff_of_lt hb]
  split_ifs with hset
  · simp [hword, hset]
  · simp [hword, hset]

/-- The delta of a motion is that of the valuators X and Y, whichever other valuators it has: X has
the first value, and Y the second, or the first in a motion without X. -/
theorem motionDelta_eq {word : UInt32} (hword : ev.valuatorMask[0]? = some word) :
    motionDelta ev =
      (((if word.toNat.testBit 0 then ev.axisvaluesRaw[0]? else none).map fp3232ToI32).getD 0,
        ((if word.toNat.testBit 1 then ev.axisvaluesRaw[(word.toNat.testBit 0).toNat]?
          else none).map fp3232ToI32).getD 0) := by
  have hx : ev.axis 0 = if word.toNat.testBit 0 then ev.axisvaluesRaw[0]? else none := by
    have h : ev.axis 0 = _ := RawMotion.axis_eq (w := 0) (b := 0) hword (by omega)
    have hrank : rank ev.valuatorMask 0 word 0 = 0 := by simp [rank, setBits]
    rwa [hrank] at h
  have hy : ev.axis 1 =
      if word.toNat.testBit 1 then ev.axisvaluesRaw[(word.toNat.testBit 0).toNat]? else none := by
    have h : ev.axis 1 = _ := RawMotion.axis_eq (w := 0) (b := 1) hword (by omega)
    have hrank : rank ev.valuatorMask 0 word 1 = (word.toNat.testBit 0).toNat := by
      unfold rank setBits
      rw [List.take_zero, List.map_nil, List.sum_nil, Nat.zero_add, Nat.count_one]
      cases word.toNat.testBit 0 <;> rfl
    rwa [hrank] at h
  unfold motionDelta
  rw [foldl_motionDelta, ← hx, ← hy]
  rfl

end Motion

end Borderless.Input
