import Mathlib

/-!
# Whole numbers in binary64

The logical model of `Float` unpacks its arguments, works on a sign, a mantissa and an exponent, and
rounds and packs the result. A whole number below `2^53` has a mantissa of 53 bits that ends in zeros
(`canonical`), so nothing is lost when it is rounded, however many zeros it came with
(`normalize_scaled`), nor when it is packed (`unpack_ofInt`). So sums of such numbers are exact
(`ofInt_add_ofInt`).
-/

namespace Binary64

open Float.Model Float.Model.UnpackedFloat

/-! ## Mantissas -/

/-- How far a mantissa is shifted to the left, so that it has 53 bits. -/
def leftShift (m : ℕ) : ℕ := 52 - m.log2

/-- Zeros at the end of a number count for its length. -/
theorem log2_mul_two_pow {m : ℕ} (hm : m ≠ 0) (j : ℕ) : (m * 2 ^ j).log2 = m.log2 + j := by
  have hne : m * 2 ^ j ≠ 0 := Nat.mul_ne_zero hm (Nat.two_pow_pos j).ne'
  rw [Nat.log2_eq_iff hne, Nat.pow_add, Nat.add_right_comm, Nat.pow_add]
  exact ⟨Nat.mul_le_mul_right _ (Nat.log2_self_le hm),
    Nat.mul_lt_mul_of_pos_right Nat.lt_log2_self (Nat.two_pow_pos j)⟩

/-- A mantissa below `2^53` has 53 bits at most. -/
theorem log2_add_leftShift {m : ℕ} (hm : m ≠ 0) (hlt : m < 2 ^ 53) : m.log2 + leftShift m = 52 := by
  have hlog : m.log2 < 53 := (Nat.log2_lt hm).2 hlt
  unfold leftShift
  omega

/-- The zeros at the end of a mantissa are shifted out without a trace. -/
theorem shiftRight_zeros (m j : ℕ) :
    (⟨m * 2 ^ j, false, false⟩ : ExtendedMantissa) >>> j = ⟨m, false, false⟩ := by
  induction j generalizing m with
  | zero => rw [Nat.pow_zero, Nat.mul_one]; rfl
  | succ j ih =>
    have hmore : m * 2 ^ (j + 1) = m * 2 * 2 ^ j := by ring
    have hone : (⟨m * 2 ^ (j + 1), false, false⟩ : ExtendedMantissa) >>> (j + 1) =
        ((⟨m * 2 ^ (j + 1), false, false⟩ : ExtendedMantissa) >>> j).shiftRightOne := rfl
    rw [hone, hmore, ih]
    simp [ExtendedMantissa.shiftRightOne]

/-- The exponent at which a mantissa has 53 bits. -/
theorem targetExponent_scaled {m : ℕ} (hm : m ≠ 0) (hlt : m < 2 ^ 53) (j : ℕ) :
    Format.binary64.targetExponent (totalExponent (m * 2 ^ j) (-j)) = -(leftShift m : ℤ) := by
  have hlog := log2_add_leftShift hm hlt
  unfold Format.targetExponent totalExponent
  rw [log2_mul_two_pow hm]
  have hbits : (Format.binary64.mantissaBits : ℤ) = 53 := rfl
  have hmin : Format.binary64.minExponent = -1074 := rfl
  rw [hbits, hmin]
  push_cast
  omega

/-- A mantissa that is long enough is shifted to 53 bits. -/
theorem shiftToTargetExponent_scaled {m : ℕ} (hm : m ≠ 0) (hlt : m < 2 ^ 53) {j : ℕ}
    (hj : leftShift m ≤ j) :
    shiftToTargetExponent Format.binary64 (m * 2 ^ j) (-j) .exact =
      (⟨m * 2 ^ leftShift m, false, false⟩, -(leftShift m : ℤ)) := by
  have hamount : (-(leftShift m : ℤ) - -(j : ℤ)).toNat = j - leftShift m := by omega
  have hzeros : m * 2 ^ j = m * 2 ^ leftShift m * 2 ^ (j - leftShift m) := by
    rw [Nat.mul_assoc, ← Nat.pow_add, Nat.add_sub_cancel' hj]
  unfold shiftToTargetExponent shiftToExponent
  simp only [targetExponent_scaled hm hlt, hamount, ExtendedMantissa.ofMantissaAndAccuracy]
  rw [hzeros, shiftRight_zeros]
  congr 1
  omega

/-! ## Rounding -/

/-- The mantissa with 53 bits is positive. -/
theorem scaled_pos {m : ℕ} (hm : m ≠ 0) (j : ℕ) : 0 < m * 2 ^ j :=
  Nat.mul_pos (Nat.pos_of_ne_zero hm) (Nat.two_pow_pos j)

/-- Rounding takes zeros at the end away. -/
theorem roundWithAccuracy_scaled (sign : Sign) {m : ℕ} (hm : m ≠ 0) (hlt : m < 2 ^ 53) {j : ℕ}
    (hj : leftShift m ≤ j) :
    roundWithAccuracy Format.binary64 sign (m * 2 ^ j) (-j) .exact =
      .finite sign (m * 2 ^ leftShift m) (-(leftShift m : ℤ)) (scaled_pos hm _) := by
  have hfirst := shiftToTargetExponent_scaled hm hlt hj
  have hagain := shiftToTargetExponent_scaled hm hlt le_rfl
  have hrounded : (⟨m * 2 ^ leftShift m, false, false⟩ : ExtendedMantissa).roundedMantissa =
      m * 2 ^ leftShift m := rfl
  unfold roundWithAccuracy
  simp only [hfirst, hrounded, hagain]
  rw [dif_neg (scaled_pos hm _).ne']

/-- Rounding does not depend on the zeros at the end. -/
theorem round_scaled (sign : Sign) {m : ℕ} (hm : m ≠ 0) (hlt : m < 2 ^ 53) (j : ℕ) :
    UnpackedFloat.round Format.binary64 sign (m * 2 ^ j) (-j) =
      .finite sign (m * 2 ^ leftShift m) (-(leftShift m : ℤ)) (scaled_pos hm _) := by
  have hdecrease : decreaseExponent (m * 2 ^ j) (-j) (-(leftShift m : ℤ)) =
      (m * 2 ^ max j (leftShift m), -((max j (leftShift m) : ℕ) : ℤ)) := by
    have hamount : (-(j : ℤ) - -(leftShift m : ℤ)).toNat = max j (leftShift m) - j := by omega
    unfold decreaseExponent
    simp only [hamount, Nat.shiftLeft_eq]
    rw [Nat.mul_assoc, ← Nat.pow_add, Nat.add_sub_cancel' (le_max_left _ _)]
    congr 1
    omega
  unfold UnpackedFloat.round
  simp only [targetExponent_scaled hm hlt, hdecrease]
  exact roundWithAccuracy_scaled sign hm hlt (le_max_right _ _)

/-- A whole number, with a mantissa of 53 bits. -/
def canonical (n : ℤ) : UnpackedFloat :=
  if h : n.natAbs = 0 then .zero .positive
  else .finite (if n < 0 then .negative else .positive) (n.natAbs * 2 ^ leftShift n.natAbs)
    (-(leftShift n.natAbs : ℤ)) (scaled_pos h _)

/-- A whole number other than zero. -/
theorem canonical_of_ne {n : ℤ} (h : n.natAbs ≠ 0) :
    canonical n = .finite (if n < 0 then .negative else .positive)
      (n.natAbs * 2 ^ leftShift n.natAbs) (-(leftShift n.natAbs : ℤ)) (scaled_pos h _) :=
  dif_neg h

/-- A whole number is rounded to itself, whatever the exponent. -/
theorem normalize_scaled {n : ℤ} (hn : n.natAbs < 2 ^ 53) (j : ℕ) :
    UnpackedFloat.normalize Format.binary64 (n * 2 ^ j) (-j) .positive = canonical n := by
  have hpow : (0 : ℤ) < 2 ^ j := by positivity
  have hscaled : (n * 2 ^ j).natAbs = n.natAbs * 2 ^ j := by
    rw [Int.natAbs_mul, Int.natAbs_pow]
    rfl
  unfold UnpackedFloat.normalize canonical
  rcases lt_trichotomy n 0 with hneg | rfl | hpos
  · have hlt : n * 2 ^ j < 0 := Int.mul_neg_of_neg_of_pos hneg hpow
    have habs : (-(n * 2 ^ j)).toNat = n.natAbs * 2 ^ j := by omega
    have hne : n.natAbs ≠ 0 := by omega
    rw [compare_lt_iff_lt.2 hlt]
    simp only [habs, if_pos hneg, dif_neg hne]
    exact round_scaled .negative hne hn j
  · rw [Int.zero_mul]
    rfl
  · have hlt : 0 < n * 2 ^ j := Int.mul_pos hpos hpow
    have habs : (n * 2 ^ j).toNat = n.natAbs * 2 ^ j := by omega
    have hne : n.natAbs ≠ 0 := by omega
    rw [compare_gt_iff_gt.2 hlt]
    simp only [habs, if_neg hpos.not_gt, dif_neg hne]
    exact round_scaled .positive hne hn j

/-- The number of an integer. -/
theorem ofInt_eq_canonical {n : ℤ} (hn : n.natAbs < 2 ^ 53) :
    UnpackedFloat.ofInt Format.binary64 n = canonical n := by
  have hscaled := normalize_scaled hn 0
  unfold UnpackedFloat.ofInt
  simpa using hscaled

/-! ## Packing -/

/-- A mantissa of 53 bits and its implicit bit. -/
theorem toNat_implicit {M : ℕ} (hge : 2 ^ 52 ≤ M) (hlt : M < 2 ^ 53) :
    (1#1 ++ BitVec.ofNat 52 M).toNat = M := by
  have hone : (1 : ℕ) <<< 52 = 2 ^ 52 := rfl
  rw [BitVec.toNat_append, BitVec.toNat_ofNat, BitVec.toNat_ofNat,
    ← Nat.shiftLeft_add_eq_or_of_lt (Nat.mod_lt _ (by decide)), Nat.mod_eq_of_lt (by decide), hone]
  omega

/-- Packing keeps a number of 53 bits whose exponent is in range. -/
theorem unpack_pack_normal (sign : Sign) {M k : ℕ} (hge : 2 ^ 52 ≤ M) (hlt : M < 2 ^ 53)
    (hk : k ≤ 52) (hpos : 0 < M) :
    (Float.Model.pack (.finite sign M (-k) hpos)).unpack = .finite sign M (-k) hpos := by
  have hlog : M.log2 = 52 := (Nat.log2_eq_iff hpos.ne').2 ⟨hge, hlt⟩
  have hbias : (-(k : ℤ) + Format.binary64.exponentBias +
      Format.binary64.mantissaBitsWithoutImplicit).toNat = 1075 - k := by
    have hnum : (Format.binary64.exponentBias : ℤ) + Format.binary64.mantissaBitsWithoutImplicit =
      1075 := rfl
    omega
  have hpack : UnpackedFloat.pack Format.binary64 (.finite sign M (-k) hpos) =
      packComponents Format.binary64 sign (BitVec.ofNat 11 (1075 - k)) (BitVec.ofNat 52 M) := by
    have hfits : ¬ 2 ^ Format.binary64.exponentBits ≤ 1075 - k + 1 := by
      have hmax : 2 ^ Format.binary64.exponentBits = 2048 := rfl
      omega
    have hnormal : M.log2 + 1 = Format.binary64.mantissaBits := by rw [hlog]; rfl
    unfold UnpackedFloat.pack
    simp only [hbias, if_neg hfits, if_pos hnormal]
  have hexponent : (BitVec.ofNat 11 (1075 - k)).toNat = 1075 - k := by
    rw [BitVec.toNat_ofNat, Nat.mod_eq_of_lt (by omega)]
  have hfinite : BitVec.ofNat 11 (1075 - k) ≠ -1#11 := by
    intro h
    have hmax := congrArg BitVec.toNat h
    rw [hexponent] at hmax
    have hall : (-1#11).toNat = 2047 := rfl
    omega
  have hnormal : BitVec.ofNat 11 (1075 - k) ≠ 0#11 := by
    intro h
    have hzero := congrArg BitVec.toNat h
    rw [hexponent, BitVec.toNat_zero] at hzero
    omega
  unfold Float.Model.unpack Float.Model.pack
  simp only [hpack]
  unfold UnpackedFloat.unpack
  simp only [unpackExponent_packComponents, unpackMantissa_packComponents,
    unpackSign_packComponents, Sign.ofBitVec_toBitVec, if_neg hfinite, if_neg hnormal, toNat_implicit hge hlt, hexponent]
  congr 1
  have hnum : (Format.binary64.exponentBias : ℤ) = 1023 := rfl
  omega

/-- A mantissa that is shifted to 53 bits has 53 bits. -/
theorem scaled_mem {m : ℕ} (hm : m ≠ 0) (hlt : m < 2 ^ 53) :
    2 ^ 52 ≤ m * 2 ^ leftShift m ∧ m * 2 ^ leftShift m < 2 ^ 53 := by
  rw [← Nat.log2_eq_iff (scaled_pos hm _).ne', log2_mul_two_pow hm]
  exact log2_add_leftShift hm hlt

/-- A whole number is unpacked to itself. -/
theorem unpack_ofInt {n : ℤ} (hn : n.natAbs < 2 ^ 53) :
    (Float.Model.ofInt n).unpack = canonical n := by
  unfold Float.Model.ofInt
  rw [ofInt_eq_canonical hn]
  by_cases hzero : n.natAbs = 0
  · unfold canonical
    rw [dif_pos hzero]
    rfl
  · have hshift : leftShift n.natAbs ≤ 52 := Nat.sub_le _ _
    obtain ⟨hge, hlt⟩ := scaled_mem hzero hn
    rw [canonical_of_ne hzero]
    exact unpack_pack_normal _ hge hlt hshift _

/-! ## Sums -/

/-- A number of 53 bits with a smaller exponent has more zeros at its end. -/
theorem decreaseExponent_scaled {m k K : ℕ} (hk : k ≤ K) :
    (decreaseExponent (m * 2 ^ k) (-k) (-K)).1 = m * 2 ^ K := by
  have hamount : (-(k : ℤ) - -(K : ℤ)).toNat = K - k := by omega
  unfold decreaseExponent
  simp only [hamount, Nat.shiftLeft_eq]
  rw [Nat.mul_assoc, ← Nat.pow_add, Nat.add_sub_cancel' hk]

/-- The sign and the magnitude of an integer. -/
theorem apply_natAbs (n : ℤ) (K : ℕ) :
    (if n < 0 then Sign.negative else Sign.positive).apply ((n.natAbs * 2 ^ K : ℕ) : ℤ) = n * 2 ^ K := by
  push_cast
  split_ifs with hneg
  · rw [Sign.apply, abs_of_neg hneg]
    ring
  · rw [Sign.apply, abs_of_nonneg (not_lt.1 hneg)]

/-- The sum of two whole numbers, if it is below `2^53`, is their sum as integers. -/
theorem add_canonical {a b : ℤ} (hab : (a + b).natAbs < 2 ^ 53) :
    UnpackedFloat.add Format.binary64 (canonical a) (canonical b) = canonical (a + b) := by
  by_cases ha : a.natAbs = 0
  · obtain rfl : a = 0 := Int.natAbs_eq_zero.1 ha
    rw [Int.zero_add]
    have hzero : canonical 0 = .zero .positive := rfl
    rw [hzero]
    unfold canonical
    split_ifs <;> rfl
  · by_cases hb : b.natAbs = 0
    · obtain rfl : b = 0 := Int.natAbs_eq_zero.1 hb
      rw [Int.add_zero]
      have hzero : canonical 0 = .zero .positive := rfl
      rw [hzero]
      unfold canonical
      rw [dif_neg ha]
      rfl
    · -- both are brought to the smaller exponent, and the sum of the mantissas is rounded
      obtain ⟨K, hK⟩ : ∃ K : ℕ, max (leftShift a.natAbs) (leftShift b.natAbs) = K := ⟨_, rfl⟩
      have hmin : min (-(leftShift a.natAbs : ℤ)) (-(leftShift b.natAbs : ℤ)) = -(K : ℤ) := by omega
      have hka : leftShift a.natAbs ≤ K := by omega
      have hkb : leftShift b.natAbs ≤ K := by omega
      have hsum : a * 2 ^ K + b * 2 ^ K = (a + b) * 2 ^ K := by ring
      rw [← normalize_scaled hab K, ← hsum]
      rw [canonical_of_ne ha, canonical_of_ne hb]
      simp only [UnpackedFloat.add, hmin, decreaseExponent_scaled hka, decreaseExponent_scaled hkb,
        apply_natAbs]

/-- Sums of whole numbers are exact below `2^53`. -/
theorem ofInt_add_ofInt {a b : ℤ} (ha : a.natAbs < 2 ^ 53) (hb : b.natAbs < 2 ^ 53)
    (hab : (a + b).natAbs < 2 ^ 53) :
    Float.Model.ofInt a + Float.Model.ofInt b = Float.Model.ofInt (a + b) := by
  have hadd : Float.Model.ofInt a + Float.Model.ofInt b = Float.Model.pack
    (UnpackedFloat.add Format.binary64 (Float.Model.ofInt a).unpack (Float.Model.ofInt b).unpack) := rfl
  rw [hadd, unpack_ofInt ha, unpack_ofInt hb, add_canonical hab, ← ofInt_eq_canonical hab]
  rfl

end Binary64
