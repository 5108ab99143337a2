import Mathlib
import Gatehouse.TokenBucket

/-!
# A bucket that counts in floating point

The bucket of a service counts in binary64 numbers. Two facts are needed to see that a fresh one
has a token to give, and neither needs to know how far a result is off: rounding keeps the sign, and
what is at least one before it is rounded is so afterwards. The income of a bucket is not below
zero at any rate and after any time, be it too large to be a number; so the burst and the income
together stay at least one, or are not a number, and then the burst alone is taken.

* `NotNegative`, `AtLeastOne`: the two facts, of numbers that are not packed.
* `atLeastOne_round`: the exponent of the leading bit survives rounding.
* `notNegative_pack`, `atLeastOne_pack`: so do both facts the way into bits and back.
* `RateLimiter.first_granted`: the first request is granted.
-/

namespace Gatehouse.Binary64

open Float.Model Float.Model.UnpackedFloat

/-- Without a negative sign, if it is a number at all. -/
inductive NotNegative : UnpackedFloat → Prop where
  | infinity : NotNegative (.infinity .positive)
  | notANumber : NotNegative .notANumber
  | zero : NotNegative (.zero .positive)
  | finite (mantissa : Nat) (exponent : Int) (hPos : 0 < mantissa) :
      NotNegative (.finite .positive mantissa exponent hPos)

/-- A normal number that is not below one, or the positive infinity. -/
def AtLeastOne (x : UnpackedFloat) : Prop :=
  x = .infinity .positive ∨
    ∃ mantissa exponent hPos, x = .finite .positive mantissa exponent hPos ∧
      mantissa.log2 = 52 ∧ -52 ≤ exponent

/-! ## Rounding -/

/-- Rounding never looks at the sign. -/
theorem notNegative_round (mantissa : Nat) (exponent : Int) (accuracy : Accuracy) :
    NotNegative (roundWithAccuracy .binary64 .positive mantissa exponent accuracy) := by
  unfold roundWithAccuracy
  dsimp only
  split
  · exact .zero
  · exact .finite _ _ _

theorem shiftRight_mantissa (m : ExtendedMantissa) (k : Nat) :
    (m >>> k).mantissa = m.mantissa / 2 ^ k := by
  show (k.repeat ExtendedMantissa.shiftRightOne m).mantissa = _
  induction k with
  | zero => simp [Nat.repeat]
  | succ k ih =>
    show (k.repeat ExtendedMantissa.shiftRightOne m).mantissa / 2 = _
    rw [ih, Nat.div_div_eq_div_mul, Nat.pow_succ]

theorem le_roundedMantissa (m : ExtendedMantissa) : m.mantissa ≤ m.roundedMantissa := by
  obtain ⟨mantissa, roundBit, stickyBit⟩ := m
  cases roundBit <;> cases stickyBit <;>
    simp [ExtendedMantissa.roundedMantissa, ExtendedMantissa.accuracy,
      Accuracy.roundToNearestEven]

theorem ofMantissaAndAccuracy_mantissa (mantissa : Nat) (accuracy : Accuracy) :
    (ExtendedMantissa.ofMantissaAndAccuracy mantissa accuracy).mantissa = mantissa := by
  unfold ExtendedMantissa.ofMantissaAndAccuracy
  split <;> rfl

theorem pos_of_log2 {m : Nat} (h : 52 ≤ m.log2) : 0 < m := by
  rcases Nat.eq_zero_or_pos m with rfl | hPos
  · rw [Nat.log2_zero] at h
    omega
  · exact hPos

theorem log2_le_log2 {m n : Nat} (hPos : 0 < m) (h : m ≤ n) : m.log2 ≤ n.log2 := by
  have hLow := Nat.log2_self_le (Nat.ne_of_gt hPos)
  exact (Nat.le_log2 (Nat.ne_of_gt (hPos.trans_le h))).mpr (hLow.trans h)

theorem log2_div_two_pow {m k : Nat} (h : m.log2 = 52 + k) : (m / 2 ^ k).log2 = 52 := by
  have hLow : 2 ^ (52 + k) ≤ m := h ▸ Nat.log2_self_le (Nat.ne_of_gt (pos_of_log2 (by omega)))
  have hHigh : m < 2 ^ (53 + k) := by
    have hLt := Nat.lt_log2_self (n := m)
    rwa [h, show 52 + k + 1 = 53 + k by omega] at hLt
  have hLow' : 2 ^ 52 ≤ m / 2 ^ k := by
    rw [Nat.le_div_iff_mul_le (Nat.two_pow_pos k), ← Nat.pow_add]
    exact hLow
  have hHigh' : m / 2 ^ k < 2 ^ 53 := by
    rw [Nat.div_lt_iff_lt_mul (Nat.two_pow_pos k), ← Nat.pow_add]
    exact hHigh
  rw [Nat.log2_eq_iff (by omega)]
  exact ⟨hLow', hHigh'⟩

/-- A mantissa with bits enough is cut to 53 of them, and the value stays at least one. -/
theorem shiftToTargetExponent_spec {mantissa : Nat} {exponent : Int} (accuracy : Accuracy)
    (hBits : 52 ≤ mantissa.log2) (hOne : 0 ≤ mantissa.log2 + exponent) :
    ((shiftToTargetExponent .binary64 mantissa exponent accuracy).1).mantissa.log2 = 52 ∧
      -52 ≤ (shiftToTargetExponent .binary64 mantissa exponent accuracy).2 := by
  have hTarget : Format.binary64.targetExponent (totalExponent mantissa exponent) =
      exponent + (mantissa.log2 - 52 : Nat) := by
    simp only [Format.targetExponent, totalExponent, Format.mantissaBits, Format.minExponent]
    omega
  have hShift : (exponent + (mantissa.log2 - 52 : Nat) - exponent).toNat = mantissa.log2 - 52 := by
    omega
  simp only [shiftToTargetExponent, shiftToExponent, hTarget, hShift, shiftRight_mantissa,
    ofMantissaAndAccuracy_mantissa]
  refine ⟨log2_div_two_pow (by omega), by omega⟩

/-- Rounding up can only make the mantissa longer, so the cut that follows finds bits enough
again. -/
theorem atLeastOne_round {mantissa : Nat} {exponent : Int} (accuracy : Accuracy)
    (hBits : 52 ≤ mantissa.log2) (hOne : 0 ≤ mantissa.log2 + exponent) :
    AtLeastOne (roundWithAccuracy .binary64 .positive mantissa exponent accuracy) := by
  obtain ⟨hFirst, hFirstExponent⟩ := shiftToTargetExponent_spec accuracy hBits hOne
  generalize hFirstEq : shiftToTargetExponent .binary64 mantissa exponent accuracy = first
    at hFirst hFirstExponent
  have hRounded : 52 ≤ first.1.roundedMantissa.log2 :=
    hFirst ▸ log2_le_log2 (pos_of_log2 hFirst.ge) (le_roundedMantissa first.1)
  obtain ⟨hSecond, hSecondExponent⟩ := @shiftToTargetExponent_spec _ first.2 .exact hRounded
    (by omega)
  refine .inr ⟨_, _, pos_of_log2 hSecond.ge, ?_, hSecond, hSecondExponent⟩
  unfold roundWithAccuracy
  dsimp only
  rw [hFirstEq, dif_neg (Nat.ne_of_gt (pos_of_log2 hSecond.ge))]

theorem shiftLeft_pos {m : Nat} (hPos : 0 < m) (k : Nat) : 0 < m <<< k := by
  rw [Nat.shiftLeft_eq]
  exact Nat.mul_pos hPos (Nat.two_pow_pos k)

theorem log2_shiftLeft {m : Nat} (hPos : 0 < m) (k : Nat) : (m <<< k).log2 = m.log2 + k := by
  rw [Nat.log2_eq_iff (Nat.ne_of_gt (shiftLeft_pos hPos k)), Nat.shiftLeft_eq]
  have hLow := Nat.log2_self_le (Nat.ne_of_gt hPos)
  have hHigh := Nat.lt_log2_self (n := m)
  constructor
  · rw [Nat.pow_add]
    exact Nat.mul_le_mul_right _ hLow
  · rw [show m.log2 + k + 1 = m.log2 + 1 + k by omega, Nat.pow_add]
    exact Nat.mul_lt_mul_of_pos_right hHigh (Nat.two_pow_pos k)

/-- With the exponent first lowered as far as needed, the mantissa has bits enough. -/
theorem atLeastOne_normalize {mantissa : Nat} {exponent : Int} (hPos : 0 < mantissa)
    (hOne : 0 ≤ mantissa.log2 + exponent) :
    AtLeastOne (normalize .binary64 mantissa exponent .positive) := by
  have hCompare : compare (mantissa : Int) 0 = .gt := by
    rw [Int.compare_eq_gt]
    omega
  have hTarget : Format.binary64.targetExponent (totalExponent mantissa exponent) =
      exponent + mantissa.log2 - 52 := by
    simp only [Format.targetExponent, totalExponent, Format.mantissaBits, Format.minExponent]
    omega
  unfold UnpackedFloat.normalize UnpackedFloat.round
  rw [hCompare]
  dsimp only [decreaseExponent]
  rw [Int.toNat_natCast, hTarget]
  refine atLeastOne_round _ ?_ ?_
  · rw [log2_shiftLeft hPos]
    omega
  · rw [log2_shiftLeft hPos]
    omega

theorem notNegative_normalize (mantissa : Nat) (exponent : Int) :
    NotNegative (normalize .binary64 mantissa exponent .positive) := by
  unfold UnpackedFloat.normalize
  cases hCompare : compare (mantissa : Int) 0 with
  | lt =>
    rw [Int.compare_eq_lt] at hCompare
    omega
  | eq => exact .zero
  | gt => exact notNegative_round _ _ _

/-! ## In bits and back -/

theorem unpack_pack (x : UnpackedFloat) :
    (Float.Model.pack x).unpack = UnpackedFloat.unpack .binary64 (x.pack .binary64) := by
  simp [Float.Model.unpack, Float.Model.pack]

theorem unpack_packedInfinity (sign : Sign) :
    UnpackedFloat.unpack .binary64 (packedInfinity .binary64 sign) = .infinity sign := by
  simp [UnpackedFloat.unpack, packedInfinity]

/-- The sign is a bit of its own. -/
theorem notNegative_components (exponent : BitVec 11) (mantissa : BitVec 52) :
    NotNegative (UnpackedFloat.unpack .binary64
      (packComponents .binary64 .positive exponent mantissa)) := by
  unfold UnpackedFloat.unpack
  simp only [unpackSign_packComponents, Sign.ofBitVec_toBitVec]
  split
  · split
    · exact .infinity
    · exact .notANumber
  · split
    · split
      · exact .zero
      · exact .finite _ _ _
    · exact .finite _ _ _

/-- A number too large to be packed becomes the infinity of its sign. -/
theorem notNegative_pack {x : UnpackedFloat} (h : NotNegative x) :
    NotNegative (Float.Model.pack x).unpack := by
  rw [unpack_pack]
  cases h with
  | infinity => exact notNegative_components _ _
  | notANumber => exact notNegative_components _ _
  | zero => exact notNegative_components _ _
  | finite mantissa exponent hPos =>
    unfold UnpackedFloat.pack
    dsimp only
    split
    · exact notNegative_components _ _
    · split
      · exact notNegative_components _ _
      · exact notNegative_components _ _

/-- The leading bit of a normal number is not written down. -/
theorem log2_one_append (mantissa : BitVec 52) : (1#1 ++ mantissa).toNat.log2 = 52 := by
  have hHigh : (1#1 ++ mantissa).toNat < 2 ^ 53 := (1#1 ++ mantissa).isLt
  have hLow : 2 ^ 52 ≤ (1#1 ++ mantissa).toNat := by
    rw [BitVec.toNat_append]
    exact Nat.left_le_or
  rw [Nat.log2_eq_iff (by omega)]
  exact ⟨hLow, hHigh⟩

theorem unpack_normal {biased : Nat} (mantissa : BitVec 52) (hPos : 0 < biased)
    (hFits : biased + 1 < 2 ^ 11) :
    ∃ hBits, UnpackedFloat.unpack .binary64
        (packComponents .binary64 .positive (BitVec.ofNat 11 biased) mantissa) =
      .finite .positive (1#1 ++ mantissa).toNat ((biased : Int) - 1075) hBits := by
  have hToNat : (BitVec.ofNat 11 biased).toNat = biased := Nat.mod_eq_of_lt (by omega)
  have hNotOnes : ¬ BitVec.ofNat 11 biased = -1#11 := by
    intro hEq
    have hValue := congrArg BitVec.toNat hEq
    rw [hToNat] at hValue
    have hOnes : (-1#11).toNat = 2047 := rfl
    omega
  have hNotZero : ¬ BitVec.ofNat 11 biased = 0#11 := by
    intro hEq
    have hValue := congrArg BitVec.toNat hEq
    rw [hToNat] at hValue
    exact Nat.ne_of_gt hPos hValue
  refine ⟨by rw [BitVec.toNat_append]; exact Nat.lt_of_lt_of_le (by decide) Nat.left_le_or, ?_⟩
  unfold UnpackedFloat.unpack
  simp only [unpackSign_packComponents, Sign.ofBitVec_toBitVec, unpackExponent_packComponents,
    unpackMantissa_packComponents, hNotOnes, hNotZero, if_false, hToNat]
  rfl

/-- At least one, the exponent is large enough for a normal number. -/
theorem atLeastOne_pack {x : UnpackedFloat} (h : AtLeastOne x) :
    AtLeastOne (Float.Model.pack x).unpack := by
  rw [unpack_pack]
  rcases h with rfl | ⟨mantissa, exponent, hPos, rfl, hBits, hExponent⟩
  · exact .inl (unpack_packedInfinity .positive)
  · have hBias : (Format.binary64.exponentBias : Int) = 1023 := rfl
    have hWidth : (Format.binary64.mantissaBitsWithoutImplicit : Int) = 52 := rfl
    unfold UnpackedFloat.pack
    dsimp only
    rw [hBias, hWidth]
    split
    · exact .inl (unpack_packedInfinity .positive)
    next hFits =>
      rw [if_pos (by rw [hBits]; rfl)]
      obtain ⟨hLeading, hUnpack⟩ := @unpack_normal (exponent + 1023 + 52).toNat
        (BitVec.ofNat 52 mantissa) (by omega) (Nat.lt_of_not_le hFits)
      exact .inr ⟨_, _, hLeading, hUnpack, log2_one_append _, by omega⟩

/-! ## Operations -/

theorem notNegative_mul {x y : UnpackedFloat} (hx : NotNegative x) (hy : NotNegative y) :
    NotNegative (UnpackedFloat.mul .binary64 x y) := by
  cases hx <;> cases hy <;>
    first | exact .infinity | exact .notANumber | exact .zero | exact notNegative_round _ _ _

theorem notNegative_div {x y : UnpackedFloat} (hx : NotNegative x) (hy : NotNegative y) :
    NotNegative (UnpackedFloat.div .binary64 x y) := by
  cases hx <;> cases hy <;>
    first | exact .infinity | exact .notANumber | exact .zero | exact notNegative_round _ _ _

/-- Numbers that are not below zero are added without a sign. -/
theorem add_finite {mantissa mantissa' : Nat} {exponent exponent' : Int} (hPos : 0 < mantissa)
    (hPos' : 0 < mantissa') :
    UnpackedFloat.add .binary64 (.finite .positive mantissa exponent hPos)
        (.finite .positive mantissa' exponent' hPos') =
      normalize .binary64
        ((mantissa <<< (exponent - min exponent exponent').toNat +
          mantissa' <<< (exponent' - min exponent exponent').toNat : Nat) : Int)
        (min exponent exponent') .positive := by
  simp [UnpackedFloat.add, decreaseExponent, Sign.apply]

theorem notNegative_add {x y : UnpackedFloat} (hx : NotNegative x) (hy : NotNegative y) :
    NotNegative (UnpackedFloat.add .binary64 x y) := by
  cases hx with
  | notANumber => exact .notANumber
  | infinity => cases hy <;> first | exact .infinity | exact .notANumber
  | zero =>
    cases hy with
    | infinity => exact .infinity
    | notANumber => exact .notANumber
    | zero => exact .zero
    | finite mantissa' exponent' hPos' => exact .finite _ _ hPos'
  | finite mantissa exponent hPos =>
    cases hy with
    | infinity => exact .infinity
    | notANumber => exact .notANumber
    | zero => exact .finite _ _ hPos
    | finite mantissa' exponent' hPos' =>
      rw [add_finite hPos hPos']
      exact notNegative_normalize _ _

/-- What is added to a number that is at least one does not take it below one again. -/
theorem atLeastOne_add {x y : UnpackedFloat} (hx : AtLeastOne x) (hy : NotNegative y) :
    UnpackedFloat.add .binary64 x y = .notANumber ∨
      AtLeastOne (UnpackedFloat.add .binary64 x y) := by
  rcases hx with rfl | ⟨mantissa, exponent, hPos, rfl, hBits, hExponent⟩
  · cases hy with
    | notANumber => exact .inl rfl
    | infinity => exact .inr (.inl rfl)
    | zero => exact .inr (.inl rfl)
    | finite => exact .inr (.inl rfl)
  · cases hy with
    | notANumber => exact .inl rfl
    | infinity => exact .inr (.inl rfl)
    | zero => exact .inr (.inr ⟨mantissa, exponent, hPos, rfl, hBits, hExponent⟩)
    | finite mantissa' exponent' hPos' =>
      rw [add_finite hPos hPos']
      have hLog := log2_shiftLeft hPos (exponent - min exponent exponent').toNat
      have hSum := log2_le_log2 (shiftLeft_pos hPos (exponent - min exponent exponent').toNat)
        (Nat.le_add_right _ (mantissa' <<< (exponent' - min exponent exponent').toNat))
      refine .inr (atLeastOne_normalize ?_ ?_)
      · exact Nat.add_pos_left (shiftLeft_pos hPos _) _
      · omega

theorem atLeastOne_mul {x y : UnpackedFloat} (hx : AtLeastOne x) (hy : AtLeastOne y) :
    AtLeastOne (UnpackedFloat.mul .binary64 x y) := by
  rcases hx with rfl | ⟨mantissa, exponent, hPos, rfl, hBits, hExponent⟩
  · rcases hy with rfl | ⟨mantissa', exponent', hPos', rfl, hBits', hExponent'⟩
    · exact .inl rfl
    · exact .inl rfl
  · rcases hy with rfl | ⟨mantissa', exponent', hPos', rfl, hBits', hExponent'⟩
    · exact .inl rfl
    · have hProduct : 2 ^ 52 * 2 ^ 52 ≤ mantissa * mantissa' :=
        Nat.mul_le_mul (hBits ▸ Nat.log2_self_le (Nat.ne_of_gt hPos))
          (hBits' ▸ Nat.log2_self_le (Nat.ne_of_gt hPos'))
      have hLog : 104 ≤ (mantissa * mantissa').log2 :=
        (Nat.le_log2 (Nat.ne_of_gt (Nat.mul_pos hPos hPos'))).mpr hProduct
      exact atLeastOne_round _ (by omega) (by omega)

/-! ## Numbers -/

theorem unpack_one : (1 : Float).toModel.unpack =
    .finite .positive (2 ^ 52) (-52) (Nat.two_pow_pos 52) := by
  have hOne : (1 : Float) = Float.ofBits 0x3FF0000000000000 := by decide +kernel
  rw [hOne]
  rfl

theorem atLeastOne_one : AtLeastOne (1 : Float).toModel.unpack :=
  .inr ⟨_, _, _, unpack_one, by decide +kernel, by omega⟩

/-- A small number is converted as a whole, a large one as a scientific literal. -/
theorem ofNat_cases (n : Nat) :
    n < 2 ^ 53 ∧ Float.ofNat n = ⟨.pack (.ofNat .binary64 n)⟩ * 1 ∨
      2 ^ 53 ≤ n ∧ Float.ofNat n = ⟨.pack (.ofScientific .binary64 n 0)⟩ := by
  by_cases hSmall : n < 2 ^ 53
  · refine .inl ⟨hSmall, ?_⟩
    have hOne : (1 : Float) = Float.ofBits 0x3FF0000000000000 := by decide +kernel
    have hToNat : n.toUInt64.toNat = n := by
      simp
      omega
    show Float.ofScientific n false 0 = _
    rw [Float.ofScientific, dif_pos ⟨hSmall, by omega⟩, hOne]
    show n.toUInt64.toFloat * Float.ofBits 0x3FF0000000000000 = _
    rw [UInt64.toFloat, Float.Model.ofUInt64, UnpackedFloat.ofUInt64, hToNat]
  · refine .inr ⟨by omega, ?_⟩
    show Float.ofScientific n false 0 = _
    rw [Float.ofScientific, dif_neg (by omega)]
    rfl

theorem ofScientific_zero {n : Nat} (hPos : 0 < n) :
    UnpackedFloat.ofScientific .binary64 n 0 =
      roundWithAccuracy .binary64 .positive (n <<< 53) (-53) .exact := by
  have hSmall : ¬ (0 : Int) > 2 ^ Format.binary64.exponentBits := by decide
  have hLarge : ¬ (0 : Int) < -((2 ^ Format.binary64.exponentBits : Int) + n.log2) := by
    have hBits : (0 : Int) < 2 ^ Format.binary64.exponentBits := by decide
    omega
  rw [UnpackedFloat.ofScientific, dif_neg (Nat.ne_of_gt hPos), if_neg hSmall, if_neg hLarge,
    if_pos (Int.le_refl 0)]
  show roundWithAccuracy .binary64 .positive (n <<< 53 * 1) (-53 + 0) .exact = _
  rw [Nat.mul_one, Int.add_zero]

theorem notNegative_ofNat (n : Nat) : NotNegative (Float.ofNat n).toModel.unpack := by
  rcases ofNat_cases n with ⟨-, hEq⟩ | ⟨hLarge, hEq⟩
  · rw [hEq]
    refine notNegative_pack (notNegative_mul (notNegative_pack (notNegative_normalize n 0)) ?_)
    exact unpack_one ▸ .finite _ _ _
  · rw [hEq, ofScientific_zero (by omega)]
    exact notNegative_pack (notNegative_round _ _ _)

theorem atLeastOne_ofNat {n : Nat} (hPos : 0 < n) : AtLeastOne (Float.ofNat n).toModel.unpack := by
  rcases ofNat_cases n with ⟨-, hEq⟩ | ⟨hLarge, hEq⟩
  · rw [hEq]
    refine atLeastOne_pack (atLeastOne_mul (atLeastOne_pack ?_) atLeastOne_one)
    exact atLeastOne_normalize hPos (by omega)
  · have hLog := log2_shiftLeft hPos 53
    rw [hEq, ofScientific_zero hPos]
    exact atLeastOne_pack (atLeastOne_round _ (by omega) (by omega))

/-! ## Order -/

theorem le_iff (x y : Float) : x ≤ y ↔ x.toModel.unpack.le y.toModel.unpack = true := by
  show decide (x.toModel ≤ y.toModel) = true ↔ _
  rw [decide_eq_true_iff]
  rfl

theorem one_le {x : Float} (h : AtLeastOne x.toModel.unpack) : 1 ≤ x := by
  rw [le_iff, unpack_one]
  rcases h with hInf | ⟨mantissa, exponent, hPos, hEq, hBits, hExponent⟩
  · rw [hInf]
    rfl
  · rw [hEq]
    have hMantissa : 2 ^ 52 ≤ mantissa := hBits ▸ Nat.log2_self_le (Nat.ne_of_gt hPos)
    show ((compare (-52) exponent).then (compare (2 ^ 52) mantissa)).isLE = true
    rcases hExponent.lt_or_eq with hLt | rfl
    · rw [Int.compare_eq_lt.mpr hLt]
      rfl
    · rw [Int.compare_eq_eq.mpr rfl]
      exact Nat.isLE_compare.mpr hMantissa

theorem ne_notANumber_of_le {x y : Float} (h : x ≤ y) : x.toModel.unpack ≠ .notANumber := by
  intro hNot
  rw [le_iff, hNot] at h
  cases h

end Gatehouse.Binary64

namespace Gatehouse.RateLimiter

open Binary64

theorem notNegative_seconds (d : Nat) : NotNegative (seconds d : Float).toModel.unpack :=
  notNegative_pack (notNegative_add (notNegative_ofNat _)
    (notNegative_pack (notNegative_div (notNegative_ofNat _) (notNegative_ofNat _))))

/-- A fresh bucket holds a token at any instant, whatever is lost to rounding. -/
theorem first_granted {rate : Float} (hRate : NotNegative rate.toModel.unpack)
    (burst created now : Nat) : ((create rate burst created).tryAcquire now).1 = true := by
  have hBurst : AtLeastOne (Float.ofNat (max burst 1)).toModel.unpack :=
    atLeastOne_ofNat (by omega)
  have hIncome : NotNegative (seconds (now - created) * rate : Float).toModel.unpack :=
    notNegative_pack (notNegative_mul (notNegative_seconds _) hRate)
  have hTokens : ((1 : Nat) : Float) ≤ (create rate burst created).refilled now := by
    show (1 : Float) ≤ smaller (Float.ofNat (max burst 1) + seconds (now - created) * rate)
      (Float.ofNat (max burst 1))
    unfold smaller
    split
    next hLe =>
      rcases atLeastOne_add hBurst hIncome with hNot | hSum
      · have hSum : (Float.ofNat (max burst 1) + seconds (now - created) * rate).toModel.unpack =
            .notANumber := by
          show (Float.Model.pack _).unpack = _
          rw [hNot]
          rfl
        exact absurd hSum (ne_notANumber_of_le hLe)
      · exact one_le (atLeastOne_pack hSum)
    next => exact one_le hBurst
  unfold tryAcquire
  rw [if_pos hTokens]

end Gatehouse.RateLimiter
