import RecordSynth.Number.Binary64

/-! Integers as floating-point numbers and back. An integer of up to 53 bits is converted exactly;
a longer one is rounded to as many bits, and what it is rounded to is converted to the same number.
-/

namespace RecordSynth

theorem twoPow_add (i j : Nat) : twoPow (i + j) = twoPow i * twoPow j :=
  Nat.pow_add 2 i j

/-- A product of powers of two with the sum of their exponents at hand. -/
theorem twoPow_mul {i j k : Nat} (sum : i + j = k) : twoPow i * twoPow j = twoPow k := by
  rw [← sum, twoPow_add]

theorem twoPow_le_twoPow {i j : Nat} (le : i ≤ j) : twoPow i ≤ twoPow j :=
  Nat.pow_le_pow_right (by decide) le

namespace Binary64

-----------------------------------------------------------------------------------------
-- The parts of a number
-----------------------------------------------------------------------------------------

/-- The number with a sign and the bits of a magnitude. -/
def signed (negative : Bool) (magnitude : Nat) : Binary64 :=
  ⟨UInt64.ofNat (if negative then twoPow 63 + magnitude else magnitude)⟩

/-- The number nearest to an integer of any size. -/
def ofInt (k : Int) : Binary64 :=
  signed (k < 0) (magnitudeOfNat k.natAbs)

theorem ofInt64_eq (n : Int64) : ofInt64 n = ofInt n.toInt := by
  simp [ofInt64, ofInt, signed]

section Parts

variable {negative : Bool} {magnitude : Nat}

theorem toNat_signed (inRange : magnitude < twoPow 63)
    : (signed negative magnitude).bits.toNat
      = if negative then twoPow 63 + magnitude else magnitude := by
  have limit : twoPow 63 = 9223372036854775808 := by decide
  rw [signed, UInt64.toNat_ofNat_of_lt']
  rw [limit] at inRange ⊢
  split <;> simp only [UInt64.size] <;> omega

theorem isNegative_signed (inRange : magnitude < twoPow 63)
    : (signed negative magnitude).isNegative = negative := by
  rw [isNegative, toNat_signed inRange]
  cases negative <;> simp [inRange]

theorem magnitudeBits_signed (inRange : magnitude < twoPow 63)
    : (signed negative magnitude).magnitudeBits = magnitude := by
  rw [magnitudeBits, toNat_signed inRange]
  cases negative <;> simp [Nat.mod_eq_of_lt inRange]

/-- The exponent and the fraction are those of the magnitude. -/
theorem exponentBits_eq (x : Binary64) : x.exponentBits = x.magnitudeBits / twoPow 52 := by
  have limit : twoPow 63 = 9223372036854775808 := by decide
  have unit : twoPow 52 = 4503599627370496 := by decide
  have exponents : twoPow 11 = 2048 := by decide
  rw [exponentBits, magnitudeBits, limit, unit, exponents]
  omega

theorem fraction_eq (x : Binary64) : x.fraction = x.magnitudeBits % twoPow 52 := by
  have limit : twoPow 63 = 9223372036854775808 := by decide
  have unit : twoPow 52 = 4503599627370496 := by decide
  rw [fraction, magnitudeBits, limit, unit]
  omega

end Parts

theorem neg_le_exponent (x : Binary64) : -1074 ≤ x.exponent := by
  unfold exponent
  split <;> omega

/-- A finite number is an integer if that is its significand times the power of two. -/
theorem toInt?_of_value {x : Binary64} {n : Nat} (finite : x.exponentBits ≠ 2047)
    (value : n * twoPow 1074 = x.significand * twoPow (x.exponent + 1074).toNat)
    : x.toInt? = some (if x.isNegative then -(n : Int) else n) := by
  have notSpecial : x.isSpecial = false := beq_false_of_ne finite
  have low := x.neg_le_exponent
  rw [toInt?, notSpecial]
  simp only [Bool.false_eq_true, ↓reduceIte]
  split
  · next whole =>
    have power : (x.exponent + 1074).toNat = x.exponent.toNat + 1074 := by
      omega
    rw [power, twoPow_add, ← Nat.mul_assoc] at value
    rw [Nat.eq_of_mul_eq_mul_right (twoPow_pos _) value]
  · next fractional =>
    have power : (-x.exponent).toNat + (x.exponent + 1074).toNat = 1074 := by
      omega
    rw [← twoPow_mul power, ← Nat.mul_assoc] at value
    rw [← Nat.eq_of_mul_eq_mul_right (twoPow_pos _) value, Nat.mul_mod_left,
      Nat.mul_div_cancel _ (twoPow_pos _), if_pos rfl]

/-- Zeros of either sign are the integer zero. -/
theorem toInt?_of_isZero {x : Binary64} (zero : x.isZero = true) : x.toInt? = some 0 := by
  have noBits : x.magnitudeBits = 0 := by
    simpa [isZero] using zero
  have exponentBits : x.exponentBits = 0 := by
    rw [exponentBits_eq, noBits, Nat.zero_div]
  have significand : x.significand = 0 := by
    rw [Binary64.significand, if_pos exponentBits, fraction_eq, noBits, Nat.zero_mod]
  have isValue := @toInt?_of_value x 0 (by simp [exponentBits]) (by simp [significand])
  simpa using isValue

/-- Equal numbers are the same integer. -/
theorem toInt?_congr {x y : Binary64} (equal : x.equals y = true) : x.toInt? = y.toInt? := by
  simp only [equals, Bool.and_eq_true, Bool.or_eq_true, beq_iff_eq] at equal
  rcases equal.2 with rfl | ⟨zeroX, zeroY⟩
  · rfl
  · rw [toInt?_of_isZero zeroX, toInt?_of_isZero zeroY]

-----------------------------------------------------------------------------------------
-- Rounding to 53 bits
-----------------------------------------------------------------------------------------

/-- The 53 bits that a natural number is rounded to, as a number from two to the power 52 on. -/
def leading (n : Nat) : Nat :=
  if n.log2 ≤ 52 then n * twoPow (52 - n.log2) else shiftRounded n (n.log2 - 52)

/-- The natural number that a natural number is rounded to. -/
def roundedNat (n : Nat) : Nat :=
  if n.log2 ≤ 52 then n else leading n * twoPow (n.log2 - 52)

theorem magnitudeOfNat_eq {n : Nat} (pos : n ≠ 0)
    : magnitudeOfNat n = (n.log2 + 1022) * twoPow 52 + leading n := by
  rw [magnitudeOfNat, if_neg pos]
  rfl

theorem shiftRounded_cases (n k : Nat)
    : shiftRounded n k = n / twoPow k ∨ shiftRounded n k = n / twoPow k + 1 := by
  unfold shiftRounded
  dsimp only
  split
  · exact Or.inl rfl
  · split
    · exact Or.inr rfl
    · split
      · exact Or.inl rfl
      · exact Or.inr rfl

/-- Multiples of the unit are not rounded. -/
theorem shiftRounded_mul (m k : Nat) : shiftRounded (m * twoPow k) k = m := by
  have pos := twoPow_pos k
  unfold shiftRounded
  dsimp only
  rw [Nat.mul_mod_left, Nat.mul_div_cancel _ pos, if_pos (by omega)]

theorem log2_bounds {n : Nat} (pos : n ≠ 0) : twoPow n.log2 ≤ n ∧ n < twoPow (n.log2 + 1) :=
  ⟨Nat.log2_self_le pos, Nat.lt_log2_self⟩

theorem log2_eq_of_bounds {n k : Nat} (low : twoPow k ≤ n) (high : n < twoPow (k + 1))
    : n.log2 = k := by
  have pos : n ≠ 0 := Nat.ne_of_gt (Nat.lt_of_lt_of_le (twoPow_pos k) low)
  exact (Nat.log2_eq_iff pos).mpr ⟨low, high⟩

/-- A short number fills 53 bits with zeros, which is exact. -/
theorem leading_of_short {n : Nat} (pos : n ≠ 0) (short : n.log2 ≤ 52)
    : leading n = n * twoPow (52 - n.log2) ∧ twoPow 52 ≤ leading n ∧ leading n < twoPow 53 := by
  obtain ⟨low, high⟩ := log2_bounds pos
  have isLeading : leading n = n * twoPow (52 - n.log2) := by
    rw [leading, if_pos short]
  have unit : twoPow n.log2 * twoPow (52 - n.log2) = twoPow 52 := twoPow_mul (by omega)
  have limit : twoPow (n.log2 + 1) * twoPow (52 - n.log2) = twoPow 53 := twoPow_mul (by omega)
  rw [isLeading, ← unit, ← limit]
  exact ⟨rfl, Nat.mul_le_mul_right _ low, Nat.mul_lt_mul_of_pos_right high (twoPow_pos _)⟩

/-- A long number is rounded to 53 bits or up to the power of two behind these. -/
theorem leading_of_long {n : Nat} (pos : n ≠ 0) (long : 52 < n.log2)
    : twoPow 52 ≤ leading n ∧ leading n ≤ twoPow 53 := by
  obtain ⟨low, high⟩ := log2_bounds pos
  have unit := twoPow_pos (n.log2 - 52)
  have quotientLow : twoPow 52 ≤ n / twoPow (n.log2 - 52) := by
    rw [Nat.le_div_iff_mul_le unit, ← twoPow_add]
    exact Nat.le_trans (twoPow_le_twoPow (by omega)) low
  have quotientHigh : n / twoPow (n.log2 - 52) < twoPow 53 := by
    rw [Nat.div_lt_iff_lt_mul unit, ← twoPow_add]
    exact Nat.lt_of_lt_of_le high (twoPow_le_twoPow (by omega))
  rw [leading, if_neg (Nat.not_le_of_lt long)]
  rcases shiftRounded_cases n (n.log2 - 52) with down | up
  · omega
  · omega

/-- `e` and `s` are the exponent bits less one and the significand of a natural number. -/
structure HasParts (n e s : Nat) : Prop where
  least : twoPow 52 ≤ s
  most : s < twoPow 53
  exponent : 1022 ≤ e
  value : n * twoPow 1074 = s * twoPow e

/-- What a number is rounded to has the parts that the bits tell. -/
theorem exists_parts {n : Nat} (pos : n ≠ 0)
    : ∃ e s,
        HasParts (roundedNat n) e s
        ∧ magnitudeOfNat n = e * twoPow 52 + s
        ∧ e ≤ n.log2 + 1023 := by
  rw [magnitudeOfNat_eq pos]
  by_cases short : n.log2 ≤ 52
  · have unit : 1074 = 52 - n.log2 + (n.log2 + 1022) := by
      omega
    obtain ⟨isLeading, least, most⟩ := leading_of_short pos short
    refine ⟨n.log2 + 1022, leading n, ⟨least, most, Nat.le_add_left _ _, ?_⟩, rfl,
      Nat.add_le_add_left (by decide) _⟩
    rw [roundedNat, if_pos short, isLeading, Nat.mul_assoc, ← twoPow_add, ← unit]
  · have long : 52 < n.log2 := Nat.lt_of_not_le short
    have power : n.log2 - 52 + 1074 = n.log2 + 1022 := by
      omega
    obtain ⟨least, most⟩ := leading_of_long pos long
    rw [roundedNat, if_neg short]
    rcases Nat.lt_or_eq_of_le most with below | carried
    · refine ⟨n.log2 + 1022, leading n, ⟨least, below, Nat.le_add_left _ _, ?_⟩, rfl,
        Nat.add_le_add_left (by decide) _⟩
      rw [Nat.mul_assoc, ← twoPow_add, power]
    -- A significand that is rounded up to the next power of two carries into the exponent.
    · have half : twoPow 53 = twoPow 52 * twoPow 1 := by decide
      have twice : twoPow 53 = twoPow 52 + twoPow 52 := by decide
      refine ⟨n.log2 + 1023, twoPow 52, ⟨Nat.le_refl _, by decide, ?_, ?_⟩, ?_, Nat.le_refl _⟩
      · exact Nat.le_trans (by decide) (Nat.le_add_left 1023 _)
      · rw [carried, Nat.mul_assoc, ← twoPow_add, power, half, Nat.mul_assoc, ← twoPow_add,
          Nat.add_comm 1]
      · rw [carried, twice, ← Nat.add_assoc, ← Nat.succ_mul]

/-- A number with parts is not rounded. -/
theorem HasParts.magnitudeOfNat {n e s : Nat} (parts : HasParts n e s)
    : Binary64.magnitudeOfNat n = e * twoPow 52 + s := by
  obtain ⟨least, most, exponent, value⟩ := parts
  obtain ⟨t, rfl⟩ := Nat.exists_eq_add_of_le' exponent
  have power (k : Nat) : t + k + 1074 = 52 + k + (t + 1022) := by
    clear value
    omega
  have bits (k : Nat) : twoPow (t + k) * twoPow 1074 = twoPow (52 + k) * twoPow (t + 1022) := by
    rw [twoPow_mul (power k), twoPow_add]
  have low : twoPow t ≤ n := by
    refine Nat.le_of_mul_le_mul_right ?_ (twoPow_pos 1074)
    rw [value]
    exact Nat.le_trans (Nat.le_of_eq (bits 0)) (Nat.mul_le_mul_right _ least)
  have high : n < twoPow (t + 1) := by
    refine Nat.lt_of_mul_lt_mul_right (a := twoPow 1074) ?_
    rw [value, bits]
    exact Nat.mul_lt_mul_of_pos_right most (twoPow_pos _)
  have top : n.log2 = t := log2_eq_of_bounds low high
  have isLeading : leading n = s := by
    unfold leading
    rw [top]
    split
    · next short =>
      have unit : 1074 = 52 - t + (t + 1022) := by
        omega
      rw [unit, twoPow_add, ← Nat.mul_assoc] at value
      exact Nat.eq_of_mul_eq_mul_right (twoPow_pos _) value
    · next long =>
      have power : t + 1022 = t - 52 + 1074 := by
        omega
      rw [power, twoPow_add, ← Nat.mul_assoc] at value
      rw [Nat.eq_of_mul_eq_mul_right (twoPow_pos _) value, shiftRounded_mul]
  rw [magnitudeOfNat_eq (Nat.ne_of_gt (Nat.lt_of_lt_of_le (twoPow_pos t) low)), top, isLeading]

/-- What has been rounded is converted to the same number. -/
theorem magnitudeOfNat_roundedNat (n : Nat)
    : magnitudeOfNat (roundedNat n) = magnitudeOfNat n := by
  rcases Nat.eq_zero_or_pos n with rfl | pos
  · rfl
  · obtain ⟨e, s, parts, isMagnitude, -⟩ := exists_parts (Nat.ne_of_gt pos)
    rw [parts.magnitudeOfNat, isMagnitude]

theorem roundedNat_pos {n : Nat} (pos : 0 < n) : 0 < roundedNat n := by
  refine Nat.pos_of_ne_zero ?_
  intro zero
  have same := magnitudeOfNat_roundedNat n
  rw [zero, magnitudeOfNat_eq (Nat.ne_of_gt pos)] at same
  have positive : 0 < (n.log2 + 1022) * twoPow 52 :=
    Nat.mul_pos (Nat.succ_pos _) (twoPow_pos 52)
  have none : magnitudeOfNat 0 = 0 := rfl
  omega

/-- A number of up to 53 bits, and the power of two behind these, is not rounded. -/
theorem roundedNat_of_le {n : Nat} (small : n ≤ twoPow 53) : roundedNat n = n := by
  rcases Nat.lt_or_eq_of_le small with below | rfl
  · rw [roundedNat, if_pos]
    rcases Nat.eq_zero_or_pos n with rfl | pos
    · decide
    · exact Nat.le_of_lt_succ ((Nat.log2_lt (Nat.ne_of_gt pos)).mpr below)
  · decide

theorem log2_le {n : Nat} (inRange : n ≤ twoPow 63) : n.log2 ≤ 63 := by
  rcases Nat.eq_zero_or_pos n with rfl | pos
  · decide
  · exact Nat.le_of_lt_succ
      ((Nat.log2_lt (Nat.ne_of_gt pos)).mpr (Nat.lt_of_le_of_lt inRange (by decide)))

theorem roundedNat_le {n : Nat} (inRange : n ≤ twoPow 63) : roundedNat n ≤ twoPow 63 := by
  by_cases short : n.log2 ≤ 52
  · rwa [roundedNat, if_pos short]
  rcases Nat.lt_or_eq_of_le inRange with below | rfl
  · have pos : n ≠ 0 := by
      rintro rfl
      exact short (by decide)
    have top : n.log2 < 63 := (Nat.log2_lt pos).mpr below
    obtain ⟨-, most⟩ := leading_of_long pos (Nat.lt_of_not_le short)
    rw [roundedNat, if_neg short]
    refine Nat.le_trans (Nat.mul_le_mul_right _ most) ?_
    rw [← twoPow_add]
    exact twoPow_le_twoPow (by omega)
  · decide

theorem magnitudeOfNat_lt {n : Nat} (inRange : n ≤ twoPow 63) : magnitudeOfNat n < twoPow 63 := by
  rcases Nat.eq_zero_or_pos n with rfl | pos
  · decide
  · obtain ⟨e, s, parts, isMagnitude, few⟩ := exists_parts (Nat.ne_of_gt pos)
    have top := log2_le inRange
    have limit : twoPow 63 = 2048 * twoPow 52 := by decide
    have twice : twoPow 53 = 2 * twoPow 52 := by decide
    have most := parts.most
    have exponents : e * twoPow 52 ≤ 1086 * twoPow 52 := Nat.mul_le_mul_right _ (by omega)
    omega

-----------------------------------------------------------------------------------------
-- Converted integers
-----------------------------------------------------------------------------------------

/-- The parts of a magnitude are the exponent and the significand of the number. -/
theorem parts_of_magnitude {x : Binary64} {e s : Nat} (least : twoPow 52 ≤ s) (most : s < twoPow 53)
    (isMagnitude : x.magnitudeBits = e * twoPow 52 + s)
    : x.exponentBits = e + 1 ∧ x.significand = s ∧ x.exponent = (e : Int) - 1074 := by
  have unit := twoPow_pos 52
  have twice : twoPow 53 = 2 * twoPow 52 := by decide
  have split : x.magnitudeBits = s - twoPow 52 + (e + 1) * twoPow 52 := by
    rw [isMagnitude, Nat.succ_mul]
    omega
  have below : s - twoPow 52 < twoPow 52 := by
    omega
  have exponentBits : x.exponentBits = e + 1 := by
    rw [exponentBits_eq, split, Nat.add_mul_div_right _ _ unit, Nat.div_eq_of_lt below,
      Nat.zero_add]
  have fraction : x.fraction = s - twoPow 52 := by
    rw [fraction_eq, split, Nat.add_mul_mod_self_right, Nat.mod_eq_of_lt below]
  refine ⟨exponentBits, ?_, ?_⟩
  · rw [significand, if_neg (by omega), fraction]
    omega
  · rw [exponent, if_neg (by omega), exponentBits]
    omega

/-- A converted number is the integer that it has been rounded to. -/
theorem toInt?_signed (negative : Bool) {n : Nat} (inRange : n ≤ twoPow 63)
    : (signed negative (magnitudeOfNat n)).toInt?
      = some (if negative then -(roundedNat n : Int) else roundedNat n) := by
  have inBits := magnitudeOfNat_lt inRange
  have isMagnitude : (signed negative (magnitudeOfNat n)).magnitudeBits = magnitudeOfNat n :=
    magnitudeBits_signed inBits
  rcases Nat.eq_zero_or_pos n with rfl | pos
  · have zero : (signed negative (magnitudeOfNat 0)).isZero = true :=
      beq_iff_eq.mpr isMagnitude
    rw [toInt?_of_isZero zero]
    cases negative <;> rfl
  obtain ⟨e, s, parts, sameBits, few⟩ := exists_parts (Nat.ne_of_gt pos)
  have top := log2_le inRange
  obtain ⟨exponentBits, significand, exponent⟩ :=
    parts_of_magnitude parts.least parts.most (isMagnitude.trans sameBits)
  have power : ((signed negative (magnitudeOfNat n)).exponent + 1074).toNat = e := by
    omega
  have value := parts.value
  rw [← power, ← significand] at value
  rw [toInt?_of_value (by omega) value, isNegative_signed inBits]

/-- The integer that an integer is rounded to. -/
def rounded (k : Int) : Int :=
  if k < 0 then -(roundedNat k.natAbs : Int) else roundedNat k.natAbs

section Integers

variable {k : Int}

theorem toInt?_ofInt (inRange : k.natAbs ≤ twoPow 63) : (ofInt k).toInt? = some (rounded k) := by
  rw [ofInt, toInt?_signed _ inRange, rounded]
  simp

theorem natAbs_rounded (k : Int) : (rounded k).natAbs = roundedNat k.natAbs := by
  rw [rounded]
  split <;> omega

/-- What has been rounded is converted to the same number. -/
theorem ofInt_rounded (k : Int) : ofInt (rounded k) = ofInt k := by
  have sameSign : (decide (rounded k < 0)) = decide (k < 0) := by
    rw [rounded]
    split
    · next negative =>
      have pos : 0 < roundedNat k.natAbs := roundedNat_pos (by omega)
      simp [negative, pos]
    · next positive =>
      simp [positive]
  rw [ofInt, sameSign, natAbs_rounded, magnitudeOfNat_roundedNat, ofInt]

theorem rounded_of_le (small : k.natAbs ≤ twoPow 53) : rounded k = k := by
  rw [rounded, roundedNat_of_le small]
  split <;> omega

theorem natAbs_toInt_le (n : Int64) : n.toInt.natAbs ≤ twoPow 63 := by
  have limit : twoPow 63 = 9223372036854775808 := by decide
  have low := n.le_toInt
  have high := n.toInt_lt
  omega

/-- An integer of 64 bits is the nearest one to itself. -/
theorem clampInt64_eq (low : -9223372036854775808 ≤ k) (high : k < 9223372036854775808)
    : clampInt64 k = Int64.ofInt k := by
  have least : Int64.minValue.toInt = -9223372036854775808 := by decide
  have greatest : Int64.maxValue.toInt = 9223372036854775807 := by decide
  rw [clampInt64, least, greatest, Int.min_eq_left (by omega), Int.max_eq_right low]

/-- The power of two behind the greatest integer of 64 bits is what that one is rounded to. -/
theorem ofInt64_clampInt64 (inRange : k.natAbs ≤ twoPow 63)
    : ofInt64 (clampInt64 k) = ofInt k := by
  have limit : twoPow 63 = 9223372036854775808 := by decide
  rw [limit] at inRange
  by_cases behind : k = 9223372036854775808
  · subst behind
    decide
  · have low : -9223372036854775808 ≤ k := by
      omega
    have high : k < 9223372036854775808 := by
      omega
    rw [ofInt64_eq, clampInt64_eq low high, Int64.toInt_ofInt_of_le low high]

end Integers

-----------------------------------------------------------------------------------------
-- Numbers that count as integers
-----------------------------------------------------------------------------------------

section Counting

variable {x y : Binary64}

theorem isNaN_of_toInt? {k : Int} (isValue : x.toInt? = some k) : x.isNaN = false := by
  unfold toInt? at isValue
  split at isValue
  · cases isValue
  · next finite => simp [isNaN, finite]

/-- Equal numbers are equal to the same numbers. -/
theorem equals_congr (equal : x.equals y = true) (z : Binary64) : z.equals x = z.equals y := by
  simp only [equals, Bool.and_eq_true, Bool.or_eq_true, beq_iff_eq, Bool.not_eq_true'] at equal
  obtain ⟨⟨realX, realY⟩, rfl | ⟨zeroX, zeroY⟩⟩ := equal
  · rfl
  · have only {w : Binary64} (zero : w.isZero = true)
        : (z == w || (z.isZero && w.isZero)) = z.isZero := by
      by_cases same : z = w
      · simp [same, zero]
      · simp [beq_false_of_ne same, zero]
    rw [equals, equals, realX, realY, only zeroX, only zeroY]

/-- Equal numbers count as the same integer. -/
theorem toInt64?_congr (equal : x.equals y = true) : x.toInt64? = y.toInt64? := by
  unfold toInt64?
  rw [toInt?_congr equal]
  simp only [equals_congr equal]

theorem toInt64?_of_isZero (zero : x.isZero = true) : x.toInt64? = some 0 := by
  have real := isNaN_of_toInt? (toInt?_of_isZero zero)
  have clamped : clampInt64 0 = 0 := by decide
  have equal : (ofInt64 0).equals x = true := by
    have realZero : (ofInt64 0).isNaN = false := by decide
    have isZero : (ofInt64 0).isZero = true := by decide
    simp [equals, real, realZero, zero, isZero]
  rw [toInt64?, toInt?_of_isZero zero]
  dsimp only
  rw [clamped, if_pos equal]

/-- A converted integer counts as the nearest one of 64 bits to what it has been rounded to. -/
theorem toInt64?_ofInt64 (n : Int64)
    : (ofInt64 n).toInt64? = some (clampInt64 (rounded n.toInt)) := by
  have inRange := natAbs_toInt_le n
  have value : (ofInt64 n).toInt? = some (rounded n.toInt) := by
    rw [ofInt64_eq, toInt?_ofInt inRange]
  have back : ofInt64 (clampInt64 (rounded n.toInt)) = ofInt64 n := by
    have stillInRange : (rounded n.toInt).natAbs ≤ twoPow 63 := by
      rw [natAbs_rounded]
      exact roundedNat_le inRange
    rw [ofInt64_clampInt64 stillInRange, ofInt_rounded, ofInt64_eq]
  have equal : (ofInt64 n).equals (ofInt64 n) = true := by
    simp [equals, isNaN_of_toInt? value]
  rw [toInt64?, value]
  dsimp only
  rw [back, if_pos equal]

/-- Integers of up to 53 bits, and the power of two behind these, are what their float counts as. -/
theorem toInt64?_ofInt64_of_le {n : Int64} (small : n.toInt.natAbs ≤ twoPow 53)
    : (ofInt64 n).toInt64? = some n := by
  rw [toInt64?_ofInt64, rounded_of_le small, clampInt64_eq n.le_toInt n.toInt_lt,
    Int64.ofInt_toInt]

end Counting

end Binary64

end RecordSynth
