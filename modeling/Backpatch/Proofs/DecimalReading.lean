import Backpatch.Document.Double

/-!
# Written doubles are read back

The literal of a finite double is read as the same double.  Rounding looks only at the value of a
quotient, so digits may be moved between the numerator and the power of ten, and powers that are far
out of range would not have been rounded differently.  The search for a short decimal keeps only
decimals that are read as the double, and the exact value, which is taken if nothing is found, is
its own nearest double.
-/

namespace Backpatch

theorem roundDiv_mul_left {factor : Nat} (positive : 0 < factor) (numerator denominator : Nat) :
    roundDiv (factor * numerator) (factor * denominator) = roundDiv numerator denominator := by
  have less : 2 * (factor * (numerator % denominator)) < factor * denominator ↔
      2 * (numerator % denominator) < denominator := by
    rw [Nat.mul_left_comm, Nat.mul_lt_mul_left positive]
  have same : 2 * (factor * (numerator % denominator)) = factor * denominator ↔
      2 * (numerator % denominator) = denominator := by
    rw [Nat.mul_left_comm, Nat.mul_right_inj (Nat.ne_of_gt positive)]
  unfold roundDiv
  simp only [Nat.mul_div_mul_left _ _ positive, Nat.mul_mod_mul_left, less, same]

theorem roundDiv_one (number : Nat) : roundDiv number 1 = number := by
  simp [roundDiv, Nat.mod_one]

theorem roundDiv_eq_zero {numerator denominator : Nat} (small : 2 * numerator < denominator) :
    roundDiv numerator denominator = 0 := by
  have less : numerator < denominator := by omega
  simp only [roundDiv, Nat.div_eq_of_lt less, Nat.mod_eq_of_lt less, small, true_or, if_true]

theorem div_le_roundDiv (numerator denominator : Nat) :
    numerator / denominator ≤ roundDiv numerator denominator := by
  unfold roundDiv
  dsimp only
  split
  · exact Nat.le_refl _
  · exact Nat.le_succ _

namespace Double

/-- Rounding looks only at the value of a quotient. -/
theorem nearestMagnitude_mul_left {factor : Nat} (positive : 0 < factor)
    (numerator denominator : Nat) :
    nearestMagnitude (factor * numerator) (factor * denominator) =
      nearestMagnitude numerator denominator := by
  unfold nearestMagnitude
  simp only [Nat.mul_assoc, Nat.mul_div_mul_left _ _ positive, roundDiv_mul_left positive]

/-- A quotient of less than half a unit is nearest to zero. -/
theorem nearestMagnitude_eq_zero {numerator denominator : Nat}
    (small : 2 * (numerator * Nat.pow 2 1074) < denominator) :
    nearestMagnitude numerator denominator = 0 := by
  have none : numerator * Nat.pow 2 1074 / denominator = 0 :=
    Nat.div_eq_of_lt (Nat.lt_of_le_of_lt (Nat.le_mul_of_pos_left _ (by decide)) small)
  have one : Nat.pow 2 0 = 1 := rfl
  unfold nearestMagnitude
  simp only [none, Nat.log2_zero, Nat.zero_sub, Nat.zero_mul, Nat.zero_add, one, Nat.mul_one]
  exact roundDiv_eq_zero small

/-- From `2 ^ 2098` units on, quotients are nearest to an infinity. -/
theorem infinityMagnitude_le_of_log2 {units denominator : Nat}
    (large : 1024 + 1074 ≤ (units / denominator).log2) :
    infinityMagnitude ≤ ((units / denominator).log2 - 52) * Nat.pow 2 52 +
      roundDiv units (denominator * Nat.pow 2 ((units / denominator).log2 - 52)) := by
  have notZero : units / denominator ≠ 0 := by
    intro zero
    rw [zero, Nat.log2_zero] at large
    omega
  have positive : 0 < Nat.pow 2 ((units / denominator).log2 - 52) := Nat.pow_pos (by decide)
  have rounded : Nat.pow 2 52 ≤
      roundDiv units (denominator * Nat.pow 2 ((units / denominator).log2 - 52)) := by
    refine Nat.le_trans ?_ (div_le_roundDiv _ _)
    rw [← Nat.div_div_eq_div_mul, Nat.le_div_iff_mul_le positive]
    calc Nat.pow 2 52 * Nat.pow 2 ((units / denominator).log2 - 52)
        = Nat.pow 2 (units / denominator).log2 := by
          rw [Nat.pow_eq, Nat.pow_eq, ← Nat.pow_add, Nat.add_sub_cancel' (by omega)]
          rfl
      _ ≤ units / denominator := Nat.log2_self_le notZero
  have spacing : 2046 * Nat.pow 2 52 ≤ ((units / denominator).log2 - 52) * Nat.pow 2 52 :=
    Nat.mul_le_mul_right _ (by omega)
  have whole : infinityMagnitude = 2046 * Nat.pow 2 52 + Nat.pow 2 52 := rfl
  omega

theorem add_le_log2_div {numerator denominator exponent : Nat} (positive : 0 < denominator)
    (large : Nat.pow 2 exponent * denominator ≤ numerator) (more : Nat) :
    exponent + more ≤ (numerator * Nat.pow 2 more / denominator).log2 := by
  have quotient : 2 ^ (exponent + more) ≤ numerator * Nat.pow 2 more / denominator := by
    rw [Nat.le_div_iff_mul_le positive, Nat.pow_add, Nat.mul_right_comm]
    exact Nat.mul_le_mul_right _ large
  have notZero : numerator * Nat.pow 2 more / denominator ≠ 0 :=
    Nat.ne_of_gt (Nat.lt_of_lt_of_le (Nat.pow_pos (by decide)) quotient)
  exact (Nat.le_log2 notZero).mpr quotient

/-- From `2 ^ 1024` on, quotients are nearest to an infinity. -/
theorem infinityMagnitude_le {numerator denominator : Nat} (positive : 0 < denominator)
    (large : Nat.pow 2 1024 * denominator ≤ numerator) :
    infinityMagnitude ≤ nearestMagnitude numerator denominator := by
  have above := add_le_log2_div positive large 1074
  exact @infinityMagnitude_le_of_log2 (numerator * Nat.pow 2 1074) denominator above

/-- What a finite magnitude is rounded to. -/
def ofMagnitude? (negative : Bool) (magnitude : Nat) : Option Double :=
  if magnitude < infinityMagnitude then some (ofParts negative magnitude) else none

end Double

namespace Decimal

/-- The number of the double nearest to a decimal, counted from zero upward. -/
def nearest (decimal : Decimal) : Nat :=
  Double.nearestMagnitude (decimal.digits * Nat.pow 10 decimal.power.toNat)
    (Nat.pow 10 (-decimal.power).toNat)

/-- A factor of ten may be moved from the digits to the power. -/
theorem nearest_mul_ten (digits : Nat) (power : Int) :
    nearest ⟨digits * 10, power⟩ = nearest ⟨digits, power + 1⟩ := by
  unfold nearest
  dsimp only
  by_cases negative : power < 0
  · have noPower : power.toNat = 0 ∧ (power + 1).toNat = 0 := by omega
    have less : (-power).toNat = (-(power + 1)).toNat + 1 := by omega
    have one : Nat.pow 10 0 = 1 := rfl
    have more (exponent : Nat) : Nat.pow 10 (exponent + 1) = 10 * Nat.pow 10 exponent :=
      Nat.mul_comm _ _
    rw [noPower.1, noPower.2, less, one, Nat.mul_one, Nat.mul_one, more, Nat.mul_comm digits,
      Double.nearestMagnitude_mul_left (by decide)]
  · have noPower : (-power).toNat = 0 ∧ (-(power + 1)).toNat = 0 := by omega
    have more : (power + 1).toNat = power.toNat + 1 := by omega
    have next : Nat.pow 10 (power.toNat + 1) = 10 * Nat.pow 10 power.toNat := Nat.mul_comm _ _
    rw [noPower.1, noPower.2, more, next, Nat.mul_assoc]

theorem nearest_mul_pow (digits : Nat) (power : Int) (count : Nat) :
    nearest ⟨digits * Nat.pow 10 count, power⟩ = nearest ⟨digits, power + count⟩ := by
  induction count generalizing power with
  | zero =>
      have none : power + ((0 : Nat) : Int) = power := by omega
      rw [none]
      exact congrArg (fun digits => nearest ⟨digits, power⟩) (Nat.mul_one digits)
  | succ count ih =>
      have next : digits * Nat.pow 10 (count + 1) = digits * Nat.pow 10 count * 10 :=
        (Nat.mul_assoc _ _ _).symm
      have sum : power + 1 + (count : Int) = power + ((count + 1 : Nat) : Int) := by omega
      rw [next, nearest_mul_ten, ih, sum]

theorem pow_ten_le {low high : Nat} (le : low ≤ high) : Nat.pow 10 low ≤ Nat.pow 10 high :=
  Nat.pow_le_pow_right (by decide) le

/-- A decimal that is too small to be computed is nearest to zero. -/
theorem nearest_eq_zero {decimal : Decimal}
    (small : decimal.digits = 0 ∨ decimal.power < -((decimal.digits.log2 : Int) + 401)) :
    decimal.nearest = 0 := by
  apply Double.nearestMagnitude_eq_zero
  obtain ⟨digits, power⟩ := decimal
  dsimp only at small ⊢
  have enough : 4 * Nat.pow 2 1074 < Nat.pow 10 402 := by decide +kernel
  generalize Nat.pow 2 1074 = unit at enough ⊢
  rcases small with rfl | low
  · rw [Nat.zero_mul, Nat.zero_mul]
    exact Nat.pow_pos (by decide)
  · have noPower : power.toNat = 0 := by omega
    have one : Nat.pow 10 0 = 1 := rfl
    have far : digits.log2 + 402 ≤ (-power).toNat := by omega
    generalize 402 = zeros at enough far
    have bound : digits ≤ 2 ^ digits.log2 * 2 := Nat.le_of_lt Nat.lt_log2_self
    have atLeast : 2 ^ digits.log2 ≤ Nat.pow 10 digits.log2 :=
      Nat.pow_le_pow_left (by decide) _
    rw [noPower, one, Nat.mul_one]
    calc 2 * (digits * unit) = digits * (2 * unit) := Nat.mul_left_comm _ _ _
      _ ≤ 2 ^ digits.log2 * 2 * (2 * unit) := Nat.mul_le_mul_right _ bound
      _ = 2 ^ digits.log2 * (4 * unit) := by rw [Nat.mul_assoc, ← Nat.mul_assoc 2 2]
      _ < Nat.pow 10 digits.log2 * Nat.pow 10 zeros :=
          Nat.mul_lt_mul_of_le_of_lt atLeast enough (Nat.pow_pos (by decide))
      _ = Nat.pow 10 (digits.log2 + zeros) := (Nat.pow_add 10 _ _).symm
      _ ≤ Nat.pow 10 (-power).toNat := pow_ten_le far

/-- A decimal that is too large to be computed is nearest to an infinity. -/
theorem infinityMagnitude_le_nearest {decimal : Decimal} (notZero : decimal.digits ≠ 0)
    (large : 309 < decimal.power) : Double.infinityMagnitude ≤ decimal.nearest := by
  have noPower : (-decimal.power).toNat = 0 := by omega
  have far : 310 ≤ decimal.power.toNat := by omega
  have one : Nat.pow 10 0 = 1 := rfl
  unfold nearest
  rw [noPower, one]
  refine Double.infinityMagnitude_le (by decide) ?_
  have enough : Nat.pow 2 1024 * 1 < Nat.pow 10 310 := by decide +kernel
  generalize 310 = zeros at enough far
  calc Nat.pow 2 1024 * 1 ≤ Nat.pow 10 zeros := Nat.le_of_lt enough
    _ ≤ Nat.pow 10 decimal.power.toNat := pow_ten_le far
    _ ≤ decimal.digits * Nat.pow 10 decimal.power.toNat :=
        Nat.le_mul_of_pos_left _ (Nat.pos_of_ne_zero notZero)

end Decimal

namespace Double

/-- Powers that are far out of range are rounded like all others. -/
theorem ofDecimal?_eq (negative : Bool) (digits : Nat) (power : Int) :
    ofDecimal? negative digits power = ofMagnitude? negative (Decimal.nearest ⟨digits, power⟩) := by
  unfold ofDecimal?
  split
  case isTrue small => rw [@Decimal.nearest_eq_zero ⟨digits, power⟩ small]; rfl
  case isFalse notSmall =>
      rw [not_or] at notSmall
      split
      case isTrue large =>
          have infinite := @Decimal.infinityMagnitude_le_nearest ⟨digits, power⟩ notSmall.1 large
          rw [ofMagnitude?, if_neg (Nat.not_lt_of_le infinite)]
      case isFalse => rfl

theorem magnitude_eq (double : Double) :
    double.magnitude = double.biasedExponent * Nat.pow 2 52 + double.fraction := by
  simp only [magnitude, biasedExponent, fraction, Nat.pow_eq]
  omega

theorem fraction_lt (double : Double) : double.fraction < Nat.pow 2 52 :=
  Nat.mod_lt _ (by decide)

theorem magnitude_lt_of_isFinite {double : Double} (finite : double.isFinite = true) :
    double.magnitude < infinityMagnitude := by
  have notLast : double.biasedExponent ≠ 2047 := of_decide_eq_true finite
  have bound : double.biasedExponent < Nat.pow 2 11 := Nat.mod_lt _ (by decide)
  have fraction := double.fraction_lt
  rw [magnitude_eq, infinityMagnitude]
  simp only [Nat.pow_eq] at bound fraction ⊢
  omega

theorem ofParts_magnitude (double : Double) :
    ofParts double.isNegative double.magnitude = double := by
  have bound := double.bits.toNat_lt
  have sum : double.magnitude + (if double.isNegative then Nat.pow 2 63 else 0) =
      double.bits.toNat := by
    simp only [magnitude, isNegative, decide_eq_true_eq, Nat.pow_eq]
    split <;> omega
  rw [ofParts, sum, UInt64.ofNat_toNat]

theorem ofParts_inj {first second : Nat} (firstSmall : first < infinityMagnitude)
    (secondSmall : second < infinityMagnitude)
    (same : ofParts false first = ofParts false second) : first = second := by
  have all : infinityMagnitude = 9218868437227405312 := rfl
  have bits := congrArg (fun double => double.bits.toNat) same
  simp only [ofParts, UInt64.toNat_ofNat'] at bits
  dsimp at bits
  omega

theorem nearestMagnitude_pow (units : Nat) :
    nearestMagnitude units (Nat.pow 2 1074) =
      (units.log2 - 52) * Nat.pow 2 52 + roundDiv units (Nat.pow 2 (units.log2 - 52)) := by
  have positive : 0 < Nat.pow 2 1074 := by decide +kernel
  unfold nearestMagnitude
  generalize Nat.pow 2 1074 = one at positive ⊢
  simp only [Nat.mul_comm units one, Nat.mul_div_cancel_left units positive,
    roundDiv_mul_left positive]

/-- A double is the one nearest to its own value. -/
theorem nearestMagnitude_units (double : Double) :
    nearestMagnitude double.units (Nat.pow 2 1074) = double.magnitude := by
  have fraction := double.fraction_lt
  rw [nearestMagnitude_pow, magnitude_eq, units, significand]
  cases double.biasedExponent with
  | zero =>
      have one : Nat.pow 2 0 = 1 := rfl
      have spacing : double.fraction.log2 - 52 = 0 := by
        by_cases isZero : double.fraction = 0
        · rw [isZero]
          rfl
        · have := (Nat.log2_lt isZero).mpr fraction
          omega
      simp only [one, Nat.mul_one, spacing, roundDiv_one]
  | succ exponent =>
      have positive : 0 < Nat.pow 2 exponent := Nat.pow_pos (by decide)
      have log : ((double.fraction + Nat.pow 2 52) * Nat.pow 2 exponent).log2 = 52 + exponent := by
        have notZero : (double.fraction + Nat.pow 2 52) * Nat.pow 2 exponent ≠ 0 :=
          Nat.ne_of_gt (Nat.mul_pos (Nat.add_pos_right _ (by decide)) positive)
        apply Nat.le_antisymm
        · refine Nat.le_of_lt_succ ((Nat.log2_lt notZero).mpr ?_)
          rw [← Nat.succ_add, Nat.pow_add]
          refine Nat.mul_lt_mul_of_pos_right ?_ positive
          simp only [Nat.pow_eq] at fraction ⊢
          omega
        · rw [Nat.le_log2 notZero, Nat.pow_add]
          exact Nat.mul_le_mul_right _ (Nat.le_add_left _ _)
      have rounded := roundDiv_mul_left positive (double.fraction + Nat.pow 2 52) 1
      rw [roundDiv_one, Nat.mul_one, Nat.mul_comm] at rounded
      simp only [log, Nat.add_sub_cancel_left, rounded]
      rw [Nat.add_mul]
      omega

end Double

namespace Decimal

variable {magnitude : Nat} {decimal : Decimal}

theorem nearest_eq_of_reads (finite : magnitude < Double.infinityMagnitude)
    (reads : decimal.reads magnitude = true) : decimal.nearest = magnitude := by
  rw [Decimal.reads, beq_iff_eq, Double.ofDecimal?_eq, Double.ofMagnitude?] at reads
  split at reads
  case isTrue small => exact Double.ofParts_inj small finite (Option.some.inj reads)
  case isFalse => cases reads

/-- A decimal is taken from the grid only if it is read as the double. -/
theorem reads_of_onGrid? {numerator denominator : Nat} {power : Int}
    (found : onGrid? magnitude numerator denominator power = some decimal) :
    decimal.reads magnitude = true := by
  unfold onGrid? at found
  dsimp only at found
  split at found
  case h_1 low high =>
      split at found
      · exact Option.some.inj found ▸ low
      · exact Option.some.inj found ▸ high
  case h_2 low _ => exact Option.some.inj found ▸ low
  case h_3 _ high => exact Option.some.inj found ▸ high
  case h_4 => cases found

theorem nearest_stripZeros (limit : Nat) (decimal : Decimal) :
    (stripZeros limit decimal).nearest = decimal.nearest := by
  induction limit generalizing decimal with
  | zero => rfl
  | succ limit ih =>
      unfold stripZeros
      split
      case isTrue ends =>
          have whole : decimal.digits / 10 * 10 = decimal.digits := by omega
          rw [ih, ← nearest_mul_ten, whole]
      case isFalse => rfl

theorem negative_toNumber (decimal : Decimal) (negative : Bool) :
    (decimal.toNumber negative).negative = negative := by
  unfold toNumber
  dsimp only
  split
  · split <;> rfl
  · rfl

/-- The literal of a decimal has the value of the decimal. -/
theorem nearest_toNumber (decimal : Decimal) (negative : Bool) :
    nearest ⟨(decimal.toNumber negative).digits, (decimal.toNumber negative).power⟩ =
      decimal.nearest := by
  have long : 0 < length decimal.digits := Nat.length_toDigits_pos
  unfold toNumber
  dsimp only
  split
  · split
    case isTrue below =>
        have same : (Option.none.getD 0 - (decimal.power.natAbs : Int)) = decimal.power := by
          simp only [Option.getD_none]
          omega
        rw [Json.Number.power, same]
    case isFalse notBelow =>
        have same : Option.none.getD 0 - ((1 : Nat) : Int) +
            ((decimal.power.toNat + 1 : Nat) : Int) = decimal.power := by
          simp only [Option.getD_none]
          omega
        rw [Json.Number.power, nearest_mul_pow, same]
  · have same : (some (decimal.power + length decimal.digits - 1)).getD 0 -
        ((length decimal.digits - 1 : Nat) : Int) = decimal.power := by
      simp only [Option.getD_some]
      omega
    rw [Json.Number.power, same]

end Decimal

namespace Double

/-- The exact value of a double as a decimal. -/
theorem nearest_exact (double : Double) :
    Decimal.nearest ⟨double.units * Nat.pow 5 1074, -1074⟩ = double.magnitude := by
  have split : Nat.pow 10 1074 = Nat.pow 5 1074 * Nat.pow 2 1074 := by decide +kernel
  have positive : 0 < Nat.pow 5 1074 := by decide +kernel
  have one : Nat.pow 10 (-1074 : Int).toNat = 1 := rfl
  have power : (-(-1074 : Int)).toNat = 1074 := rfl
  unfold Decimal.nearest
  rw [one, Nat.mul_one, power, split, Nat.mul_comm double.units,
    nearestMagnitude_mul_left positive, nearestMagnitude_units]

/-- The shortest decimal of a finite double is read as the double without its sign. -/
theorem nearest_shortest {double : Double} (finite : double.isFinite = true) :
    double.shortest.nearest = double.magnitude := by
  unfold shortest
  rw [Decimal.nearest_stripZeros]
  cases search : (List.range 17).findSome? fun (more : Nat) =>
      Decimal.onGrid? double.magnitude double.units (Nat.pow 2 1074)
        (double.leadingPower - more) with
  | none => exact double.nearest_exact
  | some decimal =>
      obtain ⟨more, -, found⟩ := List.exists_of_findSome?_eq_some search
      exact Decimal.nearest_eq_of_reads (magnitude_lt_of_isFinite finite)
        (Decimal.reads_of_onGrid? found)

/-- A finite double has a literal, which is read as the double. -/
theorem exists_toNumber? {double : Double} (finite : double.isFinite = true) :
    ∃ number, double.toNumber? = some number ∧ ofNumber? number = some double := by
  unfold toNumber?
  rw [if_neg (not_not_intro finite)]
  by_cases isZero : double.magnitude = 0
  · refine ⟨_, if_pos isZero, ?_⟩
    have same := double.ofParts_magnitude
    rw [isZero] at same
    exact congrArg some same
  · refine ⟨_, if_neg isZero, ?_⟩
    rw [ofNumber?, ofDecimal?_eq, Decimal.nearest_toNumber, Decimal.negative_toNumber,
      nearest_shortest finite, ofMagnitude?, if_pos (magnitude_lt_of_isFinite finite),
      ofParts_magnitude]

end Double

/-- A finite double is written as a number that is read as the double. -/
theorem Json.readDouble_toJson (depth : Nat) {double : Double} (finite : double.isFinite = true) :
    Json.readDouble depth double.toJson = some double := by
  obtain ⟨number, written, read⟩ := Double.exists_toNumber? finite
  rw [Double.toJson, written]
  exact read

end Backpatch
