import Xript.Number.Compare
import Xript.Number.RadixInteger
import Xript.Repeat.Keys

namespace Xript

theorem Binary64.abs_value (x : Binary64) : |x.value| = x.mantissa * 2 ^ x.exponent := by
  have nonneg : 0 ≤ x.magnitude := by
    rw [magnitude_eq]
    have := two_zpow_pos x.exponent
    positivity
  rw [← magnitude_eq, value]
  split
  · rw [abs_neg, abs_of_nonneg nonneg]
  · exact abs_of_nonneg nonneg

namespace F64

/-- A double is what its own value rounds to. -/
theorem round_value {x : Binary64} (nonzero : x.mantissa ≠ 0) (zeroNegative : Bool) :
    round zeroNegative x.value = .finite x := by
  have positive := Binary64.magnitude_pos nonzero
  have unit := two_zpow_pos x.exponent
  have rounded : ∀ negative, roundMagnitude negative x.magnitude = .finite { x with negative := negative } := by
    intro negative
    refine roundMagnitude_near negative nonzero ?_ fun _ => ?_
    · rw [Binary64.magnitude_eq, sub_self, abs_zero]
      linarith
    · rw [Binary64.magnitude_eq, sub_self, abs_zero]
      linarith
  have some : x.value ≠ 0 := fun zero => nonzero (Binary64.value_eq_zero.1 zero)
  rw [round, if_neg some]
  by_cases sign : x.negative = true
  · have value : x.value = -x.magnitude := by rw [Binary64.value, if_pos sign]
    rw [value, abs_neg, abs_of_pos positive, rounded, decide_eq_true (by linarith), ← sign]
  · have value : x.value = x.magnitude := by rw [Binary64.value, if_neg sign]
    rw [value, abs_of_pos positive, rounded, decide_eq_false (by linarith), ← Bool.eq_false_iff.mpr sign]

/-- Rounding is exact on the values of doubles. -/
theorem round_exact {q : ℚ} {x : Binary64} (same : x.value = q) (zeroNegative : Bool) :
    ∃ y, round zeroNegative q = .finite y ∧ y.value = q := by
  by_cases zero : x.mantissa = 0
  · have none : q = 0 := same.symm.trans (Binary64.value_eq_zero.2 zero)
    exact ⟨.zero zeroNegative, by rw [round, if_pos none], (Binary64.value_eq_zero.2 rfl).trans none.symm⟩
  · exact ⟨x, by rw [← same, round_value zero], same⟩

/-- Some double has this integer as its value. -/
theorem exists_integer {n : Int} (fits : FitsDouble n.natAbs) (bounded : n.natAbs.log2 < 1024) :
    ∃ x : Binary64, x.value = n := by
  by_cases zero : n.natAbs = 0
  · rw [Int.natAbs_eq_zero.mp zero]
    exact ⟨.zero false, (Binary64.value_eq_zero.2 rfl).trans Int.cast_zero.symm⟩
  · obtain ⟨x, positive, -, value⟩ := Binary64.exists_value zero fits bounded
    rcases Int.natAbs_eq n with same | same
    · exact ⟨x, by rw [value, same]; rfl⟩
    · refine ⟨{ x with negative := !x.negative }, ?_⟩
      rw [value_neg, value, ← Int.cast_natCast, ← Int.cast_neg, ← same]

theorem fits_small {n : Nat} (small : n < 2 ^ 53) : FitsDouble n ∧ n.log2 < 1024 := by
  by_cases zero : n = 0
  · rw [zero]
    decide
  · have bits : n.log2 < 53 := (Nat.log2_lt zero).mpr small
    rw [FitsDouble, show n.log2 - 52 = 0 by omega]
    exact ⟨one_dvd n, by omega⟩

/-- An integer below `2 ^ 53` is a double. -/
theorem round_small {n : Int} (small : n.natAbs < 2 ^ 53) (zeroNegative : Bool) :
    ∃ x, round zeroNegative n = .finite x ∧ x.value = n := by
  obtain ⟨fits, bounded⟩ := fits_small small
  obtain ⟨x, value⟩ := exists_integer fits bounded
  exact round_exact value zeroNegative

/-- A double is an integer, or below `2 ^ 52`. -/
theorem whole_or_small (x : Binary64) : (∃ n : Int, x.value = n) ∨ |x.value| < 2 ^ 52 := by
  rcases le_or_gt 0 x.exponent with whole | part
  · refine .inl ?_
    obtain ⟨e, same⟩ := Int.eq_ofNat_of_zero_le whole
    have magnitude : x.magnitude = ((x.mantissa * 2 ^ e : Nat) : Int) := by
      rw [Binary64.magnitude_eq, same]
      push_cast
      rfl
    rw [Binary64.value]
    split
    · exact ⟨-((x.mantissa * 2 ^ e : Nat) : Int), by rw [magnitude, Int.cast_neg]⟩
    · exact ⟨_, magnitude⟩
  · refine .inr ?_
    have half : (2 : ℚ) ^ x.exponent ≤ 2 ^ (-1 : Int) := two_zpow_le (by omega)
    have few : (x.mantissa : ℚ) < 2 ^ 53 := by exact_mod_cast x.small
    have unit := two_zpow_pos x.exponent
    rw [Binary64.abs_value]
    calc (x.mantissa : ℚ) * 2 ^ x.exponent < 2 ^ 53 * 2 ^ x.exponent := mul_lt_mul_of_pos_right few unit
      _ ≤ 2 ^ 53 * 2 ^ (-1 : Int) := mul_le_mul_of_nonneg_left half (by positivity)
      _ = 2 ^ 52 := by norm_num

/-- An integer next to a double, on either side, is a double. -/
theorem integral_near (x : Binary64) {n : Int} (near : |(n : ℚ) - x.value| < 1) :
    ∃ y, integral x n = .finite y ∧ y.value = n := by
  rcases whole_or_small x with ⟨m, whole⟩ | small
  · have same : n = m := by
      rw [whole] at near
      have apart : |n - m| < 1 := by exact_mod_cast near
      have := Int.abs_lt_one_iff.mp apart
      omega
    subst same
    exact round_exact whole x.negative
  · refine round_small ?_ x.negative
    obtain ⟨low, high⟩ := abs_lt.mp near
    obtain ⟨low', high'⟩ := abs_lt.mp small
    have above : (n : ℚ) < 2 ^ 53 := by linarith
    have below : -2 ^ 53 < (n : ℚ) := by linarith
    have above' : n < 2 ^ 53 := by exact_mod_cast above
    have below' : -2 ^ 53 < n := by exact_mod_cast below
    omega

theorem floor_value (x : Binary64) : ∃ y, floor (.finite x) = .finite y ∧ y.value = ⌊x.value⌋ := by
  refine integral_near x (abs_lt.mpr ⟨?_, ?_⟩)
  · have := Int.lt_floor_add_one x.value
    linarith
  · have := Int.floor_le x.value
    linarith

theorem trunc_value (x : Binary64) : ∃ y, trunc (.finite x) = .finite y ∧ y.value = truncate x.value := by
  refine integral_near x ?_
  rw [truncate]
  split
  · have above := Int.le_ceil x.value
    have below := Int.ceil_lt_add_one x.value
    exact abs_lt.mpr ⟨by linarith, by linarith⟩
  · have above := Int.lt_floor_add_one x.value
    have below := Int.floor_le x.value
    exact abs_lt.mpr ⟨by linarith, by linarith⟩

theorem truncate_int (n : Int) : truncate n = n := by
  rw [truncate]
  split
  · exact Int.ceil_intCast n
  · exact Int.floor_intCast n

theorem isInteger_iff {x : F64} : x.isInteger = true ↔ ∃ b : Binary64, ∃ n : Int, x = .finite b ∧ b.value = n := by
  cases x with
  | nan => simp [isInteger]
  | infinite negative => simp [isInteger]
  | finite b =>
    simp only [isInteger, decide_eq_true_eq, F64.finite.injEq, ↓existsAndEq, true_and]
    constructor
    · intro whole
      exact ⟨b.value.num, ((Rat.den_eq_one_iff b.value).mp whole).symm⟩
    · rintro ⟨n, same⟩
      rw [same, Rat.den_intCast]

theorem half_value : ∃ x, ofRat (1 / 2) = .finite x ∧ x.value = 1 / 2 := by
  refine round_exact (x := ⟨false, 2 ^ 52, -53, by norm_num, by norm_num, by norm_num, .inr le_rfl⟩) ?_ false
  rw [Binary64.value_of_positive rfl]
  norm_num

/-- A fraction of 53 bits is a double. -/
theorem exists_fraction {k : Nat} (small : k < 2 ^ 53) : ∃ x : Binary64, x.value = k * 2 ^ (-53 : Int) := by
  by_cases zero : k = 0
  · exact ⟨.zero false, by rw [Binary64.value_eq_zero.2 rfl, zero, Nat.cast_zero, zero_mul]⟩
  obtain ⟨fits, bounded⟩ := fits_small small
  obtain ⟨x, positive, nonzero, value⟩ := Binary64.exists_value zero fits bounded
  rw [Binary64.value_of_positive positive] at value
  have least : -53 < x.exponent := by
    by_contra low
    have unit : (2 : ℚ) ^ x.exponent ≤ 2 ^ (-53 : Int) := two_zpow_le (by omega)
    have few : (x.mantissa : ℚ) < 2 ^ 53 := by exact_mod_cast x.small
    have one : (1 : ℚ) ≤ k := by exact_mod_cast Nat.one_le_iff_ne_zero.mpr zero
    have less : (k : ℚ) < 2 ^ 53 * 2 ^ (-53 : Int) := by
      rw [← value]
      exact (mul_lt_mul_of_pos_right few (two_zpow_pos _)).trans_le (mul_le_mul_of_nonneg_left unit (by positivity))
    rw [show (2 ^ 53 : ℚ) * 2 ^ (-53 : Int) = 1 by norm_num] at less
    linarith
  have high := x.high
  refine ⟨⟨false, x.mantissa, x.exponent - 53, x.small, by omega, by omega, .inr ?_⟩, ?_⟩
  · exact x.normal.resolve_left (by omega)
  · rw [Binary64.value_of_positive rfl, ← value, mul_assoc, ← two_zpow_add]
    rfl

/-- A number from a half up to one rounds to a half at least. -/
theorem half_le_round {q : ℚ} (least : 1 / 2 ≤ q) (most : q < 1) (zeroNegative : Bool) :
    ∃ y, round zeroNegative q = .finite y ∧ 1 / 2 ≤ y.value := by
  have positive : 0 < q := by linarith
  have leading : leadingExponent q = -1 := by
    refine leadingExponent_unique ?_ ?_
    · norm_num
      linarith
    · norm_num
      exact most
  have unit : (0 : ℚ) < 2 ^ (-53 : Int) := two_zpow_pos _
  obtain ⟨m, mantissa⟩ : ∃ m, roundHalfEven (q / 2 ^ (-53 : Int)) = m := ⟨_, rfl⟩
  have low : 2 ^ 52 ≤ m := by
    rw [← mantissa]
    refine le_roundHalfEven ((le_div_iff₀ unit).mpr ?_)
    norm_num
    linarith
  have high : m ≤ 2 ^ 53 := by
    rw [← mantissa]
    refine roundHalfEven_le (div_pos positive unit).le ((div_le_iff₀ unit).mpr ?_)
    norm_num
    exact most.le
  rw [round, if_neg positive.ne', abs_of_pos positive, decide_eq_false (by linarith),
    roundMagnitude_unfold positive.ne' (by rw [leading]; rfl) mantissa]
  split
  · rw [assemble, dif_pos ⟨by norm_num, by norm_num, by norm_num, .inr le_rfl⟩]
    refine ⟨_, rfl, ?_⟩
    rw [Binary64.value_of_positive rfl]
    norm_num
  · rw [assemble, dif_pos ⟨by omega, by norm_num, by norm_num, .inr low⟩]
    refine ⟨_, rfl, ?_⟩
    have some : (2 ^ 52 : ℚ) ≤ m := by exact_mod_cast low
    rw [Binary64.value_of_positive rfl]
    calc (1 : ℚ) / 2 = 2 ^ 52 * 2 ^ (-53 : Int) := by norm_num
      _ ≤ m * 2 ^ (-53 : Int) := mul_le_mul_of_nonneg_right some unit.le

/-- The part of a double past its floor is a double where it is below a half. -/
theorem exists_part {x : Binary64} (below : x.value - ⌊x.value⌋ < 1 / 2) :
    ∃ y : Binary64, y.value = x.value - ⌊x.value⌋ := by
  have nonneg := Int.floor_le x.value
  by_cases fine : -53 ≤ x.exponent
  · obtain ⟨e, shifted⟩ := Int.eq_ofNat_of_zero_le (show 0 ≤ x.exponent + 53 by omega)
    have scaled : x.magnitude = ((x.mantissa * 2 ^ e : Nat) : Int) * 2 ^ (-53 : Int) := by
      rw [Binary64.magnitude_eq, show x.exponent = (e : Int) + -53 by omega, two_zpow_add]
      push_cast
      rw [zpow_natCast, mul_assoc]
    obtain ⟨n, value⟩ : ∃ n : Int, x.value = n * 2 ^ (-53 : Int) := by
      rw [Binary64.value]
      split
      · exact ⟨-((x.mantissa * 2 ^ e : Nat) : Int), by rw [scaled, Int.cast_neg, neg_mul]⟩
      · exact ⟨_, scaled⟩
    have part : x.value - ⌊x.value⌋ = ((n - ⌊x.value⌋ * 2 ^ 53 : Int) : ℚ) * 2 ^ (-53 : Int) := by
      have one : ((2 ^ 53 : Int) : ℚ) * 2 ^ (-53 : Int) = 1 := by norm_num
      rw [Int.cast_sub, Int.cast_mul, sub_mul, ← value, mul_assoc, one, mul_one]
    have unit : (0 : ℚ) < 2 ^ (-53 : Int) := two_zpow_pos _
    have bottom : 0 ≤ n - ⌊x.value⌋ * 2 ^ 53 := by
      have : (0 : ℚ) ≤ ((n - ⌊x.value⌋ * 2 ^ 53 : Int) : ℚ) * 2 ^ (-53 : Int) := by
        rw [← part]
        linarith
      exact_mod_cast nonneg_of_mul_nonneg_left this unit
    obtain ⟨k, same⟩ := Int.eq_ofNat_of_zero_le bottom
    rw [same, Int.cast_natCast] at part
    have small : k < 2 ^ 53 := by
      by_contra large
      have many : (2 ^ 53 : ℚ) ≤ k := by exact_mod_cast not_lt.mp large
      have : (2 ^ 53 : ℚ) * 2 ^ (-53 : Int) ≤ k * 2 ^ (-53 : Int) := mul_le_mul_of_nonneg_right many unit.le
      rw [← part, show (2 ^ 53 : ℚ) * 2 ^ (-53 : Int) = 1 by norm_num] at this
      linarith
    obtain ⟨y, same⟩ := exists_fraction small
    exact ⟨y, same.trans part.symm⟩
  · have tiny : |x.value| < 1 / 2 := by
      have unit : (2 : ℚ) ^ x.exponent ≤ 2 ^ (-54 : Int) := two_zpow_le (by omega)
      have few : (x.mantissa : ℚ) < 2 ^ 53 := by exact_mod_cast x.small
      rw [Binary64.abs_value]
      calc (x.mantissa : ℚ) * 2 ^ x.exponent < 2 ^ 53 * 2 ^ x.exponent := mul_lt_mul_of_pos_right few (two_zpow_pos _)
        _ ≤ 2 ^ 53 * 2 ^ (-54 : Int) := mul_le_mul_of_nonneg_left unit (by positivity)
        _ = 1 / 2 := by norm_num
    obtain ⟨low, high⟩ := abs_lt.mp tiny
    -- Below zero the part would be above a half.
    have floor : ⌊x.value⌋ = 0 := by
      have above := Int.lt_floor_add_one x.value
      have bottom : -1 < (⌊x.value⌋ : ℚ) := by linarith
      have top : (⌊x.value⌋ : ℚ) < 1 := by linarith
      have bottom' : -1 < ⌊x.value⌋ := by exact_mod_cast bottom
      have top' : ⌊x.value⌋ < 1 := by exact_mod_cast top
      omega
    exact ⟨x, by rw [floor, Int.cast_zero, sub_zero]⟩

theorem le_finite {x y : Binary64} : le (.finite x) (.finite y) = true ↔ x.value ≤ y.value := by
  simp only [le, lt, eq, Bool.or_eq_true, decide_eq_true_eq]
  exact le_iff_lt_or_eq.symm

/-- A double is past its floor by a half or more exactly where their difference says so. -/
theorem half_le_sub_floor (x : Binary64) :
    le (ofRat (1 / 2)) (sub (.finite x) (floor (.finite x))) = true ↔ 1 / 2 ≤ x.value - ⌊x.value⌋ := by
  obtain ⟨h, half, halfValue⟩ := half_value
  obtain ⟨y, floor, floorValue⟩ := floor_value x
  have difference : sub (.finite x) (.finite y) = round (x.negative && !y.negative) (x.value - ⌊x.value⌋) := by
    rw [sub, neg, add, value_neg, ← sub_eq_add_neg, floorValue]
  rw [half, floor, difference]
  by_cases large : 1 / 2 ≤ x.value - ⌊x.value⌋
  · have most : x.value - ⌊x.value⌋ < 1 := by
      have := Int.lt_floor_add_one x.value
      linarith
    obtain ⟨z, rounded, least⟩ := half_le_round large most (x.negative && !y.negative)
    rw [rounded, le_finite, halfValue]
    exact iff_of_true least large
  · obtain ⟨part, value⟩ := exists_part (not_le.mp large)
    obtain ⟨z, rounded, exact⟩ := round_exact value (x.negative && !y.negative)
    rw [rounded, le_finite, halfValue, exact]

theorem roundHalfEven_tie {q : ℚ} {m : Nat} (even : m % 2 = 0) (nonneg : 0 ≤ q) (tie : |q - m| = 1 / 2) :
    roundHalfEven q = m := by
  rcases (abs_eq (by norm_num)).mp tie with above | below
  · have floor : ⌊q⌋ = (m : Int) := Int.floor_eq_iff.mpr ⟨by push_cast; linarith, by push_cast; linarith⟩
    simp only [roundHalfEven, floor, Int.toNat_natCast]
    rw [if_pos (.inr ⟨above, even⟩)]
  · have floor : ⌊q⌋ = (m : Int) - 1 := Int.floor_eq_iff.mpr ⟨by push_cast; linarith, by push_cast; linarith⟩
    have some : 0 < m := by
      have : (0 : ℚ) < m := by linarith
      exact_mod_cast this
    have natural : ⌊q⌋.toNat = m - 1 := by omega
    have cast : ((m - 1 : Nat) : ℚ) = m - 1 := by
      rw [Nat.cast_sub some]
      norm_num
    simp only [roundHalfEven, natural, cast]
    rw [if_neg]
    · omega
    · rintro (part | ⟨-, odd⟩)
      · linarith
      · omega

theorem ofNat_binade {n e q : Nat} (low : 2 ^ (52 + e) ≤ n) (high : n < 2 ^ (53 + e))
    (rounded : roundHalfEven (n / 2 ^ (e : Int)) = q) :
    ofNat n = if q = 2 ^ 53 then assemble false (2 ^ 52) (e + 1) else assemble false q e := by
  have positive : (0 : ℚ) < n := by
    have : 0 < n := (Nat.two_pow_pos _).trans_le low
    exact_mod_cast this
  have least : (2 : ℚ) ^ ((52 + e : Nat) : Int) ≤ n := by
    rw [← two_pow_cast]
    exact_mod_cast low
  have most : (n : ℚ) < 2 ^ (((52 + e : Nat) : Int) + 1) := by
    rw [show ((52 + e : Nat) : Int) + 1 = ((53 + e : Nat) : Int) by push_cast; ring, ← two_pow_cast]
    exact_mod_cast high
  rw [ofNat, ofRat_positive positive, roundMagnitude_unfold positive.ne' (e := e) ?_ rounded]
  rw [leadingExponent_unique least most]
  push_cast
  omega

/-- A natural number rounds as it does to 53 significant bits. -/
theorem ofNat_roundsTo {n v : Nat} (rounds : RoundsTo n v) : ofNat n = ofNat v := by
  obtain ⟨q, value, near⟩ := rounds
  by_cases short : n.log2 < 53
  · rw [show n.log2 - 52 = 0 by omega, pow_zero] at near
    have same : n = v := by
      rcases near with near | ⟨tie, -⟩
      · have none := Int.abs_lt_one_iff.mp (show |(n : Int) - v| < 1 by omega)
        omega
      · omega
    rw [same]
  obtain ⟨e, large⟩ : ∃ e, n.log2 = 52 + e := ⟨n.log2 - 52, by omega⟩
  rw [large, Nat.add_sub_cancel_left] at value near
  have nonzero : n ≠ 0 := by
    rintro rfl
    rw [Nat.log2_zero] at large
    omega
  have low : 2 ^ (52 + e) ≤ n := large ▸ Nat.log2_self_le nonzero
  have high : n < 2 ^ (53 + e) := by
    have := Nat.lt_log2_self (n := n)
    rwa [large, show 52 + e + 1 = 53 + e by omega] at this
  have unit : (0 : ℚ) < 2 ^ (e : Int) := two_zpow_pos _
  have scaled : ((n : ℚ) / 2 ^ (e : Int) - q) = ((n : Int) - v : Int) / 2 ^ (e : Int) := by
    rw [value]
    push_cast
    rw [sub_div, mul_div_assoc, zpow_natCast, div_self (by positivity), mul_one]
  have rounded : roundHalfEven (n / 2 ^ (e : Int)) = q := by
    have nonneg : (0 : ℚ) ≤ n / 2 ^ (e : Int) := by positivity
    rcases near with near | ⟨tie, even⟩
    · refine roundHalfEven_near nonneg ?_
      rw [scaled, abs_div, abs_of_pos unit, div_lt_iff₀ unit, zpow_natCast]
      have : (2 : ℚ) * |(((n : Int) - v : Int) : ℚ)| < 2 ^ e := by exact_mod_cast near
      linarith
    · refine roundHalfEven_tie even nonneg ?_
      rw [scaled, abs_div, abs_of_pos unit, div_eq_iff unit.ne', zpow_natCast]
      have : (2 : ℚ) * |(((n : Int) - v : Int) : ℚ)| = 2 ^ e := by exact_mod_cast tie
      linarith
  have least : 2 ^ 52 ≤ q := by
    rw [Nat.pow_add] at low
    rw [← rounded]
    refine le_roundHalfEven ((le_div_iff₀ unit).mpr ?_)
    rw [zpow_natCast]
    exact_mod_cast low
  have most : q ≤ 2 ^ 53 := by
    rw [Nat.pow_add] at high
    rw [← rounded]
    refine roundHalfEven_le (by positivity) ((div_le_iff₀ unit).mpr ?_)
    rw [zpow_natCast]
    exact_mod_cast high.le
  have exact : ∀ e' m : Nat, roundHalfEven (((m * 2 ^ e' : Nat) : ℚ) / 2 ^ (e' : Int)) = m := by
    intro e' m
    have whole : (((m * 2 ^ e' : Nat) : ℚ) / 2 ^ (e' : Int)) = m := by
      rw [zpow_natCast]
      push_cast
      field_simp
    rw [whole]
    exact roundHalfEven_near (Nat.cast_nonneg _) (by rw [sub_self]; norm_num)
  rw [ofNat_binade low high rounded, value]
  by_cases carried : q = 2 ^ 53
  · have shifted : q * 2 ^ e = 2 ^ 52 * 2 ^ (e + 1) := by rw [carried, ← Nat.pow_add, ← Nat.pow_add]; congr 1; omega
    rw [if_pos carried, shifted, ofNat_binade (e := e + 1) (q := 2 ^ 52) ?_ ?_ (exact (e + 1) (2 ^ 52)), if_neg (by decide)]
    · push_cast
      rfl
    · rw [← Nat.pow_add]
    · rw [← Nat.pow_add]
      exact Nat.pow_lt_pow_right (by decide) (by omega)
  · rw [if_neg carried, ofNat_binade (e := e) (q := q) ?_ ?_ (exact e q), if_neg carried]
    · rw [Nat.pow_add]
      exact Nat.mul_le_mul_right _ least
    · rw [Nat.pow_add]
      exact Nat.mul_lt_mul_of_pos_right (by omega) (Nat.two_pow_pos e)

end F64

end Xript
