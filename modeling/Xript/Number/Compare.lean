import Mathlib.Order.WithBot
import Xript.Number.Round

namespace Xript

namespace F64

/-- The sign of a number; `NaN` has none. -/
def sign : F64 → Option Ordering
  | .nan => none
  | .infinite negative => some (if negative then .lt else .gt)
  | .finite x => some (if x.value < 0 then .lt else if x.value = 0 then .eq else .gt)

/-- A number's place on the extended line. -/
def place : F64 → WithBot (WithTop ℚ)
  | .nan => ⊥
  | .infinite true => ⊥
  | .infinite false => ((⊤ : WithTop ℚ) : WithBot (WithTop ℚ))
  | .finite x => ((x.value : WithTop ℚ) : WithBot (WithTop ℚ))

end F64

theorem Binary64.value_grid (x : Binary64) : ∃ k : Int, x.value = k * 2 ^ (-1074 : Int) := by
  obtain ⟨n, above⟩ := Int.eq_ofNat_of_zero_le (show 0 ≤ x.exponent + 1074 by have := x.low; omega)
  have magnitude : x.magnitude = ((x.mantissa * 2 ^ n : Nat) : Int) * (2 : ℚ) ^ (-1074 : Int) := by
    have power : (2 : ℚ) ^ x.exponent = 2 ^ (n : Int) * 2 ^ (-1074 : Int) := by
      rw [← two_zpow_add, show (n : Int) + -1074 = x.exponent by omega]
    rw [Binary64.magnitude, pow2_eq, power, Int.cast_natCast, Nat.cast_mul, two_pow_cast, mul_assoc]
  rw [Binary64.value]
  split
  · exact ⟨-((x.mantissa * 2 ^ n : Nat) : Int), by rw [magnitude, Int.cast_neg, neg_mul]⟩
  · exact ⟨_, magnitude⟩

namespace F64

/-- Two finite doubles that differ differ by no less than the least positive one. -/
theorem grid_gap {x y : Binary64} (apart : x.value ≠ y.value) : (2 : ℚ) ^ (-1074 : Int) ≤ |x.value - y.value| := by
  obtain ⟨j, hx⟩ := x.value_grid
  obtain ⟨k, hy⟩ := y.value_grid
  have unequal : j ≠ k := by
    rintro rfl
    exact apart (hx.trans hy.symm)
  have gap : (1 : ℚ) ≤ |((j - k : Int) : ℚ)| := by
    have whole : (1 : Int) ≤ |j - k| := Int.one_le_abs (sub_ne_zero.mpr unequal)
    exact_mod_cast whole
  have positive := two_zpow_pos (-1074)
  rw [hx, hy, ← sub_mul, abs_mul, abs_of_pos positive]
  push_cast at gap
  nlinarith

theorem sign_assemble {negative : Bool} {mantissa : Nat} {exponent : Int} (positive : 0 < mantissa) :
    (assemble negative mantissa exponent).sign = some (if negative then .lt else .gt) := by
  unfold assemble
  split
  · have magnitude : (0 : ℚ) < mantissa * Binary64.pow2 exponent := by
      rw [pow2_eq]
      have := two_zpow_pos exponent
      have : (0 : ℚ) < mantissa := by exact_mod_cast positive
      positivity
    cases negative with
    | true =>
      have below : -(mantissa * Binary64.pow2 exponent) < 0 := neg_lt_zero.mpr magnitude
      simp [sign, Binary64.value, Binary64.magnitude, below]
    | false =>
      simp [sign, Binary64.value, Binary64.magnitude, not_lt.mpr magnitude.le, magnitude.ne']
  · rfl

/-- Rounding keeps the sign of what is no less than the least positive double. -/
theorem sign_round {q : ℚ} {zeroNegative : Bool} (large : (2 : ℚ) ^ (-1074 : Int) ≤ |q|) :
    (round zeroNegative q).sign = some (if q < 0 then .lt else .gt) := by
  have positive : 0 < |q| := (two_zpow_pos _).trans_le large
  have nonzero : q ≠ 0 := abs_pos.mp positive
  have inside : (2 : ℚ) ^ (max (-1074) (leadingExponent |q| - 52)) ≤ |q| := by
    rcases le_total (-1074) (leadingExponent |q| - 52) with le | le
    · rw [max_eq_right le]
      exact (two_zpow_le (by omega)).trans (leadingExponent_bounds positive).1
    · rwa [max_eq_left le]
  have some : 1 ≤ roundHalfEven (|q| / 2 ^ (max (-1074) (leadingExponent |q| - 52))) := by
    refine le_roundHalfEven ?_
    rw [le_div_iff₀ (two_zpow_pos _)]
    simpa using inside
  rw [round, if_neg nonzero, roundMagnitude_unfold positive.ne' rfl rfl]
  split
  · rw [sign_assemble (by norm_num)]
    simp
  · rw [sign_assemble some]
    simp

theorem value_neg (x : Binary64) : Binary64.value { x with negative := !x.negative } = -x.value := by
  simp only [Binary64.value, Binary64.magnitude]
  cases x.negative <;> simp

/-- The difference of two unequal numbers has the sign of their comparison. -/
theorem sign_sub {x y : F64} (numberX : x.isNaN = false) (numberY : y.isNaN = false) (unequal : eq x y = false) :
    (sub x y).sign = some (if lt x y then .lt else .gt) := by
  cases x with
  | nan => cases numberX
  | infinite a =>
    cases y with
    | nan => cases numberY
    | infinite b =>
      cases a <;> cases b <;> first | rfl | cases unequal
    | finite y => cases a <;> rfl
  | finite x =>
    cases y with
    | nan => cases numberY
    | infinite b => cases b <;> rfl
    | finite y =>
      have apart : x.value ≠ y.value := of_decide_eq_false unequal
      have difference : sub (.finite x) (.finite y) = round (x.negative && !y.negative) (x.value - y.value) := by
        rw [sub, neg, add, value_neg, ← sub_eq_add_neg]
      rw [difference, sign_round (grid_gap apart)]
      simp [lt, sub_neg]

theorem lt_place {x y : F64} (numberX : x.isNaN = false) (numberY : y.isNaN = false) :
    lt x y = true ↔ place x < place y := by
  cases x with
  | nan => cases numberX
  | infinite a =>
    cases y with
    | nan => cases numberY
    | infinite b => cases a <;> cases b <;> simp [lt, place]
    | finite y => cases a <;> simp [lt, place]
  | finite x =>
    cases y with
    | nan => cases numberY
    | infinite b =>
      cases b with
      | true => simp [lt, place]
      | false =>
        have below : ((x.value : WithTop ℚ) : WithBot (WithTop ℚ)) < ((⊤ : WithTop ℚ) : WithBot (WithTop ℚ)) :=
          WithBot.coe_lt_coe.mpr (WithTop.coe_lt_top _)
        exact ⟨fun _ => below, fun _ => rfl⟩
    | finite y => simp [lt, place]

theorem eq_place {x y : F64} (numberX : x.isNaN = false) (numberY : y.isNaN = false) :
    eq x y = true ↔ place x = place y := by
  cases x with
  | nan => cases numberX
  | infinite a =>
    cases y with
    | nan => cases numberY
    | infinite b => cases a <;> cases b <;> simp [eq, place]
    | finite y => cases a <;> simp [eq, place]
  | finite x =>
    cases y with
    | nan => cases numberY
    | infinite b => cases b <;> simp [eq, place]
    | finite y => simp [eq, place]

end F64

end Xript
