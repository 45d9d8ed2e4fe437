import Mathlib.Tactic.Positivity
import Mathlib.Tactic.Linarith
import Mathlib.Tactic.IntervalCases
import Xript.Number.F64

namespace Xript

theorem pow2_eq (e : Int) : Binary64.pow2 e = (2 : ℚ) ^ e := by
  unfold Binary64.pow2
  split
  · rename_i nonneg
    obtain ⟨n, rfl⟩ := Int.eq_ofNat_of_zero_le nonneg
    simp
  · rename_i negative
    obtain ⟨n, same⟩ := Int.eq_ofNat_of_zero_le (show 0 ≤ -e by omega)
    have back : e = -(n : Int) := by omega
    subst back
    simp

theorem two_zpow_pos (e : Int) : (0 : ℚ) < 2 ^ e := zpow_pos (by norm_num) e

theorem two_zpow_le {a b : Int} (le : a ≤ b) : (2 : ℚ) ^ a ≤ 2 ^ b := zpow_le_zpow_right₀ (by norm_num) le

theorem two_zpow_lt {a b : Int} (lt : a < b) : (2 : ℚ) ^ a < 2 ^ b := zpow_lt_zpow_right₀ (by norm_num) lt

theorem two_pow_cast (n : Nat) : ((2 ^ n : Nat) : ℚ) = 2 ^ (n : Int) := by
  rw [Nat.cast_pow, Nat.cast_ofNat, zpow_natCast]

theorem two_zpow_add (a b : Int) : (2 : ℚ) ^ (a + b) = 2 ^ a * 2 ^ b := zpow_add₀ (by norm_num) a b

/-- Where a power of two lies between the bounds of a quotient. -/
theorem quotient_bounds {base : ℚ} (large : 1 < base) {num den : ℚ} {a b : Int}
    (numLow : base ^ a ≤ num) (numHigh : num < base ^ (a + 1))
    (denLow : base ^ b ≤ den) (denHigh : den < base ^ (b + 1)) :
    base ^ (a - b - 1) < num / den ∧ num / den < base ^ (a - b + 1) := by
  have pos : ∀ e : Int, 0 < base ^ e := fun e => zpow_pos (by linarith) e
  have denPos : 0 < den := (pos b).trans_le denLow
  have nonzero : base ≠ 0 := by linarith
  constructor
  · rw [lt_div_iff₀ denPos]
    calc base ^ (a - b - 1) * den < base ^ (a - b - 1) * base ^ (b + 1) :=
          mul_lt_mul_of_pos_left denHigh (pos _)
      _ = base ^ a := by rw [← zpow_add₀ nonzero]; congr 1; ring
      _ ≤ num := numLow
  · rw [div_lt_iff₀ denPos]
    calc num < base ^ (a + 1) := numHigh
      _ = base ^ (a - b + 1) * base ^ b := by rw [← zpow_add₀ nonzero]; congr 1; ring
      _ ≤ base ^ (a - b + 1) * den := mul_le_mul_of_nonneg_left denLow (pos _).le

theorem rat_eq_quotient {q : ℚ} (positive : 0 < q) : q = (q.num.natAbs : ℚ) / (q.den : ℚ) := by
  have num : ((q.num.natAbs : Nat) : ℚ) = (q.num : ℚ) := by
    have natural : (q.num.natAbs : Int) = q.num := Int.natAbs_of_nonneg (Rat.num_pos.mpr positive).le
    simpa only [Int.cast_natCast] using congrArg (fun z : Int => (z : ℚ)) natural
  rw [num]
  exact (Rat.num_div_den q).symm

theorem log2_bounds {n : Nat} (nonzero : n ≠ 0) :
    (2 : ℚ) ^ (n.log2 : Int) ≤ n ∧ (n : ℚ) < 2 ^ ((n.log2 : Int) + 1) := by
  constructor
  · rw [zpow_natCast]
    exact_mod_cast Nat.log2_self_le nonzero
  · rw [show ((n.log2 : Int) + 1) = ((n.log2 + 1 : Nat) : Int) by push_cast; rfl, zpow_natCast]
    exact_mod_cast Nat.lt_log2_self

/-- The leading binary digit of a positive rational number stands where `leadingExponent` says. -/
theorem leadingExponent_bounds {q : ℚ} (positive : 0 < q) :
    (2 : ℚ) ^ leadingExponent q ≤ q ∧ q < 2 ^ (leadingExponent q + 1) := by
  have numNonzero : q.num.natAbs ≠ 0 := by
    have := Rat.num_pos.mpr positive
    omega
  obtain ⟨numLow, numHigh⟩ := log2_bounds numNonzero
  obtain ⟨denLow, denHigh⟩ := log2_bounds q.den_nz
  obtain ⟨low, high⟩ := quotient_bounds (by norm_num) numLow numHigh denLow denHigh
  rw [← rat_eq_quotient positive] at low high
  simp only [leadingExponent, pow2_eq]
  split
  · exact ⟨by assumption, high⟩
  · rename_i above
    refine ⟨low.le, ?_⟩
    rw [sub_add_cancel]
    exact not_le.mp above

theorem leadingExponent_unique {q : ℚ} {e : Int} (low : (2 : ℚ) ^ e ≤ q) (high : q < 2 ^ (e + 1)) :
    leadingExponent q = e := by
  obtain ⟨low', high'⟩ := leadingExponent_bounds ((two_zpow_pos e).trans_le low)
  have first : e < leadingExponent q + 1 :=
    (zpow_lt_zpow_iff_right₀ (by norm_num : (1 : ℚ) < 2)).mp (low.trans_lt high')
  have second : leadingExponent q < e + 1 :=
    (zpow_lt_zpow_iff_right₀ (by norm_num : (1 : ℚ) < 2)).mp (low'.trans_lt high)
  omega

/-- A number closer than a half to an integer rounds to it. -/
theorem roundHalfEven_near {q : ℚ} {m : Nat} (nonneg : 0 ≤ q) (near : |q - m| < 1 / 2) :
    roundHalfEven q = m := by
  obtain ⟨low, high⟩ := abs_lt.mp near
  by_cases above : (m : ℚ) ≤ q
  · have floor : ⌊q⌋ = (m : Int) := Int.floor_eq_iff.mpr ⟨by exact_mod_cast above, by push_cast; linarith⟩
    simp only [roundHalfEven, floor, Int.toNat_natCast]
    rw [if_pos (Or.inl high)]
  · push Not at above
    have floor : ⌊q⌋ = (m : Int) - 1 := by
      refine Int.floor_eq_iff.mpr ⟨?_, ?_⟩
      · push_cast
        linarith
      · push_cast
        linarith
    have positive : 0 < m := by
      have : (0 : ℚ) < m := nonneg.trans_lt above
      exact_mod_cast this
    have below : ((⌊q⌋.toNat : Nat) : ℚ) = m - 1 := by
      rw [floor, show ((m : Int) - 1).toNat = m - 1 by omega, Nat.cast_sub positive]
      norm_num
    have natural : ⌊q⌋.toNat = m - 1 := by omega
    simp only [roundHalfEven, below]
    rw [if_neg, natural]
    · omega
    · rintro (part | ⟨part, _⟩) <;> linarith

theorem roundHalfEven_le {q : ℚ} {n : Nat} (nonneg : 0 ≤ q) (le : q ≤ n) : roundHalfEven q ≤ n := by
  have bottom : (0 : Int) ≤ ⌊q⌋ := Int.floor_nonneg.mpr nonneg
  have below : ⌊q⌋ ≤ (n : Int) := by exact_mod_cast (Int.floor_le q).trans le
  simp only [roundHalfEven]
  split
  · omega
  · rename_i half
    by_contra above
    have floor : ⌊q⌋ = (n : Int) := by omega
    have whole : q = n := le_antisymm le (by have := Int.floor_le q; rw [floor] at this; exact_mod_cast this)
    refine half (Or.inl ?_)
    rw [floor, Int.toNat_natCast, whole, sub_self]
    norm_num

theorem le_roundHalfEven {q : ℚ} {n : Nat} (le : (n : ℚ) ≤ q) : n ≤ roundHalfEven q := by
  have below : (n : Int) ≤ ⌊q⌋ := Int.le_floor.mpr (by exact_mod_cast le)
  simp only [roundHalfEven]
  split <;> omega

namespace F64

theorem roundMagnitude_unfold {negative : Bool} {q : ℚ} (nonzero : q ≠ 0) {e : Int} {m : Nat}
    (exponent : max (-1074) (leadingExponent q - 52) = e) (mantissa : roundHalfEven (q / 2 ^ e) = m) :
    roundMagnitude negative q =
      if m = 2 ^ 53 then assemble negative (2 ^ 52) (e + 1) else assemble negative m e := by
  simp only [roundMagnitude, if_neg nonzero, pow2_eq, exponent, mantissa]

theorem assemble_finite {x : Binary64} (negative : Bool) :
    assemble negative x.mantissa x.exponent = .finite { x with negative := negative } := by
  rw [assemble, dif_pos ⟨x.small, x.low, x.high, x.normal⟩]

/-- The largest finite double. -/
def largest : Nat := (2 ^ 53 - 1) * 2 ^ 971

theorem largest_eq : (largest : ℚ) = (2 ^ 53 - 1) * 2 ^ (971 : Int) := by
  rw [largest, Nat.cast_mul, two_pow_cast 971, Nat.cast_sub Nat.one_le_two_pow]
  norm_num

/-- No number up to the largest double rounds past it. -/
theorem roundMagnitude_isFinite {q : ℚ} (negative : Bool) (nonneg : 0 ≤ q) (le : q ≤ largest) :
    (roundMagnitude negative q).isFinite = true := by
  rcases nonneg.eq_or_lt with zero | positive
  · rw [roundMagnitude, if_pos zero.symm]
    rfl
  · obtain ⟨low, high⟩ := leadingExponent_bounds positive
    have top : leadingExponent q ≤ 1023 := by
      have bound : (2 : ℚ) ^ leadingExponent q < 2 ^ (1024 : Int) := by
        refine (low.trans le).trans_lt ?_
        rw [largest_eq, show (1024 : Int) = 53 + 971 by norm_num, two_zpow_add]
        refine mul_lt_mul_of_pos_right ?_ (two_zpow_pos _)
        norm_num
      have := (zpow_lt_zpow_iff_right₀ (by norm_num : (1 : ℚ) < 2)).mp bound
      omega
    obtain ⟨e, exponent⟩ : ∃ e, max (-1074) (leadingExponent q - 52) = e := ⟨_, rfl⟩
    obtain ⟨m, mantissa⟩ : ∃ m, roundHalfEven (q / 2 ^ e) = m := ⟨_, rfl⟩
    have unit := two_zpow_pos e
    have scaled : 0 ≤ q / 2 ^ e := (div_pos positive unit).le
    have most : m ≤ 2 ^ 53 := by
      rw [← mantissa]
      refine roundHalfEven_le scaled ((div_le_iff₀ unit).mpr (high.le.trans ?_))
      calc (2 : ℚ) ^ (leadingExponent q + 1) ≤ 2 ^ (53 + e) := two_zpow_le (by omega)
        _ = ((2 ^ 53 : Nat) : ℚ) * 2 ^ e := by rw [two_zpow_add, two_pow_cast]; rfl
    have least : e = -1074 ∨ 2 ^ 52 ≤ m := by
      by_cases bottom : e = -1074
      · exact Or.inl bottom
      · right
        rw [← mantissa]
        refine le_roundHalfEven ((le_div_iff₀ unit).mpr (le_trans ?_ low))
        calc ((2 ^ 52 : Nat) : ℚ) * 2 ^ e = 2 ^ (52 + e) := by rw [two_zpow_add, two_pow_cast]; rfl
          _ ≤ 2 ^ leadingExponent q := two_zpow_le (by omega)
    have last : e = 971 → m ≤ 2 ^ 53 - 1 := by
      intro last
      rw [← mantissa, last]
      refine roundHalfEven_le (last ▸ scaled) ((div_le_iff₀ (two_zpow_pos _)).mpr (le.trans_eq ?_))
      rw [largest_eq, Nat.cast_sub Nat.one_le_two_pow, two_pow_cast, Nat.cast_one]
      rfl
    rw [roundMagnitude_unfold positive.ne' exponent mantissa]
    split
    · rw [assemble, dif_pos ⟨by norm_num, by omega, by omega, Or.inr le_rfl⟩]
      rfl
    · rw [assemble, dif_pos ⟨by omega, by omega, by omega, least⟩]
      rfl

/-- A number within half a unit of the last place of a double rounds to that double, and one below
the smallest mantissa within a quarter does. -/
theorem roundMagnitude_near {x : Binary64} {r : ℚ} (negative : Bool) (nonzero : x.mantissa ≠ 0)
    (near : |r - x.mantissa * 2 ^ x.exponent| < 2 ^ x.exponent / 2)
    (edge : x.mantissa = 2 ^ 52 → |r - x.mantissa * 2 ^ x.exponent| < 2 ^ x.exponent / 4) :
    roundMagnitude negative r = .finite { x with negative := negative } := by
  have unit := two_zpow_pos x.exponent
  have one : (1 : ℚ) ≤ x.mantissa := by exact_mod_cast Nat.one_le_iff_ne_zero.mpr nonzero
  have small : (x.mantissa : ℚ) + 1 ≤ 2 ^ 53 := by exact_mod_cast x.small
  obtain ⟨low, high⟩ := abs_lt.mp near
  have positive : 0 < r := by nlinarith
  have above : r < 2 ^ (x.exponent + 52 + 1) := by
    rw [show x.exponent + 52 + 1 = x.exponent + 53 by ring, two_zpow_add]
    have power : (2 : ℚ) ^ (53 : Int) = 2 ^ 53 := by norm_cast
    rw [power]
    nlinarith
  have scaled : ∀ e : Int, r / 2 ^ e - x.mantissa * (2 ^ x.exponent / 2 ^ e) =
      (r - x.mantissa * 2 ^ x.exponent) / 2 ^ e := by
    intro e
    ring
  have normalForm : (2 : ℚ) ^ (x.exponent + 52) = 2 ^ 52 * 2 ^ x.exponent := by
    rw [two_zpow_add, mul_comm]
    norm_cast
  by_cases binade : (2 : ℚ) ^ (x.exponent + 52) ≤ r ∨ x.exponent = -1074
  · have exponent : max (-1074) (leadingExponent r - 52) = x.exponent := by
      have low := x.low
      rcases le_or_gt ((2 : ℚ) ^ (x.exponent + 52)) r with inside | outside
      · rw [leadingExponent_unique inside above]
        omega
      · have bottom := binade.resolve_left (not_le.mpr outside)
        have leading : leadingExponent r < x.exponent + 52 :=
          (zpow_lt_zpow_iff_right₀ (by norm_num : (1 : ℚ) < 2)).mp
            ((leadingExponent_bounds positive).1.trans_lt outside)
        omega
    have mantissa : roundHalfEven (r / 2 ^ x.exponent) = x.mantissa := by
      refine roundHalfEven_near (by positivity) ?_
      have := scaled x.exponent
      rw [div_self unit.ne', mul_one] at this
      rw [this, abs_div, abs_of_pos unit, div_lt_iff₀ unit]
      linarith
    rw [roundMagnitude_unfold positive.ne' exponent mantissa, if_neg (by have := x.small; omega)]
    exact assemble_finite negative
  · push Not at binade
    obtain ⟨below, notBottom⟩ := binade
    have lower := x.normal.resolve_left notBottom
    have least : x.mantissa = 2 ^ 52 := by
      by_contra different
      have further : (2 : ℚ) ^ 52 + 1 ≤ x.mantissa := by
        have : 2 ^ 52 + 1 ≤ x.mantissa := by omega
        exact_mod_cast this
      rw [normalForm] at below
      nlinarith
    have least' : (x.mantissa : ℚ) = 2 ^ 52 := by rw [least]; norm_num
    obtain ⟨closeLow, _⟩ := abs_lt.mp (edge least)
    rw [normalForm] at below
    have half : (2 : ℚ) ^ x.exponent = 2 * 2 ^ (x.exponent - 1) := by
      conv_lhs => rw [show x.exponent = 1 + (x.exponent - 1) by ring, two_zpow_add]
      norm_num
    have unit' := two_zpow_pos (x.exponent - 1)
    have leading : leadingExponent r = x.exponent + 51 := by
      refine leadingExponent_unique ?_ ?_
      · rw [show x.exponent + 51 = (x.exponent - 1) + 52 by ring, two_zpow_add]
        have power : (2 : ℚ) ^ (52 : Int) = 2 ^ 52 := by norm_cast
        rw [power]
        rw [least', half] at closeLow
        nlinarith
      · rw [show x.exponent + 51 + 1 = x.exponent + 52 by ring, normalForm]
        exact below
    have exponent : max (-1074) (leadingExponent r - 52) = x.exponent - 1 := by
      have := x.low
      omega
    have mantissa : roundHalfEven (r / 2 ^ (x.exponent - 1)) = 2 ^ 53 := by
      refine roundHalfEven_near (by positivity) ?_
      have rewritten : r / 2 ^ (x.exponent - 1) - ((2 ^ 53 : Nat) : ℚ) =
          (r - x.mantissa * 2 ^ x.exponent) / 2 ^ (x.exponent - 1) := by
        rw [← scaled, half, least', mul_div_assoc, div_self unit'.ne']
        norm_num
      rw [rewritten, abs_div, abs_of_pos unit', div_lt_iff₀ unit']
      have := edge least
      rw [half] at this ⊢
      linarith
    rw [roundMagnitude_unfold positive.ne' exponent mantissa, if_pos rfl, sub_add_cancel, ← least]
    exact assemble_finite negative

theorem round_isFinite {q : ℚ} (zeroNegative : Bool) (le : |q| ≤ largest) : (round zeroNegative q).isFinite = true := by
  unfold round
  split
  · rfl
  · exact roundMagnitude_isFinite _ (abs_nonneg q) le

end F64

theorem Binary64.abs_value_le (x : Binary64) : |x.value| ≤ F64.largest := by
  have magnitude : |x.value| = x.mantissa * 2 ^ x.exponent := by
    have nonneg : 0 ≤ x.magnitude := by
      rw [Binary64.magnitude, pow2_eq]
      have := two_zpow_pos x.exponent
      positivity
    have same : |x.value| = x.magnitude := by
      rw [Binary64.value]
      split
      · rw [abs_neg, abs_of_nonneg nonneg]
      · exact abs_of_nonneg nonneg
    rw [same, Binary64.magnitude, pow2_eq]
  rw [magnitude, F64.largest_eq]
  have small : (x.mantissa : ℚ) ≤ 2 ^ 53 - 1 := by
    have : (x.mantissa : ℚ) + 1 ≤ 2 ^ 53 := by exact_mod_cast x.small
    linarith
  exact mul_le_mul small (two_zpow_le x.high) (two_zpow_pos _).le (by norm_num)

end Xript
