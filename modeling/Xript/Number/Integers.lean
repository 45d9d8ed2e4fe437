import Xript.Number.RoundTrip

namespace Xript

/-- A natural number of at most 53 significant bits. -/
def FitsDouble (n : Nat) : Prop := 2 ^ (n.log2 - 52) ∣ n

instance (n : Nat) : Decidable (FitsDouble n) := inferInstanceAs (Decidable (_ ∣ _))

namespace Binary64

theorem value_of_positive {x : Binary64} (positive : x.negative = false) : x.value = x.mantissa * 2 ^ x.exponent := by
  rw [value, positive, if_neg Bool.false_ne_true, magnitude_eq]

/-- The bits of a natural number that is a double. -/
theorem fits_of_value {x : Binary64} {n : Nat} (same : x.value = n) : FitsDouble n := by
  have equal : (n : ℚ) = x.mantissa * 2 ^ x.exponent := by
    have nonneg : (0 : ℚ) ≤ x.magnitude := by
      rw [magnitude_eq]
      have := two_zpow_pos x.exponent
      positivity
    rw [← magnitude_eq, ← same, value]
    split
    · rename_i negative
      rw [value, if_pos negative] at same
      have : (0 : ℚ) ≤ n := n.cast_nonneg
      linarith
    · rfl
  by_cases nonzero : n = 0
  · rw [nonzero]
    exact dvd_zero _
  rw [FitsDouble]
  rcases le_total 0 x.exponent with up | down
  · obtain ⟨k, power⟩ := Int.eq_ofNat_of_zero_le up
    have whole : n = x.mantissa * 2 ^ k := by
      rw [power] at equal
      exact_mod_cast equal
    have bits : n.log2 < 53 + k := by
      rw [Nat.log2_lt nonzero, whole, Nat.pow_add]
      exact Nat.mul_lt_mul_of_pos_right x.small (Nat.two_pow_pos k)
    rw [whole]
    exact (Nat.pow_dvd_pow 2 (by rw [← whole]; omega)).trans (dvd_mul_left ..)
  · have small : n < 2 ^ 53 := by
      have le : (n : ℚ) ≤ x.mantissa := by
        rw [equal]
        exact mul_le_of_le_one_right (by positivity) (zpow_le_one_of_nonpos₀ (by norm_num) down)
      exact (Nat.cast_le.mp le).trans_lt x.small
    have bits : n.log2 < 53 := (Nat.log2_lt nonzero).mpr small
    rw [show n.log2 - 52 = 0 by omega]
    exact one_dvd n

/-- A natural number of at most 53 significant bits is a double. -/
theorem exists_value {n : Nat} (nonzero : n ≠ 0) (fits : FitsDouble n) (bounded : n.log2 < 1024) :
    ∃ x : Binary64, x.negative = false ∧ x.mantissa ≠ 0 ∧ x.value = n := by
  have low := Nat.log2_self_le nonzero
  have high : n < 2 ^ (n.log2 + 1) := Nat.lt_log2_self
  obtain ⟨m, shape⟩ := fits
  -- The mantissa takes the number's bits down to the fifty-third, or moves them up to it.
  have scaled : ∃ mantissa : Nat, 2 ^ 52 ≤ mantissa ∧ mantissa < 2 ^ 53 ∧
      (mantissa : ℚ) * 2 ^ ((n.log2 : Int) - 52) = n := by
    rcases le_total 52 n.log2 with large | little
    · refine ⟨m, ?_, ?_, ?_⟩
      · refine Nat.le_of_mul_le_mul_left ?_ (Nat.two_pow_pos (n.log2 - 52))
        rw [← shape, ← Nat.pow_add, Nat.sub_add_cancel large]
        exact low
      · refine Nat.lt_of_mul_lt_mul_left (a := 2 ^ (n.log2 - 52)) ?_
        rw [← shape, ← Nat.pow_add, show n.log2 - 52 + 53 = n.log2 + 1 by omega]
        exact high
      · rw [show (n.log2 : Int) - 52 = ((n.log2 - 52 : Nat) : Int) by omega, zpow_natCast, mul_comm]
        exact_mod_cast shape.symm
    · refine ⟨n * 2 ^ (52 - n.log2), ?_, ?_, ?_⟩
      · calc 2 ^ 52 = 2 ^ n.log2 * 2 ^ (52 - n.log2) := by rw [← Nat.pow_add, Nat.add_sub_cancel' little]
          _ ≤ n * 2 ^ (52 - n.log2) := Nat.mul_le_mul_right _ low
      · calc n * 2 ^ (52 - n.log2) < 2 ^ (n.log2 + 1) * 2 ^ (52 - n.log2) :=
            Nat.mul_lt_mul_of_pos_right high (Nat.two_pow_pos _)
          _ = 2 ^ 53 := by rw [← Nat.pow_add, show n.log2 + 1 + (52 - n.log2) = 53 by omega]
      · rw [Nat.cast_mul, mul_assoc, two_pow_cast, ← two_zpow_add,
          show ((52 - n.log2 : Nat) : Int) + ((n.log2 : Int) - 52) = 0 by omega, zpow_zero, mul_one]
  obtain ⟨mantissa, least, most, same⟩ := scaled
  refine ⟨⟨false, mantissa, (n.log2 : Int) - 52, most, by omega, by omega, Or.inr least⟩, rfl, ?_, ?_⟩
  · exact Nat.one_le_iff_ne_zero.mp (Nat.one_le_two_pow.trans least)
  · rw [value_of_positive rfl]
    exact same

end Binary64

namespace F64

/-- A double that is a positive natural number is what that number rounds to. -/
theorem ofNat_of_value {x : Binary64} {n : Nat} (positive : x.negative = false) (nonzero : x.mantissa ≠ 0)
    (same : x.value = n) : ofNat n = .finite x := by
  have equal : (n : ℚ) = x.mantissa * 2 ^ x.exponent := by rw [← same, Binary64.value_of_positive positive]
  have unit := two_zpow_pos x.exponent
  have above : (0 : ℚ) < n := by
    rw [equal]
    have : (0 : ℚ) < x.mantissa := by exact_mod_cast Nat.pos_of_ne_zero nonzero
    positivity
  rw [ofNat, ofRat_positive above, roundMagnitude_near false nonzero]
  · rw [← positive]
  · rw [equal, sub_self, abs_zero]
    positivity
  · intro _
    rw [equal, sub_self, abs_zero]
    positivity

/-- Where a natural number is the double it rounds to. -/
theorem ofNat_exact_iff {n : Nat} (bounded : n.log2 < 1024) :
    (∃ x, ofNat n = .finite x ∧ x.value = n) ↔ FitsDouble n := by
  constructor
  · rintro ⟨x, -, same⟩
    exact Binary64.fits_of_value same
  · intro fits
    by_cases zero : n = 0
    · refine ⟨.zero false, ?_, ?_⟩
      · rw [zero, ofNat, ofRat, round, if_pos Nat.cast_zero]
      · simp [zero, Binary64.value, Binary64.magnitude, Binary64.zero]
    · obtain ⟨x, positive, nonzero, same⟩ := Binary64.exists_value zero fits bounded
      exact ⟨x, ofNat_of_value positive nonzero same, same⟩

end F64

end Xript
