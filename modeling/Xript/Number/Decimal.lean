import Xript.Number.Text

namespace Xript

theorem utf16_digits {chars : List Char} (digits : ∀ c ∈ chars, c.isDigit = true) :
    utf16 chars = chars.map Char.toNat ∧ (utf16 chars).all isDigit = true := by
  induction chars with
  | nil => exact ⟨rfl, rfl⟩
  | cons c chars ih =>
    have digit := digits c (List.mem_cons_self ..)
    have bounds : 48 ≤ c.toNat ∧ c.toNat ≤ 57 := by
      simpa [Char.isDigit, UInt32.le_iff_toNat_le] using digit
    have unit : unitsOf c.toNat = [c.toNat] := by
      rw [unitsOf, if_pos (by omega)]
    obtain ⟨same, all⟩ := ih fun d member => digits d (List.mem_cons_of_mem _ member)
    constructor
    · rw [utf16_cons, unit, same]
      rfl
    · rw [utf16_cons, unit, List.singleton_append, List.all_cons, all]
      simp [isDigit, bounds]

theorem decimal_eq (n : Nat) : decimal n = (Nat.toDigits 10 n).map Char.toNat := by
  rw [decimal, js, Nat.toList_repr]
  exact (utf16_digits fun c member => Nat.isDigit_of_mem_toDigits (by decide) (by decide) member).1

theorem decimal_digits (n : Nat) : (decimal n).all isDigit = true := by
  rw [decimal, js, Nat.toList_repr]
  exact (utf16_digits fun c member => Nat.isDigit_of_mem_toDigits (by decide) (by decide) member).2

theorem decimal_ne_nil (n : Nat) : decimal n ≠ [] := by
  rw [decimal_eq, ne_eq, List.map_eq_nil_iff]
  exact Nat.toDigits_ne_nil

/-- Reading digit characters one after another. -/
theorem readDigits_chars {chars : List Char} (digits : ∀ c ∈ chars, c.isDigit = true) (start : Nat) :
    (chars.map Char.toNat).foldl (fun n d => n * 10 +
      (if isDigit d then d - 48 else if isUpper d then d - 55 else d - 87)) start =
    Nat.ofDigitChars 10 chars start := by
  induction chars generalizing start with
  | nil => rfl
  | cons c chars ih =>
    have digit : isDigit c.toNat = true := by
      have given := digits c (List.mem_cons_self ..)
      simpa [Char.isDigit, UInt32.le_iff_toNat_le, isDigit] using given
    rw [List.map_cons, List.foldl_cons, Nat.ofDigitChars_cons, if_pos digit, Nat.mul_comm start 10]
    exact ih (fun d member => digits d (List.mem_cons_of_mem _ member)) _

/-- A decimal numeral reads back as its number. -/
theorem readDigits_decimal (n : Nat) : readDigits 10 (decimal n) = n := by
  rw [readDigits, decimal_eq, readDigits_chars]
  · exact Nat.ofDigitChars_ten_toDigits
  · exact fun c member => Nat.isDigit_of_mem_toDigits (by decide) (by decide) member

theorem decimal_injective {m n : Nat} (same : decimal m = decimal n) : m = n := by
  rw [← readDigits_decimal m, same, readDigits_decimal]

end Xript
