import Xript.Number.RoundTrip

namespace Xript

theorem isDigit_bounds {d : Nat} : isDigit d = true ↔ 48 ≤ d ∧ d ≤ 57 := by
  simp [isDigit]

theorem readDigits_cons {d : Nat} (digit : isDigit d = true) (t : JSString) :
    readDigits 10 (d :: t) = (d - 48) * 10 ^ t.length + readDigits 10 t := by
  have single : readDigits 10 [d] = d - 48 := by
    simp [readDigits, digit]
  rw [← List.singleton_append, readDigits_append, single]

/-- The first digits of a numeral are its number without the last ones. -/
theorem readDigits_take {s : JSString} (digits : s.all isDigit = true) (i : Nat) :
    readDigits 10 (s.take i) = readDigits 10 s / 10 ^ (s.length - i) := by
  have whole := readDigits_append (s.take i) (s.drop i)
  rw [List.take_append_drop, List.length_drop] at whole
  have dropped : (s.drop i).all isDigit = true :=
    List.all_eq_true.mpr fun c member => List.all_eq_true.mp digits c (List.mem_of_mem_drop member)
  have small := readDigits_lt dropped
  rw [List.length_drop] at small
  rw [whole, Nat.mul_comm, Nat.mul_add_div (Nat.pow_pos (by decide)), Nat.div_eq_of_lt small, Nat.add_zero]

/-- One digit of a numeral. -/
theorem readDigits_digit {s : JSString} (digits : s.all isDigit = true) {i d : Nat} (found : s[i]? = some d) :
    d = 48 + readDigits 10 s / 10 ^ (s.length - 1 - i) % 10 := by
  obtain ⟨inside, rfl⟩ := List.getElem?_eq_some_iff.mp found
  have digit := List.all_eq_true.mp digits s[i] (List.getElem_mem inside)
  have prefixes := readDigits_take digits (i + 1)
  rw [List.take_add_one, found, Option.toList_some, readDigits_append, readDigits_cons digit] at prefixes
  rw [show s.length - 1 - i = s.length - (i + 1) by omega, ← prefixes]
  have bounds := isDigit_bounds.mp digit
  simp only [List.length_singleton, List.length_nil, pow_zero, mul_one, pow_one, readDigits, List.foldl_nil]
  omega

/-- A numeral in which one digit is exchanged. -/
theorem readDigits_set {s : JSString} {i d e : Nat} (found : s[i]? = some d) (old : isDigit d = true)
    (new : isDigit e = true) :
    readDigits 10 (s.set i e) + (d - 48) * 10 ^ (s.length - 1 - i) =
      readDigits 10 s + (e - 48) * 10 ^ (s.length - 1 - i) := by
  obtain ⟨inside, rfl⟩ := List.getElem?_eq_some_iff.mp found
  have split : s = s.take i ++ s[i] :: s.drop (i + 1) := by
    rw [← List.drop_eq_getElem_cons inside, List.take_append_drop]
  have rest : (s.drop (i + 1)).length = s.length - 1 - i := by
    rw [List.length_drop]
    omega
  have before : readDigits 10 s = readDigits 10 (s.take i ++ s[i] :: s.drop (i + 1)) := congrArg _ split
  rw [List.set_eq_take_append_cons_drop, if_pos inside, before, readDigits_append, readDigits_append,
    readDigits_cons new, readDigits_cons old, rest, List.length_cons, List.length_cons]
  ring

/-- A numeral starts with a zero exactly where its number has fewer digits. -/
theorem readDigits_head_iff {s : JSString} (digits : s.all isDigit = true) (present : s ≠ []) :
    s.head? = some 48 ↔ readDigits 10 s < 10 ^ (s.length - 1) := by
  obtain ⟨d, t, rfl⟩ := List.exists_cons_of_ne_nil present
  rw [List.all_cons, Bool.and_eq_true] at digits
  have bounds := isDigit_bounds.mp digits.1
  have small := readDigits_lt digits.2
  rw [readDigits_cons digits.1, List.head?_cons, Option.some.injEq, List.length_cons, Nat.add_sub_cancel]
  constructor
  · rintro rfl
    omega
  · intro below
    by_contra other
    have : 1 * 10 ^ t.length ≤ (d - 48) * 10 ^ t.length := Nat.mul_le_mul_right _ (by omega)
    omega

end Xript
