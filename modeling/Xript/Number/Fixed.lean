import Xript.Number.Format
import Xript.Number.Numerals
import Xript.Number.Integers

namespace Xript

/-- `n` is the number `q`, not negative, rounded to an integer with halves away from zero. -/
def RoundsAway (q : ℚ) (n : Nat) : Prop := |n - q| ≤ 1 / 2 ∧ (|n - q| = 1 / 2 → q < n)

theorem roundsAway_iff {q : ℚ} {n : Nat} : RoundsAway q n ↔ ⌊q + 1 / 2⌋ = n := by
  rw [RoundsAway, Int.floor_eq_iff, abs_le, Int.cast_natCast]
  constructor
  · rintro ⟨⟨low, high⟩, half⟩
    refine ⟨by linarith, ?_⟩
    by_contra above
    have equal : n - q = -(1 / 2) := by linarith
    have greater := half (by rw [equal]; norm_num)
    linarith
  · rintro ⟨low, high⟩
    refine ⟨⟨by linarith, by linarith⟩, ?_⟩
    intro half
    rcases (abs_eq (by norm_num)).mp half with above | below <;> linarith

/-- Rounding away by the first digit that is left out: `n` counts places of `10 ^ -(kept + 1 + rest)`. -/
theorem roundsAway_digit (n rest : Nat) :
    RoundsAway ((n : ℚ) / 10 ^ (rest + 1))
      (n / 10 ^ (rest + 1) + if 5 ≤ n / 10 ^ rest % 10 then 1 else 0) := by
  have unit : 0 < 10 ^ rest := Nat.pow_pos (by decide)
  have split := Nat.div_add_mod n (10 ^ rest)
  have below := Nat.mod_lt n unit
  rw [Nat.pow_succ, ← Nat.div_div_eq_div_mul]
  generalize n / 10 ^ rest = m at split ⊢
  generalize n % 10 ^ rest = r at split below
  have digits := Nat.div_add_mod m 10
  have last := Nat.mod_lt m (by decide : 10 > 0)
  generalize m / 10 = k at digits ⊢
  generalize m % 10 = d at digits last ⊢
  have width : (0 : ℚ) < 10 ^ rest := by positivity
  have value : (n : ℚ) / 10 ^ (rest + 1) = k + (d * 10 ^ rest + r) / (10 * 10 ^ rest) := by
    rw [← split, ← digits, pow_succ]
    push_cast
    field_simp
    ring
  rw [roundsAway_iff, value, Int.floor_eq_iff]
  have rest' : (r : ℚ) < 10 ^ rest := by exact_mod_cast below
  have some' : (0 : ℚ) ≤ r := Nat.cast_nonneg r
  split
  · rename_i upper
    have upper' : (5 : ℚ) ≤ d := by exact_mod_cast upper
    have last' : (d : ℚ) ≤ 9 := by exact_mod_cast Nat.lt_succ_iff.mp last
    have half : (1 : ℚ) / 2 ≤ (d * 10 ^ rest + r) / (10 * 10 ^ rest) := by
      rw [le_div_iff₀ (by positivity)]
      nlinarith
    have whole : (d * 10 ^ rest + r) / (10 * 10 ^ rest) < (1 : ℚ) := by
      rw [div_lt_iff₀ (by positivity)]
      nlinarith
    push_cast
    constructor <;> linarith
  · rename_i lower
    have lower' : (d : ℚ) ≤ 4 := by exact_mod_cast (by omega : d ≤ 4)
    have none' : (0 : ℚ) ≤ (d * 10 ^ rest + r) / (10 * 10 ^ rest) := by positivity
    have half : (d * 10 ^ rest + r) / (10 * 10 ^ rest) < (1 : ℚ) / 2 := by
      rw [div_lt_iff₀ (by positivity)]
      nlinarith
    push_cast
    constructor <;> linarith

namespace Rust

theorem set_digits {s : JSString} (digits : s.all isDigit = true) {d : Nat} (digit : isDigit d = true) (i : Nat) :
    (s.set i d).all isDigit = true := by
  rw [List.all_eq_true] at *
  intro c member
  rcases List.mem_or_eq_of_mem_set member with old | same
  · exact digits c old
  · rw [same]
    exact digit

/-- One step of the carry: a nine turns into a zero and the carry goes on; any other digit takes it. -/
theorem carry_step {i : Nat} {kept : JSString} (digits : kept.all isDigit = true) (within : i < kept.length) :
    ∃ d, kept[i]? = some d ∧ isDigit d = true ∧
      ((d = 57 ∧ carry (i + 1) kept = carry i (kept.set i 48)) ∨
        (isDigit (d + 1) = true ∧ carry (i + 1) kept = kept.set i (d + 1))) := by
  obtain ⟨d, found⟩ : ∃ d, kept[i]? = some d := ⟨_, List.getElem?_eq_getElem within⟩
  have digit := List.all_eq_true.mp digits d (List.mem_of_getElem? found)
  refine ⟨d, found, digit, ?_⟩
  rw [carry, found]
  split
  · rename_i nine
    exact Or.inl ⟨Option.some.inj nine, rfl⟩
  · rename_i other
    have bounds := isDigit_bounds.mp digit
    have smaller : d ≠ 57 := fun nine => other (congrArg some nine)
    refine Or.inr ⟨isDigit_bounds.mpr (by omega), ?_⟩
    rw [List.modify_eq_set_getElem?, found]
    rfl

/-- The carry adds one to the digit before place `i`. -/
theorem readDigits_carry {i : Nat} {kept : JSString} (digits : kept.all isDigit = true) (within : i ≤ kept.length) :
    readDigits 10 (carry i kept) = readDigits 10 kept + 10 ^ (kept.length - i) := by
  induction i generalizing kept with
  | zero =>
    rw [carry, readDigits_cons (by decide), Nat.sub_zero]
    omega
  | succ i ih =>
    obtain ⟨d, found, digit, ⟨rfl, onward⟩ | ⟨next, taken⟩⟩ := carry_step digits within
    · have zeroed := readDigits_set found digit (show isDigit 48 = true from rfl)
      rw [onward, ih (set_digits digits rfl i) (by rw [List.length_set]; omega), List.length_set,
        show kept.length - i = kept.length - 1 - i + 1 by omega,
        show kept.length - (i + 1) = kept.length - 1 - i by omega, Nat.pow_succ]
      omega
    · have raised := readDigits_set found digit next
      have bounds := isDigit_bounds.mp digit
      rw [taken, show kept.length - (i + 1) = kept.length - 1 - i by omega]
      rw [show d + 1 - 48 = d - 48 + 1 by omega, Nat.add_mul, Nat.one_mul] at raised
      omega

theorem carry_digits {i : Nat} {kept : JSString} (digits : kept.all isDigit = true) (within : i ≤ kept.length) :
    (carry i kept).all isDigit = true := by
  induction i generalizing kept with
  | zero =>
    rw [carry, List.all_cons, digits]
    rfl
  | succ i ih =>
    obtain ⟨d, _, _, ⟨_, onward⟩ | ⟨next, taken⟩⟩ := carry_step digits within
    · rw [onward]
      exact ih (set_digits digits rfl i) (by rw [List.length_set]; omega)
    · rw [taken]
      exact set_digits digits next i

/-- The carry keeps the number of digits or writes a one before them. -/
theorem carry_length {i : Nat} {kept : JSString} (digits : kept.all isDigit = true) (within : i ≤ kept.length) :
    (carry i kept).length = kept.length ∨
      ((carry i kept).length = kept.length + 1 ∧ (carry i kept).head? = some 49) := by
  induction i generalizing kept with
  | zero => exact Or.inr ⟨rfl, rfl⟩
  | succ i ih =>
    obtain ⟨d, _, _, ⟨_, onward⟩ | ⟨next, taken⟩⟩ := carry_step digits within
    · rw [onward]
      have shorter := ih (set_digits digits (show isDigit 48 = true from rfl) i) (by rw [List.length_set]; omega)
      rwa [List.length_set] at shorter
    · rw [taken, List.length_set]
      exact Or.inl rfl

/-- A whole part without superfluous zeros. -/
def Plain (whole : JSString) : Prop := whole ≠ [] ∧ (whole.head? = some 48 → whole = [48])

theorem plain_decimal (n : Nat) : Plain (decimal n) := by
  refine ⟨decimal_ne_nil n, ?_⟩
  intro zero
  by_cases nonzero : n = 0
  · subst nonzero
    decide
  · exact absurd zero (decimal_head nonzero)

/-- A text with as many digits as one with a plain whole part, and no smaller number, has a plain whole
part too. -/
theorem plain_of_le {whole rest kept rounded : JSString} (plain : Plain whole) (joined : kept = whole ++ rest)
    (digits : kept.all isDigit = true) (roundedDigits : rounded.all isDigit = true)
    (length : rounded.length = kept.length) (le : readDigits 10 kept ≤ readDigits 10 rounded) :
    Plain (rounded.take whole.length) := by
  obtain ⟨present, zero⟩ := plain
  have size : kept.length = whole.length + rest.length := by rw [joined, List.length_append]
  obtain ⟨k, succ⟩ : ∃ k, whole.length = k + 1 :=
    ⟨whole.length - 1, by have := List.length_pos_of_ne_nil present; omega⟩
  obtain ⟨d, t, rfl⟩ := List.exists_cons_of_ne_nil (List.ne_nil_of_length_pos (by omega : 0 < rounded.length))
  rw [succ]
  refine ⟨List.cons_ne_nil _ _, ?_⟩
  intro head
  have small := (readDigits_head_iff roundedDigits (List.cons_ne_nil d t)).mp head
  rw [length] at small
  have keptHead := (readDigits_head_iff digits (List.ne_nil_of_length_pos (by omega))).mpr (by omega)
  rw [joined, List.head?_append_of_ne_nil _ present] at keptHead
  have single : k = 0 := by
    rw [zero keptHead] at succ
    exact (Nat.succ.inj succ).symm
  rw [single, List.take_succ_cons, List.take_zero, Option.some.inj head]

theorem plain_carried {whole rest kept : JSString} (plain : Plain whole) (joined : kept = whole ++ rest)
    (digits : kept.all isDigit = true) :
    Plain ((carry kept.length kept).take ((carry kept.length kept).length - rest.length)) := by
  have read := readDigits_carry digits le_rfl
  have size : kept.length = whole.length + rest.length := by rw [joined, List.length_append]
  rcases carry_length digits le_rfl with same | ⟨longer, one⟩
  · rw [same, show kept.length - rest.length = whole.length by omega]
    exact plain_of_le plain joined digits (carry_digits digits le_rfl) same
      (by rw [read]; exact Nat.le_add_right _ _)
  · rw [longer, show kept.length + 1 - rest.length = whole.length + 1 by omega]
    obtain ⟨t, shape⟩ := List.head?_eq_some_iff.mp one
    rw [shape]
    exact ⟨List.cons_ne_nil _ _, fun zero => absurd zero (by simp)⟩

theorem pointText_parts (n : Nat) {places : Nat} (some : places ≠ 0) :
    ∃ whole fraction, pointText n places = whole ++ 46 :: fraction ∧ Plain whole ∧ fraction.length = places ∧
      (whole ++ fraction).all isDigit = true ∧ readDigits 10 (whole ++ fraction) = n := by
  have below : n % 10 ^ places < 10 ^ places := Nat.mod_lt _ (Nat.pow_pos (by decide))
  have short := (decimal_length_le_iff (Nat.pos_of_ne_zero some)).mpr below
  refine ⟨decimal (n / 10 ^ places), List.replicate (places - (decimal (n % 10 ^ places)).length) 48 ++
    decimal (n % 10 ^ places), ?_, plain_decimal _, ?_, ?_, ?_⟩
  · rw [pointText, if_neg some]
  · rw [List.length_append, List.length_replicate, Nat.sub_add_cancel short]
  · simp only [List.all_append, decimal_digits, zeros_digits, Bool.and_self]
  · simp only [readDigits_append, readDigits_decimal, readDigits_zeros, List.length_append, List.length_replicate,
      Nat.sub_add_cancel short, Nat.zero_mul, Nat.zero_add]
    rw [Nat.mul_comm, Nat.div_add_mod]

theorem splitOnce_point {whole : JSString} (digits : whole.all isDigit = true) (fraction : JSString) :
    splitOnce 46 (whole ++ 46 :: fraction) = some (whole, fraction) := by
  have before : ∀ c ∈ whole, (c != 46) = true := by
    intro c member
    have bounds := isDigit_bounds.mp (List.all_eq_true.mp digits c member)
    simp only [bne_iff_ne]
    omega
  rw [splitOnce, if_pos (by simp), List.takeWhile_append_of_pos before, List.dropWhile_append_of_pos before]
  simp

/-- A double has at most 1074 places, so more of them are written exactly. -/
theorem formatPrecision_exact (x : Binary64) {places : Nat} (enough : 1074 ≤ places) :
    ∃ n : Nat, (n : ℚ) = x.magnitude * 10 ^ places ∧
      formatPrecision places (.finite { x with negative := false }) = pointText n places := by
  obtain ⟨k, shift⟩ := Int.eq_ofNat_of_zero_le (show 0 ≤ x.exponent + places by have := x.low; omega)
  have exact : ((x.mantissa * 2 ^ k * 5 ^ places : Nat) : ℚ) = x.magnitude * 10 ^ places := by
    have ten : (10 : ℚ) ^ places = 2 ^ (places : Int) * 5 ^ places := by
      rw [zpow_natCast, ← mul_pow]
      norm_num
    have two : (2 : ℚ) ^ x.exponent * 2 ^ (places : Int) = 2 ^ k := by
      rw [← two_zpow_add, shift, zpow_natCast]
    push_cast
    rw [Binary64.magnitude_eq, ten, ← two]
    ring
  refine ⟨_, exact, ?_⟩
  have same : Binary64.magnitude { x with negative := false } = x.magnitude := rfl
  simp only [formatPrecision, same, ← exact]
  rw [roundHalfEven_near (Nat.cast_nonneg _) (by rw [sub_self]; norm_num)]
  rfl

/-- What `format_fixed` keeps of the exact digits, once rounded. -/
theorem rounded_digits {whole fraction : JSString} {n places digits : Nat} (plain : Plain whole)
    (all : (whole ++ fraction).all isDigit = true) (length : fraction.length = places)
    (read : readDigits 10 (whole ++ fraction) = n) (inside : digits < places) :
    ∃ rounded : JSString,
      (if (fraction[digits]?).any (53 ≤ ·) then
        carry (whole ++ fraction.take digits).length (whole ++ fraction.take digits)
        else whole ++ fraction.take digits) = rounded ∧
      rounded.all isDigit = true ∧ digits < rounded.length ∧
      Plain (rounded.take (rounded.length - digits)) ∧
      readDigits 10 rounded =
        n / 10 ^ (places - 1 - digits + 1) + if 5 ≤ n / 10 ^ (places - 1 - digits) % 10 then 1 else 0 := by
  obtain ⟨kept, joined⟩ : ∃ kept, kept = whole ++ fraction.take digits := ⟨_, rfl⟩
  have taken : (fraction.take digits).length = digits := by
    rw [List.length_take]
    omega
  have size : kept.length = whole.length + digits := by rw [joined, List.length_append, taken]
  have total : (whole ++ fraction).length = whole.length + places := by rw [List.length_append, length]
  have some : 0 < whole.length := List.length_pos_of_ne_nil plain.1
  have front : kept = (whole ++ fraction).take (whole.length + digits) := by
    rw [joined, List.take_length_add_append]
  have keptDigits : kept.all isDigit = true := by
    rw [front]
    exact List.all_eq_true.mpr fun c member => List.all_eq_true.mp all c (List.mem_of_mem_take member)
  have keptRead : readDigits 10 kept = n / 10 ^ (places - 1 - digits + 1) := by
    rw [front, readDigits_take all, read, total]
    congr 2
    omega
  obtain ⟨next, found⟩ : ∃ next, fraction[digits]? = Option.some next :=
    ⟨_, List.getElem?_eq_getElem (by omega)⟩
  have nextDigit : next = 48 + n / 10 ^ (places - 1 - digits) % 10 := by
    have place : (whole ++ fraction)[whole.length + digits]? = Option.some next := by
      rw [List.getElem?_append_right (by omega), Nat.add_sub_cancel_left, found]
    have digit := readDigits_digit all place
    rw [read, total, show whole.length + places - 1 - (whole.length + digits) = places - 1 - digits by omega] at digit
    exact digit
  refine ⟨_, rfl, ?_⟩
  rw [← joined, found, Option.any_some]
  by_cases up : 5 ≤ n / 10 ^ (places - 1 - digits) % 10
  · rw [if_pos (by simp only [decide_eq_true_eq]; omega), if_pos up]
    have longer : kept.length ≤ (carry kept.length kept).length := by
      rcases carry_length keptDigits le_rfl with same | ⟨longer, _⟩ <;> omega
    have carried := plain_carried plain joined keptDigits
    rw [taken] at carried
    refine ⟨carry_digits keptDigits le_rfl, by omega, carried, ?_⟩
    rw [readDigits_carry keptDigits le_rfl, keptRead, Nat.sub_self, pow_zero]
  · rw [if_neg (by simp only [decide_eq_true_eq]; omega), if_neg up]
    refine ⟨keptDigits, by omega, ?_, keptRead⟩
    rw [size, Nat.add_sub_cancel, joined, List.take_left]
    exact plain

theorem ofNat_fixedLimit : ∃ x, F64.ofNat (10 ^ 21) = .finite x ∧ x.value = ((10 ^ 21 : Nat) : ℚ) :=
  (F64.ofNat_exact_iff (by decide +kernel)).mpr (by decide +kernel)

end Rust

end Xript
