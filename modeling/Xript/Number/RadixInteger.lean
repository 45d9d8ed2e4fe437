import Mathlib.Data.Nat.Digits.Defs
import Xript.Number.Integers

namespace Xript

namespace Rust

/-- `char::to_digit`. -/
def toDigit (radix : Nat) (c : Char) : Option Nat :=
  (if '0' ≤ c ∧ c ≤ '9' then some (c.toNat - 48)
    else if 'a' ≤ c ∧ c ≤ 'z' then some (c.toNat - 87)
    else if 'A' ≤ c ∧ c ≤ 'Z' then some (c.toNat - 55) else none).filter (· < radix)

/-- The lowest bits of a digit, as many as the width, the highest of them first. -/
def digitBits (width digit : Nat) : List Bool := (List.range width).reverse.map digit.testBit

/-- The number some bits spell. The source folds at most 53 of them, into a `u64`. -/
def foldBits (bits : List Bool) : Nat := bits.foldl (fun acc bit => 2 * acc + bit.toNat) 0

/-- The mantissa and exponent of more than 53 bits, the first of them set. -/
def roundBits (bits : List Bool) : Nat × Nat :=
  let mantissa := foldBits (bits.take 53)
  let sticky := (bits.drop 54).any id
  let mantissa := if bits.getD 53 false && (sticky || mantissa % 2 = 1) then mantissa + 1 else mantissa
  let exponent := bits.length - 53
  if mantissa = 2 ^ 53 then (mantissa / 2, exponent + 1) else (mantissa, exponent)

/-- `radix.trailing_zeros()` of a radix that is a power of two. -/
def radixWidth (radix : Nat) : Nat := radix.log2

/-- The bits of a digit string from the first that is set. -/
def radixBits (digits : List Char) (radix : Nat) : Option (List Bool) :=
  (digits.mapM (toDigit radix)).map fun values => (values.flatMap (digitBits (radixWidth radix))).dropWhile (!·)

/-- An integer in a power-of-two radix, rounded to the nearest double with ties to even. -/
def radixInteger (digits : List Char) (radix : Nat) : Option F64 :=
  (radixBits digits radix).map fun bits =>
    if bits = [] then .finite (.zero false)
    else if bits.length ≤ 53 then F64.ofNat (foldBits bits)
    else
      let parts := roundBits bits
      if 1024 < parts.2 then .infinite false else F64.mul (F64.ofNat parts.1) (F64.ofNat (2 ^ parts.2))

/-- The mantissa and exponent that `radixInteger` computes: a number of at most 53 bits is its own mantissa. -/
def radixParts (digits : List Char) (radix : Nat) : Option (Nat × Nat) :=
  (radixBits digits radix).map fun bits => if bits.length ≤ 53 then (foldBits bits, 0) else roundBits bits

end Rust

/-- `v` is `n` rounded to 53 significant bits, to nearest with ties to even. -/
def RoundsTo (n v : Nat) : Prop :=
  ∃ q, v = q * 2 ^ (n.log2 - 52) ∧
    (2 * |(n : Int) - v| < 2 ^ (n.log2 - 52) ∨ 2 * |(n : Int) - v| = 2 ^ (n.log2 - 52) ∧ q % 2 = 0)

namespace Rust

theorem foldBits_concat (bits : List Bool) (bit : Bool) : foldBits (bits ++ [bit]) = 2 * foldBits bits + bit.toNat := by
  rw [foldBits, List.foldl_append]
  rfl

theorem foldBits_append (s t : List Bool) : foldBits (s ++ t) = foldBits s * 2 ^ t.length + foldBits t := by
  induction t using List.reverseRecOn with
  | nil => simp [foldBits]
  | append_singleton t bit ih =>
    rw [← List.append_assoc, foldBits_concat, foldBits_concat, ih, List.length_append, List.length_singleton, pow_succ]
    ring

theorem foldBits_lt (bits : List Bool) : foldBits bits < 2 ^ bits.length := by
  induction bits using List.reverseRecOn with
  | nil => exact Nat.one_pos
  | append_singleton bits bit ih =>
    rw [foldBits_concat, List.length_append, List.length_singleton, pow_succ]
    have := Bool.toNat_le bit
    omega

theorem foldBits_cons_true (bits : List Bool) : foldBits (true :: bits) = 2 ^ bits.length + foldBits bits := by
  rw [← List.singleton_append, foldBits_append]
  simp [foldBits]

theorem foldBits_eq_zero {bits : List Bool} : foldBits bits = 0 ↔ bits.any id = false := by
  induction bits using List.reverseRecOn with
  | nil => simp [foldBits]
  | append_singleton bits bit ih =>
    rw [foldBits_concat, List.any_append, Bool.or_eq_false_iff, ← ih]
    cases bit <;> simp

theorem foldBits_dropWhile (bits : List Bool) : foldBits (bits.dropWhile (!·)) = foldBits bits := by
  induction bits with
  | nil => rfl
  | cons bit bits ih =>
    cases bit with
    | true => rfl
    | false =>
      rw [List.dropWhile_cons_of_pos rfl, ih, ← List.singleton_append, foldBits_append]
      simp [foldBits]

theorem length_digitBits (width digit : Nat) : (digitBits width digit).length = width := by simp [digitBits]

theorem foldBits_digitBits {width digit : Nat} (small : digit < 2 ^ width) : foldBits (digitBits width digit) = digit := by
  induction width generalizing digit with
  | zero =>
    rw [pow_zero, Nat.lt_one_iff] at small
    rw [small]
    rfl
  | succ width ih =>
    have higher : digitBits (width + 1) digit = digitBits width (digit / 2) ++ [digit.testBit 0] := by
      rw [digitBits, digitBits, List.range_succ_eq_map, List.reverse_cons, List.map_append, List.map_reverse,
        List.map_map, List.map_reverse]
      have shift : digit.testBit ∘ Nat.succ = (digit / 2).testBit := funext fun k => Nat.testBit_succ digit k
      rw [shift]
      rfl
    rw [higher, foldBits_concat, ih (by rw [pow_succ] at small; omega), Nat.testBit_zero]
    rcases Nat.mod_two_eq_zero_or_one digit with even | odd
    · simp [even]
      omega
    · simp [odd]
      omega

theorem foldBits_digits {radix : Nat} {width : Nat} (power : radix = 2 ^ width) {values : List Nat}
    (small : ∀ d ∈ values, d < radix) :
    foldBits (values.flatMap (digitBits width)) = Nat.ofDigits radix values.reverse := by
  induction values using List.reverseRecOn with
  | nil => rfl
  | append_singleton values d ih =>
    have last := small d (List.mem_append_right _ (List.mem_singleton_self d))
    rw [List.flatMap_append, List.flatMap_singleton, foldBits_append, length_digitBits,
      ih fun e member => small e (List.mem_append_left _ member), foldBits_digitBits (power ▸ last), List.reverse_append,
      List.reverse_singleton, List.singleton_append, Nat.ofDigits_cons, ← power]
    ring

theorem log2_foldBits (bits : List Bool) : (foldBits (true :: bits)).log2 = bits.length := by
  have below := foldBits_lt bits
  rw [foldBits_cons_true]
  refine (Nat.log2_eq_iff (by have := Nat.two_pow_pos bits.length; omega)).mpr ⟨Nat.le_add_right _ _, ?_⟩
  rw [pow_succ]
  omega

/-- Rounding up happens past the half, and at the half of an odd mantissa. -/
theorem rounded_near {top low half : Nat} {guard : Bool} (below : low < half) :
    let n := (2 * top + guard.toNat) * half + low
    let q := if guard && ((decide (low ≠ 0)) || decide (top % 2 = 1)) then top + 1 else top
    2 * |(n : Int) - (q * (2 * half) : Nat)| < (2 * half : Nat) ∨
      2 * |(n : Int) - (q * (2 * half) : Nat)| = (2 * half : Nat) ∧ q % 2 = 0 := by
  intro n q
  cases guard with
  | false =>
    have gap : (n : Int) - (q * (2 * half) : Nat) = low := by
      simp only [n, q, Bool.false_and, Bool.false_eq_true, if_false, Bool.toNat_false]
      push_cast
      ring
    rw [gap, abs_of_nonneg (by omega)]
    omega
  | true =>
    by_cases up : (decide (low ≠ 0) || decide (top % 2 = 1)) = true
    · have gap : (n : Int) - (q * (2 * half) : Nat) = low - half := by
        simp only [n, q, up, Bool.true_and, if_true, Bool.toNat_true]
        push_cast
        ring
      have chosen : q = top + 1 := by simp only [q, up, Bool.true_and, if_true]
      rw [gap, abs_of_nonpos (by omega), chosen]
      simp only [Bool.or_eq_true, decide_eq_true_eq] at up
      omega
    · have gap : (n : Int) - (q * (2 * half) : Nat) = half + low := by
        simp only [n, q, up, Bool.true_and, Bool.false_eq_true, if_false, Bool.toNat_true]
        push_cast
        ring
      have chosen : q = top := by simp only [q, up, Bool.true_and, Bool.false_eq_true, if_false]
      rw [gap, abs_of_nonneg (by omega), chosen]
      simp only [Bool.or_eq_true, decide_eq_true_eq, not_or, not_not] at up
      omega

theorem roundBits_spec {bits : List Bool} (long : 53 < (true :: bits).length) :
    let parts := roundBits (true :: bits)
    2 ^ 52 ≤ parts.1 ∧ parts.1 < 2 ^ 53 ∧ RoundsTo (foldBits (true :: bits)) (parts.1 * 2 ^ parts.2) := by
  rw [List.length_cons] at long
  obtain ⟨guard, rest, split⟩ : ∃ guard rest, (true :: bits).drop 53 = guard :: rest := by
    cases tail : (true :: bits).drop 53 with
    | nil => simp at tail; omega
    | cons guard rest => exact ⟨guard, rest, rfl⟩
  have length : rest.length = bits.length - 53 := by
    have count := congrArg List.length split
    simp only [List.length_drop, List.length_cons] at count
    omega
  have whole : foldBits (true :: bits) =
      (2 * foldBits ((true :: bits).take 53) + guard.toNat) * 2 ^ rest.length + foldBits rest := by
    conv_lhs => rw [← List.take_append_drop 53 (true :: bits), split, List.append_cons, foldBits_append, foldBits_concat]
  have first : (true :: bits).take 53 = true :: bits.take 52 := rfl
  have top : 2 ^ 52 ≤ foldBits ((true :: bits).take 53) ∧ foldBits ((true :: bits).take 53) < 2 ^ 53 := by
    have size : (bits.take 52).length = 52 := by rw [List.length_take]; omega
    have bound := foldBits_lt (bits.take 52)
    rw [first, foldBits_cons_true, size]
    rw [size] at bound
    omega
  have guarded : (true :: bits).getD 53 false = guard := by
    rw [List.getD_eq_getElem?_getD, ← Nat.add_zero 53, ← List.getElem?_drop, split]
    rfl
  have sticky : ((true :: bits).drop 54).any id = decide (foldBits rest ≠ 0) := by
    rw [show (true :: bits).drop 54 = ((true :: bits).drop 53).drop 1 by rw [List.drop_drop], split]
    have zero := @foldBits_eq_zero rest
    cases any : rest.any id with
    | false => simp [zero.2 any, any]
    | true =>
      have set : foldBits rest ≠ 0 := fun none => by rw [zero.1 none] at any; cases any
      simp [set, any]
  have unit : 2 ^ ((foldBits (true :: bits)).log2 - 52) = 2 * 2 ^ rest.length := by
    rw [log2_foldBits, ← pow_succ', length, show bits.length - 52 = bits.length - 53 + 1 by omega]
  have near := @rounded_near (foldBits ((true :: bits).take 53)) _ _ guard (foldBits_lt rest)
  rw [← whole, ← unit] at near
  have exponent : (true :: bits).length - 53 = (foldBits (true :: bits)).log2 - 52 := by
    rw [log2_foldBits, List.length_cons]
    omega
  rw [roundBits, guarded, sticky, exponent]
  simp only
  generalize chosen : (if guard && (decide (foldBits rest ≠ 0) || decide (foldBits ((true :: bits).take 53) % 2 = 1)) then
    foldBits ((true :: bits).take 53) + 1 else foldBits ((true :: bits).take 53)) = q at near
  have range : 2 ^ 52 ≤ q ∧ q ≤ 2 ^ 53 := by
    rw [← chosen]
    split <;> omega
  have rounds : RoundsTo (foldBits (true :: bits)) (q * 2 ^ ((foldBits (true :: bits)).log2 - 52)) :=
    ⟨q, rfl, by exact_mod_cast near⟩
  split
  next carry =>
    -- The carry into a new bit halves the mantissa and keeps the value.
    have value : q / 2 * 2 ^ ((foldBits (true :: bits)).log2 - 52 + 1) =
        q * 2 ^ ((foldBits (true :: bits)).log2 - 52) := by
      rw [pow_succ', ← mul_assoc, carry, show 2 ^ 53 / 2 * 2 = 2 ^ 53 by decide]
    rw [value]
    exact ⟨by omega, by omega, rounds⟩
  next below => exact ⟨range.1, lt_of_le_of_ne range.2 below, rounds⟩

end Rust

namespace F64

/-- A natural number past the largest double rounds to infinity. -/
theorem ofNat_infinite {n : Nat} (large : 2 ^ 1024 ≤ n) : ofNat n = .infinite false := by
  have positive : (0 : ℚ) < n := by
    have : 0 < n := (Nat.two_pow_pos 1024).trans_le large
    exact_mod_cast this
  have least : (2 : ℚ) ^ (1024 : Int) ≤ n := by
    change (2 : ℚ) ^ ((1024 : Nat) : Int) ≤ n
    rw [← two_pow_cast]
    exact Nat.cast_le.mpr large
  have high : 1024 ≤ leadingExponent (n : ℚ) := by
    have above := least.trans_lt (leadingExponent_bounds positive).2
    have := (zpow_lt_zpow_iff_right₀ (by norm_num : (1 : ℚ) < 2)).mp above
    omega
  rw [ofNat, ofRat_positive positive, roundMagnitude_unfold positive.ne' rfl rfl, max_eq_right (by omega)]
  split
  · rw [assemble, dif_neg (by omega)]
  · rw [assemble, dif_neg (by omega)]

/-- A natural number of 53 bits at most is a double. -/
theorem ofNat_small {n : Nat} (small : n < 2 ^ 53) : ∃ x, ofNat n = .finite x ∧ x.value = n := by
  have bits : n.log2 < 53 := by
    by_cases zero : n = 0
    · rw [zero]
      decide
    · exact (Nat.log2_lt zero).mpr small
  refine (ofNat_exact_iff (by omega)).mpr ?_
  rw [FitsDouble, show n.log2 - 52 = 0 by omega]
  exact one_dvd n

/-- The product of an integer of 53 bits and a power of two, both exact, is their product rounded. -/
theorem mul_power {m : Nat} (small : m < 2 ^ 53) (nonzero : m ≠ 0) (e : Nat) :
    mul (ofNat m) (ofNat (2 ^ e)) = ofNat (m * 2 ^ e) := by
  have bits : m.log2 < 53 := (Nat.log2_lt nonzero).mpr small
  have fits : FitsDouble m := by
    rw [FitsDouble, show m.log2 - 52 = 0 by omega]
    exact one_dvd m
  obtain ⟨x, positive, significant, value⟩ := Binary64.exists_value nonzero fits (by omega)
  rw [ofNat_of_value positive significant value]
  rcases Nat.lt_or_ge e 1024 with below | last
  · have power : FitsDouble (2 ^ e) := by
      rw [FitsDouble, Nat.log2_two_pow]
      exact Nat.pow_dvd_pow 2 (by omega)
    obtain ⟨y, positive', significant', value'⟩ :=
      Binary64.exists_value (Nat.two_pow_pos e).ne' power (by rw [Nat.log2_two_pow]; exact below)
    have product : x.value * y.value = (m * 2 ^ e : Nat) := by rw [value, value', Nat.cast_mul]
    have some : ((m * 2 ^ e : Nat) : ℚ) ≠ 0 := Nat.cast_ne_zero.mpr (Nat.mul_ne_zero nonzero (Nat.two_pow_pos e).ne')
    rw [ofNat_of_value positive' significant' value', mul, product, ofNat, ofRat, round, if_neg some, round, if_neg some]
  · have unit : 2 ^ 1024 ≤ 2 ^ e := Nat.pow_le_pow_right Nat.two_pos last
    rw [ofNat_infinite unit, ofNat_infinite (unit.trans (Nat.le_mul_of_pos_left _ (Nat.pos_of_ne_zero nonzero))), mul,
      if_neg significant, positive, Bool.false_bne]

/-- An integer of 53 bits times a power of two is a double below `2 ^ 1024`. -/
theorem ofNat_scaled {m : Nat} (small : m < 2 ^ 53) {e : Nat} (within : m * 2 ^ e < 2 ^ 1024) :
    ∃ b, ofNat (m * 2 ^ e) = .finite b ∧ b.value = (m * 2 ^ e : Nat) := by
  by_cases zero : m * 2 ^ e = 0
  · rw [zero]
    exact ofNat_small (by decide)
  refine (ofNat_exact_iff ((Nat.log2_lt zero).mpr within)).mpr ?_
  have bits : (m * 2 ^ e).log2 < 53 + e := by
    rw [Nat.log2_lt zero, Nat.pow_add]
    exact Nat.mul_lt_mul_of_pos_right small (Nat.two_pow_pos e)
  exact (Nat.pow_dvd_pow 2 (by omega)).trans (Nat.dvd_mul_left _ _)

end F64

theorem roundsTo_self {n : Nat} (small : n < 2 ^ 53) : RoundsTo n n := by
  have bits : n.log2 < 53 := by
    by_cases zero : n = 0
    · rw [zero]
      decide
    · exact (Nat.log2_lt zero).mpr small
  rw [RoundsTo, show n.log2 - 52 = 0 by omega]
  exact ⟨n, by simp, Or.inl (by simp)⟩

namespace Rust

theorem toDigit_lt {radix d : Nat} {c : Char} (read : toDigit radix c = some d) : d < radix := by
  obtain ⟨-, small⟩ := Option.filter_eq_some_iff.mp read
  exact of_decide_eq_true small

theorem digits_small {radix : Nat} {digits : List Char} {values : List Nat}
    (read : digits.mapM (toDigit radix) = some values) : ∀ d ∈ values, d < radix := by
  induction digits generalizing values with
  | nil =>
    cases read
    intro d member
    cases member
  | cons c digits ih =>
    rw [List.mapM_cons, Option.bind_eq_bind, Option.bind_eq_some_iff] at read
    obtain ⟨first, head, read⟩ := read
    obtain ⟨rest, tail, made⟩ := Option.bind_eq_some_iff.mp read
    cases made
    intro d member
    rcases List.mem_cons.mp member with rfl | later
    · exact toDigit_lt head
    · exact ih tail d later

theorem radixBits_spec {radix : Nat} (power : radix = 2 ^ radixWidth radix) {digits : List Char} {values : List Nat}
    (read : digits.mapM (toDigit radix) = some values) :
    ∃ bits, radixBits digits radix = some bits ∧ foldBits bits = Nat.ofDigits radix values.reverse ∧
      (bits = [] ∨ ∃ rest, bits = true :: rest) := by
  refine ⟨(values.flatMap (digitBits (radixWidth radix))).dropWhile (!·), by rw [radixBits, read]; rfl, ?_, ?_⟩
  · rw [foldBits_dropWhile, foldBits_digits power (digits_small read)]
  · generalize values.flatMap (digitBits (radixWidth radix)) = bits
    induction bits with
    | nil => exact Or.inl rfl
    | cons bit bits ih =>
      cases bit with
      | true => exact Or.inr ⟨bits, rfl⟩
      | false => exact ih

/-- The pair of a digit string denotes its integer rounded to 53 significant bits. The double returned is that number, or
infinity where the number is `2 ^ 1024` at least. -/
theorem radixInteger_rounds {radix : Nat} (power : radix = 2 ∨ radix = 8 ∨ radix = 16) {digits : List Char}
    {values : List Nat} (read : digits.mapM (toDigit radix) = some values) :
    ∃ mantissa exponent, radixParts digits radix = some (mantissa, exponent) ∧ mantissa < 2 ^ 53 ∧
      RoundsTo (Nat.ofDigits radix values.reverse) (mantissa * 2 ^ exponent) ∧
      (2 ^ 1024 ≤ mantissa * 2 ^ exponent → radixInteger digits radix = some (.infinite false)) ∧
      (mantissa * 2 ^ exponent < 2 ^ 1024 →
        ∃ x, radixInteger digits radix = some (.finite x) ∧ x.value = (mantissa * 2 ^ exponent : Nat)) := by
  have width : radix = 2 ^ radixWidth radix := by rcases power with rfl | rfl | rfl <;> decide
  obtain ⟨bits, spelled, value, shape⟩ := radixBits_spec width read
  rw [radixParts, radixInteger, spelled, ← value, Option.map_some, Option.map_some]
  have bound := foldBits_lt bits
  by_cases short : bits.length ≤ 53
  · have small : foldBits bits < 2 ^ 53 := bound.trans_le (Nat.pow_le_pow_right Nat.two_pos short)
    have within : foldBits bits < 2 ^ 1024 := small.trans_le (Nat.pow_le_pow_right Nat.two_pos (by decide))
    rw [if_pos short, if_pos short]
    refine ⟨foldBits bits, 0, rfl, small, by simpa using roundsTo_self small, ?_, fun _ => ?_⟩
    · rw [pow_zero, mul_one]
      exact fun large => absurd within (not_lt.mpr large)
    · obtain ⟨x, made, exact⟩ := F64.ofNat_small small
      rw [pow_zero, mul_one]
      rcases shape with rfl | ⟨rest, rfl⟩
      · exact ⟨.zero false, rfl, by decide +kernel⟩
      · exact ⟨x, by rw [if_neg (List.cons_ne_nil _ _), made], exact⟩
  · obtain ⟨rest, rfl⟩ := shape.resolve_left fun empty => by
      rw [empty] at short
      exact short (Nat.zero_le _)
    obtain ⟨normal, small, rounds⟩ := roundBits_spec (not_le.mp short)
    rw [if_neg short, if_neg (List.cons_ne_nil _ _), if_neg short]
    generalize roundBits (true :: rest) = parts at normal small rounds
    refine ⟨parts.1, parts.2, rfl, small, rounds, fun large => ?_, fun within => ?_⟩
    · by_cases beyond : 1024 < parts.2
      · rw [if_pos beyond]
      · rw [if_neg beyond, F64.mul_power small (by omega), F64.ofNat_infinite large]
    · have near : ¬ 1024 < parts.2 := by
        intro beyond
        have large : 2 ^ 1024 ≤ parts.1 * 2 ^ parts.2 :=
          (Nat.pow_le_pow_right Nat.two_pos beyond.le).trans (Nat.le_mul_of_pos_left _ (by omega))
        exact absurd within (not_lt.mpr large)
      obtain ⟨x, made, exact⟩ := F64.ofNat_scaled small within
      exact ⟨x, by rw [if_neg near, F64.mul_power small (by omega), made], exact⟩

theorem radixInteger_rounds_odd : ∃ mantissa exponent,
    radixParts "20000000000003".toList 16 = some (mantissa, exponent) ∧ mantissa < 2 ^ 53 ∧
      RoundsTo (Nat.ofDigits 16 [2, 0, 0, 0, 0, 0, 0, 0, 0, 0, 0, 0, 0, 3].reverse) (mantissa * 2 ^ exponent) ∧
      (2 ^ 1024 ≤ mantissa * 2 ^ exponent → radixInteger "20000000000003".toList 16 = some (.infinite false)) ∧
      (mantissa * 2 ^ exponent < 2 ^ 1024 →
        ∃ x, radixInteger "20000000000003".toList 16 = some (.finite x) ∧ x.value = (mantissa * 2 ^ exponent : Nat)) :=
  radixInteger_rounds (Or.inr (Or.inr rfl)) (by decide)

end Rust

end Xript
