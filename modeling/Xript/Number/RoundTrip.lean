import Xript.Number.Round
import Xript.Number.Decimal

namespace Xript

theorem pow10_eq (e : Int) : pow10 e = (10 : ℚ) ^ e := by
  unfold pow10
  split
  · rename_i nonneg
    obtain ⟨n, rfl⟩ := Int.eq_ofNat_of_zero_le nonneg
    simp
  · rename_i negative
    obtain ⟨n, same⟩ := Int.eq_ofNat_of_zero_le (show 0 ≤ -e by omega)
    have back : e = -(n : Int) := by omega
    subst back
    simp

theorem ten_zpow_pos (e : Int) : (0 : ℚ) < 10 ^ e := zpow_pos (by norm_num) e

theorem ten_zpow_add (a b : Int) : (10 : ℚ) ^ (a + b) = 10 ^ a * 10 ^ b := zpow_add₀ (by norm_num) a b

theorem ten_zpow_sub_nat (p : Int) (k : Nat) : (10 : ℚ) ^ p = 10 ^ k * 10 ^ (p - k) := by
  rw [← zpow_natCast, ← ten_zpow_add]
  congr 1
  ring

theorem decimal_length_pos (n : Nat) : 0 < (decimal n).length :=
  List.length_pos_of_ne_nil (decimal_ne_nil n)

theorem decimal_length_le_iff {n k : Nat} (positive : 0 < k) : (decimal n).length ≤ k ↔ n < 10 ^ k := by
  rw [decimal_eq, List.length_map]
  exact Nat.length_toDigits_le_iff (by decide) positive

/-- A number of `k` digits, written without leading zeros. -/
theorem decimal_length {n k : Nat} (positive : 0 < k) (low : 10 ^ (k - 1) ≤ n) (high : n < 10 ^ k) :
    (decimal n).length = k := by
  have upper := (decimal_length_le_iff positive).mpr high
  by_contra different
  have fewer : (decimal n).length ≤ k - 1 := by omega
  have lower := (decimal_length_le_iff (by have := decimal_length_pos n; omega)).mp fewer
  omega

theorem decimal_length_bounds {n : Nat} (nonzero : n ≠ 0) :
    (10 : ℚ) ^ (((decimal n).length : Int) - 1) ≤ n ∧
      (n : ℚ) < 10 ^ (((decimal n).length : Int) - 1 + 1) := by
  have positive := decimal_length_pos n
  constructor
  · rw [show ((decimal n).length : Int) - 1 = (((decimal n).length - 1 : Nat) : Int) by omega, zpow_natCast]
    rcases Nat.eq_zero_or_pos ((decimal n).length - 1) with single | more
    · rw [single, pow_zero]
      exact_mod_cast Nat.one_le_iff_ne_zero.mpr nonzero
    · have : ¬n < 10 ^ ((decimal n).length - 1) := by
        intro small
        have := (decimal_length_le_iff more).mpr small
        omega
      exact_mod_cast not_lt.mp this
  · rw [sub_add_cancel, zpow_natCast]
    exact_mod_cast (decimal_length_le_iff positive).mp le_rfl

/-- The decimal point of a positive rational number stands before its leading digit. -/
theorem decimalPoint_bounds {q : ℚ} (positive : 0 < q) :
    (10 : ℚ) ^ (decimalPoint q - 1) ≤ q ∧ q < 10 ^ decimalPoint q := by
  have numNonzero : q.num.natAbs ≠ 0 := by
    have := Rat.num_pos.mpr positive
    omega
  obtain ⟨numLow, numHigh⟩ := decimal_length_bounds numNonzero
  obtain ⟨denLow, denHigh⟩ := decimal_length_bounds q.den_nz
  obtain ⟨low, high⟩ := quotient_bounds (by norm_num) numLow numHigh denLow denHigh
  rw [← rat_eq_quotient positive, sub_sub_sub_cancel_right] at low high
  simp only [decimalPoint, pow10_eq]
  split
  · exact ⟨low.le, by assumption⟩
  · rename_i below
    rw [add_sub_cancel_right]
    exact ⟨not_lt.mp below, high⟩

/-- What a choice of digits says: they are in range, and `accepts` admits the number they spell. -/
def SpellsWithin (accepts : ℚ → Bool) (point : Int) (n k : Nat) : Prop :=
  0 < k ∧ 10 ^ (k - 1) ≤ n ∧ n ≤ 10 ^ k ∧ accepts (n * pow10 (point - k)) = true

theorem digitsOfLength_spells {accepts : ℚ → Bool} {q : ℚ} {point : Int} {k n : Nat} (positive : 0 < k)
    (chosen : digitsOfLength accepts q point k = some n) : SpellsWithin accepts point n k := by
  simp only [digitsOfLength] at chosen
  split at chosen
  · rename_i lower upper
    simp only [Bool.and_eq_true, decide_eq_true_eq] at lower upper
    obtain rfl := Option.some.inj chosen
    split
    · exact ⟨positive, lower.1.1, lower.1.2, lower.2⟩
    · exact ⟨positive, upper.1.1, upper.1.2, upper.2⟩
  · rename_i lower _
    simp only [Bool.and_eq_true, decide_eq_true_eq] at lower
    obtain rfl := Option.some.inj chosen
    exact ⟨positive, lower.1.1, lower.1.2, lower.2⟩
  · rename_i _ upper
    simp only [Bool.and_eq_true, decide_eq_true_eq] at upper
    obtain rfl := Option.some.inj chosen
    exact ⟨positive, upper.1.1, upper.1.2, upper.2⟩
  · cases chosen

theorem shortestFrom_spells {accepts : ℚ → Bool} {q : ℚ} {point : Int} {fuel k last : Nat}
    (positive : 0 < k) (reaches : k ≤ last ∧ last < k + fuel)
    (found : (digitsOfLength accepts q point last).isSome = true) :
    SpellsWithin accepts point (shortestFrom accepts q point fuel k).1
      (shortestFrom accepts q point fuel k).2 := by
  induction fuel generalizing k with
  | zero => omega
  | succ fuel ih =>
    rw [shortestFrom]
    cases chosen : digitsOfLength accepts q point k with
    | some n => exact digitsOfLength_spells positive chosen
    | none =>
      have further : k ≠ last := by
        rintro rfl
        simp [chosen] at found
      exact ih (Nat.succ_pos k) ⟨by omega, by omega⟩

namespace Binary64

theorem magnitude_eq (x : Binary64) : x.magnitude = x.mantissa * 2 ^ x.exponent := by
  rw [magnitude, pow2_eq]

theorem magnitude_pos {x : Binary64} (nonzero : x.mantissa ≠ 0) : 0 < x.magnitude := by
  rw [magnitude_eq]
  have : (0 : ℚ) < x.mantissa := by exact_mod_cast Nat.pos_of_ne_zero nonzero
  have := two_zpow_pos x.exponent
  positivity

end Binary64

namespace F64

theorem ofRat_positive {q : ℚ} (positive : 0 < q) : ofRat q = roundMagnitude false q := by
  rw [ofRat, round, if_neg positive.ne', abs_of_pos positive, decide_eq_false (not_lt.mpr positive.le)]

/-- Seventeen digits tell every double apart: a unit in the seventeenth place is less than the gap
between neighbours. -/
theorem seventeen_digits {x : Binary64} (nonzero : x.mantissa ≠ 0) {u r : ℚ} (positive : 0 < u)
    (fine : 10 ^ 16 * u ≤ x.magnitude) (near : |r - x.magnitude| ≤ u / 2) :
    ofRat r = .finite { x with negative := false } := by
  rw [Binary64.magnitude_eq] at fine near
  have unit := two_zpow_pos x.exponent
  have small : (x.mantissa : ℚ) ≤ 2 ^ 53 := by exact_mod_cast x.small.le
  have bound : 10 ^ 16 * u ≤ 2 ^ 53 * 2 ^ x.exponent :=
    fine.trans (mul_le_mul_of_nonneg_right small unit.le)
  have half : u / 2 < 2 ^ x.exponent / 2 := by linarith
  have positive' : 0 < r := by
    have one : (1 : ℚ) ≤ x.mantissa := by exact_mod_cast Nat.one_le_iff_ne_zero.mpr nonzero
    have := (abs_le.mp near).1
    nlinarith
  rw [ofRat_positive positive']
  refine roundMagnitude_near false nonzero (near.trans_lt half) fun least => ?_
  have quarter : u / 2 < 2 ^ x.exponent / 4 := by
    rw [least] at fine
    push_cast at fine
    linarith
  exact near.trans_lt quarter

/-- The test `toText` puts to a candidate: it reads back as the magnitude of the double. -/
theorem digitsOfLength_seventeen {x : Binary64} (nonzero : x.mantissa ≠ 0) :
    (digitsOfLength (fun r => ofRat r = .finite { x with negative := false }) x.magnitude
      (decimalPoint x.magnitude) 17).isSome = true := by
  have positive := Binary64.magnitude_pos nonzero
  obtain ⟨low, high⟩ := decimalPoint_bounds positive
  set point := decimalPoint x.magnitude
  set u : ℚ := 10 ^ (point - 17) with unit
  have unitPos : 0 < u := ten_zpow_pos _
  have lowScaled : 10 ^ 16 * u ≤ x.magnitude := by
    have := ten_zpow_sub_nat (point - 1) 16
    rw [show point - 1 - ((16 : Nat) : Int) = point - 17 by push_cast; ring] at this
    linarith
  have highScaled : x.magnitude < 10 ^ 17 * u := by
    have := ten_zpow_sub_nat point 17
    rw [show point - ((17 : Nat) : Int) = point - 17 by push_cast; ring] at this
    linarith
  set below := ⌊x.magnitude / u⌋.toNat with belowDef
  have nonneg : 0 ≤ x.magnitude / u := by positivity
  have floor : ((below : Nat) : ℚ) = (⌊x.magnitude / u⌋ : ℚ) := by
    have : (below : Int) = ⌊x.magnitude / u⌋ := Int.toNat_of_nonneg (Int.floor_nonneg.mpr nonneg)
    exact_mod_cast congrArg (fun z : Int => (z : ℚ)) this
  have floorLow : (below : ℚ) * u ≤ x.magnitude := by
    rw [floor, ← le_div_iff₀ unitPos]
    exact Int.floor_le _
  have floorHigh : x.magnitude < (below + 1 : ℚ) * u := by
    rw [floor, ← div_lt_iff₀ unitPos]
    exact Int.lt_floor_add_one _
  have least : 10 ^ 16 ≤ below := by
    rw [belowDef, Int.le_toNat (Int.floor_nonneg.mpr nonneg), Int.le_floor, le_div_iff₀ unitPos]
    push_cast
    exact lowScaled
  have most : below + 1 ≤ 10 ^ 17 := by
    have : (below : ℚ) < 10 ^ 17 := lt_of_mul_lt_mul_right (floorLow.trans_lt highScaled) unitPos.le
    exact_mod_cast this
  have power : pow10 (point - ((17 : Nat) : Int)) = u := by
    rw [pow10_eq, unit]
    norm_num
  -- One of the two candidates is within half a unit of the seventeenth place.
  simp only [digitsOfLength, power, ← belowDef]
  by_cases nearer : x.magnitude - below * u ≤ u / 2
  · have accepted : ofRat (below * u) = .finite { x with negative := false } := by
      refine seventeen_digits nonzero unitPos lowScaled ?_
      rw [abs_sub_comm, abs_of_nonneg (by linarith)]
      exact nearer
    have fits : ((decide (10 ^ (17 - 1) ≤ below) && decide (below ≤ 10 ^ 17)) &&
        decide (ofRat (below * u) = .finite { x with negative := false })) = true := by
      simp only [accepted, decide_true, Bool.and_true, Bool.and_eq_true, decide_eq_true_eq]
      exact ⟨least, by omega⟩
    rw [fits]
    split <;> simp_all
  · have accepted : ofRat ((below + 1 : Nat) * u) = .finite { x with negative := false } := by
      refine seventeen_digits nonzero unitPos lowScaled ?_
      push_cast
      rw [abs_of_pos (by linarith)]
      linarith
    have fits : ((decide (10 ^ (17 - 1) ≤ below + 1) && decide (below + 1 ≤ 10 ^ 17)) &&
        decide (ofRat ((below + 1 : Nat) * u) = .finite { x with negative := false })) = true := by
      simp only [accepted, decide_true, Bool.and_true, Bool.and_eq_true, decide_eq_true_eq]
      exact ⟨by omega, most⟩
    rw [fits]
    split <;> simp_all

end F64

theorem takeDecimal_append {digits rest : JSString} (all : digits.all isDigit = true)
    (stop : ∀ c ∈ rest.head?, isDigit c = false) : takeDecimal (digits ++ rest) = (digits, rest) := by
  have inside : ∀ c ∈ digits, isDigit c = true := List.all_eq_true.mp all
  rw [takeDecimal, List.takeWhile_append_of_pos inside, List.dropWhile_append_of_pos inside]
  cases rest with
  | nil => simp
  | cons c rest =>
    have outside := stop c rfl
    simp [outside]

theorem readDigits_append (s t : JSString) :
    readDigits 10 (s ++ t) = readDigits 10 s * 10 ^ t.length + readDigits 10 t := by
  have fold : ∀ (t : JSString) (start : Nat), t.foldl (fun n d => n * 10 +
      (if isDigit d then d - 48 else if isUpper d then d - 55 else d - 87)) start =
      start * 10 ^ t.length + t.foldl (fun n d => n * 10 +
        (if isDigit d then d - 48 else if isUpper d then d - 55 else d - 87)) 0 := by
    intro t
    induction t with
    | nil => simp
    | cons d t ih =>
      intro start
      rw [List.foldl_cons, ih, List.foldl_cons, ih (0 * 10 + _), List.length_cons, Nat.pow_succ]
      ring
  rw [readDigits, readDigits, List.foldl_append, fold]
  rfl

theorem readDigits_zeros (n : Nat) : readDigits 10 (List.replicate n 48) = 0 := by
  induction n with
  | zero => rfl
  | succ n ih =>
    rw [List.replicate_succ', readDigits_append, ih]
    rfl

theorem zeros_digits (n : Nat) : (List.replicate n 48).all isDigit = true := by
  rw [List.all_eq_true]
  intro c member
  rw [List.eq_of_mem_replicate member]
  rfl

theorem readExponent_signed (negative : Bool) (digits : JSString) :
    readExponent (101 :: (if negative then 45 else 43) :: digits) =
      if digits ≠ [] ∧ digits.all isDigit then
        some (if negative then -(readDigits 10 digits : Int) else readDigits 10 digits)
      else none := by
  cases negative <;> rfl

theorem readExponent_layout (e : Int) :
    readExponent (101 :: (if e < 0 then 45 else 43) :: decimal e.natAbs) = some e := by
  have unfolded := (readExponent_signed (decide (e < 0)) (decimal e.natAbs)).trans
    (if_pos ⟨decimal_ne_nil _, decimal_digits _⟩)
  simp only [decide_eq_true_eq, readDigits_decimal] at unfolded
  rw [unfolded]
  congr 1
  split <;> omega

/-- A literal with a fraction part. -/
theorem readUnsignedDecimal_point {whole fraction tail : JSString} {e : Int}
    (wholeDigits : whole.all isDigit = true) (fractionDigits : fraction.all isDigit = true)
    (present : whole ≠ []) (stop : ∀ c ∈ tail.head?, isDigit c = false) (exponent : readExponent tail = some e) :
    readUnsignedDecimal (whole ++ 46 :: (fraction ++ tail)) =
      some ((readDigits 10 (whole ++ fraction) : ℚ) * pow10 (e - fraction.length)) := by
  have first := @takeDecimal_append _ (46 :: (fraction ++ tail)) wholeDigits
    (by rintro c ⟨⟩; rfl)
  have second := takeDecimal_append fractionDigits stop
  simp only [readUnsignedDecimal, first, second, present, false_and, if_false, exponent, Option.map_some]

/-- A literal without a fraction part. -/
theorem readUnsignedDecimal_whole {whole tail : JSString} {e : Int}
    (wholeDigits : whole.all isDigit = true) (present : whole ≠ [])
    (stop : ∀ c ∈ tail.head?, isDigit c = false ∧ c ≠ 46) (exponent : readExponent tail = some e) :
    readUnsignedDecimal (whole ++ tail) = some ((readDigits 10 whole : ℚ) * pow10 e) := by
  have first := takeDecimal_append wholeDigits fun c member => (stop c member).1
  simp only [readUnsignedDecimal, first, present, false_and, if_false]
  split
  · exact absurd rfl (stop 46 rfl).2
  · simp only [exponent, Option.map_some, List.append_nil, List.length_nil, Nat.cast_zero, sub_zero]

/-- Each of the four layouts reads back as the digits at their place. -/
theorem readUnsignedDecimal_layout {digits : JSString} (point : Int) (all : digits.all isDigit = true)
    (present : digits ≠ []) :
    readUnsignedDecimal (layoutDigits digits point) =
      some ((readDigits 10 digits : ℚ) * 10 ^ (point - digits.length)) := by
  have subset : ∀ part : JSString, (∀ c ∈ part, c ∈ digits) → part.all isDigit = true := fun part sub =>
    List.all_eq_true.mpr fun c member => List.all_eq_true.mp all c (sub c member)
  have taken := fun k => subset (digits.take k) fun c => List.mem_of_mem_take
  have dropped := fun k => subset (digits.drop k) fun c => List.mem_of_mem_drop
  have length := List.length_pos_of_ne_nil present
  simp only [layoutDigits]
  split
  · rename_i whole
    have zeros := zeros_digits (point - digits.length).toNat
    have read := @readUnsignedDecimal_whole (digits ++ List.replicate (point - digits.length).toNat 48) [] 0 (by rw [List.all_append, all, zeros]; rfl) (by simp [present]) (by simp) rfl
    rw [List.append_nil] at read
    rw [read, readDigits_append, readDigits_zeros, List.length_replicate, pow10_eq]
    obtain ⟨n, same⟩ := Int.eq_ofNat_of_zero_le (show 0 ≤ point - digits.length by omega)
    rw [same]
    simp
  split
  · rename_i _ inside
    have read := @readUnsignedDecimal_point _ _ [] 0 (taken point.toNat) (dropped point.toNat)
      (by rw [ne_eq, List.take_eq_nil_iff]; push Not; exact ⟨by omega, present⟩) (by simp) rfl
    rw [List.append_nil] at read
    rw [read, List.take_append_drop, pow10_eq, List.length_drop]
    congr 3
    omega
  split
  · rename_i _ _ inside
    have zeros := zeros_digits (-point).toNat
    have read := @readUnsignedDecimal_point ([48]) (List.replicate (-point).toNat 48 ++ digits) [] 0 rfl
      (by rw [List.all_append, all, zeros]; rfl) (by simp) (by simp) rfl
    rw [List.append_nil] at read
    have shape : js "0." ++ List.replicate (-point).toNat 48 ++ digits =
        [48] ++ 46 :: (List.replicate (-point).toNat 48 ++ digits) := by
      rw [show js "0." = [48, 46] from rfl, List.append_assoc]
      rfl
    rw [shape, read, pow10_eq, ← List.append_assoc, readDigits_append,
      show [48] ++ List.replicate (-point).toNat 48 = List.replicate ((-point).toNat + 1) 48 from rfl,
      readDigits_zeros, List.length_append, List.length_replicate, Nat.zero_mul, Nat.zero_add]
    congr 3
    omega
  · have exponent := readExponent_layout (point - 1)
    have stop : ∀ c ∈ (101 :: (if point - 1 < 0 then 45 else 43) :: decimal (point - 1).natAbs : JSString).head?,
        isDigit c = false ∧ c ≠ 46 := by
      rintro c ⟨⟩
      exact ⟨rfl, by decide⟩
    split
    · rename_i single
      rw [readUnsignedDecimal_whole all present stop exponent, pow10_eq, single]
    · rename_i several
      rw [List.append_assoc, List.cons_append, readUnsignedDecimal_point (taken 1) (dropped 1)
        (by rw [ne_eq, List.take_eq_nil_iff]; push Not; exact ⟨by omega, present⟩)
        (fun c member => (stop c member).1) exponent, List.take_append_drop, pow10_eq, List.length_drop]
      congr 3
      omega

theorem layoutDigits_head {digits : JSString} (point : Int) (all : digits.all isDigit = true)
    (present : digits ≠ []) : ∃ c rest, layoutDigits digits point = c :: rest ∧ isDigit c = true := by
  obtain ⟨d, more, rfl⟩ := List.exists_cons_of_ne_nil present
  have first : isDigit d = true := List.all_eq_true.mp all d (List.mem_cons_self ..)
  simp only [layoutDigits]
  split
  · exact ⟨d, _, rfl, first⟩
  split
  · rename_i _ inside
    obtain ⟨k, positive⟩ : ∃ k, point.toNat = k + 1 := ⟨point.toNat - 1, by omega⟩
    exact ⟨d, _, by rw [positive]; rfl, first⟩
  split
  · exact ⟨48, _, rfl, rfl⟩
  · split <;> exact ⟨d, _, rfl, first⟩

theorem readDigits_lt {digits : JSString} (all : digits.all isDigit = true) :
    readDigits 10 digits < 10 ^ digits.length := by
  induction digits using List.reverseRecOn with
  | nil => decide
  | append_singleton digits d ih =>
    rw [List.all_append, Bool.and_eq_true] at all
    have last : readDigits 10 [d] < 10 := by
      have digit : isDigit d = true := by simpa using all.2
      have bounds : 48 ≤ d ∧ d ≤ 57 := by simpa [isDigit] using digit
      simp only [readDigits, List.foldl_cons, List.foldl_nil, digit, if_true]
      omega
    have before := ih all.1
    rw [readDigits_append, List.length_append, List.length_singleton, Nat.pow_succ]
    omega

/-- The digits of a positive number start with another digit than zero. -/
theorem decimal_head {n : Nat} (positive : n ≠ 0) : (decimal n).head? ≠ some 48 := by
  intro leading
  obtain ⟨rest, shape⟩ : ∃ rest, decimal n = 48 :: rest := by
    cases digits : decimal n with
    | nil => simp [digits] at leading
    | cons d rest => exact ⟨rest, by rw [digits] at leading; rw [Option.some.inj leading]⟩
  have all := decimal_digits n
  have read := readDigits_decimal n
  rw [shape] at all read
  have value : readDigits 10 rest = n := by
    rw [← List.singleton_append, readDigits_append] at read
    simpa [show readDigits 10 [48] = 0 from rfl] using read
  rw [List.all_cons, Bool.and_eq_true] at all
  have small := readDigits_lt all.2
  rw [value] at small
  rcases Nat.eq_zero_or_pos rest.length with none | some
  · rw [none] at small
    omega
  · have short := (decimal_length_le_iff some).mpr small
    rw [shape, List.length_cons] at short
    omega

namespace F64

def withSign (negative : Bool) : F64 → F64
  | .nan => .nan
  | .infinite _ => .infinite negative
  | .finite x => .finite { x with negative := negative }

theorem assemble_sign (negative : Bool) (mantissa : Nat) (exponent : Int) :
    assemble negative mantissa exponent = withSign negative (assemble false mantissa exponent) := by
  simp only [assemble]
  split <;> rfl

theorem roundMagnitude_sign (negative : Bool) (q : ℚ) :
    roundMagnitude negative q = withSign negative (roundMagnitude false q) := by
  simp only [roundMagnitude]
  split
  · rfl
  split <;> exact assemble_sign ..

/-- What stands after the sign of a number's text: digits laid out whose value rounds to its magnitude. -/
theorem toText_spells {x : Binary64} (nonzero : x.mantissa ≠ 0) :
    ∃ digits point, toText (.finite x) = (if x.negative then [45] else []) ++ layoutDigits digits point ∧
      digits.all isDigit = true ∧ digits ≠ [] ∧ digits.head? ≠ some 48 ∧ 0 < (readDigits 10 digits : ℚ) * 10 ^ (point - digits.length) ∧
      ofRat ((readDigits 10 digits : ℚ) * 10 ^ (point - digits.length)) =
        .finite { x with negative := false } := by
  obtain ⟨positive, low, high, accepted⟩ := @shortestFrom_spells _ _ _ 17 1 _ (by omega)
    ⟨by omega, by omega⟩ (digitsOfLength_seventeen nonzero)
  simp only [toText, if_neg nonzero]
  set chosen := shortestFrom (fun r => ofRat r = .finite { x with negative := false }) x.magnitude
    (decimalPoint x.magnitude) 17 1
  set point := decimalPoint x.magnitude
  rw [decide_eq_true_eq, pow10_eq] at accepted
  have nonempty : (0 : ℚ) < chosen.1 := by
    have := (Nat.pow_pos (show 0 < 10 by decide)).trans_le low
    exact_mod_cast this
  by_cases carried : chosen.1 = 10 ^ chosen.2
  · have shifted : ((readDigits 10 (js "1") : Nat) : ℚ) * 10 ^ (point + 1 - (js "1").length) =
        chosen.1 * 10 ^ (point - chosen.2) := by
      have := ten_zpow_sub_nat point chosen.2
      rw [carried, show readDigits 10 (js "1") = 1 from rfl, show (js "1").length = 1 from rfl]
      push_cast
      rw [← this, one_mul, add_sub_cancel_right]
    refine ⟨js "1", point + 1, by rw [if_pos carried], rfl, by decide, by decide, ?_, ?_⟩
    · rw [shifted]
      exact mul_pos nonempty (ten_zpow_pos _)
    · rw [shifted]
      exact accepted
  · have length := decimal_length positive low (by omega)
    have leading : (decimal chosen.1).head? ≠ some 48 := decimal_head fun zero => by
      rw [zero] at nonempty
      simp at nonempty
    refine ⟨decimal chosen.1, point, by rw [if_neg carried], decimal_digits _, decimal_ne_nil _, leading, ?_, ?_⟩
    · rw [readDigits_decimal, length]
      exact mul_pos nonempty (ten_zpow_pos _)
    · rw [readDigits_decimal, length]
      exact accepted

theorem ofDecimalText_unsigned {c : Nat} {rest : JSString} {q : ℚ} (digit : isDigit c = true)
    (read : readUnsignedDecimal (c :: rest) = some q) : ofDecimalText (c :: rest) = round false q := by
  have bounds : 48 ≤ c ∧ c ≤ 57 := by simpa [isDigit] using digit
  have named : c :: rest ≠ js "Infinity" := by
    intro same
    have : c = 73 := List.head_eq_of_cons_eq same
    omega
  obtain ⟨low, high⟩ := bounds
  interval_cases c <;> simp only [ofDecimalText, named, if_false, read, Bool.false_eq_true]

theorem ofDecimalText_signed {negative : Bool} {c : Nat} {rest : JSString} {q : ℚ} (digit : isDigit c = true)
    (read : readUnsignedDecimal (c :: rest) = some q) (positive : 0 < q) :
    ofDecimalText ((if negative then [45] else []) ++ c :: rest) = withSign negative (ofRat q) := by
  have bounds : 48 ≤ c ∧ c ≤ 57 := by simpa [isDigit] using digit
  have named : c :: rest ≠ js "Infinity" := by
    intro same
    have : c = 73 := List.head_eq_of_cons_eq same
    omega
  rw [ofRat_positive positive, ← roundMagnitude_sign]
  cases negative with
  | false =>
    simp only [Bool.false_eq_true, if_false, List.nil_append, ofDecimalText_unsigned digit read]
    rw [round, if_neg positive.ne', abs_of_pos positive, decide_eq_false (not_lt.mpr positive.le)]
  | true =>
    simp only [if_true, List.singleton_append, ofDecimalText, named, if_false, read]
    rw [round, if_neg (by linarith), abs_neg, abs_of_pos positive, decide_eq_true (by linarith)]

/-- The text of a number other than a zero reads back as that number. -/
theorem ofDecimalText_toText {x : Binary64} (nonzero : x.mantissa ≠ 0) :
    ofDecimalText (toText (.finite x)) = .finite x := by
  obtain ⟨digits, point, text, all, present, _, positive, accepted⟩ := toText_spells nonzero
  obtain ⟨c, rest, shape, digit⟩ := layoutDigits_head point all present
  have read := readUnsignedDecimal_layout point all present
  rw [shape] at read
  rw [text, shape, ofDecimalText_signed digit read positive, accepted]
  rfl

theorem toText_zero {x : Binary64} (zero : x.mantissa = 0) : toText (.finite x) = js "0" := by
  simp only [toText, if_pos zero]

theorem ofDecimalText_zero : ofDecimalText (js "0") = .finite (.zero false) := by decide +kernel

/-- Two finite numbers have one text only if they are the same number or both zeros. -/
theorem toText_injective {x y : Binary64} (same : toText (.finite x) = toText (.finite y)) :
    x = y ∨ (x.mantissa = 0 ∧ y.mantissa = 0) := by
  have read := congrArg ofDecimalText same
  by_cases zero : x.mantissa = 0
  · by_cases zero' : y.mantissa = 0
    · exact Or.inr ⟨zero, zero'⟩
    · rw [toText_zero zero, ofDecimalText_zero, ofDecimalText_toText zero', F64.finite.injEq] at read
      exact absurd (congrArg Binary64.mantissa read).symm zero'
  · by_cases zero' : y.mantissa = 0
    · rw [toText_zero zero', ofDecimalText_zero, ofDecimalText_toText zero, F64.finite.injEq] at read
      exact absurd (congrArg Binary64.mantissa read) zero
    · rw [ofDecimalText_toText zero, ofDecimalText_toText zero', F64.finite.injEq] at read
      exact Or.inl read

end F64

end Xript
