import Xript.Expr.EvalReads
import Xript.Expr.RustEval
import Xript.Number.Layout
import Xript.Number.Numerals
import Xript.Number.Whole

namespace Xript

namespace Rust

/-- A whole number is one that JavaScript takes for an integer. -/
theorem isWhole_eq (x : F64) : isWhole x = x.isInteger := by
  cases x with
  | nan => rfl
  | infinite negative => cases negative <;> rfl
  | finite b =>
    obtain ⟨t, trunc, value⟩ := F64.trunc_value b
    have zero : (Binary64.zero false).value = 0 := Binary64.value_eq_zero.2 rfl
    rw [Bool.eq_iff_iff, F64.isInteger_iff, isWhole, trunc]
    by_cases same : b.value = t.value
    · have difference : F64.sub (.finite b) (.finite t) = .finite (.zero (b.negative && !t.negative)) := by
        rw [F64.sub, F64.neg, F64.add, F64.value_neg, ← sub_eq_add_neg, same, sub_self]
        exact if_pos rfl
      rw [difference]
      exact iff_of_true (F64.eq_finite.mpr (.inr ⟨rfl, rfl⟩)) ⟨b, _, rfl, same.trans value⟩
    · have apart : F64.eq (.finite b) (.finite t) = false := decide_eq_false same
      have sign := F64.sign_sub (x := .finite b) (y := .finite t) rfl rfl apart
      refine iff_of_false (fun equal => ?_) ?_
      · cases difference : F64.sub (.finite b) (.finite t) with
        | nan =>
          rw [difference] at equal
          cases equal
        | infinite negative =>
          rw [difference] at equal
          cases equal
        | finite d =>
          rw [difference] at equal sign
          have none : d.value = 0 := (of_decide_eq_true equal).trans zero
          simp only [F64.sign, none, lt_irrefl, if_false, if_true] at sign
          split at sign <;> cases sign
      · rintro ⟨c, n, equal, whole⟩
        cases equal
        exact same (by rw [value, whole, F64.truncate_int])

theorem castTo_whole {low high : Int} {b : Binary64} {k : Int} (whole : b.value = k) :
    castTo low high (.finite b) = max low (min high k) := by
  rw [castTo, whole, F64.truncate_int]

theorem toInteger_whole {b : Binary64} {k : Int} (whole : b.value = k) : toInteger (.finite b) = k := by
  rw [toInteger, whole, Int.floor_intCast]

theorem lengthNumber_short {n : Nat} (short : n < 2 ^ 53) : lengthNumber n = F64.ofNat n := by
  rw [lengthNumber, Nat.min_eq_left (by omega)]

theorem lt_zero_whole {b : Binary64} {k : Int} (whole : b.value = k) :
    F64.lt (.finite b) (.finite (.zero false)) = decide (k < 0) := by
  have zero : (Binary64.zero false).value = 0 := Binary64.value_eq_zero.2 rfl
  rw [F64.lt, zero, whole, decide_eq_decide]
  exact_mod_cast Iff.rfl

/-- A length and an integer below zero add up exactly, or to a number below zero. -/
theorem add_length {n : Nat} (short : n < 2 ^ 53) {b : Binary64} {k : Int} (whole : b.value = k) (below : k < 0) :
    (0 ≤ n + k → ∃ r, F64.add (F64.ofNat n) (.finite b) = .finite r ∧ r.value = (n + k : Int)) ∧
      (n + k < 0 → F64.lt (F64.add (F64.ofNat n) (.finite b)) (.finite (.zero false)) = true) := by
  obtain ⟨l, length, value⟩ := F64.ofNat_exact short
  have cast : (n : ℚ) + k = (n + k : Int) := by push_cast; rfl
  rw [length, F64.add, value, whole, cast]
  refine ⟨fun inside => F64.round_small (by omega) _, fun out => ?_⟩
  have negative : ((n + k : Int) : ℚ) < 0 := by exact_mod_cast out
  have large : (2 : ℚ) ^ (-1074 : Int) ≤ |((n + k : Int) : ℚ)| := by
    have one : (1 : ℚ) ≤ |((n + k : Int) : ℚ)| := by
      exact_mod_cast Int.one_le_abs (show (n : Int) + k ≠ 0 by omega)
    exact (zpow_le_one_of_nonpos₀ (by norm_num) (by norm_num)).trans one
  have sign := @F64.sign_round _ (l.negative && b.negative) large
  rw [if_pos negative] at sign
  have zero : (Binary64.zero false).value = 0 := Binary64.value_eq_zero.2 rfl
  cases rounded : F64.round (l.negative && b.negative) ((n + k : Int) : ℚ) with
  | nan =>
    rw [rounded] at sign
    cases sign
  | infinite n =>
    rw [rounded] at sign
    cases n with
    | true => rfl
    | false => cases sign
  | finite r =>
    rw [rounded] at sign
    rw [F64.lt, zero, decide_eq_true_eq]
    by_contra above
    simp only [F64.sign, if_neg above] at sign
    split at sign <;> cases sign

section

variable {α : Type} {items : List α} {b : Binary64}

theorem itemAt_whole {k : Int} (whole : b.value = k) :
    itemAt items (.finite b) = if k < 0 then none else items[k.toNat]? := by
  have integer : (F64.finite b).isInteger = true := F64.isInteger_iff.mpr ⟨b, k, rfl, whole⟩
  rw [itemAt, integer, toInteger_whole whole]
  by_cases below : k < 0
  · rw [if_neg (by omega), if_pos below]
  · rw [if_pos ⟨rfl, by omega⟩, if_neg below]

theorem itemAt_negative {x : F64} (negative : F64.lt x (.finite (.zero false)) = true) : itemAt items x = none := by
  cases x with
  | nan => cases negative
  | infinite n => rfl
  | finite b =>
    have zero : (Binary64.zero false).value = 0 := Binary64.value_eq_zero.2 rfl
    rw [F64.lt, zero, decide_eq_true_eq] at negative
    rw [itemAt, if_neg]
    rintro ⟨-, nonneg⟩
    exact absurd (Int.floor_lt_zero.mpr negative) (not_lt.mpr nonneg)

/-- The item at an index as Rust finds it, in integers. -/
theorem itemAt_fromEnd (short : items.length < 2 ^ 53) {k : Int} (whole : b.value = k) :
    itemAt items (fromEnd items.length (.finite b)) =
      (let index := toI64 (.finite b)
        let resolved := if index < 0 then items.length + index else index
        if resolved < 0 then none else items[resolved.toNat]?) := by
  rw [fromEnd, lt_zero_whole whole, toI64, castTo_whole whole]
  dsimp only
  generalize indexed : max (-2 ^ 63 : Int) (min (2 ^ 63 - 1) k) = index
  by_cases below : k < 0
  · obtain ⟨inside, out⟩ := add_length short whole below
    have negative : index < 0 := by omega
    rw [decide_eq_true below, if_pos rfl, lengthNumber_short short, if_pos negative]
    by_cases reached : 0 ≤ items.length + k
    · obtain ⟨r, sum, value⟩ := inside reached
      rw [sum, itemAt_whole value, if_neg (by omega), if_neg (by omega)]
      congr 2
      omega
    · rw [itemAt_negative (out (by omega)), if_pos (by omega)]
  · have positive : ¬ index < 0 := by omega
    rw [decide_eq_false below, if_neg Bool.false_ne_true, itemAt_whole whole, if_neg below, if_neg positive,
      if_neg positive]
    by_cases far : k < 2 ^ 63
    · congr 2
      omega
    · rw [List.getElem?_eq_none (by omega), List.getElem?_eq_none (by omega)]

end

theorem unitAt_eq {text : JSString} (short : text.length < 2 ^ 53) {b : Binary64} {k : Int} (whole : b.value = k) :
    unitAt text (toI64 (.finite b)) =
      (itemAt text (fromEnd text.length (.finite b))).elim .null fun unit => .str [unit] := by
  rw [itemAt_fromEnd short whole, unitAt]
  dsimp only
  generalize (if toI64 (.finite b) < 0 then text.length + toI64 (.finite b) else toI64 (.finite b)) = resolved
  split <;> rfl

/-- Both sides take the same numbers for positions of an array. -/
theorem element_eq {items : List Value} (short : items.length < 2 ^ 53) (position : F64) :
    element items position = (itemAt items position).elim .null X.fromJson := by
  rw [element, isWhole_eq]
  by_cases whole : position.isInteger = true
  · obtain ⟨b, k, rfl, value⟩ := F64.isInteger_iff.mp whole
    obtain ⟨l, length, lengthValue⟩ := F64.ofNat_exact short
    have past : F64.le (F64.ofNat items.length) (.finite b) = decide ((items.length : Int) ≤ k) := by
      rw [Bool.eq_iff_iff, length, F64.le_finite, lengthValue, value, decide_eq_true_eq]
      exact_mod_cast Iff.rfl
    rw [whole, lt_zero_whole value, past, itemAt_whole value, Bool.not_true, Bool.false_or, ← Bool.decide_or]
    by_cases below : k < 0
    · rw [if_pos (decide_eq_true (.inl below)), if_pos below]
      rfl
    · rw [if_neg below]
      by_cases out : (items.length : Int) ≤ k
      · rw [if_pos (decide_eq_true (.inr out)), List.getElem?_eq_none (by omega)]
        rfl
      · rw [if_neg (by rw [decide_eq_true_eq]; omega), toUsize, castTo_whole value]
        congr 2
        omega
  · rw [Bool.not_eq_true] at whole
    rw [whole, Bool.not_false, Bool.true_or, Bool.true_or, if_pos rfl, itemAt, whole,
      if_neg fun at_ => Bool.false_ne_true at_.1]
    rfl

/-- The relative index of a slice, in floating point and in integers. -/
theorem relativeIndex_eq {n : Nat} (short : n < 2 ^ 53) (b : Binary64) :
    relativeIndex (.finite b) n = sliceBound n (.finite b) := by
  obtain ⟨t, trunc, value⟩ := F64.trunc_value b
  obtain ⟨l, length, lengthValue⟩ := F64.ofNat_exact short
  have zero : (Binary64.zero false).value = ((0 : Int) : ℚ) := (Binary64.value_eq_zero.2 rfl).trans Int.cast_zero.symm
  rw [relativeIndex, trunc, sliceBound]
  generalize F64.truncate b.value = k at value
  rw [lt_zero_whole value]
  by_cases below : k < 0
  · obtain ⟨inside, out⟩ := add_length short value below
    rw [decide_eq_true below, if_pos rfl, if_pos below, maxNumber]
    by_cases reached : 0 ≤ n + k
    · obtain ⟨r, sum, sumValue⟩ := inside reached
      rw [sum, lt_zero_whole sumValue, decide_eq_false (by omega), if_neg Bool.false_ne_true, toUsize, castTo_whole sumValue]
      omega
    · rw [out (by omega), if_pos rfl, toUsize, castTo_whole zero]
      omega
  · have past : F64.lt (F64.ofNat n) (.finite t) = decide ((n : Int) < k) := by
      rw [length, F64.lt, lengthValue, value, decide_eq_decide]
      exact_mod_cast Iff.rfl
    have whole : l.value = ((n : Int) : ℚ) := lengthValue.trans (Int.cast_natCast n).symm
    rw [decide_eq_false below, if_neg Bool.false_ne_true, if_neg below, minNumber, past]
    by_cases long : (n : Int) < k
    · rw [decide_eq_true long, if_pos rfl, length, toUsize, castTo_whole whole]
      omega
    · rw [decide_eq_false long, if_neg Bool.false_ne_true, toUsize, castTo_whole value]
      omega

/-- Both sides round a half up. -/
theorem roundHalfUp_value (b : Binary64) : ∃ r s, roundHalfUp (.finite b) = .finite r ∧ mathRound (.finite b) = .finite s ∧
    r.value = s.value := by
  have bottom := Int.floor_le b.value
  have top := Int.lt_floor_add_one b.value
  have low := Int.floor_le (b.value + 1 / 2)
  have high := Int.lt_floor_add_one (b.value + 1 / 2)
  obtain ⟨s, ours, value⟩ := F64.integral_near b (n := ⌊b.value + 1 / 2⌋) (abs_lt.mpr ⟨by linarith, by linarith⟩)
  obtain ⟨f, floor, floorValue⟩ := F64.floor_value b
  by_cases half : 1 / 2 ≤ b.value - ⌊b.value⌋
  · have up : ⌊b.value + 1 / 2⌋ = ⌊b.value⌋ + 1 :=
      Int.floor_eq_iff.mpr ⟨by push_cast; linarith, by push_cast; linarith⟩
    obtain ⟨o, one, oneValue⟩ := F64.ofNat_exact (n := 1) (by decide)
    obtain ⟨r, sum, sumValue⟩ := F64.round_exact value (f.negative && o.negative)
    refine ⟨r, s, ?_, ours, sumValue.trans value.symm⟩
    rw [roundHalfUp, if_pos ((F64.half_le_sub_floor b).mpr half), floor, one, F64.add, floorValue, oneValue, ← sum, up]
    push_cast
    rfl
  · have same : ⌊b.value + 1 / 2⌋ = ⌊b.value⌋ := Int.floor_eq_iff.mpr ⟨by linarith, by linarith⟩
    refine ⟨f, s, ?_, ours, by rw [floorValue, value, same]⟩
    rw [roundHalfUp, if_neg fun up => half ((F64.half_le_sub_floor b).mp up), floor]

theorem isJsWhitespace_eq (c : Nat) : isJsWhitespace c = Xript.isSpace c := by
  rw [Bool.eq_iff_iff]
  simp only [isJsWhitespace, Xript.isSpace, Bool.or_eq_true, Bool.and_eq_true, beq_iff_eq, decide_eq_true_eq]
  omega

theorem jsTrimUnits_eq (text : JSString) : jsTrimUnits text = trim text := by
  have same : isJsWhitespace = Xript.isSpace := funext isJsWhitespace_eq
  rw [jsTrimUnits, trim, same]

/-- The units of a character are its own, or no white space. -/
theorem unitsOf_space (c : Char) : unitsOf c.toNat = [c.toNat] ∨
    (Xript.isSpace c.toNat = false ∧ ∃ u v, unitsOf c.toNat = [u, v] ∧ Xript.isSpace u = false ∧ Xript.isSpace v = false ∧ 0xD800 ≤ u) := by
  have valid := scalar_toNat c
  rw [unitsOf]
  split
  · exact .inl rfl
  · refine .inr ⟨?_, _, _, rfl, ?_, ?_, by omega⟩
    all_goals
      simp only [Xript.isSpace, Bool.or_eq_false_iff, Bool.and_eq_false_iff, decide_eq_false_iff_not, beq_eq_false_iff_ne]
      omega

theorem utf16_dropWhile (text : List Char) :
    utf16 (text.dropWhile fun c => isJsWhitespace c.toNat) = (utf16 text).dropWhile Xript.isSpace := by
  induction text with
  | nil => rfl
  | cons c text ih =>
    rw [List.dropWhile_cons, isJsWhitespace_eq]
    rcases unitsOf_space c with single | ⟨solid, u, v, pair, first, -⟩
    · rw [utf16_cons, single, List.singleton_append, List.dropWhile_cons]
      split
      · exact ih
      · rw [utf16_cons, single, List.singleton_append]
    · rw [solid, if_neg Bool.false_ne_true, utf16_cons, pair, List.cons_append, List.dropWhile_cons, first,
        if_neg Bool.false_ne_true]

theorem utf16_rdropWhile (text : List Char) :
    utf16 (text.rdropWhile fun c => isJsWhitespace c.toNat) = (utf16 text).rdropWhile Xript.isSpace := by
  induction text using List.reverseRecOn with
  | nil => rfl
  | append_singleton text c ih =>
    have one : utf16 [c] = unitsOf c.toNat := by rw [utf16_cons, utf16_nil, List.append_nil]
    rw [List.rdropWhile_concat, isJsWhitespace_eq]
    rcases unitsOf_space c with single | ⟨solid, u, v, pair, -, last, -⟩
    · rw [utf16_append, one, single, List.rdropWhile_concat]
      split
      · exact ih
      · rw [utf16_append, one, single]
    · rw [solid, if_neg Bool.false_ne_true, utf16_append, one, pair, show [u, v] = [u] ++ [v] from rfl, ← List.append_assoc,
        List.rdropWhile_concat, last, if_neg Bool.false_ne_true]

theorem utf16_jsTrim (text : List Char) : utf16 (jsTrim text) = trim (utf16 text) := by
  rw [jsTrim, utf16_rdropWhile, utf16_dropWhile, trim]

/-- What a text without a radix is read from: what stands after its sign. -/
theorem ofDecimalText_skipSign (s : JSString) : ∃ sign : Bool, F64.ofDecimalText s =
    if skipSign s = js "Infinity" then .infinite sign
    else (readUnsignedDecimal (skipSign s)).elim .nan fun q => F64.round sign (if sign then -q else q) := by
  cases s with
  | nil => exact ⟨false, rfl⟩
  | cons u t =>
    by_cases plus : u = 43
    · subst plus
      refine ⟨false, ?_⟩
      rw [show skipSign (43 :: t) = t from rfl]
      cases read : readUnsignedDecimal t <;> simp [F64.ofDecimalText, read]
    by_cases minus : u = 45
    · subst minus
      refine ⟨true, ?_⟩
      rw [show skipSign (45 :: t) = t from rfl]
      cases read : readUnsignedDecimal t <;> simp [F64.ofDecimalText, read]
    · rw [skipSign_plain plus minus]
      refine ⟨false, ?_⟩
      cases read : readUnsignedDecimal (u :: t) <;> simp [F64.ofDecimalText, plus, minus, read]

/-- Past the radix literals both sides read the same numbers. -/
theorem decimalNumber_eq (text : List Char) : decimalNumber text = F64.ofDecimalText (utf16 text) := by
  rw [decimalNumber]
  generalize utf16 text = s
  by_cases plain : s = js "Infinity" ∨ s = js "+Infinity"
  · rw [if_pos plain]
    rcases plain with rfl | rfl <;> rfl
  by_cases minus : s = js "-Infinity"
  · rw [if_neg plain, if_pos minus, minus]
    rfl
  rw [if_neg plain, if_neg minus, isDecimalLiteral_eq]
  obtain ⟨sign, read⟩ := ofDecimalText_skipSign s
  cases literal : readUnsignedDecimal (skipSign s) with
  | some q => exact if_pos rfl
  | none =>
    have other : skipSign s ≠ js "Infinity" := by
      intro bare
      rw [skipSign] at bare
      split at bare
      · rename_i signed
        cases s with
        | nil => cases bare
        | cons u t =>
          rw [List.tail_cons] at bare
          rcases signed with signed | signed
          · exact plain (.inr (by rw [bare, Option.some.inj signed]; rfl))
          · exact minus (by rw [bare, Option.some.inj signed]; rfl)
      · exact plain (.inl bare)
    rw [read, if_neg other, literal]
    exact if_neg Bool.false_ne_true

/-- What a unit counts as in a radix literal. -/
def digitValue (u : Nat) : Nat := if isDigit u then u - 48 else if isUpper u then u - 55 else u - 87

theorem readDigits_concat (radix : Nat) (s : JSString) (u : Nat) :
    readDigits radix (s ++ [u]) = readDigits radix s * radix + digitValue u := by
  rw [readDigits, List.foldl_append]
  rfl

theorem readDigits_ofDigits (radix : Nat) (s : JSString) :
    readDigits radix s = Nat.ofDigits radix (s.map digitValue).reverse := by
  induction s using List.reverseRecOn with
  | nil => rfl
  | append_singleton s u ih =>
    rw [readDigits_concat, ih, List.map_append, List.map_singleton, List.reverse_append, List.reverse_singleton,
      List.singleton_append, Nat.ofDigits_cons]
    ring

/-- One character of a radix literal. -/
theorem toDigit_eq {radix : Nat} (power : radix = 2 ∨ radix = 8 ∨ radix = 16) (c : Char) :
    toDigit radix c = if isRadixDigit radix c.toNat then some (digitValue c.toNat) else none := by
  have bounds : ∀ a b : Char, (a ≤ c ∧ c ≤ b) ↔ (a.toNat ≤ c.toNat ∧ c.toNat ≤ b.toNat) := fun a b => Iff.rfl
  have edges : '0'.toNat = 48 ∧ '9'.toNat = 57 ∧ 'a'.toNat = 97 ∧ 'z'.toNat = 122 ∧ 'A'.toNat = 65 ∧ 'Z'.toNat = 90 := by
    decide
  obtain ⟨e0, e9, ea, ez, eA, eZ⟩ := edges
  simp only [toDigit, bounds, e0, e9, ea, ez, eA, eZ]
  generalize c.toNat = u
  rcases power with rfl | rfl | rfl
  all_goals
    simp only [isRadixDigit, digitValue, isHexDigit, isDigit, isUpper]
    grind

theorem toDigit_units {radix : Nat} (power : radix = 2 ∨ radix = 8 ∨ radix = 16) (c : Char) :
    (toDigit radix c).map (fun d => [d]) =
      if (unitsOf c.toNat).all (isRadixDigit radix) then some ((unitsOf c.toNat).map digitValue) else none := by
  rw [toDigit_eq power]
  rcases unitsOf_space c with single | ⟨-, u, v, pair, -, -, high⟩
  · rw [single, List.all_cons, List.all_nil, Bool.and_true]
    split <;> rfl
  · have large : 0x10000 ≤ c.toNat := by
      by_contra small
      rw [unitsOf, if_pos (by omega)] at pair
      cases pair
    have other : ∀ u : Nat, 0xD800 ≤ u → isRadixDigit radix u = false := by
      intro u high
      rcases power with rfl | rfl | rfl
      all_goals
        simp only [isRadixDigit, isHexDigit, isDigit]
        grind
    rw [pair, other c.toNat (by omega), List.all_cons, other u high, Bool.false_and]
    rfl

/-- The digits of a radix literal, all of them or none. -/
theorem digits_units {radix : Nat} (power : radix = 2 ∨ radix = 8 ∨ radix = 16) (digits : List Char) :
    digits.mapM (toDigit radix) =
      if (utf16 digits).all (isRadixDigit radix) then some ((utf16 digits).map digitValue) else none := by
  induction digits with
  | nil => rfl
  | cons c digits ih =>
    have first := toDigit_units power c
    rw [List.mapM_cons, ih, utf16_cons, List.all_append, List.map_append]
    cases read : toDigit radix c with
    | none =>
      rw [read, Option.map_none] at first
      have other : (unitsOf c.toNat).all (isRadixDigit radix) = false := by
        rw [← Bool.not_eq_true]
        intro all
        rw [if_pos all] at first
        cases first
      rw [other, Bool.false_and]
      rfl
    | some d =>
      rw [read, Option.map_some] at first
      split at first
      · rename_i all
        rw [all, Bool.true_and, ← Option.some.inj first]
        split <;> rfl
      · cases first

theorem radixInteger_eq {radix : Nat} (power : radix = 2 ∨ radix = 8 ∨ radix = 16) (digits : List Char) :
    radixInteger digits radix =
      if (utf16 digits).all (isRadixDigit radix) then some (F64.ofNat (readDigits radix (utf16 digits))) else none := by
  have width : radix = 2 ^ radixWidth radix := by rcases power with rfl | rfl | rfl <;> decide
  have read := digits_units power digits
  by_cases all : (utf16 digits).all (isRadixDigit radix) = true
  · rw [if_pos all] at read ⊢
    obtain ⟨bits, spelled, value, shape⟩ := radixBits_spec width read
    rw [radixInteger, spelled, Option.map_some, readDigits_ofDigits, ← value]
    rcases shape with rfl | ⟨rest, rfl⟩
    · have zero : F64.ofNat (foldBits []) = .finite (.zero false) := by
        rw [show foldBits [] = 0 from rfl, F64.ofNat, F64.ofRat, F64.round, if_pos Nat.cast_zero]
      rw [if_pos rfl, zero]
    · rw [if_neg (List.cons_ne_nil _ _)]
      by_cases short : (true :: rest).length ≤ 53
      · rw [if_pos short]
      · obtain ⟨normal, small, rounds⟩ := roundBits_spec (not_le.mp short)
        rw [if_neg short, F64.ofNat_roundsTo rounds]
        generalize roundBits (true :: rest) = parts at normal small
        dsimp only
        by_cases beyond : 1024 < parts.2
        · have some : 0 < parts.1 := (Nat.two_pow_pos 52).trans_le normal
          have large : 2 ^ 1024 ≤ 2 ^ parts.2 := Nat.pow_le_pow_right Nat.two_pos beyond.le
          rw [if_pos beyond, F64.ofNat_infinite (large.trans (Nat.le_mul_of_pos_left _ some))]
        · rw [if_neg beyond, F64.mul_power small (by omega)]
  · rw [if_neg all] at read ⊢
    rw [radixInteger, radixBits, read]
    rfl

theorem literalRadix_eq (c : Char) : literalRadix c.toNat = radixOf c := by
  have equal : ∀ d : Char, c = d ↔ c.toNat = d.toNat := fun d => Char.toNat_inj.symm
  simp only [literalRadix, radixOf, equal]
  rfl

theorem radixOf_power {c : Char} {radix : Nat} (found : radixOf c = some radix) : radix = 2 ∨ radix = 8 ∨ radix = 16 := by
  unfold radixOf at found
  split_ifs at found <;> cases found
  · exact .inr (.inr rfl)
  · exact .inr (.inl rfl)
  · exact .inl rfl

theorem literalRadix_high {u : Nat} (high : 0xD800 ≤ u) : literalRadix u = none := by
  rw [literalRadix, if_neg (by omega), if_neg (by omega), if_neg (by omega)]

/-- `js_number` is `Number(string)`. -/
theorem jsNumber_eq (text : List Char) : jsNumber text = F64.ofText (utf16 text) := by
  rw [jsNumber, F64.ofText, ← utf16_jsTrim]
  generalize jsTrim text = trimmed
  cases trimmed with
  | nil => rfl
  | cons c rest =>
    by_cases zero : c = '0'
    · subst zero
      cases rest with
      | nil => exact decimalNumber_eq ['0']
      | cons x digits =>
        have units : utf16 ('0' :: x :: digits) = 48 :: (unitsOf x.toNat ++ utf16 digits) := rfl
        cases announced : radixOf x with
        | some radix =>
          have power := radixOf_power announced
          have single : unitsOf x.toNat = [x.toNat] := by
            rcases unitsOf_space x with single | ⟨-, u, v, pair, -, -, high⟩
            · exact single
            · have wide : 0x10000 ≤ x.toNat := by
                by_contra small
                rw [unitsOf, if_pos (by omega)] at pair
                cases pair
              rw [← literalRadix_eq, literalRadix_high (by omega)] at announced
              cases announced
          rw [units, single, List.singleton_append]
          cases digits with
          | nil =>
            have bare : decimalNumber ['0', x] = .nan := by
              unfold radixOf at announced
              split_ifs at announced with hex octal binary
              · rcases hex with rfl | rfl <;> decide +kernel
              · rcases octal with rfl | rfl <;> decide +kernel
              · rcases binary with rfl | rfl <;> decide +kernel
            simp only [literalRadix_eq, announced, utf16_nil]
            exact bare
          | cons d digits =>
            simp only [literalRadix_eq, announced, radixInteger_eq power]
            have some : utf16 (d :: digits) ≠ [] := by
              rw [utf16_cons]
              exact fun none => unitsOf_ne_nil _ (List.append_eq_nil_iff.mp none).1
            by_cases all : (utf16 (d :: digits)).all (isRadixDigit radix) = true
            · rw [if_pos all, if_pos ⟨some, all⟩]
              rfl
            · rw [if_neg all, if_neg fun both => all both.2]
              rfl
        | none =>
          have units : F64.ofDecimalText (utf16 ('0' :: x :: digits)) =
              F64.ofDecimalText (48 :: (unitsOf x.toNat ++ utf16 digits)) := rfl
          rw [show utf16 ('0' :: x :: digits) = 48 :: (unitsOf x.toNat ++ utf16 digits) from rfl]
          have same := (decimalNumber_eq ('0' :: x :: digits)).trans units
          rcases unitsOf_space x with single | ⟨-, u, v, pair, -, -, high⟩
          · rw [single, List.singleton_append] at same ⊢
            simp only [literalRadix_eq, announced]
            cases digits with
            | nil => exact same
            | cons d digits =>
              simp only [announced]
              exact same
          · rw [pair, List.cons_append] at same ⊢
            simp only [literalRadix_high high]
            cases digits with
            | nil => exact same
            | cons d digits =>
              simp only [announced]
              exact same
    · obtain ⟨u, rest', units, other⟩ : ∃ u t, utf16 (c :: rest) = u :: t ∧ u ≠ 48 := by
        rw [utf16_cons]
        rcases unitsOf_space c with single | ⟨-, u, v, pair, -, -, high⟩
        · exact ⟨c.toNat, utf16 rest, by rw [single, List.singleton_append],
            fun same => zero (Char.toNat_inj.mp same)⟩
        · exact ⟨u, v :: utf16 rest, by rw [pair]; rfl, by omega⟩
      have same := decimalNumber_eq (c :: rest)
      rw [units] at same ⊢
      split
      · rename_i none
        cases none
      · rename_i shape
        exact absurd (List.cons.inj shape).1 zero
      · split
        · rename_i none
          cases none
        · rename_i shape
          exact absurd (List.cons.inj shape).1 other
        · exact same

/-- A unit that stands for no character by itself. -/
def Halved (u : Nat) : Prop := (0xD800 ≤ u ∧ u < 0xE000) ∨ 0x10000 ≤ u

theorem halved_solid {u : Nat} (halved : Halved u) : Xript.isSpace u = false := by
  rw [Halved] at halved
  simp only [Xript.isSpace, Bool.or_eq_false_iff, Bool.and_eq_false_iff, decide_eq_false_iff_not, beq_eq_false_iff_ne]
  omega

theorem halved_points {s : JSString} {u : Nat} (member : u ∈ s) (halved : Halved u) :
    ∃ c ∈ codePoints s, Halved c := by
  induction s using codePoints.induct with
  | case1 hi lo s pair ih =>
    rw [codePoints, if_pos pair]
    exact ⟨_, List.mem_cons_self, .inr (by omega)⟩
  | case2 hi lo s unpaired ih =>
    rw [codePoints, if_neg unpaired]
    rcases List.mem_cons.mp member with rfl | later
    · exact ⟨u, List.mem_cons_self, halved⟩
    · obtain ⟨c, inside, same⟩ := ih later
      exact ⟨c, List.mem_cons_of_mem _ inside, same⟩
  | case3 v =>
    obtain rfl := List.mem_singleton.mp member
    exact ⟨u, List.mem_singleton_self u, halved⟩
  | case4 => cases member

theorem char_toNat {c : Nat} (valid : c.isValidChar) : (Char.ofNat c).toNat = c := by
  rw [Char.ofNat, dif_pos valid]
  rfl

/-- A text of whole characters is kept. -/
theorem utf16_lossy {s : JSString} (whole : ∀ u ∈ s, ¬ Halved u) : utf16 (fromUtf16Lossy s) = s := by
  have points : codePoints s = s := codePoints_of_lt fun u member => by
    have plain := whole u member
    rw [Halved] at plain
    omega
  rw [fromUtf16Lossy, points]
  induction s with
  | nil => rfl
  | cons u s ih =>
    obtain ⟨plain, rest⟩ := List.forall_mem_cons.mp whole
    have small : u < 0xD800 ∨ (0xDFFF < u ∧ u < 0x10000) := by
      rw [Halved] at plain
      omega
    have valid : u.isValidChar := by
      rcases small with low | ⟨low, high⟩
      · exact .inl low
      · exact .inr ⟨low, by omega⟩
    have tail : codePoints s = s := codePoints_of_lt fun u member => by
      have plain := rest u member
      rw [Halved] at plain
      omega
    rw [List.map_cons, if_pos valid, utf16_cons, char_toNat valid, ih rest tail, unitsOf, if_pos (by omega)]
    rfl

/-- Another text shows in a unit that is no white space and not of ASCII. -/
theorem lossy_shows {s : JSString} {u : Nat} (member : u ∈ s) (halved : Halved u) :
    ∃ v ∈ utf16 (fromUtf16Lossy s), 128 ≤ v ∧ Xript.isSpace v = false := by
  obtain ⟨c, inside, halved⟩ := halved_points member halved
  have present : (if c.isValidChar then Char.ofNat c else Char.ofNat 0xFFFD) ∈ fromUtf16Lossy s :=
    List.mem_map.mpr ⟨c, inside, rfl⟩
  have shows : ∀ d ∈ fromUtf16Lossy s, ∀ v ∈ unitsOf d.toNat, v ∈ utf16 (fromUtf16Lossy s) := fun d member v unit =>
    List.mem_flatMap.mpr ⟨d, member, unit⟩
  by_cases valid : c.isValidChar
  · rw [if_pos valid] at present
    have large : 0x10000 ≤ c := by
      rcases valid with low | ⟨low, -⟩
      · rw [Halved] at halved
        omega
      · rw [Halved] at halved
        omega
    refine ⟨0xD800 + (c - 0x10000) / 0x400, shows _ present _ ?_, by omega, ?_⟩
    · rw [char_toNat valid, unitsOf, if_neg (by omega)]
      exact List.mem_cons_self
    · have top : c < 0x110000 := by
        rcases valid with low | ⟨-, top⟩
        · omega
        · exact top
      simp only [Xript.isSpace, Bool.or_eq_false_iff, Bool.and_eq_false_iff, decide_eq_false_iff_not, beq_eq_false_iff_ne]
      omega
  · rw [if_neg valid] at present
    exact ⟨0xFFFD, shows _ present _ (by decide), by omega, by decide⟩

theorem readExponent_ascii {s : JSString} (read : (readExponent s).isSome = true) : ∀ u ∈ s, u < 128 := by
  cases s with
  | nil => exact fun u none => absurd none List.not_mem_nil
  | cons c t =>
    by_cases letter : c = 101 ∨ c = 69
    · rw [readExponent_letter t letter, decide_eq_true_eq] at read
      refine List.forall_mem_cons.mpr ⟨by omega, fun u member => ?_⟩
      have digits := List.all_eq_true.mp read.2
      by_cases kept : u ∈ skipSign t
      · have bounds := isDigit_bounds.mp (digits u kept)
        omega
      · cases t with
        | nil => cases member
        | cons v t =>
          rw [skipSign] at kept
          split at kept
          · rename_i signed
            rw [List.head?_cons, Option.some.injEq, Option.some.injEq] at signed
            rcases List.mem_cons.mp member with rfl | later
            · omega
            · exact absurd later kept
          · exact absurd member kept
    · unfold readExponent at read
      dsimp only at read
      rw [if_neg letter] at read
      cases read

/-- A decimal literal is in ASCII. -/
theorem readUnsignedDecimal_ascii {s : JSString} (read : (readUnsignedDecimal s).isSome = true) : ∀ u ∈ s, u < 128 := by
  rw [readUnsignedDecimal_isSome] at read
  dsimp only at read
  have parts : ∀ t : JSString, (takeDecimal t).1 ++ (takeDecimal t).2 = t := fun t => List.takeWhile_append_dropWhile
  have digits : ∀ t : JSString, ∀ u ∈ (takeDecimal t).1, u < 128 := by
    intro t u member
    have bounds := isDigit_bounds.mp (List.mem_takeWhile_imp member)
    omega
  by_cases point : (takeDecimal s).2.head? = some 46
  · rw [if_pos point] at read
    have exponent : (readExponent (takeDecimal (takeDecimal s).2.tail).2).isSome = true := by
      split at read
      · cases read
      · exact read
    obtain ⟨t, shape⟩ := List.head?_eq_some_iff.mp point
    rw [shape, List.tail_cons] at exponent
    intro u member
    rw [← parts s, shape, ← parts t] at member
    rcases List.mem_append.mp member with whole | rest
    · exact digits s u whole
    · rcases List.mem_cons.mp rest with rfl | later
      · omega
      · rcases List.mem_append.mp later with fraction | last
        · exact digits t u fraction
        · exact readExponent_ascii exponent u last
  · rw [if_neg point] at read
    have exponent : (readExponent (takeDecimal s).2).isSome = true := by
      split at read
      · cases read
      · exact read
    intro u member
    rw [← parts s] at member
    rcases List.mem_append.mp member with whole | rest
    · exact digits s u whole
    · exact readExponent_ascii exponent u rest

/-- Text that is not in ASCII is no number. -/
theorem ofText_nan {s : JSString} {u : Nat} (member : u ∈ s) (wide : 128 ≤ u) (solid : Xript.isSpace u = false) :
    F64.ofText s = .nan := by
  have inside : u ∈ trim s := by
    obtain ⟨after, space, split⟩ := trim_split s
    have blank : ∀ t : JSString, t.all Xript.isSpace = true → u ∉ t := fun t all at_ =>
      Bool.false_ne_true (solid.symm.trans (List.all_eq_true.mp all u at_))
    rw [split, List.append_assoc] at member
    rcases List.mem_append.mp member with before | later
    · exact absurd before (blank _ List.all_takeWhile)
    · rcases List.mem_append.mp later with here | last
      · exact here
      · exact absurd last (blank after space)
  have decimal : ∀ t : JSString, u ∈ t → F64.ofDecimalText t = .nan := by
    intro t member
    obtain ⟨sign, read⟩ := ofDecimalText_skipSign t
    have kept : u ∈ skipSign t := by
      cases t with
      | nil => cases member
      | cons v t =>
        rw [skipSign]
        split
        · rename_i signed
          rw [List.head?_cons, Option.some.injEq, Option.some.injEq] at signed
          rcases List.mem_cons.mp member with rfl | later
          · omega
          · exact later
        · exact member
    have other : skipSign t ≠ js "Infinity" := by
      intro same
      rw [same] at kept
      have ascii : ∀ v ∈ js "Infinity", v < 128 := by decide
      exact absurd (ascii u kept) (by omega)
    have none : readUnsignedDecimal (skipSign t) = none := by
      cases literal : readUnsignedDecimal (skipSign t) with
      | none => rfl
      | some q => exact absurd (readUnsignedDecimal_ascii (by rw [literal]; rfl) u kept) (by omega)
    rw [read, if_neg other, none]
    rfl
  unfold F64.ofText
  split
  · rename_i blank
    rw [blank] at inside
    cases inside
  · rename_i x digits shape
    rw [shape] at inside
    split
    · rename_i radix announced
      have late : u ∈ digits := by
        rcases List.mem_cons.mp inside with rfl | rest
        · omega
        · rcases List.mem_cons.mp rest with rfl | later
          · rw [literalRadix, if_neg (by omega), if_neg (by omega), if_neg (by omega)] at announced
            cases announced
          · exact later
      refine if_neg fun both => ?_
      have digit := List.all_eq_true.mp both.2 u late
      rw [literalRadix] at announced
      split_ifs at announced <;> cases announced
      all_goals
        simp only [isRadixDigit, isHexDigit, isDigit] at digit
        grind
    · exact decimal _ inside
  · exact decimal _ inside

/-- Both sides read the same number from a text, whatever of it is lost on the way. -/
theorem jsNumber_lossy (s : JSString) : jsNumber (fromUtf16Lossy s) = F64.ofText s := by
  rw [jsNumber_eq]
  by_cases whole : ∀ u ∈ s, ¬ Halved u
  · rw [utf16_lossy whole]
  · push Not at whole
    obtain ⟨u, member, halved⟩ := whole
    obtain ⟨v, shown, wide, solid⟩ := lossy_shows member halved
    rw [ofText_nan shown wide solid, ofText_nan member _ (halved_solid halved)]
    rw [Halved] at halved
    omega

theorem jsTrim_lossy {s : JSString} : jsTrim (fromUtf16Lossy s) = [] ↔ trim s = [] := by
  have units : jsTrim (fromUtf16Lossy s) = [] ↔ trim (utf16 (fromUtf16Lossy s)) = [] := by
    rw [← utf16_jsTrim, ← utf16_nil, utf16_inj]
  rw [units]
  by_cases whole : ∀ u ∈ s, ¬ Halved u
  · rw [utf16_lossy whole]
  · push Not at whole
    obtain ⟨u, member, halved⟩ := whole
    obtain ⟨v, shown, -, solid⟩ := lossy_shows member halved
    have printed : Xript.isSpace u = false := halved_solid halved
    rw [trim_eq_nil, trim_eq_nil, List.all_eq_true, List.all_eq_true]
    refine iff_of_false (fun all => ?_) fun all => ?_
    · exact Bool.false_ne_true (solid.symm.trans (all v shown))
    · exact Bool.false_ne_true (printed.symm.trans (all u member))

end Rust

end Xript
