import Xript.Number.Format
import Xript.Number.RoundTrip

namespace Xript

theorem takeDecimal_whole_iff {s : JSString} :
    (takeDecimal s).1 ≠ [] ∧ (takeDecimal s).2 = [] ↔ s ≠ [] ∧ s.all isDigit = true := by
  have parts : (takeDecimal s).1 ++ (takeDecimal s).2 = s := List.takeWhile_append_dropWhile
  rw [show (takeDecimal s).2 = s.dropWhile isDigit from rfl, List.dropWhile_eq_nil_iff] at *
  rw [List.all_eq_true]
  constructor
  · rintro ⟨present, all⟩
    refine ⟨?_, all⟩
    rintro rfl
    exact present rfl
  · rintro ⟨present, all⟩
    refine ⟨?_, all⟩
    rw [List.dropWhile_eq_nil_iff.mpr all, List.append_nil] at parts
    rw [parts]
    exact present

namespace Rust

theorem skipSign_plain {u : Nat} {t : JSString} (plus : u ≠ 43) (minus : u ≠ 45) :
    skipSign (u :: t) = u :: t := by
  rw [skipSign, List.head?_cons, if_neg (by simp [plus, minus])]

theorem readExponent_letter {c : Nat} (t : JSString) (letter : c = 101 ∨ c = 69) :
    (readExponent (c :: t)).isSome = decide (skipSign t ≠ [] ∧ (skipSign t).all isDigit = true) := by
  have option : ∀ (p : Prop) [Decidable p] (e : Int), (if p then some e else none).isSome = decide p := by
    intro p _ e
    by_cases holds : p <;> simp [holds]
  unfold readExponent
  dsimp only
  rw [if_pos letter]
  cases t with
  | nil => rfl
  | cons u t =>
    by_cases plus : u = 43
    · subst plus
      exact option _ _
    by_cases minus : u = 45
    · subst minus
      exact option _ _
    rw [skipSign_plain plus minus]
    split
    · rename_i same
      exact absurd (List.cons.inj same).1 plus
    · rename_i same
      exact absurd (List.cons.inj same).1 minus
    · exact option _ _

/-- What stands after a decimal literal's digits and fraction, read as an exponent. -/
theorem readExponent_isSome (s : JSString) :
    (readExponent s).isSome =
      if s.head? = some 101 ∨ s.head? = some 69 then
        if (takeDecimal (skipSign s.tail)).1.length = 0 then false else (takeDecimal (skipSign s.tail)).2.isEmpty
      else s.isEmpty := by
  cases s with
  | nil => rfl
  | cons c t =>
    simp only [List.head?_cons, Option.some.injEq, List.tail_cons, List.length_eq_zero_iff]
    by_cases letter : c = 101 ∨ c = 69
    · have ends : ∀ digits rest : JSString,
          decide (digits ≠ [] ∧ rest = []) = if digits = [] then false else rest.isEmpty := by
        intro digits rest
        cases digits <;> cases rest <;> simp
      rw [if_pos letter, readExponent_letter t letter, ← ends]
      exact decide_eq_decide.mpr takeDecimal_whole_iff.symm
    · unfold readExponent
      dsimp only
      rw [if_neg letter, if_neg letter]
      rfl

theorem readUnsignedDecimal_isSome (s : JSString) :
    (readUnsignedDecimal s).isSome =
      let whole := takeDecimal s
      let fraction := if whole.2.head? = some 46 then takeDecimal whole.2.tail else ([], whole.2)
      if whole.1.length = 0 ∧ fraction.1.length = 0 then false else (readExponent fraction.2).isSome := by
  simp only [readUnsignedDecimal, List.length_eq_zero_iff]
  obtain ⟨whole, rest⟩ := takeDecimal s
  have finish : ∀ fraction : JSString × JSString, ∀ value : Int → ℚ,
      (if whole = [] ∧ fraction.1 = [] then none else (readExponent fraction.2).map value).isSome =
        if whole = [] ∧ fraction.1 = [] then false else (readExponent fraction.2).isSome := by
    intro fraction value
    by_cases missing : whole = [] ∧ fraction.1 = []
    · rw [if_pos missing, if_pos missing]
      rfl
    · rw [if_neg missing, if_neg missing, Option.isSome_map]
  cases rest with
  | nil => exact finish ([], []) _
  | cons u t =>
    by_cases point : u = 46
    · subst point
      exact finish (takeDecimal t) _
    · simpa [point] using finish ([], u :: t) _

/-- `is_decimal_literal` accepts exactly the texts that have a decimal value. -/
theorem isDecimalLiteral_eq (text : JSString) :
    isDecimalLiteral text = (readUnsignedDecimal (skipSign text)).isSome := by
  simp only [readUnsignedDecimal_isSome, readExponent_isSome, isDecimalLiteral]

theorem layoutDigits_eq (digits : JSString) (point : Int) :
    layoutDigits digits point = Xript.layoutDigits digits point := by
  simp only [layoutDigits, Xript.layoutDigits, List.append_assoc, List.cons_append, List.nil_append]

theorem skipSign_layout {digits : JSString} (point : Int) (all : digits.all isDigit = true)
    (present : digits ≠ []) : skipSign (layoutDigits digits point) = layoutDigits digits point := by
  obtain ⟨c, rest, shape, digit⟩ := layoutDigits_head point all present
  have bounds : 48 ≤ c ∧ c ≤ 57 := by simpa [isDigit] using digit
  rw [layoutDigits_eq, shape]
  exact skipSign_plain (by omega) (by omega)

theorem isDecimalLiteral_layout {digits : JSString} (negative : Bool) (point : Int)
    (all : digits.all isDigit = true) (present : digits ≠ []) :
    isDecimalLiteral ((if negative then [45] else []) ++ layoutDigits digits point) = true := by
  have unsigned : skipSign ((if negative then [45] else []) ++ layoutDigits digits point) =
      layoutDigits digits point := by
    cases negative with
    | false => exact skipSign_layout point all present
    | true => rfl
  rw [isDecimalLiteral_eq, unsigned, layoutDigits_eq, readUnsignedDecimal_layout point all present]
  rfl

/-- A layout has its exponent letter exactly past the plain range. -/
theorem exponent_mem_layout {digits : JSString} (point : Int) (all : digits.all isDigit = true) :
    101 ∈ layoutDigits digits point ↔ 21 < point ∨ point ≤ -6 := by
  have absent : 101 ∉ digits := by
    intro member
    exact absurd (List.all_eq_true.mp all 101 member) (by decide)
  have zeros : ∀ n : Nat, 101 ∉ List.replicate n 48 := by
    intro n member
    exact absurd (List.eq_of_mem_replicate member) (by decide)
  have before : ∀ n : Nat, 101 ∉ digits.take n := fun n member => absent (List.mem_of_mem_take member)
  have after : ∀ n : Nat, 101 ∉ digits.drop n := fun n member => absent (List.mem_of_mem_drop member)
  have lead : 101 ∉ js "0." := by decide
  simp only [layoutDigits]
  split
  · rename_i whole
    simp only [List.mem_append, absent, zeros, or_false, false_iff]
    omega
  split
  · have apart : (101 : Nat) ≠ 46 := by decide
    simp only [List.mem_append, before, after, List.mem_singleton, apart, or_false, false_iff]
    omega
  split
  · simp only [List.mem_append, lead, zeros, absent, or_false, false_iff]
    omega
  · simp only [List.mem_append, List.mem_cons, true_or, or_true, true_iff]
    omega

/-- The digits of the scientific text of a positive number: `places` after the first, which is no zero. -/
theorem scientific_digits {q : ℚ} (positive : 0 < q) (places : Nat) :
    (scientific q places).1.all isDigit = true ∧ (scientific q places).1.length = places + 1 ∧
      (scientific q places).1.head? ≠ some 48 := by
  have exact : ∀ n : Nat, 10 ^ places ≤ n → n < 10 ^ (places + 1) →
      (decimal n).all isDigit = true ∧ (decimal n).length = places + 1 ∧ (decimal n).head? ≠ some 48 := by
    intro n low high
    have nonzero : n ≠ 0 := (Nat.lt_of_lt_of_le (Nat.pow_pos (by decide)) low).ne'
    exact ⟨decimal_digits n, decimal_length (Nat.succ_pos places) low high, decimal_head nonzero⟩
  obtain ⟨low, high⟩ := decimalPoint_bounds positive
  rw [show decimalPoint q - 1 = places + (decimalPoint q - (places + 1)) by ring, ten_zpow_add] at low
  rw [show decimalPoint q = (places + 1 : Nat) + (decimalPoint q - (places + 1)) by push_cast; ring,
    ten_zpow_add] at high
  have unit := ten_zpow_pos (decimalPoint q - (places + 1))
  rw [← le_div_iff₀ unit, zpow_natCast] at low
  rw [← div_lt_iff₀ unit, zpow_natCast] at high
  have lower := @le_roundHalfEven (q / 10 ^ (decimalPoint q - (places + 1))) (10 ^ places) (by exact_mod_cast low)
  have upper := @roundHalfEven_le (q / 10 ^ (decimalPoint q - (places + 1))) (10 ^ (places + 1))
    (div_nonneg positive.le unit.le) (by exact_mod_cast high.le)
  simp only [scientific, pow10_eq]
  split
  · exact exact _ le_rfl (Nat.pow_lt_pow_right (by decide) (Nat.lt_succ_self places))
  · rename_i inside
    exact exact _ lower (lt_of_le_of_ne upper inside)

theorem shortestFrom_le {accepts : ℚ → Bool} {q : ℚ} {point : Int} {fuel k last : Nat}
    (reaches : k ≤ last ∧ last < k + fuel) (found : (digitsOfLength accepts q point last).isSome = true) :
    k ≤ (shortestFrom accepts q point fuel k).2 ∧ (shortestFrom accepts q point fuel k).2 ≤ last := by
  induction fuel generalizing k with
  | zero => omega
  | succ fuel ih =>
    rw [shortestFrom]
    cases chosen : digitsOfLength accepts q point k with
    | some n => exact ⟨le_rfl, reaches.1⟩
    | none =>
      have further : k ≠ last := by
        rintro rfl
        simp [chosen] at found
      have later := @ih (k + 1) ⟨by omega, by omega⟩
      exact ⟨(Nat.le_succ k).trans later.1, later.2⟩

/-- No double needs more than seventeen digits. -/
theorem significantDigits_le {x : Binary64} (nonzero : x.mantissa ≠ 0) :
    1 ≤ significantDigits x ∧ significantDigits x ≤ 17 :=
  shortestFrom_le ⟨by decide, by decide⟩ (F64.digitsOfLength_seventeen nonzero)

/-- What `shortest_digits` promises `layout_digits`: from one to seventeen digits, with no zero at either end. -/
theorem shortestDigits_promise {x : Binary64} (nonzero : x.mantissa ≠ 0) :
    (shortestDigits x).1.all isDigit = true ∧ (shortestDigits x).1 ≠ [] ∧ (shortestDigits x).1.length ≤ 17 ∧
      (shortestDigits x).1.head? ≠ some 48 ∧ (shortestDigits x).1.getLast? ≠ some 48 := by
  obtain ⟨all, length, head⟩ := scientific_digits (Binary64.magnitude_pos nonzero) (significantDigits x - 1)
  have bound := significantDigits_le nonzero
  simp only [shortestDigits]
  generalize (scientific x.magnitude (significantDigits x - 1)).1 = written at all length head
  have trim : written.rdropWhile (· == 48) <+: written := List.rdropWhile_prefix _ _
  obtain ⟨d, rest, rfl⟩ := List.exists_cons_of_length_eq_add_one length
  have present : (d :: rest).rdropWhile (· == 48) ≠ [] := by
    intro empty
    have zero := List.rdropWhile_eq_nil_iff.mp empty d (List.mem_cons_self ..)
    exact head (congrArg some (eq_of_beq zero))
  rw [if_neg present]
  refine ⟨?_, present, trim.length_le.trans (by omega), ?_, ?_⟩
  · exact List.all_eq_true.mpr fun c member => List.all_eq_true.mp all c (trim.subset member)
  · obtain ⟨more, whole⟩ := trim
    rw [← whole, List.head?_append_of_ne_nil _ present] at head
    exact head
  · rw [List.getLast?_eq_some_getLast present]
    intro last
    have other := List.rdropWhile_last_not _ _ present
    simp [Option.some.inj last] at other

/-- The text of every finite number is a decimal literal. -/
theorem formatNumber_decimalLiteral (x : Binary64) : isDecimalLiteral (formatNumber (.finite x)) = true := by
  simp only [formatNumber]
  split
  · decide
  · rename_i nonzero
    obtain ⟨all, present, _⟩ := shortestDigits_promise nonzero
    exact isDecimalLiteral_layout x.negative (shortestDigits x).2 all present

/-- The layout of a number's digits denotes them at their place, is a decimal literal, and takes an
exponent where `Number::toString` does. -/
theorem layoutDigits_faithful {digits : JSString} (point : Int) (all : digits.all isDigit = true)
    (present : digits ≠ []) :
    readUnsignedDecimal (layoutDigits digits point) =
        some ((readDigits 10 digits : ℚ) / 10 ^ digits.length * 10 ^ point) ∧
      isDecimalLiteral (layoutDigits digits point) = true ∧
      (101 ∈ layoutDigits digits point ↔ 21 < point ∨ point ≤ -6) ∧
      layoutDigits digits point = Xript.layoutDigits digits point := by
  refine ⟨?_, isDecimalLiteral_layout false point all present, exponent_mem_layout point all, layoutDigits_eq digits point⟩
  rw [layoutDigits_eq, readUnsignedDecimal_layout point all present, zpow_sub₀ (by norm_num), zpow_natCast]
  congr 1
  ring

theorem layoutDigits_faithful_half :
    readUnsignedDecimal (layoutDigits (js "15") 0) = some (15 / 10 ^ 2 * 10 ^ (0 : Int)) ∧
      isDecimalLiteral (layoutDigits (js "15") 0) = true := by
  obtain ⟨denotes, literal, _⟩ := @layoutDigits_faithful (js "15") 0 (by decide) (by decide)
  exact ⟨denotes, literal⟩

end Rust

end Xript
