import Xript.Number.RoundTrip
import Xript.Sanitize.Tree

namespace Xript

/-- The values of the expression language. -/
abbrev ExprValue := Json

/-- A repeat's identity in a key: a string or a finite number. -/
inductive RepeatKey where
  | text (s : JSString)
  | number (x : F64)
  deriving DecidableEq

/-- How a repeat's copies are identified across updates. -/
inductive RepeatMode where
  | keyed
  | index
  | replace
  deriving DecidableEq

inductive RepeatKeyProblem where
  | invalidKey
  | duplicateKey
  deriving DecidableEq

structure RepeatKeyResolution where
  mode : RepeatMode
  keys : List RepeatKey
  problem : Option RepeatKeyProblem
  deriving DecidableEq

def keyToken : RepeatKey → JSString
  | .number x => js "n:" ++ F64.toText (if F64.eq x (.finite (.zero false)) then .finite (.zero false) else x)
  | .text s => js "s:" ++ s

def indexKeys (count : Nat) : List RepeatKey := (List.range count).map fun i => .number (F64.ofNat i)

/-- The key an evaluated `data-key` is, if it is a string or a finite number. -/
def asRepeatKey : ExprValue → Option RepeatKey
  | .str s => some (.text s)
  | .num x => if x.isFinite then some (.number x) else none
  | _ => none

/-- The loop over the key values: `none` at the first invalid one, otherwise whether a token repeats. -/
def scanKeys (seen : List JSString) (duplicate : Bool) : List ExprValue → Option Bool
  | [] => some duplicate
  | value :: rest =>
    match asRepeatKey value with
    | none => none
    | some key => scanKeys (keyToken key :: seen) (duplicate || seen.contains (keyToken key)) rest

/-- Resolves a repeat's keys from each copy's evaluated `data-key`. One invalid or duplicated key
drops the whole repeat to index keying. -/
def resolveRepeatKeys (keyValues : Option (List ExprValue)) : RepeatKeyResolution :=
  match keyValues with
  | none => ⟨.replace, [], none⟩
  | some values =>
    match scanKeys [] false values with
    | none => ⟨.index, indexKeys values.length, some .invalidKey⟩
    | some true => ⟨.index, indexKeys values.length, some .duplicateKey⟩
    | some false => ⟨.keyed, values.filterMap asRepeatKey, none⟩

/-- Index keys for a repeat with no `data-key`. -/
def replaceKeys (count : Nat) : List RepeatKey := indexKeys count

namespace RepeatKey

/-- Strict equality of two keys: the two zeros are one key. -/
def same : RepeatKey → RepeatKey → Bool
  | .text s, .text t => s = t
  | .number x, .number y => F64.eq x y
  | _, _ => false

/-- What every key is: a number among them is finite. -/
def Valid : RepeatKey → Prop
  | .text _ => True
  | .number x => x.isFinite = true

end RepeatKey

/-- The keys of one render: valid, and no two of them the same. -/
structure ResolvedKeys (keys : List RepeatKey) : Prop where
  valid : ∀ key ∈ keys, key.Valid
  distinct : keys.Pairwise fun a b => RepeatKey.same a b = false

namespace Binary64

theorem value_eq_zero {x : Binary64} : x.value = 0 ↔ x.mantissa = 0 := by
  have unit := two_zpow_pos x.exponent
  rw [value, magnitude_eq]
  split <;> simp [unit.ne']

/-- Two doubles of one non-zero value are the same double. -/
theorem eq_of_value {x y : Binary64} (nonzero : x.mantissa ≠ 0) (same : x.value = y.value) : x = y := by
  have nonzero' : y.mantissa ≠ 0 := fun zero => nonzero (value_eq_zero.1 (same.trans (value_eq_zero.2 zero)))
  have positive := magnitude_pos nonzero
  have positive' := magnitude_pos nonzero'
  have sign : x.negative = y.negative := by
    rw [value, value] at same
    cases first : x.negative <;> cases second : y.negative <;> simp only [first, second, if_true, if_false,
      Bool.false_eq_true] at same <;> first | rfl | linarith
  have magnitude : x.magnitude = y.magnitude := by
    rw [value, value, sign] at same
    split at same
    · exact neg_injective same
    · exact same
  -- Each double is what its own magnitude rounds to.
  have exact : ∀ z : Binary64, z.mantissa ≠ 0 →
      F64.roundMagnitude false z.magnitude = .finite { z with negative := false } := by
    intro z some
    have unit := two_zpow_pos z.exponent
    refine F64.roundMagnitude_near false some ?_ fun _ => ?_
    · rw [magnitude_eq, sub_self, abs_zero]
      linarith
    · rw [magnitude_eq, sub_self, abs_zero]
      linarith
  have rounded := exact x nonzero
  rw [magnitude, exact y nonzero', F64.finite.injEq] at rounded
  cases x
  cases y
  simp_all

end Binary64

namespace F64

/-- Equal finite numbers are one number, or two zeros. -/
theorem eq_finite {x y : Binary64} :
    F64.eq (.finite x) (.finite y) = true ↔ x = y ∨ (x.mantissa = 0 ∧ y.mantissa = 0) := by
  simp only [F64.eq, decide_eq_true_eq]
  constructor
  · intro same
    by_cases zero : x.mantissa = 0
    · exact Or.inr ⟨zero, Binary64.value_eq_zero.1 (same.symm.trans (Binary64.value_eq_zero.2 zero))⟩
    · exact Or.inl (Binary64.eq_of_value zero same)
  · rintro (rfl | ⟨zero, zero'⟩)
    · rfl
    · rw [Binary64.value_eq_zero.2 zero, Binary64.value_eq_zero.2 zero']

/-- Two finite numbers have one text exactly when they are equal. -/
theorem toText_eq_iff {x y : Binary64} :
    toText (.finite x) = toText (.finite y) ↔ F64.eq (.finite x) (.finite y) = true := by
  rw [eq_finite]
  constructor
  · exact toText_injective
  · rintro (rfl | ⟨zero, zero'⟩)
    · rfl
    · rw [toText_zero zero, toText_zero zero']

end F64

theorem keyToken_number (x : Binary64) : keyToken (.number (.finite x)) = js "n:" ++ F64.toText (.finite x) := by
  simp only [keyToken]
  split
  · rename_i zero
    rw [F64.toText_eq_iff.mpr zero]
  · rfl

theorem text_token_ne (s t : JSString) : js "s:" ++ s ≠ js "n:" ++ t := by
  intro same
  have heads : some 115 = some 110 := congrArg List.head? same
  cases heads

/-- Two keys have one token exactly when they are strictly equal. -/
theorem keyToken_eq_iff {a b : RepeatKey} (validA : a.Valid) (validB : b.Valid) :
    keyToken a = keyToken b ↔ RepeatKey.same a b = true := by
  cases a with
  | text s =>
    cases b with
    | text t => simp [keyToken, RepeatKey.same]
    | number y => simp [keyToken, RepeatKey.same, text_token_ne]
  | number x =>
    cases b with
    | text t => simp [keyToken, RepeatKey.same, (text_token_ne _ _).symm]
    | number y =>
      cases x <;> cases y <;> simp only [RepeatKey.Valid, F64.isFinite, Bool.false_eq_true] at validA validB
      rw [keyToken_number, keyToken_number, List.append_cancel_left_eq, F64.toText_eq_iff]
      rfl

namespace F64

/-- An integer below `2 ^ 53` is a double. -/
theorem ofNat_exact {n : Nat} (small : n < 2 ^ 53) : ∃ x, ofNat n = .finite x ∧ x.value = n := by
  rcases Nat.eq_zero_or_pos n with rfl | positive
  · exact ⟨.zero false, by simp [ofNat, ofRat, round], by simp [Binary64.value, Binary64.zero, Binary64.magnitude]⟩
  · have nonzero : n ≠ 0 := by omega
    have fits : n.log2 ≤ 52 := by
      have := (Nat.log2_lt nonzero).mpr small
      omega
    have scale : 2 ^ n.log2 * 2 ^ (52 - n.log2) = 2 ^ 52 := by
      rw [← Nat.pow_add]
      congr 1
      omega
    have low := Nat.log2_self_le nonzero
    have high := Nat.lt_log2_self (n := n)
    let x : Binary64 := ⟨false, n * 2 ^ (52 - n.log2), (n.log2 : Int) - 52,
      by rw [Nat.pow_succ] at high; nlinarith [Nat.two_pow_pos (52 - n.log2)], by omega, by omega,
      Or.inr (by nlinarith [Nat.two_pow_pos (52 - n.log2)])⟩
    have magnitude : x.magnitude = n := by
      rw [Binary64.magnitude_eq]
      show ((n * 2 ^ (52 - n.log2) : Nat) : ℚ) * 2 ^ ((n.log2 : Int) - 52) = n
      push_cast
      rw [mul_assoc, ← zpow_natCast, ← two_zpow_add, Nat.cast_sub fits]
      norm_num
    have some : x.mantissa ≠ 0 := by
      show n * 2 ^ (52 - n.log2) ≠ 0
      exact Nat.mul_ne_zero nonzero (Nat.two_pow_pos _).ne'
    refine ⟨x, ?_, magnitude⟩
    have unit := two_zpow_pos x.exponent
    rw [ofNat, ofRat_positive (by exact_mod_cast positive), ← magnitude]
    refine roundMagnitude_near false some ?_ fun _ => ?_
    · rw [Binary64.magnitude_eq, sub_self, abs_zero]
      linarith
    · rw [Binary64.magnitude_eq, sub_self, abs_zero]
      linarith

end F64

/-- Positions are keys of their own, as far as an array reaches. -/
theorem indexKeys_resolved {count : Nat} (bounded : count ≤ 2 ^ 53) : ResolvedKeys (indexKeys count) := by
  have exact : ∀ i ∈ List.range count, ∃ x, F64.ofNat i = .finite x ∧ x.value = i := fun i member =>
    F64.ofNat_exact ((List.mem_range.mp member).trans_le bounded)
  constructor
  · intro key member
    obtain ⟨i, inside, rfl⟩ := List.mem_map.mp member
    obtain ⟨x, finite, _⟩ := exact i inside
    rw [RepeatKey.Valid, finite]
    rfl
  · rw [indexKeys, List.pairwise_map]
    refine List.Pairwise.imp_of_mem ?_ (List.pairwise_lt_range (n := count))
    intro i j memberI memberJ order
    obtain ⟨x, finiteX, valueX⟩ := exact i memberI
    obtain ⟨y, finiteY, valueY⟩ := exact j memberJ
    rw [RepeatKey.same, finiteX, finiteY]
    simp only [F64.eq, valueX, valueY, decide_eq_false_iff_not]
    exact_mod_cast order.ne

theorem asRepeatKey_valid {value : ExprValue} {key : RepeatKey} (found : asRepeatKey value = some key) :
    key.Valid := by
  cases value with
  | str s => obtain rfl := Option.some.inj found; trivial
  | num x =>
    rw [asRepeatKey] at found
    split at found
    · obtain rfl := Option.some.inj found
      assumption
    · cases found
  | null | bool | arr | obj => cases found

theorem scanKeys_sticky {values : List ExprValue} {seen : List JSString} :
    scanKeys seen true values ≠ some false := by
  induction values generalizing seen with
  | nil => simp [scanKeys]
  | cons value rest ih =>
    rw [scanKeys]
    split
    · simp
    · rw [Bool.true_or]
      exact ih

/-- The scan ends without a finding only over tokens all different. -/
theorem scanKeys_distinct {values : List ExprValue} {seen : List JSString}
    (scanned : scanKeys seen false values = some false) :
    ((values.filterMap asRepeatKey).map keyToken).Nodup ∧
      ∀ key ∈ values.filterMap asRepeatKey, keyToken key ∉ seen := by
  induction values generalizing seen with
  | nil => simp
  | cons value rest ih =>
    rw [scanKeys] at scanned
    split at scanned
    · cases scanned
    · rename_i key found
      rw [Bool.false_or] at scanned
      cases repeated : seen.contains (keyToken key) with
      | true =>
        rw [repeated] at scanned
        exact absurd scanned scanKeys_sticky
      | false =>
        rw [repeated] at scanned
        obtain ⟨nodup, apart⟩ := ih scanned
        have fresh : keyToken key ∉ seen := by simpa using repeated
        rw [List.filterMap_cons_some found]
        constructor
        · rw [List.map_cons, List.nodup_cons]
          refine ⟨fun member => ?_, nodup⟩
          obtain ⟨other, inside, same⟩ := List.mem_map.mp member
          exact apart other inside (same ▸ List.mem_cons_self ..)
        · intro other member
          rcases List.mem_cons.mp member with rfl | inside
          · exact fresh
          · exact fun old => apart other inside (List.mem_cons_of_mem _ old)

/-- What resolution promises whatever the key values are. -/
theorem resolveRepeatKeys_resolved (keyValues : Option (List ExprValue))
    (bounded : ∀ values ∈ keyValues, values.length ≤ 2 ^ 53) :
    ResolvedKeys (resolveRepeatKeys keyValues).keys := by
  cases keyValues with
  | none => exact ⟨by simp [resolveRepeatKeys], by simp [resolveRepeatKeys]⟩
  | some values =>
    have inside := bounded values rfl
    simp only [resolveRepeatKeys]
    split
    · exact indexKeys_resolved inside
    · exact indexKeys_resolved inside
    · rename_i scanned
      have valid : ∀ key ∈ values.filterMap asRepeatKey, key.Valid := by
        intro key member
        obtain ⟨value, _, found⟩ := List.mem_filterMap.mp member
        exact asRepeatKey_valid found
      refine ⟨valid, ?_⟩
      have nodup := List.pairwise_map.mp (scanKeys_distinct scanned).1
      refine List.Pairwise.imp_of_mem (fun {a b} memberA memberB different => ?_) nodup
      rw [← Bool.not_eq_true, ← keyToken_eq_iff (valid a memberA) (valid b memberB)]
      exact different

end Xript
