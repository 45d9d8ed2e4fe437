import Xript.Expr.RustValues

namespace Xript

namespace Rust

/-- Both runs return, and return alike values. -/
def Answers (ours : Option X) (theirs : Except Thrown ExprValue) : Prop :=
  ∃ value other, ours = some value ∧ theirs = .ok other ∧ Alike value other

theorem answers_some {value : X} {other : ExprValue} (alike : Alike value other) : Answers (some value) (.ok other) :=
  ⟨value, other, rfl, rfl, alike⟩

theorem answers_null : Answers (some .null) (.ok .null) := answers_some .null

theorem answers_ite {c : Prop} [Decidable c] {ours others : Option X} {theirs rest : Except Thrown ExprValue}
    (yes : c → Answers ours theirs) (no : ¬c → Answers others rest) :
    Answers (if c then ours else others) (if c then theirs else rest) := by
  split
  · exact yes ‹_›
  · exact no ‹_›

theorem sameResult_abs {x y : F64} (number : SameNumber x y) : SameResult (F64.abs x) (F64.abs y) := by
  cases number with
  | @finite a b same =>
    have value : ∀ c : Binary64, Binary64.value { c with negative := false } = |c.value| := fun c => by
      rw [Binary64.abs_value, Binary64.value_of_positive rfl]
    exact .inl (.finite (by rw [value, value, same]))

theorem sameResult_round_half {x y : F64} (number : SameNumber x y) : SameResult (roundHalfUp x) (mathRound y) := by
  cases number with
  | @finite a b same =>
    obtain ⟨r, s, ours, theirs, value⟩ := roundHalfUp_value a
    have both : SameResult (mathRound (.finite a)) (mathRound (.finite b)) := sameResult_round _ _ (by rw [same])
    have number := both.number (mathRound_isFinite (x := .finite b) rfl)
    rw [theirs] at number
    rw [ours]
    generalize mathRound (.finite b) = rounded at number
    cases number with
    | finite equal => exact .inl (.finite (value.trans equal))

theorem sameResult_floor {x y : F64} (number : SameNumber x y) : SameResult (F64.floor x) (F64.floor y) := by
  cases number with
  | finite same => exact sameResult_round _ _ (by rw [same])

theorem sameResult_ceil {x y : F64} (number : SameNumber x y) : SameResult (F64.ceil x) (F64.ceil y) := by
  cases number with
  | finite same => exact sameResult_round _ _ (by rw [same])

/-- The lesser of two numbers; of two zeros TypeScript takes the negative one. -/
theorem sameNumber_min {x y z w : F64} (number : SameNumber x y) (other : SameNumber z w) :
    SameNumber (minNumber x z) (mathMin y w) := by
  cases number with
  | @finite a b same =>
    cases other with
    | @finite c d same' =>
      rw [minNumber, mathMin]
      simp only [F64.lt, F64.isNaN, Bool.or_false, Bool.false_eq_true, if_false, decide_eq_true_eq, same, same']
      rcases lt_trichotomy b.value d.value with less | equal | greater
      · rw [if_neg less.not_gt, if_pos less]
        exact .finite same
      · rw [if_neg equal.not_gt, if_neg equal.not_lt, if_neg equal.not_gt]
        split
        · exact .finite same
        · exact .finite (same.trans equal)
      · rw [if_pos greater, if_neg greater.not_gt, if_pos greater]
        exact .finite same'

theorem sameNumber_max {x y z w : F64} (number : SameNumber x y) (other : SameNumber z w) :
    SameNumber (maxNumber x z) (mathMax y w) := by
  cases number with
  | @finite a b same =>
    cases other with
    | @finite c d same' =>
      rw [maxNumber, mathMax]
      simp only [F64.lt, F64.isNaN, Bool.or_false, Bool.false_eq_true, if_false, decide_eq_true_eq, same, same']
      rcases lt_trichotomy b.value d.value with less | equal | greater
      · rw [if_pos less, if_pos less]
        exact .finite same'
      · rw [if_neg equal.not_lt, if_neg equal.not_lt, if_neg equal.not_gt]
        split
        · exact .finite (same.trans equal)
        · exact .finite same
      · rw [if_neg greater.not_gt, if_neg greater.not_gt, if_pos greater]
        exact .finite same

theorem min_start {x : F64} (finite : x.isFinite = true) :
    minNumber (.infinite false) x = x ∧ mathMin (.infinite false) x = x := by
  obtain ⟨b, rfl⟩ := F64.isFinite_iff.mp finite
  exact ⟨rfl, rfl⟩

theorem max_start {x : F64} (finite : x.isFinite = true) :
    maxNumber (.infinite true) x = x ∧ mathMax (.infinite true) x = x := by
  obtain ⟨b, rfl⟩ := F64.isFinite_iff.mp finite
  exact ⟨rfl, rfl⟩

/-- A whole number from `0` up to a bound, as both sides look for one. -/
theorem whole_upTo {x y : F64} (number : SameNumber x y) {most : Nat} (small : most < 2 ^ 53) :
    ((isWhole x && F64.le (F64.ofNat 0) x && F64.le x (F64.ofNat most)) = true ↔
      y.isInteger = true ∧ 0 ≤ toInteger y ∧ toInteger y ≤ most) ∧
    (0 ≤ toInteger y ∧ toInteger y ≤ most → y.isInteger = true → toUsize x = (toInteger y).toNat) := by
  rw [isWhole_eq, number.isInteger]
  by_cases whole : y.isInteger = true
  · obtain ⟨b, k, rfl, value⟩ := F64.isInteger_iff.mp (number.isInteger.trans whole)
    obtain ⟨z, zero, zeroValue⟩ := F64.ofNat_exact (n := 0) (by decide)
    obtain ⟨m, bound, boundValue⟩ := F64.ofNat_exact small
    have least : F64.le (.finite z) (.finite b) = true ↔ 0 ≤ k := by
      rw [F64.le_finite, zeroValue, value, Nat.cast_zero]
      exact_mod_cast Iff.rfl
    have greatest : F64.le (.finite b) (.finite m) = true ↔ k ≤ most := by
      rw [F64.le_finite, boundValue, value]
      exact_mod_cast Iff.rfl
    rw [← number.toInteger, toInteger_whole value, zero, bound, whole, Bool.true_and, Bool.and_eq_true,
      least, greatest, toUsize, castTo_whole value]
    refine ⟨by simp only [true_and], fun inside _ => ?_⟩
    omega
  · rw [Bool.not_eq_true] at whole
    rw [whole, Bool.false_and, Bool.false_and]
    exact ⟨iff_of_false Bool.false_ne_true fun both => Bool.false_ne_true both.1, fun _ yes => absurd yes Bool.false_ne_true⟩

theorem relativeIndex_alike {x y : F64} (number : SameNumber x y) {n : Nat} (short : n < 2 ^ 53) :
    relativeIndex x n = sliceBound n y := by
  cases number with
  | finite same => rw [relativeIndex_eq short, sliceBound, sliceBound, same]

section

variable {xs : List X} {vs : List ExprValue} (alike : List.Forall₂ Alike xs vs)

include alike

/-- An argument is given on both sides or on neither. -/
theorem argument_cases (i : Nat) : (xs[i]? = none ∧ vs.length ≤ i) ∨
    ∃ value, xs[i]? = some value ∧ i < vs.length ∧ Alike value (argument vs i) := by
  induction alike generalizing i with
  | nil => exact .inl ⟨rfl, Nat.zero_le i⟩
  | @cons value other xs vs head _ ih =>
    cases i with
    | zero => exact .inr ⟨value, rfl, Nat.succ_pos _, head⟩
    | succ i =>
      rcases ih i with ⟨none, past⟩ | ⟨found, at_, inside, same⟩
      · exact .inl ⟨none, Nat.succ_le_succ past⟩
      · exact .inr ⟨found, at_, Nat.succ_lt_succ inside, same⟩

theorem argument_alike {i : Nat} (inside : i < vs.length) : ∃ value, xs[i]? = some value ∧ Alike value (argument vs i) := by
  rcases argument_cases alike i with ⟨-, past⟩ | ⟨value, found, -, same⟩
  · exact absurd inside (by omega)
  · exact ⟨value, found, same⟩

omit alike in
theorem argument_mem {i : Nat} (inside : i < vs.length) : argument vs i ∈ vs := by
  rw [argument, List.getD_eq_getElem?_getD, List.getElem?_eq_getElem inside]
  exact List.getElem_mem inside

theorem numeric_answers {f g : F64 → F64} (same : ∀ {x y : F64}, SameNumber x y → SameResult (f x) (g y))
    (keeps : ∀ {x : F64}, x.isFinite = true → (g x).isFinite = true) (one : 0 < vs.length) :
    Answers (numeric xs f) (Xript.ofNumber vs g) := by
  obtain ⟨value, found, first⟩ := argument_alike alike one
  rw [numeric, found, Xript.ofNumber]
  show Answers (some (value.asNumber.elim .null fun x => X.ofNumber (f x))) _
  rcases first.asNumber with ⟨ours, theirs⟩ | ⟨x, y, ours, theirs, number⟩
  · rw [ours, theirs]
    exact answers_null
  · rw [ours, theirs]
    exact answers_some (alike_number ((same number).number (keeps number.isFinite.2)))

theorem textual_answers {f g : JSString → JSString} (same : ∀ s, f s = g s) (one : 0 < vs.length) :
    Answers (textual xs f) (ofString vs g) := by
  obtain ⟨value, found, first⟩ := argument_alike alike one
  rw [textual, found, ofString]
  generalize argument vs 0 = other at first
  cases first with
  | str s =>
    show Answers (some (.str (f s))) _
    rw [same]
    exact answers_some (.str _)
  | null | bool | num | arr | obj => exact answers_null

/-- The numbers among the arguments, on both sides. -/
theorem asNumbers_alike : (xs.mapM X.asNumber = none ∧ asNumbers vs = none) ∨
    ∃ first second, xs.mapM X.asNumber = some first ∧ asNumbers vs = some second ∧
      List.Forall₂ SameNumber first second ∧ second.length = vs.length := by
  rw [asNumbers]
  induction alike with
  | nil => exact .inr ⟨[], [], rfl, rfl, .nil, rfl⟩
  | @cons value other xs vs head _ ih =>
    rw [List.mapM_cons, List.mapM_cons]
    rcases head.asNumber with ⟨ours, theirs⟩ | ⟨x, y, ours, theirs, number⟩
    · rw [ours, theirs]
      exact .inl ⟨rfl, rfl⟩
    · rw [ours, theirs]
      rcases ih with ⟨none, none'⟩ | ⟨first, second, read, read', numbers, length⟩
      · rw [none, none']
        exact .inl ⟨rfl, rfl⟩
      · rw [read, read']
        exact .inr ⟨x :: first, y :: second, rfl, rfl, .cons number numbers, congrArg (· + 1) length⟩

theorem foldNumbers_answers {f g : F64 → F64 → F64} {start : F64}
    (same : ∀ {x y z w : F64}, SameNumber x y → SameNumber z w → SameNumber (f x z) (g y w))
    (first : ∀ {x : F64}, x.isFinite = true → f start x = x ∧ g start x = x) (one : 0 < vs.length) :
    Answers (some (Rust.foldNumbers xs f start)) (Xript.foldNumbers vs g start) := by
  have folded : ∀ {nums others : List F64} {x y : F64}, List.Forall₂ SameNumber nums others → SameNumber x y →
      SameNumber (nums.foldl f x) (others.foldl g y) := by
    intro nums others x y numbers
    induction numbers generalizing x y with
    | nil => exact id
    | cons head _ ih => exact fun number => ih (same number head)
  rw [Rust.foldNumbers, Xript.foldNumbers]
  rcases asNumbers_alike alike with ⟨ours, theirs⟩ | ⟨nums, others, ours, theirs, numbers, length⟩
  · rw [ours, theirs]
    exact answers_null
  · rw [ours, theirs]
    cases numbers with
    | nil => exact absurd one (by rw [← length]; exact lt_irrefl 0)
    | cons head tail =>
      rw [Option.elim_some, List.foldl_cons, (first head.isFinite.1).1]
      dsimp only
      rw [List.foldl_cons, (first head.isFinite.2).2]
      exact answers_some (alike_number (folded tail head))

theorem callLen_answers (short : ∀ v ∈ vs, Short v) (one : 0 < vs.length) : Answers (Rust.callLen xs) (Xript.callLen vs) := by
  obtain ⟨value, found, first⟩ := argument_alike alike one
  have small : Short (argument vs 0) := short _ (argument_mem one)
  rw [Rust.callLen, found, Xript.callLen]
  generalize argument vs 0 = other at first small
  cases first with
  | str s => exact answers_some (ofNat_alike small)
  | arr items =>
    show Answers (some (X.ofNumber (F64.ofNat (scrubItems items).length))) _
    rw [← exprItems_length]
    exact answers_some (ofNat_alike small)
  | obj members =>
    show Answers (some (X.ofNumber (F64.ofNat (scrubMap members).length))) _
    rw [← exprMembers_length]
    exact answers_some (ofNat_alike small)
  | null | bool | num => exact answers_null

theorem callClamp_answers (three : 2 < vs.length) : Answers (Rust.callClamp xs) (Xript.callClamp vs) := by
  obtain ⟨x, foundX, first⟩ := argument_alike alike (show 0 < vs.length by omega)
  obtain ⟨lo, foundLo, second⟩ := argument_alike alike (show 1 < vs.length by omega)
  obtain ⟨hi, foundHi, third⟩ := argument_alike alike three
  rw [Rust.callClamp, foundX, foundLo, foundHi, Xript.callClamp]
  simp only [Option.bind_eq_bind, Option.bind_some]
  rcases first.asNumber with ⟨ours, theirs⟩ | ⟨x, x', ours, theirs, number⟩
  · rw [ours, theirs]
    exact answers_null
  rcases second.asNumber with ⟨ours', theirs'⟩ | ⟨lo, lo', ours', theirs', numberLo⟩
  · rw [ours, theirs, ours', theirs']
    exact answers_null
  rcases third.asNumber with ⟨ours'', theirs''⟩ | ⟨hi, hi', ours'', theirs'', numberHi⟩
  · rw [ours, theirs, ours', theirs', ours'', theirs'']
    exact answers_null
  rw [ours, theirs, ours', theirs', ours'', theirs'']
  dsimp only
  have order : F64.le lo hi = true ↔ ¬F64.lt hi' lo' = true := by
    rw [← numberHi.lt numberLo]
    cases numberLo with
    | finite =>
      cases numberHi with
      | finite => rw [F64.le_finite, F64.lt, decide_eq_true_eq, not_lt]
  by_cases crossed : F64.lt hi' lo' = true
  · rw [if_neg fun le => order.mp le crossed, if_pos crossed]
    exact answers_null
  · rw [if_pos (order.mpr crossed), if_neg crossed]
    exact answers_some (alike_number (sameNumber_min (sameNumber_max number numberLo) numberHi))

theorem callFixed_answers (two : 1 < vs.length) : Answers (Rust.callFixed F64.toFixed xs) (Xript.callFixed vs) := by
  obtain ⟨x, foundX, first⟩ := argument_alike alike (show 0 < vs.length by omega)
  obtain ⟨n, foundN, second⟩ := argument_alike alike two
  rw [Rust.callFixed, foundX, foundN, Xript.callFixed]
  simp only [Option.bind_eq_bind, Option.bind_some]
  rcases first.asNumber with ⟨ours, theirs⟩ | ⟨x, x', ours, theirs, number⟩
  · rw [ours, theirs]
    exact answers_null
  rcases second.asNumber with ⟨ours', theirs'⟩ | ⟨n, n', ours', theirs', digits⟩
  · rw [ours, theirs, ours', theirs']
    exact answers_null
  rw [ours, theirs, ours', theirs']
  dsimp only
  obtain ⟨range, count⟩ := whole_upTo digits (show 20 < 2 ^ 53 by decide)
  rw [Nat.cast_ofNat] at range count
  by_cases inside : n'.isInteger = true ∧ 0 ≤ toInteger n' ∧ toInteger n' ≤ 20
  · rw [if_pos (range.mpr inside), if_pos inside, toFixedText, if_neg (by omega), count inside.2 inside.1, number.toFixed]
    exact answers_some (.str _)
  · rw [if_neg fun holds => inside (range.mp holds), if_neg inside]
    exact answers_null

/-- The filler of `pad`, on both sides. -/
theorem padFill_alike :
    (padFill xs[2]? = none ∧ ∀ filler, (if vs.length > 2 then argument vs 2 else .str [32]) = .str filler → filler = []) ∨
      ∃ filler, padFill xs[2]? = some filler ∧ (if vs.length > 2 then argument vs 2 else .str [32]) = .str filler ∧
        filler ≠ [] := by
  rcases argument_cases alike 2 with ⟨none, past⟩ | ⟨value, found, inside, same⟩
  · rw [none, if_neg (by omega)]
    exact .inr ⟨[32], rfl, rfl, List.cons_ne_nil _ _⟩
  · rw [found, if_pos inside]
    generalize argument vs 2 = other at same
    cases same with
    | str s =>
      rw [padFill]
      cases s with
      | nil => exact .inl ⟨rfl, fun filler same => (Json.str.inj same).symm⟩
      | cons u s => exact .inr ⟨u :: s, rfl, rfl, List.cons_ne_nil _ _⟩
    | null | bool | num | arr | obj => exact .inl ⟨rfl, fun filler same => Json.noConfusion same⟩

theorem callPad_answers (two : 1 < vs.length) : Answers (Rust.callPad xs) (Xript.callPad vs) := by
  obtain ⟨x, foundX, first⟩ := argument_alike alike (show 0 < vs.length by omega)
  obtain ⟨n, foundN, second⟩ := argument_alike alike two
  have fill := padFill_alike alike
  rw [Rust.callPad, foundX, foundN, Xript.callPad]
  simp only [Option.bind_eq_bind, Option.bind_some]
  generalize argument vs 0 = text at first
  generalize (if vs.length > 2 then argument vs 2 else .str [32]) = ch at fill
  cases first with
  | str s =>
    dsimp only
    rcases second.asNumber with ⟨ours, theirs⟩ | ⟨n, n', ours, theirs, width⟩
    · rw [padWidth, ours, theirs]
      exact answers_null
    obtain ⟨range, count⟩ := whole_upTo width (show 4096 < 2 ^ 53 by decide)
    rw [Nat.cast_ofNat] at range count
    rw [padWidth, ours, theirs, Option.bind_some]
    rcases fill with ⟨unfilled, empty⟩ | ⟨filler, some, rfl, solid⟩
    · rw [unfilled]
      generalize (if (isWhole n && F64.le (F64.ofNat 0) n && F64.le n (F64.ofNat 4096)) = true then some (toUsize n)
        else none) = width
      cases ch with
      | str filler =>
        obtain rfl : filler = [] := empty filler rfl
        dsimp only
        rw [if_neg fun all => all.2.2.2 rfl]
        cases width <;> exact answers_null
      | null | bool | num | arr | obj => cases width <;> exact answers_null
    · rw [some]
      dsimp only
      by_cases inside : n'.isInteger = true ∧ 0 ≤ toInteger n' ∧ toInteger n' ≤ 4096
      · rw [if_pos (range.mpr inside), if_pos ⟨inside.1, inside.2.1, inside.2.2, solid⟩, count inside.2 inside.1]
        obtain ⟨k, cast⟩ := Int.eq_ofNat_of_zero_le inside.2.1
        rw [cast, padText_eq solid]
        dsimp only
        by_cases fits : k ≤ s.length
        · rw [Int.toNat_natCast, if_pos fits, if_pos fits]
          exact answers_some (.str _)
        · rw [Int.toNat_natCast, if_neg fits, if_neg fits]
          exact answers_some (.str _)
      · rw [if_neg fun holds => inside (range.mp holds), if_neg fun all => inside ⟨all.1, all.2.1, all.2.2.1⟩]
        exact answers_null
  | null | bool | num | arr | obj => exact answers_null

theorem callSlice_answers (short : ∀ v ∈ vs, Short v) (two : 1 < vs.length) :
    Answers (Rust.callSlice xs) (Xript.callSlice vs) := by
  obtain ⟨x, foundX, first⟩ := argument_alike alike (show 0 < vs.length by omega)
  obtain ⟨n, foundN, second⟩ := argument_alike alike two
  have small : Short (argument vs 0) := short _ (argument_mem (by omega))
  rw [Rust.callSlice, foundX, foundN, Xript.callSlice]
  simp only [Option.bind_eq_bind, Option.bind_some]
  generalize argument vs 0 = text at first small
  cases first with
  | str s =>
    dsimp only
    rcases second.asNumber with ⟨ours, theirs⟩ | ⟨n, n', ours, theirs, start⟩
    · rw [ours, theirs]
      exact answers_null
    rw [ours, theirs, Option.map_some, relativeIndex_alike start small]
    dsimp only
    rcases argument_cases alike 2 with ⟨none, past⟩ | ⟨value, found, inside, same⟩
    · rw [none, if_neg (by omega), sliceEnd]
      dsimp only
      rw [slice_eq, List.take_length]
      exact answers_some (.str _)
    · rw [found, if_pos inside, sliceEnd]
      rcases same.asNumber with ⟨ours', theirs'⟩ | ⟨m, m', ours', theirs', stop⟩
      · rw [ours', theirs']
        exact answers_null
      · rw [ours', theirs', Option.map_some, relativeIndex_alike stop small]
        dsimp only
        rw [slice_eq]
        exact answers_some (.str _)
  | null | bool | num | arr | obj => exact answers_null

theorem callHas_answers (two : 1 < vs.length) : Answers (Rust.callHas xs) (Xript.callHas vs) := by
  obtain ⟨coll, foundColl, first⟩ := argument_alike alike (show 0 < vs.length by omega)
  obtain ⟨key, foundKey, second⟩ := argument_alike alike two
  rw [Rust.callHas, foundColl, foundKey, Xript.callHas]
  simp only [Option.bind_eq_bind, Option.bind_some]
  generalize argument vs 0 = other at first
  cases first with
  | null | bool | num => exact answers_null
  | str s =>
    generalize argument vs 1 = name at second
    cases second with
    | str needle =>
      dsimp only
      rw [containsUnits_eq]
      exact answers_some (.bool _)
    | null | bool | num | arr | obj => exact answers_some (.bool false)
  | arr items =>
    dsimp only
    have any : (scrubItems items).any (fun item => Rust.strictEqual (X.fromJson item) key) =
        (exprItems items).any fun item => Xript.strictEqual item (argument vs 1) := by
      rw [scrubItems_map, exprItems_map, List.any_map, List.any_map]
      congr 1
      funext item
      rw [Function.comp_apply, Function.comp_apply, fromJson_scrub, (alike_fromJson item).strictEqual second]
    rw [any]
    exact answers_some (.bool _)
  | obj members =>
    generalize argument vs 1 = name at second
    cases second with
    | str needle =>
      dsimp only
      have same : (keyString needle).any (fun key => ((scrubMap members).lookup key).isSome) =
          (Record.get (exprMembers members) needle).isSome := by
        have bound : (keyString needle).any (fun key => ((scrubMap members).lookup key).isSome) =
            ((keyString needle).bind fun key => (scrubMap members).lookup key).isSome := by
          cases keyString needle <;> rfl
        rw [bound]
        rcases lookup_alike members needle with ⟨ours, theirs⟩ | ⟨value, ours, theirs⟩ <;> rw [ours, theirs] <;> rfl
      rw [same]
      exact answers_some (.bool _)
    | null | bool | num | arr | obj => exact answers_some (.bool false)

theorem callJoin_answers (one : 0 < vs.length) : Answers (Rust.callJoin F64.toText xs) (Xript.callJoin vs) := by
  obtain ⟨value, found, first⟩ := argument_alike alike one
  have sep : Alike (xs[1]?.getD (.str [44])) (if vs.length > 1 then argument vs 1 else .str [44]) := by
    rcases argument_cases alike 1 with ⟨none, past⟩ | ⟨value, found, inside, same⟩
    · rw [none, if_neg (by omega)]
      exact .str [44]
    · rw [found, if_pos inside]
      exact same
  rw [Rust.callJoin, found, Xript.callJoin]
  simp only [Option.bind_eq_bind, Option.bind_some]
  generalize argument vs 0 = other at first
  generalize (if vs.length > 1 then argument vs 1 else .str [44]) = by_ at sep
  generalize xs[1]?.getD (.str [44]) = ours at sep
  cases first with
  | arr items =>
    cases sep with
    | str s =>
      dsimp only
      rw [renderItems_scrub]
      exact answers_some (.str _)
    | null | bool | num | arr | obj => exact answers_null
  | null | bool | num | str | obj => exact answers_null

theorem callAt_answers (short : ∀ v ∈ vs, Short v) (two : 1 < vs.length) :
    Answers (Rust.callAt xs) (Xript.callAt vs) := by
  obtain ⟨coll, foundColl, first⟩ := argument_alike alike (show 0 < vs.length by omega)
  obtain ⟨i, foundI, second⟩ := argument_alike alike two
  have small : Short (argument vs 0) := short _ (argument_mem (by omega))
  rw [Rust.callAt, foundColl, foundI, Xript.callAt]
  simp only [Option.bind_eq_bind, Option.bind_some]
  generalize argument vs 0 = other at first small
  rcases second.asNumber with ⟨ours, theirs⟩ | ⟨i, i', ours, theirs, number⟩
  · rw [ours, theirs]
    exact answers_null
  rw [ours, theirs]
  dsimp only
  rw [isWhole_eq, ← number.isInteger]
  by_cases whole : i.isInteger = true
  · rw [if_pos whole, if_pos whole]
    cases first with
    | null | bool | num => exact answers_null
    | obj => exact answers_null
    | str s => exact answers_some (unitAt_alike small number whole)
    | arr items =>
      dsimp only
      obtain ⟨b, k, rfl, value⟩ := F64.isInteger_iff.mp whole
      have length : (scrubItems items).length < 2 ^ 53 := by
        rw [← exprItems_length]
        exact small
      have position : SameResult (fromEnd (scrubItems items).length (.finite b)) (fromEnd (exprItems items).length i') := by
        rw [exprItems_length, fromEnd, lengthNumber_short length]
        exact fromEnd_same length number
      have same := itemAt_alike items position
      rw [itemAt_fromEnd length value] at same
      dsimp only at same
      by_cases below : (if toI64 (.finite b) < 0 then (scrubItems items).length + toI64 (.finite b) else toI64 (.finite b)) < 0
      · rw [if_pos below] at same ⊢
        exact answers_some same
      · rw [if_neg below] at same ⊢
        exact answers_some same
  · rw [if_neg whole, if_neg whole]
    exact answers_null

theorem callNum_answers (one : 0 < vs.length) : Answers (Rust.callNum xs) (Xript.callNum vs) := by
  obtain ⟨value, found, first⟩ := argument_alike alike one
  rw [Rust.callNum, found, Xript.callNum]
  simp only [Option.bind_eq_bind, Option.bind_some]
  generalize argument vs 0 = other at first
  cases first with
  | null | arr | obj => exact answers_null
  | bool b =>
    have small : (if b then 1 else 0) < 2 ^ 53 := by cases b <;> decide
    obtain ⟨one, exact, -⟩ := F64.ofNat_exact small
    dsimp only
    rw [exact]
    exact answers_some (alike_number (.finite rfl))
  | num number =>
    dsimp only
    rw [X.asNumber, if_pos number.isFinite.1]
    exact answers_some (alike_ofNumber number.result)
  | str s =>
    dsimp only
    rw [jsStringToNumber, jsNumber_lossy]
    by_cases blank : trim s = []
    · rw [if_pos (jsTrim_lossy.mpr blank), if_pos blank]
      exact answers_null
    · have read : F64.ofText (trim s) = F64.ofText s := by rw [F64.ofText, F64.ofText, trim_idem]
      rw [if_neg fun none => blank (jsTrim_lossy.mp none), if_neg blank, read, finite]
      cases number : (F64.ofText s).isFinite with
      | true =>
        rw [Option.filter_some, number, if_pos rfl, if_pos rfl]
        exact answers_some (alike_number (sameNumber_self number))
      | false =>
        rw [Option.filter_some, number, if_neg Bool.false_ne_true, if_neg Bool.false_ne_true]
        exact answers_null

omit alike in
/-- The parser's arity check leaves no argument out that a builtin takes. -/
theorem least_arguments {name spelled : JSString} {arity : Nat × Option Nat} {least n : Nat} {most : Option Nat}
    (found : builtins.lookup name = some arity) (admits : arityAdmits arity n = true) (named : name = spelled)
    (known : builtins.lookup spelled = some (least, most)) : least ≤ n := by
  subst named
  obtain rfl : arity = (least, most) := Option.some.inj (found.symm.trans known)
  simp only [arityAdmits, Bool.and_eq_true, decide_eq_true_eq] at admits
  exact admits.1

/-- Every builtin answers alike, given arguments that the parser admits. -/
theorem call_answers {name : JSString} {arity : Nat × Option Nat} (found : builtins.lookup name = some arity)
    (admits : arityAdmits arity vs.length = true) (short : ∀ v ∈ vs, Short v) :
    Answers (Rust.call F64.toText F64.toFixed xs name) (callBuiltin vs name) := by
  unfold Rust.call callBuiltin
  refine answers_ite (fun named => numeric_answers alike sameResult_abs F64.abs_isFinite
    (least_arguments found admits named rfl)) fun _ => ?_
  refine answers_ite (fun named => numeric_answers alike sameResult_round_half mathRound_isFinite
    (least_arguments found admits named rfl)) fun _ => ?_
  refine answers_ite (fun named => numeric_answers alike sameResult_floor F64.floor_isFinite
    (least_arguments found admits named rfl)) fun _ => ?_
  refine answers_ite (fun named => numeric_answers alike sameResult_ceil F64.ceil_isFinite
    (least_arguments found admits named rfl)) fun _ => ?_
  refine answers_ite (fun named => foldNumbers_answers alike sameNumber_min min_start
    (least_arguments found admits named rfl)) fun _ => ?_
  refine answers_ite (fun named => foldNumbers_answers alike sameNumber_max max_start
    (least_arguments found admits named rfl)) fun _ => ?_
  refine answers_ite (fun named => callClamp_answers alike (least_arguments found admits named rfl)) fun _ => ?_
  refine answers_ite (fun named => callFixed_answers alike (least_arguments found admits named rfl)) fun _ => ?_
  refine answers_ite (fun named => textual_answers alike mapCase_upper (least_arguments found admits named rfl)) fun _ => ?_
  refine answers_ite (fun named => textual_answers alike mapCase_lower (least_arguments found admits named rfl)) fun _ => ?_
  refine answers_ite (fun named => textual_answers alike jsTrimUnits_eq (least_arguments found admits named rfl)) fun _ => ?_
  refine answers_ite (fun named => callPad_answers alike (least_arguments found admits named rfl)) fun _ => ?_
  refine answers_ite (fun named => callSlice_answers alike short (least_arguments found admits named rfl)) fun _ => ?_
  refine answers_ite (fun named => callLen_answers alike short (least_arguments found admits named rfl)) fun _ => ?_
  refine answers_ite (fun named => callHas_answers alike (least_arguments found admits named rfl)) fun _ => ?_
  refine answers_ite (fun named => callJoin_answers alike (least_arguments found admits named rfl)) fun _ => ?_
  refine answers_ite (fun named => callAt_answers alike short (least_arguments found admits named rfl)) fun _ => ?_
  refine answers_ite (fun named => ?_) fun _ => ?_
  · obtain ⟨value, given, first⟩ := argument_alike alike (least_arguments found admits named rfl)
    rw [given, Option.map_some, first.render]
    exact answers_some (.str _)
  refine answers_ite (fun named => callNum_answers alike (least_arguments found admits named rfl)) fun _ => ?_
  refine answers_ite (fun named => ?_) fun _ => answers_null
  obtain ⟨value, given, first⟩ := argument_alike alike (least_arguments found admits named rfl)
  rw [given, Option.map_some, first.truthy]
  exact answers_some (.bool _)

end

end Rust

mutual

/-- An expression and the ones inside of it. -/
def ExprAst.parts : ExprAst → List ExprAst
  | .member obj key => .member obj key :: obj.parts
  | .index obj key => .index obj key :: (obj.parts ++ key.parts)
  | .unary op arg => .unary op arg :: arg.parts
  | .binary op left right => .binary op left right :: (left.parts ++ right.parts)
  | .logical op left right => .logical op left right :: (left.parts ++ right.parts)
  | .cond test cons alt => .cond test cons alt :: (test.parts ++ cons.parts ++ alt.parts)
  | .call f args => .call f args :: partsArgs args
  | leaf => [leaf]

def ExprAst.partsArgs : List ExprAst → List ExprAst
  | [] => []
  | arg :: args => arg.parts ++ partsArgs args

end

theorem ExprAst.mem_parts (ast : ExprAst) : ast ∈ ast.parts := by
  cases ast <;> simp [ExprAst.parts]

namespace Rust

/-- The bindings object of the same JSON, whatever it inherits. -/
abbrev bindingsOf (entries : List (List Char × Value)) (inherited : Record JsValue) : Bindings :=
  ⟨hostMembers (Value.toMembers entries), inherited⟩

theorem hostMembers_map (entries : List (List Char × Value)) :
    hostMembers (Value.toMembers entries) = entries.map fun m => (utf16 m.1, hostValue m.2.toJson) := by
  induction entries with
  | nil => rfl
  | cons entry entries ih => rw [List.map_cons, ← ih]; rfl

/-- Bindings objects that hold alike values under the same names. -/
def BindingsAlike (entries : List (List Char × Value)) (bindings : Bindings) : Prop :=
  ∀ x, Alike (member entries x) ((Record.get bindings.own x).elim .null toExprValue)

theorem bindingsOf_alike (entries : List (List Char × Value)) (inherited : Record JsValue) :
    BindingsAlike entries (bindingsOf entries inherited) := by
  intro x
  show Alike _ ((Record.get (hostMembers (Value.toMembers entries)) x).elim .null toExprValue)
  rw [hostMembers_map, get_units fun value => hostValue (Value.toJson value), member]
  cases keyString x with
  | none => exact .null
  | some key =>
    rw [Option.bind_some, Option.bind_some]
    cases entries.lookup key with
    | none => exact .null
    | some value => exact alike_fromJson value

section

variable {entries : List (List Char × Value)} {bindings : Bindings}

/-- The length of what a part evaluates to. -/
theorem short_of {ast part : ExprAst} (short : ∀ part ∈ ast.parts, Short (Xript.evaluateAst bindings part))
    (member : part ∈ ast.parts) {value : ExprValue}
    (run : evalNode bindings part = .ok value) : Short value := by
  have small := short part member
  rwa [Xript.evaluateAst, run] at small

mutual

/-- The two evaluations of an admitted expression answer alike. -/
theorem eval_answers (agree : BindingsAlike entries bindings) : ∀ {ast : ExprAst}, ast.Admitted →
    (∀ part ∈ ast.parts, Short (Xript.evaluateAst bindings part)) →
    Answers (eval F64.toText F64.toFixed entries ast) (evalNode bindings ast)
  | .num text, _, _ => by
    rw [eval, evalNode]
    refine answers_some (alike_ofNumber ?_)
    cases number : (F64.ofText text).isFinite with
    | true => exact (sameNumber_self number).result
    | false => exact .inr ⟨number, number⟩
  | .str value, _, _ => by
    rw [eval, evalNode]
    exact answers_some (.str value)
  | .bool value, _, _ => by
    rw [eval, evalNode]
    exact answers_some (.bool value)
  | .null, _, _ => by
    rw [eval, evalNode]
    exact answers_null
  | .name x, _, _ => by
    rw [eval, evalNode]
    exact answers_some (agree x)
  | .member obj key, admitted, short => by
    simp only [ExprAst.Admitted] at admitted
    have inner : ∀ part ∈ obj.parts, Short (Xript.evaluateAst bindings part) := fun part member =>
      short part (by rw [ExprAst.parts]; exact List.mem_cons_of_mem _ member)
    obtain ⟨target, other, ours, theirs, alike⟩ := eval_answers agree admitted inner
    rw [eval, evalNode, ours, theirs]
    exact answers_some (readName_alike alike (short_of inner obj.mem_parts theirs) key)
  | .index obj key, admitted, short => by
    simp only [ExprAst.Admitted] at admitted
    rw [ExprAst.parts] at short
    obtain ⟨-, both⟩ := List.forall_mem_cons.mp short
    obtain ⟨first, second⟩ := List.forall_mem_append.mp both
    obtain ⟨target, other, ours, theirs, alike⟩ := eval_answers agree admitted.1 first
    obtain ⟨index, other', ours', theirs', alike'⟩ := eval_answers agree admitted.2 second
    rw [eval, evalNode, ours, theirs, ours', theirs']
    exact answers_some (readIndex_alike alike (short_of first obj.mem_parts theirs) alike')
  | .unary op arg, admitted, short => by
    simp only [ExprAst.Admitted] at admitted
    rw [ExprAst.parts] at short
    obtain ⟨-, inner⟩ := List.forall_mem_cons.mp short
    obtain ⟨value, other, ours, theirs, alike⟩ := eval_answers agree admitted inner
    rw [eval, evalNode, ours, theirs]
    exact answers_some (evalUnary_alike op alike)
  | .logical op left right, admitted, short => by
    simp only [ExprAst.Admitted] at admitted
    rw [ExprAst.parts] at short
    obtain ⟨-, both⟩ := List.forall_mem_cons.mp short
    obtain ⟨first, second⟩ := List.forall_mem_append.mp both
    obtain ⟨value, other, ours, theirs, alike⟩ := eval_answers agree admitted.1 first
    have rest := eval_answers agree admitted.2 second
    rw [eval, evalNode, ours, theirs]
    cases op with
    | and =>
      show Answers (if truthy value then _ else some value) (if isTruthy other then _ else .ok other)
      rw [alike.truthy]
      exact answers_ite (fun _ => rest) fun _ => answers_some alike
    | or =>
      show Answers (if truthy value then some value else _) (if isTruthy other then .ok other else _)
      rw [alike.truthy]
      exact answers_ite (fun _ => answers_some alike) fun _ => rest
    | nullish =>
      cases alike with
      | null => exact rest
      | bool b => exact answers_some (.bool b)
      | num number => exact answers_some (.num number)
      | str s => exact answers_some (.str s)
      | arr items => exact answers_some (.arr items)
      | obj members => exact answers_some (.obj members)
  | .cond test cons alt, admitted, short => by
    simp only [ExprAst.Admitted] at admitted
    rw [ExprAst.parts] at short
    obtain ⟨-, all⟩ := List.forall_mem_cons.mp short
    obtain ⟨both, third⟩ := List.forall_mem_append.mp all
    obtain ⟨first, second⟩ := List.forall_mem_append.mp both
    obtain ⟨value, other, ours, theirs, alike⟩ := eval_answers agree admitted.1 first
    have yes := eval_answers agree admitted.2.1 second
    have no := eval_answers agree admitted.2.2 third
    rw [eval, evalNode, ours, theirs]
    show Answers (if truthy value then _ else _) (if isTruthy other then _ else _)
    rw [alike.truthy]
    exact answers_ite (fun _ => yes) fun _ => no
  | .call f args, admitted, short => by
    simp only [ExprAst.Admitted] at admitted
    obtain ⟨⟨arity, builtin, admits⟩, inner⟩ := admitted
    rw [ExprAst.parts] at short
    obtain ⟨-, within⟩ := List.forall_mem_cons.mp short
    obtain ⟨xs, vs, ours, theirs, alike, length, small⟩ := evalArgs_answers agree inner within
    rw [eval, evalNode, ours, theirs]
    exact call_answers alike builtin (length ▸ admits) small
  | .binary op left right, admitted, short => by
    simp only [ExprAst.Admitted] at admitted
    rw [ExprAst.parts] at short
    obtain ⟨-, both⟩ := List.forall_mem_cons.mp short
    obtain ⟨first, second⟩ := List.forall_mem_append.mp both
    obtain ⟨value, other, ours, theirs, alike⟩ := eval_answers agree admitted.1 first
    obtain ⟨value', other', ours', theirs', alike'⟩ := eval_answers agree admitted.2 second
    rw [eval, evalNode, ours, theirs, ours', theirs']
    exact answers_some (evalBinary_alike op alike alike')

theorem evalArgs_answers (agree : BindingsAlike entries bindings) : ∀ {args : List ExprAst}, ExprAst.AdmittedArgs args →
    (∀ part ∈ ExprAst.partsArgs args, Short (Xript.evaluateAst bindings part)) →
    ∃ xs vs, evalArgs F64.toText F64.toFixed entries args = some xs ∧
      Xript.evalArgs bindings args = .ok vs ∧ List.Forall₂ Alike xs vs ∧
      vs.length = args.length ∧ ∀ v ∈ vs, Short v
  | [], _, _ => by
    rw [evalArgs, Xript.evalArgs]
    exact ⟨[], [], rfl, rfl, .nil, rfl, fun v none => absurd none List.not_mem_nil⟩
  | arg :: args, admitted, short => by
    simp only [ExprAst.AdmittedArgs] at admitted
    rw [ExprAst.partsArgs] at short
    obtain ⟨first, rest⟩ := List.forall_mem_append.mp short
    obtain ⟨value, other, ours, theirs, alike⟩ := eval_answers agree admitted.1 first
    obtain ⟨xs, vs, ours', theirs', others, length, small⟩ := evalArgs_answers agree admitted.2 rest
    rw [evalArgs, Xript.evalArgs, ours, theirs, ours', theirs']
    exact ⟨value :: xs, other :: vs, rfl, rfl, .cons alike others, congrArg (· + 1) length,
      List.forall_mem_cons.mpr ⟨short_of first arg.mem_parts theirs, small⟩⟩

end

end

end Rust

mutual

/-- A value whose strings are passed through `String::from_utf16_lossy`. -/
def Json.lossy : Json → Json
  | .str s => .str (utf16 (Rust.fromUtf16Lossy s))
  | .arr items => .arr (Json.lossyItems items)
  | .obj members => .obj (Json.lossyMembers members)
  | other => other

def Json.lossyItems : List Json → List Json
  | [] => []
  | item :: items => item.lossy :: Json.lossyItems items

def Json.lossyMembers : List (JSString × Json) → List (JSString × Json)
  | [] => []
  | (key, value) :: members => (utf16 (Rust.fromUtf16Lossy key), value.lossy) :: Json.lossyMembers members

end

namespace Rust

mutual

/-- A binding is the same JSON on both sides. -/
theorem scrub_shown : ∀ value : Value,
    (scrub value).toJson.mapNumbers spelledNumber = (exprOf value).lossy.mapNumbers spelledNumber
  | .null | .bool _ => rfl
  | .number n => by cases n <;> rfl
  | .string s => by
    show Json.str (utf16 s) = Json.str (utf16 (fromUtf16Lossy (utf16 s)))
    rw [fromUtf16Lossy_utf16]
  | .array items => congrArg Json.arr (scrubItems_shown items)
  | .object members => congrArg Json.obj (scrubMap_shown members)

theorem scrubItems_shown : ∀ items : List Value, Json.mapItems spelledNumber (Value.toItems (scrubItems items)) =
    Json.mapItems spelledNumber (Json.lossyItems (exprItems items))
  | [] => rfl
  | item :: items => by
    show _ :: _ = _ :: _
    rw [scrub_shown item, scrubItems_shown items]

theorem scrubMap_shown : ∀ members : List (List Char × Value),
    Json.mapMembers spelledNumber (Value.toMembers (scrubMap members)) =
      Json.mapMembers spelledNumber (Json.lossyMembers (exprMembers members))
  | [] => rfl
  | (key, value) :: members => by
    rw [scrubMap, exprMembers_cons]
    split
    · exact scrubMap_shown members
    · show (utf16 key, _) :: _ = (utf16 (fromUtf16Lossy (utf16 key)), _) :: _
      rw [scrub_shown value, scrubMap_shown members, fromUtf16Lossy_utf16]

end

theorem Alike.shown {value : X} {other : ExprValue} (alike : Alike value other) :
    value.intoJson.toJson.mapNumbers spelledNumber = other.lossy.mapNumbers spelledNumber := by
  cases alike with
  | num number =>
    cases number with
    | @finite a b same =>
      show Json.num (.finite (if a.mantissa = 0 then .zero false else a)) =
        Json.num (.finite (if b.mantissa = 0 then .zero false else b))
      rcases F64.eq_finite.mp (decide_eq_true same) with rfl | ⟨zero, zero'⟩
      · rfl
      · rw [if_pos zero, if_pos zero']
  | arr items => exact congrArg Json.arr (scrubItems_shown items)
  | obj members => exact congrArg Json.obj (scrubMap_shown members)
  | null | bool | str => rfl

end Rust

abbrev paddedEntries : List (List Char × Rust.Value) :=
  [("n".toList, .number (F64.ofNat 4)), ("xs".toList, .array [.string "é".toList])]

end Xript
