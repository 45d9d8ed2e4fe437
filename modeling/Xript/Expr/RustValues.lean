import Xript.Expr.RustText
import Xript.Repeat.Header

namespace Xript

namespace Rust

/-- What TypeScript makes of a binding of this value. -/
abbrev exprOf (value : Value) : ExprValue := toExprValue (hostValue value.toJson)

abbrev exprItems (items : List Value) : List ExprValue := toExprItems (hostItems (Value.toItems items))

abbrev exprMembers (members : List (List Char × Value)) : Record ExprValue :=
  toExprMembers (hostMembers (Value.toMembers members))

/-- Finite numbers that are equal; the signs of zeros may differ. -/
inductive SameNumber : F64 → F64 → Prop where
  | finite {a b : Binary64} (same : a.value = b.value) : SameNumber (.finite a) (.finite b)

/-- Results of arithmetic that are equal, or neither of them finite. -/
def SameResult (x y : F64) : Prop := SameNumber x y ∨ (x.isFinite = false ∧ y.isFinite = false)

/-- The Rust value and the TypeScript value of one expression. -/
inductive Alike : X → ExprValue → Prop where
  | null : Alike .null .null
  | bool (b : Bool) : Alike (.bool b) (.bool b)
  | num {x y : F64} (same : SameNumber x y) : Alike (.num x) (.num y)
  | str (s : JSString) : Alike (.str s) (.str s)
  | arr (items : List Value) : Alike (.arr (scrubItems items)) (.arr (exprItems items))
  | obj (members : List (List Char × Value)) : Alike (.obj (scrubMap members)) (.obj (exprMembers members))

theorem sameNumber_self {x : F64} (finite : x.isFinite = true) : SameNumber x x := by
  obtain ⟨b, rfl⟩ := F64.isFinite_iff.mp finite
  exact .finite rfl

namespace SameNumber

variable {x y : F64} (number : SameNumber x y)

include number

theorem isFinite : x.isFinite = true ∧ y.isFinite = true := by
  cases number
  exact ⟨rfl, rfl⟩

theorem result : SameResult x y := .inl number

theorem toText : F64.toText x = F64.toText y := by
  cases number with
  | finite same => exact F64.toText_eq_iff.mpr (decide_eq_true same)

theorem toFixed (digits : Nat) : F64.toFixed x digits = F64.toFixed y digits := by
  cases number with
  | @finite a b same =>
    rcases F64.eq_finite.mp (decide_eq_true same) with rfl | ⟨zero, zero'⟩
    · rfl
    · have none : ∀ c : Binary64, c.mantissa = 0 → c.magnitude = 0 := fun c zero => by
        rw [Binary64.magnitude, zero, Nat.cast_zero, zero_mul]
      have text := toText (.finite same)
      rw [F64.toFixed, F64.toFixed, none a zero, none b zero', text, same]

theorem isInteger : x.isInteger = y.isInteger := by
  cases number with
  | finite same => rw [F64.isInteger, F64.isInteger, same]

theorem toInteger : Xript.toInteger x = Xript.toInteger y := by
  cases number with
  | finite same => rw [Xript.toInteger, Xript.toInteger, same]

theorem lt {z w : F64} (other : SameNumber z w) : F64.lt x z = F64.lt y w := by
  cases number with
  | finite same =>
    cases other with
    | finite same' => rw [F64.lt, F64.lt, same, same']

theorem eq {z w : F64} (other : SameNumber z w) : F64.eq x z = F64.eq y w := by
  cases number with
  | finite same =>
    cases other with
    | finite same' => rw [F64.eq, F64.eq, same, same']

end SameNumber

theorem sameResult_round (first second : Bool) {p q : ℚ} (same : p = q) :
    SameResult (F64.round first p) (F64.round second q) := by
  subst same
  by_cases zero : p = 0
  · rw [F64.round, F64.round, if_pos zero, if_pos zero]
    exact .inl (.finite ((Binary64.value_eq_zero.2 rfl).trans (Binary64.value_eq_zero.2 rfl).symm))
  · rw [F64.round, F64.round, if_neg zero, if_neg zero]
    cases rounded : F64.roundMagnitude (p < 0) |p| with
    | nan => exact .inr ⟨rfl, rfl⟩
    | infinite negative => exact .inr ⟨rfl, rfl⟩
    | finite b => exact .inl (.finite rfl)

/-- Of two equal results, one that is finite tells that both are. -/
theorem SameResult.number {x y : F64} (result : SameResult x y) (finite : y.isFinite = true) : SameNumber x y := by
  rcases result with number | ⟨-, infinite⟩
  · exact number
  · rw [finite] at infinite
    cases infinite

theorem alike_ofNumber {x y : F64} (result : SameResult x y) : Alike (X.ofNumber x) (finite y) := by
  rw [X.ofNumber, finite]
  rcases result with number | ⟨first, second⟩
  · rw [if_pos number.isFinite.1, if_pos number.isFinite.2]
    exact .num number
  · rw [if_neg (by rw [first]; exact Bool.false_ne_true), if_neg (by rw [second]; exact Bool.false_ne_true)]
    exact .null

theorem alike_number {x y : F64} (number : SameNumber x y) : Alike (X.ofNumber x) (.num y) := by
  rw [X.ofNumber, if_pos number.isFinite.1]
  exact .num number

theorem alike_fromJson (value : Value) : Alike (X.fromJson value) (exprOf value) := by
  cases value with
  | null => exact .null
  | bool b => exact .bool b
  | number n =>
    show Alike (if n.isFinite then .num n else .null) (if n.isFinite then .num n else .null)
    split
    · rename_i finite
      exact .num (sameNumber_self finite)
    · exact .null
  | string s => exact .str (utf16 s)
  | array items => exact .arr items
  | object members => exact .obj members

/-- Both sides find a number in a value, or neither does. -/
theorem Alike.asNumber {value : X} {other : ExprValue} (alike : Alike value other) :
    (value.asNumber = none ∧ Xript.asNumber other = none) ∨
      ∃ x y, value.asNumber = some x ∧ Xript.asNumber other = some y ∧ SameNumber x y := by
  cases alike with
  | num number =>
    refine .inr ⟨_, _, ?_, ?_, number⟩
    · rw [X.asNumber, if_pos number.isFinite.1]
    · rw [Xript.asNumber, if_pos number.isFinite.2]
  | null | bool | str | arr | obj => exact .inl ⟨rfl, rfl⟩

theorem Alike.truthy {value : X} {other : ExprValue} (alike : Alike value other) :
    Rust.truthy value = isTruthy other := by
  cases alike with
  | num number =>
    have zero : SameNumber (.finite (.zero false)) (.finite (.zero false)) := .finite rfl
    cases number with
    | finite same =>
      rw [Rust.truthy, isTruthy, SameNumber.eq (.finite same) zero]
      rfl
  | str s => cases s <;> rfl
  | null | bool | arr | obj => rfl

theorem Alike.strictEqual {first second : X} {left right : ExprValue} (alike : Alike first left)
    (other : Alike second right) : Rust.strictEqual first second = Xript.strictEqual left right := by
  cases alike with
  | num number =>
    cases other with
    | num number' =>
      rw [Rust.strictEqual, X.asNumber, if_pos number.isFinite.1, X.asNumber, if_pos number'.isFinite.1,
        Xript.strictEqual]
      exact number.eq number'
    | null | bool | str | arr | obj => rfl
  | null | bool | arr | obj => cases other <;> rfl
  | str s =>
    cases other with
    | str t =>
      show (s == t) = decide (s = t)
      rw [Bool.eq_iff_iff, beq_iff_eq, decide_eq_true_eq]
    | null | bool | num | arr | obj => rfl

/-- The four orderings, read off how two values are ordered. -/
theorem compare_eq {first second : X} {order : Ordering} (found : orderOf first second = some order) {less greater : Prop}
    [Decidable less] [Decidable greater] (below : order = .lt ↔ less) (above : order = .gt ↔ greater) (op : BinaryOp) :
    Rust.compare op first second =
      match op with
      | .lt => decide less
      | .le => decide ¬greater
      | .gt => decide greater
      | .ge => decide ¬less
      | _ => false := by
  rw [Rust.compare, found]
  cases op <;> simp only [below, above, ne_eq]

theorem Alike.compare {first second : X} {left right : ExprValue} (op : BinaryOp) (alike : Alike first left)
    (other : Alike second right) : Rust.compare op first second = Xript.compare op left right := by
  cases alike with
  | num number =>
    cases other with
    | num number' =>
      cases number with
      | @finite a b same =>
        cases number' with
        | @finite c d same' =>
          have order : orderOf (.num (.finite a)) (.num (.finite c)) =
              some (if b.value < d.value then .lt else if b.value = d.value then .eq else .gt) := by
            simp only [orderOf, X.asNumber, F64.isFinite, if_true, F64.lt, F64.eq, decide_eq_true_eq, same, same']
          have le : ∀ x y : Binary64, decide ¬y.value < x.value = F64.le (.finite x) (.finite y) := by
            intro x y
            rw [Bool.eq_iff_iff, decide_eq_true_eq, not_lt, F64.le_finite]
          have below : (if b.value < d.value then Ordering.lt else if b.value = d.value then .eq else .gt) = .lt ↔
              b.value < d.value := by grind
          have above : (if b.value < d.value then Ordering.lt else if b.value = d.value then .eq else .gt) = .gt ↔
              d.value < b.value := by grind
          rw [compare_eq order below above]
          cases op <;> first | rfl | exact le _ _
    | null | bool | str | arr | obj => rfl
  | null | bool | arr | obj => cases other <;> rfl
  | str s =>
    cases other with
    | str t =>
      have order : orderOf (.str s) (.str t) = some (if s < t then .lt else if s = t then .eq else .gt) := rfl
      have below : (if s < t then Ordering.lt else if s = t then .eq else .gt) = .lt ↔ s < t := by grind
      have above : (if s < t then Ordering.lt else if s = t then .eq else .gt) = .gt ↔ t < s := by
        split_ifs with less same
        · simpa using less.not_gt
        · simp [same]
        · simpa using lt_of_le_of_ne (not_lt.mp less) (Ne.symm same)
      rw [compare_eq order below above]
      cases op <;> rfl
    | null | bool | num | arr | obj => rfl

mutual

/-- Stripping twice strips no more. -/
theorem scrub_again : ∀ value : Value, scrub (scrub value) = scrub value
  | .null | .bool _ | .number _ | .string _ => rfl
  | .array items => congrArg Value.array (scrubItems_again items)
  | .object members => congrArg Value.object (scrubMap_again members)

theorem scrubItems_again : ∀ items : List Value, scrubItems (scrubItems items) = scrubItems items
  | [] => rfl
  | item :: items => by rw [scrubItems, scrubItems, scrub_again item, scrubItems_again items]

theorem scrubMap_again : ∀ members : List (List Char × Value), scrubMap (scrubMap members) = scrubMap members
  | [] => rfl
  | (key, value) :: members => by
    rw [scrubMap]
    split
    · exact scrubMap_again members
    · rename_i kept
      rw [scrubMap, if_neg kept, scrub_again value, scrubMap_again members]

end

theorem fromJson_scrub (value : Value) : X.fromJson (scrub value) = X.fromJson value := by
  cases value with
  | array items => exact congrArg X.arr (scrubItems_again items)
  | object members => exact congrArg X.obj (scrubMap_again members)
  | null | bool | number | string => rfl

theorem scrubItems_map (items : List Value) : scrubItems items = items.map scrub := by
  induction items with
  | nil => rfl
  | cons item items ih => rw [scrubItems, ih, List.map_cons]

theorem exprItems_map (items : List Value) : exprItems items = items.map exprOf := by
  induction items with
  | nil => rfl
  | cons item items ih =>
    rw [List.map_cons, ← ih]
    rfl

/-- The keys that both sides drop are the same. -/
theorem droppedKeys_iff {key : List Char} : utf16 key ∈ forbiddenPropNames ↔ key ∈ droppedKeys := by
  have names : forbiddenPropNames = droppedKeys.map utf16 := rfl
  rw [names, List.mem_map]
  constructor
  · rintro ⟨other, member, same⟩
    rwa [← utf16_inj.mp same]
  · exact fun member => ⟨key, member, rfl⟩

theorem exprMembers_cons (key : List Char) (value : Value) (members : List (List Char × Value)) :
    exprMembers ((key, value) :: members) =
      if key ∈ droppedKeys then exprMembers members else (utf16 key, exprOf value) :: exprMembers members := by
  show (if utf16 key ∈ forbiddenPropNames then _ else _) = _
  simp only [droppedKeys_iff]

/-- What is left of an object on both sides. -/
theorem exprMembers_map (members : List (List Char × Value)) :
    ∃ kept : List (List Char × Value), scrubMap members = kept.map (fun m => (m.1, scrub m.2)) ∧
      exprMembers members = kept.map fun m => (utf16 m.1, exprOf m.2) := by
  induction members with
  | nil => exact ⟨[], rfl, rfl⟩
  | cons member members ih =>
    obtain ⟨key, value⟩ := member
    obtain ⟨kept, scrubbed, read⟩ := ih
    rw [scrubMap, exprMembers_cons, scrubbed, read]
    split
    · exact ⟨kept, rfl, rfl⟩
    · exact ⟨(key, value) :: kept, rfl, rfl⟩

/-- Looking up a member by its units. -/
theorem get_units {β γ : Type} (f : β → γ) (members : List (List Char × β)) (key : JSString) :
    Record.get (members.map fun m => (utf16 m.1, f m.2)) key = (keyString key).bind fun k => (members.lookup k).map f := by
  have injective : Function.Injective utf16 := fun _ _ => utf16_inj.mp
  cases spelled : keyString key with
  | none =>
    refine List.lookup_eq_none_iff.mpr fun entry inside => ?_
    obtain ⟨member, -, rfl⟩ := List.mem_map.mp inside
    rw [bne_iff_ne]
    rintro rfl
    rw [keyString_eq.mpr rfl] at spelled
    cases spelled
  | some k =>
    obtain rfl := keyString_eq.mp spelled
    exact lookup_renamed injective f members k

/-- The members of one name, on both sides. -/
theorem lookup_alike (members : List (List Char × Value)) (key : JSString) :
    ((keyString key).bind fun k => (scrubMap members).lookup k) = none ∧ Record.get (exprMembers members) key = none ∨
      ∃ value, ((keyString key).bind fun k => (scrubMap members).lookup k) = some (scrub value) ∧
        Record.get (exprMembers members) key = some (exprOf value) := by
  obtain ⟨kept, scrubbed, read⟩ := exprMembers_map members
  rw [read, get_units, scrubbed]
  cases keyString key with
  | none => exact .inl ⟨rfl, rfl⟩
  | some k =>
    have same : Function.Injective (id : List Char → List Char) := Function.injective_id
    have ours := lookup_renamed same scrub kept k
    simp only [id] at ours
    rw [Option.bind_some, Option.bind_some, ours]
    cases kept.lookup k with
    | none => exact .inl ⟨rfl, rfl⟩
    | some value => exact .inr ⟨value, rfl, rfl⟩

theorem member_alike (members : List (List Char × Value)) (key : JSString) :
    Alike (Rust.member (scrubMap members) key) ((Record.get (exprMembers members) key).getD .null) := by
  rw [Rust.member]
  rcases lookup_alike members key with ⟨ours, theirs⟩ | ⟨value, ours, theirs⟩
  · rw [ours, theirs]
    exact .null
  · rw [ours, theirs, Option.elim_some, fromJson_scrub]
    exact alike_fromJson value

mutual

theorem render_scrub : ∀ value : Value, renderJson F64.toText (scrub value) = renderValue (exprOf value)
  | .null | .bool _ | .string _ => rfl
  | .number n => by
    show (if n.isFinite then n.toText else []) = renderValue (if n.isFinite then .num n else .null)
    split
    · rename_i finite
      exact (if_pos finite).symm
    · rfl
  | .array items => congrArg ([44].intercalate ·) (renderItems_scrub items)
  | .object _ => rfl

theorem renderItems_scrub : ∀ items : List Value,
    Rust.renderItems F64.toText (scrubItems items) = Xript.renderItems (exprItems items)
  | [] => rfl
  | item :: items => by
    rw [scrubItems, Rust.renderItems, render_scrub item, renderItems_scrub items]
    rfl

end

theorem Alike.render {value : X} {other : ExprValue} (alike : Alike value other) :
    renderUnits F64.toText value = renderValue other := by
  cases alike with
  | num number =>
    rw [renderUnits, if_pos number.isFinite.1, number.toText, renderValue, if_pos number.isFinite.2]
  | arr items => rw [renderUnits, renderItems_scrub, renderValue]
  | null | bool | str | obj => rfl

theorem Alike.isPrimitive {value : X} {other : ExprValue} (alike : Alike value other) :
    value.isPrimitive = Xript.isPrimitive other := by
  cases alike <;> rfl

theorem Alike.isString {value : X} {other : ExprValue} (alike : Alike value other) :
    value.isString = Xript.isString other := by
  cases alike <;> rfl

theorem evalUnary_alike (op : UnaryOp) {value : X} {other : ExprValue} (alike : Alike value other) :
    Alike (Rust.evalUnary op value) (Xript.evalUnary op other) := by
  cases op with
  | not =>
    rw [Rust.evalUnary, Xript.evalUnary, alike.truthy]
    exact .bool _
  | neg =>
    rw [Rust.evalUnary, Xript.evalUnary]
    rcases alike.asNumber with ⟨ours, theirs⟩ | ⟨x, y, ours, theirs, number⟩
    · rw [ours, theirs]
      exact .null
    · rw [ours, theirs]
      cases number with
      | finite same => exact alike_number (.finite (by rw [F64.value_neg, F64.value_neg, same]))
  | pos =>
    rw [Rust.evalUnary, Xript.evalUnary]
    rcases alike.asNumber with ⟨ours, theirs⟩ | ⟨x, y, ours, theirs, number⟩
    · rw [ours, theirs]
      exact .null
    · rw [ours, theirs]
      exact alike_number number

section

variable {x y z w : F64} (number : SameNumber x y) (other : SameNumber z w)

include number other

theorem sameResult_add : SameResult (F64.add x z) (F64.add y w) := by
  cases number with
  | finite same =>
    cases other with
    | finite same' => exact sameResult_round _ _ (by rw [same, same'])

theorem sameResult_sub : SameResult (F64.sub x z) (F64.sub y w) := by
  cases number with
  | finite same =>
    cases other with
    | finite same' => exact sameResult_round _ _ (by rw [F64.value_neg, F64.value_neg, same, same'])

theorem sameResult_mul : SameResult (F64.mul x z) (F64.mul y w) := by
  cases number with
  | finite same =>
    cases other with
    | finite same' => exact sameResult_round _ _ (by rw [same, same'])

/-- A divisor that is not zero divides alike. -/
theorem sameResult_div (nonzero : ¬F64.eq z (.finite (.zero false)) = true) :
    SameResult (F64.div x z) (F64.div y w) ∧ SameResult (F64.rem x z) (F64.rem y w) := by
  cases number with
  | finite same =>
    cases other with
    | @finite c d same' =>
      have first : ¬c.mantissa = 0 := fun zero => nonzero (F64.eq_finite.mpr (.inr ⟨zero, rfl⟩))
      have second : ¬d.mantissa = 0 := fun zero =>
        first (Binary64.value_eq_zero.mp (same'.trans (Binary64.value_eq_zero.mpr zero)))
      rw [F64.div, if_neg first, F64.div, if_neg second, F64.rem, if_neg first, F64.rem, if_neg second]
      exact ⟨sameResult_round _ _ (by rw [same, same']), sameResult_round _ _ (by rw [same, same'])⟩

end

theorem evalArithmetic_alike (op : BinaryOp) {first second : X} {left right : ExprValue} (alike : Alike first left)
    (other : Alike second right) : Alike (Rust.evalArithmetic op first second) (Xript.evalArithmetic op left right) := by
  rw [Rust.evalArithmetic, Xript.evalArithmetic]
  rcases alike.asNumber with ⟨ours, theirs⟩ | ⟨x, y, ours, theirs, number⟩
  · rw [ours, theirs]
    exact .null
  · rcases other.asNumber with ⟨ours', theirs'⟩ | ⟨z, w, ours', theirs', number'⟩
    · rw [ours, theirs, ours', theirs']
      exact .null
    · rw [ours, theirs, ours', theirs']
      have zero := number'.eq (.finite (a := .zero false) rfl)
      cases op with
      | add => exact alike_ofNumber (sameResult_add number number')
      | sub => exact alike_ofNumber (sameResult_sub number number')
      | mul => exact alike_ofNumber (sameResult_mul number number')
      | div =>
        show Alike (if _ then _ else _) (if _ then _ else _)
        rw [← zero]
        split
        · exact .null
        · rename_i nonzero
          exact alike_ofNumber (sameResult_div number number' nonzero).1
      | rem =>
        show Alike (if _ then _ else _) (if _ then _ else _)
        rw [← zero]
        split
        · exact .null
        · rename_i nonzero
          exact alike_ofNumber (sameResult_div number number' nonzero).2
      | eq | ne | lt | le | gt | ge => exact .null

theorem evalBinary_alike (op : BinaryOp) {first second : X} {left right : ExprValue} (alike : Alike first left)
    (other : Alike second right) :
    Alike (Rust.evalBinary F64.toText op first second) (Xript.evalBinary op left right) := by
  cases op with
  | eq =>
    rw [Rust.evalBinary, Xript.evalBinary, alike.strictEqual other]
    exact .bool _
  | ne =>
    rw [Rust.evalBinary, Xript.evalBinary, alike.strictEqual other]
    exact .bool _
  | lt | le | gt | ge =>
    rw [Rust.evalBinary, Xript.evalBinary, alike.compare _ other]
    exact .bool _
  | add =>
    rw [Rust.evalBinary, Xript.evalBinary, alike.isString, other.isString, alike.isPrimitive, other.isPrimitive,
      alike.render, other.render]
    split
    · cases Xript.isPrimitive left <;> cases Xript.isPrimitive right <;> first | exact .null | exact .str _
    · exact evalArithmetic_alike .add alike other
  | sub => exact evalArithmetic_alike .sub alike other
  | mul => exact evalArithmetic_alike .mul alike other
  | div => exact evalArithmetic_alike .div alike other
  | rem => exact evalArithmetic_alike .rem alike other

/-- The length of a string, an array or an object is a safe integer. -/
def Short : ExprValue → Prop
  | .str s => s.length < 2 ^ 53
  | .arr items => items.length < 2 ^ 53
  | .obj members => members.length < 2 ^ 53
  | _ => True

instance : DecidablePred Short
  | .str s => inferInstanceAs (Decidable (s.length < 2 ^ 53))
  | .arr items => inferInstanceAs (Decidable (items.length < 2 ^ 53))
  | .obj members => inferInstanceAs (Decidable (members.length < 2 ^ 53))
  | .null | .bool _ | .num _ => inferInstanceAs (Decidable True)

theorem itemAt_map {α β : Type} (f : α → β) (items : List α) (index : F64) :
    itemAt (items.map f) index = (itemAt items index).map f := by
  rw [itemAt, itemAt]
  split
  · rw [List.getElem?_map]
  · rfl

theorem itemAt_same {α : Type} (items : List α) {x y : F64} (result : SameResult x y) :
    itemAt items x = itemAt items y := by
  rcases result with number | ⟨first, second⟩
  · rw [itemAt, itemAt, number.isInteger, number.toInteger]
  · have whole : ∀ z : F64, z.isFinite = false → itemAt items z = none := by
      intro z infinite
      cases z with
      | finite b => cases infinite
      | nan | infinite n => exact if_neg fun both => Bool.false_ne_true both.1
    rw [whole x first, whole y second]

/-- The items at one index, on both sides. -/
theorem itemAt_alike (items : List Value) {x y : F64} (result : SameResult x y) :
    Alike ((itemAt (scrubItems items) x).elim .null X.fromJson) ((itemAt (exprItems items) y).getD .null) := by
  rw [scrubItems_map, exprItems_map, itemAt_map, itemAt_map, itemAt_same items result]
  cases itemAt items y with
  | none => exact .null
  | some value =>
    show Alike (X.fromJson (scrub value)) (exprOf value)
    rw [fromJson_scrub]
    exact alike_fromJson value

theorem element_alike {items : List Value} (short : Short (.arr (exprItems items))) {x y : F64} (result : SameResult x y) :
    Alike (element (scrubItems items) x) ((itemAt (exprItems items) y).getD .null) := by
  have length : (scrubItems items).length < 2 ^ 53 := by
    rw [Short, exprItems_map, List.length_map] at short
    rwa [scrubItems_map, List.length_map]
  rw [element_eq length]
  exact itemAt_alike items result

theorem fromEnd_same {n : Nat} (short : n < 2 ^ 53) {x y : F64} (number : SameNumber x y) :
    SameResult (if F64.lt x (.finite (.zero false)) then F64.add (F64.ofNat n) x else x) (fromEnd n y) := by
  obtain ⟨l, length, -⟩ := F64.ofNat_exact short
  have zero : SameNumber (.finite (.zero false)) (.finite (.zero false)) := .finite rfl
  rw [fromEnd, lengthNumber_short short, ← number.lt zero]
  split
  · rw [length]
    exact sameResult_add (.finite rfl) number
  · exact number.result

theorem unitAt_alike {text : JSString} (short : text.length < 2 ^ 53) {x y : F64} (number : SameNumber x y)
    (whole : x.isInteger = true) : Alike (Rust.unitAt text (toI64 x)) (Xript.unitAt text y) := by
  obtain ⟨b, k, rfl, value⟩ := F64.isInteger_iff.mp whole
  have ours := fromEnd_same short (sameNumber_self (x := .finite b) rfl)
  have theirs := fromEnd_same short number
  rw [unitAt_eq short value, Xript.unitAt, ← itemAt_same text ours, itemAt_same text theirs]
  cases itemAt text (fromEnd text.length y) with
  | none => exact .null
  | some unit => exact .str _

theorem ofNat_alike {n : Nat} (short : n < 2 ^ 53) : Alike (X.ofNumber (F64.ofNat n)) (.num (lengthNumber n)) := by
  obtain ⟨l, length, -⟩ := F64.ofNat_exact short
  rw [lengthNumber_short short, length]
  exact alike_number (.finite rfl)

theorem exprItems_length (items : List Value) : (exprItems items).length = (scrubItems items).length := by
  rw [exprItems_map, scrubItems_map, List.length_map, List.length_map]

theorem exprMembers_length (members : List (List Char × Value)) :
    (exprMembers members).length = (scrubMap members).length := by
  obtain ⟨kept, scrubbed, read⟩ := exprMembers_map members
  rw [scrubbed, read, List.length_map, List.length_map]

/-- A member by its name. -/
theorem readName_alike {target : X} {other : ExprValue} (alike : Alike target other) (short : Short other)
    (name : JSString) : Alike (Rust.readName target name) (readMember other (.name name)) := by
  cases alike with
  | null | bool | num => exact .null
  | str s =>
    rw [Rust.readName, readMember]
    split
    · exact ofNat_alike short
    · exact .null
  | arr items =>
    rw [Rust.readName, readMember]
    split
    · rw [← exprItems_length]
      exact ofNat_alike short
    · rw [jsNumber_lossy]
      have same : SameResult (F64.ofText name) (F64.ofText name) := by
        cases finite : (F64.ofText name).isFinite with
        | true => exact (sameNumber_self finite).result
        | false => exact .inr ⟨finite, finite⟩
      exact element_alike short same
  | obj members => exact member_alike members name

theorem readIndex_alike {target key : X} {other index : ExprValue} (alike : Alike target other) (short : Short other)
    (read : Alike key index) : Alike (evalIndex F64.toText target key) (Xript.readIndex other index) := by
  cases read with
  | null | bool | arr | obj => exact .null
  | str name => exact readName_alike alike short name
  | num number =>
    rw [evalIndex, X.asNumber, if_pos number.isFinite.1, Option.elim_some, Xript.readIndex]
    cases alike with
    | null | bool | num => exact .null
    | str s =>
      rw [Rust.readIndex, readMember, isWhole_eq, ← number.isInteger]
      split
      · rename_i whole
        exact unitAt_alike short number whole
      · exact .null
    | arr items =>
      rw [Rust.readIndex, readMember, ← exprItems_length]
      exact element_alike short (fromEnd_same short number)
    | obj members =>
      rw [Rust.readIndex, readMember, number.toText]
      exact member_alike members _

end Rust

end Xript
