import Xript.Json.Parse

namespace Xript

namespace Record

variable {β : Type}

/-- The members of an object as JavaScript enumerates them: array indices first in ascending order, and
no key twice. -/
structure Ordered (r : Record β) : Prop where
  distinct : (keys r).Nodup
  order : r.Pairwise fun a b => enumeratedBefore b.1 a.1 = false

theorem insertNew_after {r : Record β} {key : JSString} (value : β)
    (after : ∀ entry ∈ r, enumeratedBefore key entry.1 = false) :
    insertNew key value r = r ++ [(key, value)] := by
  induction r with
  | nil => rfl
  | cons entry r ih =>
    rw [insertNew, after entry (List.mem_cons_self ..), if_neg (by decide),
      ih fun other member => after other (List.mem_cons_of_mem _ member)]
    rfl

/-- Defining the next member of an object in order puts it last. -/
theorem Ordered.set_last {r rest : Record β} {entry : JSString × β} (ordered : Ordered (r ++ entry :: rest)) :
    set r entry.1 entry.2 = r ++ [entry] := by
  have distinct := ordered.distinct
  rw [keys, List.map_append, List.map_cons] at distinct
  have absent : entry.1 ∉ keys r := fun member =>
    List.disjoint_of_nodup_append distinct member (List.mem_cons_self ..)
  rw [set, if_neg absent]
  refine insertNew_after entry.2 fun other member => ?_
  exact (List.pairwise_append.mp ordered.order).2.2 other member entry (List.mem_cons_self ..)

/-- Where a key stands in enumeration: the names are all behind the array indices. -/
def rank (key : JSString) : Nat := (arrayIndex key).getD 4294967295

theorem enumeratedBefore_iff {key other : JSString} : enumeratedBefore key other = true ↔ rank key < rank other := by
  have bounded : ∀ {k : JSString} {i : Nat}, arrayIndex k = some i → i < 4294967295 := by
    intro k i found
    unfold arrayIndex at found
    split at found
    · rename_i spells
      obtain rfl := Option.some.inj found
      exact spells.2.2.2
    · cases found
  unfold enumeratedBefore rank
  cases first : arrayIndex key with
  | none =>
    cases second : arrayIndex other with
    | none => simp
    | some j =>
      have := bounded second
      simp only [Option.getD_none, Option.getD_some, Bool.false_eq_true, false_iff]
      omega
  | some i =>
    have := bounded first
    cases second : arrayIndex other with
    | none => simpa using this
    | some j => simp

theorem insertNew_order {r : Record β} (order : r.Pairwise fun a b => enumeratedBefore b.1 a.1 = false)
    (key : JSString) (value : β) :
    (insertNew key value r).Pairwise fun a b => enumeratedBefore b.1 a.1 = false := by
  induction r with
  | nil => exact List.pairwise_singleton _ _
  | cons entry r ih =>
    obtain ⟨first, rest⟩ := List.pairwise_cons.mp order
    unfold insertNew
    split
    · rename_i earlier
      refine List.pairwise_cons.mpr ⟨fun other member => ?_, order⟩
      have below := enumeratedBefore_iff.1 earlier
      rw [← Bool.not_eq_true, enumeratedBefore_iff]
      show ¬rank other.1 < rank key
      rcases List.mem_cons.mp member with rfl | later
      · omega
      · have := first other later
        rw [← Bool.not_eq_true, enumeratedBefore_iff] at this
        omega
    · rename_i later
      refine List.pairwise_cons.mpr ⟨fun other member => ?_, ih rest⟩
      rcases mem_insertNew.1 member with rfl | old
      · exact Bool.not_eq_true _ ▸ later
      · exact first other old

/-- Defining a property keeps an object in its order. -/
theorem Ordered.set {r : Record β} (ordered : Ordered r) (key : JSString) (value : β) : Ordered (r.set key value) := by
  refine ⟨nodup_keys_set ordered.distinct key value, ?_⟩
  unfold Record.set
  split
  · refine List.pairwise_map.mpr (ordered.order.imp fun {a b} before => ?_)
    have named : ∀ entry : JSString × β, (if entry.1 = key then (key, value) else entry).1 = entry.1 := by
      intro entry
      split
      · rename_i same
        exact same.symm
      · rfl
    rw [named, named]
    exact before
  · exact insertNew_order ordered.order key value

/-- Defining the members of an object one after another gives the object. -/
theorem Ordered.rebuilt {r rest : Record β} (ordered : Ordered (r ++ rest)) :
    rest.foldl (fun made entry => Record.set made entry.1 entry.2) r = r ++ rest := by
  induction rest generalizing r with
  | nil => exact (List.append_nil r).symm
  | cons entry rest ih =>
    rw [List.foldl_cons, ordered.set_last, ih (by rwa [List.append_assoc])]
    simp

/-- The order of the members is a matter of their keys. -/
theorem Ordered.of_keys {γ : Type} {r : Record β} {s : Record γ} (ordered : Ordered r)
    (same : s.map Prod.fst = r.map Prod.fst) : Ordered s := by
  constructor
  · have distinct := ordered.distinct
    rw [keys] at distinct ⊢
    rwa [same]
  · have order : (r.map Prod.fst).Pairwise fun a b => enumeratedBefore b a = false :=
      List.pairwise_map.mpr ordered.order
    rw [← same] at order
    exact List.pairwise_map.mp order

end Record

mutual

/-- The values JSON text can hold: finite numbers other than `-0`, and objects as they are enumerated. -/
def Json.Spellable : Json → Prop
  | .num x => ∃ b : Binary64, x = .finite b ∧ (b.mantissa = 0 → b.negative = false)
  | .arr items => Json.SpellableItems items
  | .obj members => Record.Ordered members ∧ Json.SpellableMembers members
  | .null | .bool _ | .str _ => True

def Json.SpellableItems : List Json → Prop
  | [] => True
  | item :: items => item.Spellable ∧ Json.SpellableItems items

def Json.SpellableMembers : List (JSString × Json) → Prop
  | [] => True
  | member :: members => member.2.Spellable ∧ Json.SpellableMembers members

end

mutual

/-- What the text of a value reads back as: a number that is not finite as `null`, `-0` as `0`, and an object with its
members defined one after another. -/
def Json.reread : Json → Json
  | .null => .null
  | .bool b => .bool b
  | .num (.finite x) => .num (.finite (if x.mantissa = 0 then .zero false else x))
  | .num .nan => .null
  | .num (.infinite _) => .null
  | .str s => .str s
  | .arr items => .arr (Json.rereadItems items)
  | .obj members => .obj (Json.rereadMembers [] members)

def Json.rereadItems : List Json → List Json
  | [] => []
  | item :: items => item.reread :: Json.rereadItems items

def Json.rereadMembers (defined : Record Json) : List (JSString × Json) → Record Json
  | [] => defined
  | (key, value) :: members => Json.rereadMembers (Record.set defined key value.reread) members

end

theorem hexValue_hexDigit : ∀ n, n < 16 → hexValue (hexDigit n) = n ∧ isHexDigit (hexDigit n) = true := by
  decide

theorem parseStringBody_escape {a b c d : Nat} (s : JSString)
    (digits : (isHexDigit a && isHexDigit b && isHexDigit c && isHexDigit d) = true) :
    parseStringBody (92 :: 117 :: a :: b :: c :: d :: s) = (parseStringBody s).map fun parsed =>
      ((((hexValue a * 16 + hexValue b) * 16 + hexValue c) * 16 + hexValue d) :: parsed.1, parsed.2) := by
  rw [parseStringBody, if_pos digits]

/-- A `\u` escape reads back as its unit. -/
theorem parseStringBody_unicodeEscape {u : Nat} (small : u < 65536) (s : JSString) :
    parseStringBody (unicodeEscape u ++ s) =
      (parseStringBody s).map fun parsed => (u :: parsed.1, parsed.2) := by
  obtain ⟨first, firstHex⟩ := hexValue_hexDigit (u / 4096 % 16) (by omega)
  obtain ⟨second, secondHex⟩ := hexValue_hexDigit (u / 256 % 16) (by omega)
  obtain ⟨third, thirdHex⟩ := hexValue_hexDigit (u / 16 % 16) (by omega)
  obtain ⟨fourth, fourthHex⟩ := hexValue_hexDigit (u % 16) (by omega)
  have units : ((u / 4096 % 16 * 16 + u / 256 % 16) * 16 + u / 16 % 16) * 16 + u % 16 = u := by omega
  have escaped := parseStringBody_escape (a := hexDigit (u / 4096 % 16)) (b := hexDigit (u / 256 % 16))
    (c := hexDigit (u / 16 % 16)) (d := hexDigit (u % 16)) s (by rw [firstHex, secondHex, thirdHex, fourthHex]; rfl)
  rw [first, second, third, fourth, units] at escaped
  exact escaped

theorem parseStringBody_unit {u : Nat} (s : JSString) (printable : 32 ≤ u) (notQuote : u ≠ 34) (notSlash : u ≠ 92) :
    parseStringBody (u :: s) = (parseStringBody s).map fun parsed => (u :: parsed.1, parsed.2) := by
  conv_lhs => unfold parseStringBody
  split
  · simp_all
  · simp_all
  · simp_all
  · simp_all
  · rename_i same
    obtain ⟨rfl, rfl⟩ := List.cons.inj same
    rw [if_neg (by omega)]

theorem parseStringBody_simple {u unit : Nat} (named : simpleEscape u = some unit) (s : JSString) :
    parseStringBody (92 :: u :: s) = (parseStringBody s).map fun parsed => (unit :: parsed.1, parsed.2) := by
  have letter : u ≠ 117 := by
    rintro rfl
    cases named
  rw [parseStringBody]
  · simp only [named]
  · rintro a b c d t rfl
    exact absurd rfl letter

theorem parseStringBody_escaped {escape s body rest : JSString} {u unit : Nat} (spelled : escape = [92, u])
    (named : simpleEscape u = some unit) (parsed : parseStringBody (body ++ 34 :: rest) = some (s, rest)) :
    parseStringBody (escape ++ body ++ 34 :: rest) = some (unit :: s, rest) := by
  have step := parseStringBody_simple named (body ++ 34 :: rest)
  rw [parsed] at step
  rw [spelled, List.append_assoc]
  exact step

/-- A string literal reads back as its units. -/
theorem parseStringBody_jsonUnits (s rest : JSString) :
    parseStringBody (jsonUnits s ++ 34 :: rest) = some (s, rest) := by
  fun_induction jsonUnits s with
  | case1 => rfl
  | case2 s ih => exact parseStringBody_escaped (u := 34) rfl rfl ih
  | case3 s _ ih => exact parseStringBody_escaped (u := 92) rfl rfl ih
  | case4 s _ _ ih => exact parseStringBody_escaped (u := 98) rfl rfl ih
  | case5 s _ _ _ ih => exact parseStringBody_escaped (u := 102) rfl rfl ih
  | case6 s _ _ _ _ ih => exact parseStringBody_escaped (u := 110) rfl rfl ih
  | case7 s _ _ _ _ _ ih => exact parseStringBody_escaped (u := 114) rfl rfl ih
  | case8 s _ _ _ _ _ _ ih => exact parseStringBody_escaped (u := 116) rfl rfl ih
  | case9 u s _ _ _ _ _ _ _ control ih =>
    rw [List.append_assoc, parseStringBody_unicodeEscape (by omega), ih]
    rfl
  | case10 u _ _ _ _ _ _ _ _ high v t low ih =>
    rw [List.cons_append, List.cons_append, parseStringBody_unit _ (by omega) (by omega) (by omega),
      parseStringBody_unit _ (by omega) (by omega) (by omega), ih]
    rfl
  | case11 u _ _ _ _ _ _ _ _ high v t low ih =>
    rw [List.append_assoc, parseStringBody_unicodeEscape (by omega), ih]
    rfl
  | case12 u _ _ _ _ _ _ _ _ high =>
    rw [parseStringBody_unicodeEscape (by omega)]
    rfl
  | case13 u s _ _ _ _ _ _ _ _ _ low ih =>
    rw [List.append_assoc, parseStringBody_unicodeEscape (by omega), ih]
    rfl
  | case14 u s _ _ _ _ _ _ _ _ _ _ ih =>
    rw [List.cons_append, parseStringBody_unit _ (by omega) (by omega) (by omega), ih]
    rfl

/-- A whole part the number grammar of JSON admits. -/
def WholePart (whole : JSString) : Prop := whole = [48] ∨ (whole ≠ [] ∧ whole.head? ≠ some 48)

theorem isJsonNumber_unsigned (c : Nat) (t : JSString) (digit : isDigit c = true) :
    isJsonNumber (45 :: c :: t) = isJsonNumber (c :: t) := by
  have bounds : 48 ≤ c ∧ c ≤ 57 := by simpa [isDigit] using digit
  obtain ⟨low, high⟩ := bounds
  interval_cases c <;> rfl

theorem takeDecimal_unsigned {s : JSString} {c : Nat} {t : JSString} (shape : s = c :: t) (digit : isDigit c = true) :
    isJsonNumber s = ((decide ((takeDecimal s).1 = [48]) ||
        (decide ((takeDecimal s).1 ≠ []) && decide ((takeDecimal s).1.head? ≠ some 48))) &&
      match (takeDecimal s).2 with
      | 46 :: t => decide ((takeDecimal t).1 ≠ []) && (readExponent (takeDecimal t).2).isSome
      | t => (readExponent t).isSome) := by
  have bounds : 48 ≤ c ∧ c ≤ 57 := by simpa [isDigit] using digit
  obtain ⟨low, high⟩ := bounds
  subst shape
  interval_cases c <;> rfl

theorem wholePart_bool {whole : JSString} (part : WholePart whole) :
    (decide (whole = [48]) || (decide (whole ≠ []) && decide (whole.head? ≠ some 48))) = true := by
  rcases part with zero | ⟨present, head⟩
  · simp [zero]
  · simp [present, head]

theorem isJsonNumber_point {whole fraction tail : JSString} (wholeDigits : whole.all isDigit = true)
    (part : WholePart whole) (fractionDigits : fraction.all isDigit = true) (present : fraction ≠ [])
    (stop : ∀ c ∈ tail.head?, isDigit c = false) (exponent : (readExponent tail).isSome = true) :
    isJsonNumber (whole ++ 46 :: (fraction ++ tail)) = true := by
  obtain ⟨c, t, shape⟩ : ∃ c t, whole = c :: t := by
    rcases part with zero | ⟨some, _⟩
    · exact ⟨48, [], zero⟩
    · exact List.exists_cons_of_ne_nil some
  have digit : isDigit c = true := by
    rw [shape, List.all_cons, Bool.and_eq_true] at wholeDigits
    exact wholeDigits.1
  have first := @takeDecimal_append _ (46 :: (fraction ++ tail)) wholeDigits (by rintro c ⟨⟩; rfl)
  have second := takeDecimal_append fractionDigits stop
  rw [takeDecimal_unsigned (by rw [shape]; rfl) digit, first, wholePart_bool part, Bool.true_and]
  simp only [second, exponent, present, ne_eq, not_false_eq_true, decide_true, Bool.and_true]

theorem isJsonNumber_whole {whole tail : JSString} (wholeDigits : whole.all isDigit = true)
    (part : WholePart whole) (stop : ∀ c ∈ tail.head?, isDigit c = false ∧ c ≠ 46)
    (exponent : (readExponent tail).isSome = true) : isJsonNumber (whole ++ tail) = true := by
  obtain ⟨c, t, shape⟩ : ∃ c t, whole = c :: t := by
    rcases part with zero | ⟨some, _⟩
    · exact ⟨48, [], zero⟩
    · exact List.exists_cons_of_ne_nil some
  have digit : isDigit c = true := by
    rw [shape, List.all_cons, Bool.and_eq_true] at wholeDigits
    exact wholeDigits.1
  have first := takeDecimal_append wholeDigits fun c member => (stop c member).1
  rw [takeDecimal_unsigned (by rw [shape]; rfl) digit, first, wholePart_bool part, Bool.true_and]
  split
  · rename_i same
    simp only at same
    subst same
    exact absurd rfl (stop 46 rfl).2
  · exact exponent

/-- Every layout is a number literal of JSON. -/
theorem isJsonNumber_layout {digits : JSString} (point : Int) (all : digits.all isDigit = true)
    (present : digits ≠ []) (leading : digits.head? ≠ some 48) :
    isJsonNumber (layoutDigits digits point) = true := by
  have subset : ∀ part : JSString, (∀ c ∈ part, c ∈ digits) → part.all isDigit = true := fun part sub =>
    List.all_eq_true.mpr fun c member => List.all_eq_true.mp all c (sub c member)
  have taken := fun k => subset (digits.take k) fun c => List.mem_of_mem_take
  have dropped := fun k => subset (digits.drop k) fun c => List.mem_of_mem_drop
  have length := List.length_pos_of_ne_nil present
  have headed : ∀ k, 0 < k → WholePart (digits.take k) := by
    intro k positive
    refine Or.inr ⟨by rw [ne_eq, List.take_eq_nil_iff]; push Not; exact ⟨by omega, present⟩, ?_⟩
    rw [List.head?_take, if_neg (by omega)]
    exact leading
  simp only [layoutDigits]
  split
  · have zeros := zeros_digits (point - digits.length).toNat
    have whole := @isJsonNumber_whole (digits ++ List.replicate (point - digits.length).toNat 48) [] (by rw [List.all_append, all, zeros]; rfl)
      (Or.inr ⟨by simp [present], by rw [List.head?_append_of_ne_nil _ present]; exact leading⟩) (by simp) rfl
    rwa [List.append_nil] at whole
  split
  · rename_i _ inside
    have pointed := @isJsonNumber_point _ _ [] (taken point.toNat) (headed _ (by omega)) (dropped point.toNat)
      (by rw [ne_eq, List.drop_eq_nil_iff]; omega) (by simp) rfl
    rwa [List.append_nil] at pointed
  split
  · have zeros := zeros_digits (-point).toNat
    have pointed := @isJsonNumber_point _ (List.replicate (-point).toNat 48 ++ digits) [] rfl (Or.inl rfl)
      (by rw [List.all_append, all, zeros]; rfl) (by simp [present]) (by simp) rfl
    rw [List.append_nil] at pointed
    have shape : js "0." ++ List.replicate (-point).toNat 48 ++ digits =
        [48] ++ 46 :: (List.replicate (-point).toNat 48 ++ digits) := by
      rw [show js "0." = [48, 46] from rfl, List.append_assoc]
      rfl
    rw [shape]
    exact pointed
  · have exponent : (readExponent (101 :: (if point - 1 < 0 then 45 else 43) ::
        decimal (point - 1).natAbs)).isSome = true := by
      rw [readExponent_layout]
      rfl
    have stop : ∀ c ∈ (101 :: (if point - 1 < 0 then 45 else 43) :: decimal (point - 1).natAbs : JSString).head?,
        isDigit c = false ∧ c ≠ 46 := by
      rintro c ⟨⟩
      exact ⟨rfl, by decide⟩
    split
    · exact isJsonNumber_whole all (Or.inr ⟨present, leading⟩) stop exponent
    · rename_i several
      rw [List.append_assoc, List.cons_append]
      exact isJsonNumber_point (taken 1) (headed 1 (by omega)) (dropped 1)
        (by rw [ne_eq, List.drop_eq_nil_iff]; omega) (fun c member => (stop c member).1) exponent

theorem numberUnits_of_digits {s : JSString} (all : s.all isDigit = true) : s.all isNumberUnit = true := by
  refine List.all_eq_true.mpr fun c member => ?_
  rw [isNumberUnit, List.all_eq_true.mp all c member]
  rfl

theorem layoutDigits_units {digits : JSString} (point : Int) (all : digits.all isDigit = true) :
    (layoutDigits digits point).all isNumberUnit = true := by
  have units := numberUnits_of_digits all
  have taken : ∀ k, (digits.take k).all isNumberUnit = true := fun k =>
    List.all_eq_true.mpr fun c member => List.all_eq_true.mp units c (List.mem_of_mem_take member)
  have dropped : ∀ k, (digits.drop k).all isNumberUnit = true := fun k =>
    List.all_eq_true.mpr fun c member => List.all_eq_true.mp units c (List.mem_of_mem_drop member)
  have zeros := fun n => numberUnits_of_digits (zeros_digits n)
  have exponent := numberUnits_of_digits (decimal_digits (point - 1).natAbs)
  have sign : isNumberUnit (if point - 1 < 0 then 45 else 43) = true := by split <;> rfl
  simp only [layoutDigits]
  split
  · rw [List.all_append, units, zeros]
    rfl
  split
  · rw [List.all_append, taken, List.all_cons, dropped]
    rfl
  split
  · rw [List.all_append, List.all_append, units, zeros]
    rfl
  · rw [List.all_append, List.all_cons, List.all_cons, sign, exponent]
    split
    · rw [units]
      rfl
    · rw [List.all_append, taken, List.all_cons, dropped]
      rfl

theorem toText_units (x : Binary64) : (F64.toText (.finite x)).all isNumberUnit = true := by
  by_cases zero : x.mantissa = 0
  · rw [F64.toText_zero zero]
    rfl
  · obtain ⟨digits, point, text, all, -⟩ := F64.toText_spells zero
    rw [text, List.all_append, layoutDigits_units point all]
    cases x.negative <;> rfl

theorem Binary64.eq_zero {x : Binary64} (zero : x.mantissa = 0) : x = .zero x.negative := by
  have exponent : x.exponent = -1074 := x.normal.resolve_right (by omega)
  cases x
  simp_all [Binary64.zero]

/-- The text of a finite number other than `-0` reads back as that number. -/
theorem parseNumber_toText {x : Binary64} (positive : x.mantissa = 0 → x.negative = false) {rest : JSString}
    (stop : ∀ c ∈ rest.head?, isNumberUnit c = false) :
    parseNumber (F64.toText (.finite x) ++ rest) = some (.num (.finite x), rest) := by
  have scanned : ∀ token : JSString, token.all isNumberUnit = true → isJsonNumber token = true →
      parseNumber (token ++ rest) = some (.num (F64.ofDecimalText token), rest) := by
    intro token units grammar
    have inside : ∀ c ∈ token, isNumberUnit c = true := List.all_eq_true.mp units
    have taken : (token ++ rest).takeWhile isNumberUnit = token := by
      rw [List.takeWhile_append_of_pos inside]
      cases rest with
      | nil => simp
      | cons c rest => simp [stop c rfl]
    have dropped : (token ++ rest).dropWhile isNumberUnit = rest := by
      rw [List.dropWhile_append_of_pos inside]
      cases rest with
      | nil => simp
      | cons c rest => simp [stop c rfl]
    simp only [parseNumber, taken, dropped, grammar, if_true]
  by_cases zero : x.mantissa = 0
  · have same : x = .zero false := positive zero ▸ Binary64.eq_zero zero
    rw [F64.toText_zero zero, scanned (js "0") rfl rfl, F64.ofDecimalText_zero, same]
  · obtain ⟨digits, point, text, all, present, leading, _⟩ := F64.toText_spells zero
    obtain ⟨c, t, shape, digit⟩ := layoutDigits_head point all present
    have units := layoutDigits_units point all
    have grammar := isJsonNumber_layout point all present leading
    rw [scanned _ ?_ ?_, F64.ofDecimalText_toText zero]
    · rw [text, List.all_append, units]
      cases x.negative <;> rfl
    · rw [text]
      cases x.negative with
      | false => exact grammar
      | true =>
        rw [if_pos rfl, shape, List.singleton_append, isJsonNumber_unsigned c t digit, ← shape]
        exact grammar

theorem toText_head (x : Binary64) : ∃ c t, F64.toText (.finite x) = c :: t ∧ (isDigit c = true ∨ c = 45) := by
  by_cases zero : x.mantissa = 0
  · exact ⟨48, [], F64.toText_zero zero, Or.inl rfl⟩
  · obtain ⟨digits, point, text, all, present, _⟩ := F64.toText_spells zero
    obtain ⟨c, t, shape, digit⟩ := layoutDigits_head point all present
    rw [text, shape]
    cases x.negative with
    | false => exact ⟨c, t, rfl, Or.inl digit⟩
    | true => exact ⟨45, c :: t, rfl, Or.inr rfl⟩

theorem skipJsonSpace_cons {c : Nat} (t : JSString) (visible : isJsonSpace c = false) :
    skipJsonSpace (c :: t) = c :: t := by
  rw [skipJsonSpace, List.dropWhile_cons_of_neg (by rw [visible]; decide)]

/-- The text of a value starts with neither a space nor the end of a list. -/
theorem stringifyJson_head (value : Json) : ∃ c t, stringifyJson value = c :: t ∧ isJsonSpace c = false ∧ c ≠ 93 := by
  cases value with
  | null => exact ⟨110, _, rfl, rfl, by decide⟩
  | bool b =>
    cases b with
    | false => exact ⟨102, _, rfl, rfl, by decide⟩
    | true => exact ⟨116, _, rfl, rfl, by decide⟩
  | str s => exact ⟨34, _, rfl, rfl, by decide⟩
  | arr items => exact ⟨91, _, rfl, rfl, by decide⟩
  | obj members => exact ⟨123, _, rfl, rfl, by decide⟩
  | num x =>
    cases x with
    | nan | infinite => exact ⟨110, _, rfl, rfl, by decide⟩
    | finite b =>
      obtain ⟨c, t, shape, start⟩ := toText_head b
      refine ⟨c, t, shape, ?_⟩
      rcases start with digit | rfl
      · have bounds : 48 ≤ c ∧ c ≤ 57 := by simpa [isDigit] using digit
        constructor
        · simp only [isJsonSpace, Bool.or_eq_false_iff, decide_eq_false_iff_not]
          omega
        · omega
      · exact ⟨rfl, by decide⟩

theorem parseValue_number {fuel : Nat} {x : Binary64} (positive : x.mantissa = 0 → x.negative = false)
    {rest : JSString} (stop : ∀ c ∈ rest.head?, isNumberUnit c = false) :
    parseValue (fuel + 1) (F64.toText (.finite x) ++ rest) = some (.num (.finite x), rest) := by
  have parsed := parseNumber_toText positive stop
  obtain ⟨c, t, shape, start⟩ := toText_head x
  rw [shape, List.cons_append] at parsed ⊢
  have bounds : 45 ≤ c ∧ c ≤ 57 := by
    rcases start with digit | rfl
    · have : 48 ≤ c ∧ c ≤ 57 := by simpa [isDigit] using digit
      omega
    · omega
  have visible : isJsonSpace c = false := by
    simp only [isJsonSpace, Bool.or_eq_false_iff, decide_eq_false_iff_not]
    omega
  have word : parseWord (c :: (t ++ rest)) = none := by
    have apart : ∀ (w : Nat) (ws : JSString), w ≠ c → List.isPrefixOf (w :: ws) (c :: (t ++ rest)) = false := by
      intro w ws different
      rw [List.isPrefixOf, beq_eq_false_iff_ne.mpr different, Bool.false_and]
    rw [parseWord, show js "null" = 110 :: js "ull" from rfl, show js "true" = 116 :: js "rue" from rfl,
      show js "false" = 102 :: js "alse" from rfl, apart 110 _ (by omega), apart 116 _ (by omega),
      apart 102 _ (by omega)]
    rfl
  rw [parseValue, skipJsonSpace_cons _ visible]
  split
  · simp_all
  · simp_all
  · simp_all
  · rw [word, parsed]
    rfl

/-- What may follow a value in JSON text. -/
def EndsValue (rest : JSString) : Prop := ∀ c ∈ rest.head?, isNumberUnit c = false

theorem intercalate_cons_cons (x y : JSString) (l : List JSString) :
    [44].intercalate (x :: y :: l) = x ++ 44 :: [44].intercalate (y :: l) := by
  simp [List.intercalate]

theorem parseValue_array {fuel : Nat} {c : Nat} {t : JSString} (visible : isJsonSpace c = false) (more : c ≠ 93) :
    parseValue (fuel + 1) (91 :: c :: t) =
      (parseItems fuel (c :: t)).map fun parsed => (.arr parsed.1, parsed.2) := by
  rw [parseValue, skipJsonSpace_cons _ rfl]
  simp only [skipJsonSpace_cons t visible]
  split
  · simp_all
  · rfl

theorem parseValue_object {fuel : Nat} (t : JSString) :
    parseValue (fuel + 1) (123 :: 34 :: t) =
      (parseMembers fuel [] (34 :: t)).map fun parsed => (.obj parsed.1, parsed.2) := by
  rw [parseValue, skipJsonSpace_cons _ rfl]
  simp only [skipJsonSpace_cons t (c := 34) rfl]

/-- One item and what follows it. -/
theorem parseItems_step {fuel : Nat} {s rest : JSString} {item : Json}
    (parsed : parseValue fuel s = some (item, rest)) :
    parseItems (fuel + 1) s = match skipJsonSpace rest with
      | 93 :: rest => some ([item], rest)
      | 44 :: rest => (parseItems fuel rest).map fun more => (item :: more.1, more.2)
      | _ => none := by
  rw [parseItems, parsed]
  rfl

/-- One member and what follows it. -/
theorem parseMembers_step {fuel : Nat} {members : Record Json} {key : JSString} {value : Json} {text rest : JSString}
    (parsed : parseValue fuel text = some (value, rest)) :
    parseMembers (fuel + 1) members (jsonString key ++ 58 :: text) = match skipJsonSpace rest with
      | 125 :: rest => some (Record.set members key value, rest)
      | 44 :: rest => parseMembers fuel (Record.set members key value) rest
      | _ => none := by
  have shape : jsonString key ++ 58 :: text = 34 :: (jsonUnits key ++ 34 :: 58 :: text) := by
    simp [jsonString]
  rw [shape, parseMembers, skipJsonSpace_cons _ rfl]
  simp only [parseStringBody_jsonUnits, Option.bind_some, skipJsonSpace_cons text (c := 58) rfl, parsed] <;> rfl

mutual

/-- The text of a value reads back, whatever follows it. -/
theorem parseValue_stringify : ∀ (value : Json) (fuel : Nat) (rest : JSString),
    (stringifyJson value).length < fuel → EndsValue rest →
      parseValue fuel (stringifyJson value ++ rest) = some (value.reread, rest)
  | .null, fuel + 1, rest, _, _ => by
    rw [parseValue]
    rfl
  | .bool b, fuel + 1, rest, _, _ => by
    rw [parseValue]
    cases b <;> rfl
  | .str s, fuel + 1, rest, _, _ => by
    have parsed := parseStringBody_jsonUnits s rest
    have shape : stringifyJson (.str s) ++ rest = 34 :: (jsonUnits s ++ 34 :: rest) := by
      simp [stringifyJson, jsonString]
    rw [shape, parseValue, skipJsonSpace_cons _ rfl]
    simp only [parsed]
    rfl
  | .num .nan, fuel + 1, rest, _, _ => by
    rw [parseValue]
    rfl
  | .num (.infinite _), fuel + 1, rest, _, _ => by
    rw [parseValue]
    rfl
  | .num (.finite b), fuel + 1, rest, _, ends => by
    have shape : stringifyJson (.num (.finite b)) = F64.toText (.finite b) := rfl
    rw [shape, Json.reread]
    by_cases zero : b.mantissa = 0
    · have spelled : F64.toText (.finite b) = F64.toText (.finite (.zero false)) := by
        rw [F64.toText_zero zero, F64.toText_zero rfl]
      rw [if_pos zero, spelled]
      exact parseValue_number (fun _ => rfl) ends
    · rw [if_neg zero]
      exact parseValue_number (fun none => absurd none zero) ends
  | .arr [], fuel + 1, rest, _, _ => by
    rw [parseValue]
    rfl
  | .arr (item :: items), fuel + 1, rest, enough, _ => by
    have shape : stringifyJson (.arr (item :: items)) ++ rest =
        91 :: ([44].intercalate (stringifyItems (item :: items)) ++ 93 :: rest) := by
      simp [stringifyJson]
    have length : (stringifyJson (.arr (item :: items))).length =
        ([44].intercalate (stringifyItems (item :: items))).length + 2 := by
      simp [stringifyJson]
    have parsed := parseItems_stringify (item :: items) (by simp) fuel rest (by omega)
    obtain ⟨c, t, text, visible, more⟩ := stringifyJson_head item
    obtain ⟨u, start⟩ : ∃ u, [44].intercalate (stringifyItems (item :: items)) = c :: u := by
      cases items with
      | nil => exact ⟨t, by simp [stringifyItems, List.intercalate, text]⟩
      | cons next items => exact ⟨_, by rw [stringifyItems, stringifyItems, intercalate_cons_cons, text]; rfl⟩
    rw [start, List.cons_append] at parsed
    rw [shape, start, List.cons_append, parseValue_array visible more, parsed]
    rfl
  | .obj [], fuel + 1, rest, _, _ => by
    rw [parseValue]
    rfl
  | .obj (member :: members), fuel + 1, rest, enough, _ => by
    have shape : stringifyJson (.obj (member :: members)) ++ rest =
        123 :: ([44].intercalate (stringifyMembers (member :: members)) ++ 125 :: rest) := by
      simp [stringifyJson]
    have length : (stringifyJson (.obj (member :: members))).length =
        ([44].intercalate (stringifyMembers (member :: members))).length + 2 := by
      simp [stringifyJson]
    have parsed := parseMembers_stringify (member :: members) (by simp) fuel [] rest (by omega)
    obtain ⟨u, start⟩ : ∃ u, [44].intercalate (stringifyMembers (member :: members)) = 34 :: u := by
      cases members with
      | nil => exact ⟨_, by simp only [stringifyMembers, List.intercalate, List.intersperse, jsonString]; rfl⟩
      | cons next members => exact ⟨_, by rw [stringifyMembers, stringifyMembers, intercalate_cons_cons]; rfl⟩
    rw [start, List.cons_append] at parsed
    rw [shape, start, List.cons_append, parseValue_object, parsed]
    rfl

theorem parseItems_stringify : ∀ (items : List Json), items ≠ [] → ∀ (fuel : Nat) (rest : JSString),
    ([44].intercalate (stringifyItems items)).length + 1 < fuel →
      parseItems fuel ([44].intercalate (stringifyItems items) ++ 93 :: rest) = some (Json.rereadItems items, rest)
  | [item], _, fuel + 1, rest, enough => by
    have single : [44].intercalate (stringifyItems [item]) = stringifyJson item := by
      simp [stringifyItems, List.intercalate]
    rw [single] at enough ⊢
    rw [parseItems_step (parseValue_stringify item fuel (93 :: rest) (by omega) (by rintro c ⟨⟩; rfl)),
      skipJsonSpace_cons rest (c := 93) rfl]
    rfl
  | item :: next :: items, _, fuel + 1, rest, enough => by
    have several : [44].intercalate (stringifyItems (item :: next :: items)) =
        stringifyJson item ++ 44 :: [44].intercalate (stringifyItems (next :: items)) := by
      rw [stringifyItems, stringifyItems, intercalate_cons_cons]
    rw [several, List.length_append, List.length_cons] at enough
    have positive : 0 < (stringifyJson item).length := by
      obtain ⟨c, t, text, _⟩ := stringifyJson_head item
      rw [text]
      exact Nat.succ_pos _
    rw [several, List.append_assoc, List.cons_append,
      parseItems_step (parseValue_stringify item fuel _ (by omega) (by rintro c ⟨⟩; rfl)),
      skipJsonSpace_cons _ (c := 44) rfl]
    simp only [parseItems_stringify (next :: items) (by simp) fuel rest (by omega), Option.map_some]
    rfl

theorem parseMembers_stringify : ∀ (members : List (JSString × Json)), members ≠ [] →
    ∀ (fuel : Nat) (defined : Record Json) (rest : JSString),
      ([44].intercalate (stringifyMembers members)).length + 1 < fuel →
        parseMembers fuel defined ([44].intercalate (stringifyMembers members) ++ 125 :: rest) =
          some (Json.rereadMembers defined members, rest)
  | [(key, value)], _, fuel + 1, defined, rest, enough => by
    have single : [44].intercalate (stringifyMembers [(key, value)]) = jsonString key ++ 58 :: stringifyJson value := by
      simp [stringifyMembers, List.intercalate]
    rw [single, List.length_append, List.length_cons] at enough
    rw [single, List.append_assoc, List.cons_append,
      parseMembers_step (parseValue_stringify value fuel (125 :: rest) (by omega) (by rintro c ⟨⟩; rfl)),
      skipJsonSpace_cons rest (c := 125) rfl]
    rfl
  | (key, value) :: next :: members, _, fuel + 1, defined, rest, enough => by
    have several : [44].intercalate (stringifyMembers ((key, value) :: next :: members)) =
        jsonString key ++ 58 :: (stringifyJson value ++ 44 :: [44].intercalate (stringifyMembers (next :: members))) := by
      rw [stringifyMembers, stringifyMembers, intercalate_cons_cons]
      simp
    have positive : 0 < (jsonString key).length := by simp [jsonString]
    rw [several, List.length_append, List.length_cons, List.length_append, List.length_cons] at enough
    rw [several, List.append_assoc, List.cons_append, List.append_assoc, List.cons_append,
      parseMembers_step (parseValue_stringify value fuel _ (by omega) (by rintro c ⟨⟩; rfl)),
      skipJsonSpace_cons _ (c := 44) rfl]
    simp only [parseMembers_stringify (next :: members) (by simp) fuel _ rest (by omega)]
    rfl

end

/-- `JSON.parse(JSON.stringify(value))`. -/
theorem parseJson_stringifyJson (value : Json) : parseJson (stringifyJson value) = some value.reread := by
  have parsed := parseValue_stringify value ((stringifyJson value).length + 1) [] (by omega) (fun c member => by cases member)
  rw [List.append_nil] at parsed
  rw [parseJson, parsed]
  rfl

mutual

theorem Json.Spellable.reread_eq : ∀ {value : Json}, value.Spellable → value.reread = value
  | .null, _ | .bool _, _ | .str _, _ => rfl
  | .num x, spellable => by
    obtain ⟨b, rfl, positive⟩ := spellable
    rw [Json.reread]
    split
    · rename_i zero
      rw [← positive zero, ← Binary64.eq_zero zero]
    · rfl
  | .arr items, spellable => by rw [Json.reread, Json.SpellableItems.reread_eq spellable]
  | .obj members, spellable => by
    rw [Json.reread, Json.SpellableMembers.reread_eq spellable.2 [] spellable.1, List.nil_append]

theorem Json.SpellableItems.reread_eq : ∀ {items : List Json}, Json.SpellableItems items → Json.rereadItems items = items
  | [], _ => rfl
  | item :: items, spellable => by
    rw [Json.rereadItems, Json.Spellable.reread_eq spellable.1, Json.SpellableItems.reread_eq spellable.2]

theorem Json.SpellableMembers.reread_eq : ∀ {members : List (JSString × Json)}, Json.SpellableMembers members →
    ∀ defined : Record Json, Record.Ordered (defined ++ members) → Json.rereadMembers defined members = defined ++ members
  | [], _, defined, _ => (List.append_nil defined).symm
  | (key, value) :: members, spellable, defined, ordered => by
    have placed := ordered.set_last
    have shape : defined ++ (key, value) :: members = (defined ++ [(key, value)]) ++ members := by simp
    rw [shape] at ordered
    rw [Json.rereadMembers, Json.Spellable.reread_eq spellable.1, placed,
      Json.SpellableMembers.reread_eq spellable.2 _ ordered, shape]

end

/-- `JSON.parse(JSON.stringify(value))` is the value, for every value JSON text can hold. -/
theorem parseJson_stringify {value : Json} (spellable : value.Spellable) :
    parseJson (stringifyJson value) = some value := by
  rw [parseJson_stringifyJson, spellable.reread_eq]

end Xript
