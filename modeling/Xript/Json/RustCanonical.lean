import Xript.Json.Canonical

namespace Xript

namespace Rust

/-- `serde_json::Value`, a number as the double that `as_f64` reads it as. A text that is written is kept as its UTF-16
units. -/
inductive Value where
  | null
  | bool (b : Bool)
  | number (n : F64)
  | string (s : List Char)
  | array (items : List Value)
  | object (members : List (List Char × Value))

/-- What `write_json_string` pushes for a character. -/
def jsonChar (c : Char) : JSString :=
  if c.toNat = 0x22 then js "\\\""
  else if c.toNat = 0x5C then js "\\\\"
  else if c.toNat = 0x08 then js "\\b"
  else if c.toNat = 0x0C then js "\\f"
  else if c.toNat = 0x0A then js "\\n"
  else if c.toNat = 0x0D then js "\\r"
  else if c.toNat = 0x09 then js "\\t"
  else if c.toNat < 0x20 then unicodeEscape c.toNat
  else unitsOf c.toNat

def writeJsonString (value : List Char) : JSString := 34 :: value.flatMap jsonChar ++ [34]

/-- The order of strings. -/
abbrev nameLe {β : Type} (a b : List Char × β) : Prop := a.1.map Char.toNat ≤ b.1.map Char.toNat

mutual

/-- `canonical_json`. -/
def canonicalJson : Value → JSString
  | .null => js "null"
  | .bool b => if b then js "true" else js "false"
  | .number n => if n.isFinite then n.toText else js "null"
  | .string s => writeJsonString s
  | .array items => 91 :: [44].intercalate (canonicalItems items) ++ [93]
  | .object members =>
    let sorted := (canonicalMembers members).insertionSort nameLe
    123 :: [44].intercalate (sorted.map fun m => writeJsonString m.1 ++ 58 :: m.2) ++ [125]

def canonicalItems : List Value → List JSString
  | [] => []
  | item :: items => canonicalJson item :: canonicalItems items

def canonicalMembers : List (List Char × Value) → List (List Char × JSString)
  | [] => []
  | (key, value) :: members => (key, canonicalJson value) :: canonicalMembers members

end

mutual

/-- The JavaScript value of the same JSON. -/
def Value.toJson : Value → Json
  | .null => .null
  | .bool b => .bool b
  | .number n => .num n
  | .string s => .str (utf16 s)
  | .array items => .arr (Value.toItems items)
  | .object members => .obj (Value.toMembers members)

def Value.toItems : List Value → List Json
  | [] => []
  | item :: items => item.toJson :: Value.toItems items

def Value.toMembers : List (List Char × Value) → List (JSString × Json)
  | [] => []
  | (key, value) :: members => (utf16 key, value.toJson) :: Value.toMembers members

end

theorem jsonUnits_char (c : Char) (t : JSString) : jsonUnits (unitsOf c.toNat ++ t) = jsonChar c ++ jsonUnits t := by
  have valid := scalar_toNat c
  by_cases small : c.toNat < 0x10000
  · have unpaired : ¬(0xD800 ≤ c.toNat ∧ c.toNat ≤ 0xDBFF) ∧ ¬(0xDC00 ≤ c.toNat ∧ c.toNat ≤ 0xDFFF) := by omega
    rw [unitsOf, if_pos small, List.singleton_append, jsonUnits.eq_def]
    dsimp only
    rw [if_neg unpaired.1, if_neg unpaired.2, jsonChar, unitsOf, if_pos small]
    split_ifs <;> rfl
  · have plain : jsonChar c = unitsOf c.toNat := by
      rw [jsonChar]
      split_ifs <;> first | rfl | omega
    rw [plain, unitsOf, if_neg small]
    have high : 0xD800 ≤ 0xD800 + (c.toNat - 0x10000) / 0x400 ∧ 0xD800 + (c.toNat - 0x10000) / 0x400 ≤ 0xDBFF := by omega
    have low : 0xDC00 ≤ 0xDC00 + (c.toNat - 0x10000) % 0x400 ∧ 0xDC00 + (c.toNat - 0x10000) % 0x400 ≤ 0xDFFF := by omega
    generalize 0xD800 + (c.toNat - 0x10000) / 0x400 = u at high
    generalize 0xDC00 + (c.toNat - 0x10000) % 0x400 = v at low
    rw [List.cons_append, List.singleton_append, jsonUnits.eq_def]
    dsimp only
    rw [if_neg (by omega), if_neg (by omega), if_neg (by omega), if_neg (by omega), if_neg (by omega), if_neg (by omega),
      if_neg (by omega), if_neg (by omega), if_pos high, if_pos low]
    rfl

/-- Both sides quote a string of characters alike. -/
theorem writeJsonString_eq (s : List Char) : writeJsonString s = jsonString (utf16 s) := by
  have units : s.flatMap jsonChar = jsonUnits (utf16 s) := by
    induction s with
    | nil => rfl
    | cons c s ih => rw [List.flatMap_cons, ih, utf16_cons, jsonUnits_char]
  rw [writeJsonString, jsonString, units]

/-- And order such strings alike. -/
theorem nameLe_iff {β γ : Type} (a b : List Char × β) (s t : γ) :
    nameLe a b ↔ keyLe (utf16 a.1, s) (utf16 b.1, t) := by
  rw [keyLe, codePointsLe_iff, compareCodePoints_swap (utf16 b.1), nameLe, ← not_lt, ← utf16_lt_iff]
  cases compareCodePoints (utf16 b.1) (utf16 a.1) <;> simp

mutual

/-- The Rust text of a value is the TypeScript one. -/
theorem canonicalJson_eq : ∀ value : Value, canonicalJson value = Xript.canonicalJson value.toJson
  | .null | .bool _ | .number _ => rfl
  | .string s => writeJsonString_eq s
  | .array items => by rw [canonicalJson, Value.toJson, Xript.canonicalJson, canonicalItems_eq items]
  | .object members => by
    have sorted := List.map_insertionSort nameLe keyLe (fun m : List Char × JSString => (utf16 m.1, m.2))
      (canonicalMembers members) fun a _ b _ => nameLe_iff a b a.2 b.2
    rw [canonicalJson, Value.toJson, Xript.canonicalJson, ← canonicalMembers_eq members]
    show _ = 123 :: [44].intercalate ((List.insertionSort keyLe _).map _) ++ [125]
    rw [← sorted, List.map_map]
    simp only [Function.comp_def, writeJsonString_eq]

theorem canonicalItems_eq : ∀ items : List Value, canonicalItems items = Xript.canonicalItems (Value.toItems items)
  | [] => rfl
  | item :: items => by
    rw [canonicalItems, Value.toItems, Xript.canonicalItems, canonicalJson_eq item, canonicalItems_eq items]

theorem canonicalMembers_eq : ∀ members : List (List Char × Value),
    (canonicalMembers members).map (fun m => (utf16 m.1, m.2)) = Xript.canonicalMembers (Value.toMembers members)
  | [] => rfl
  | (key, value) :: members => by
    rw [canonicalMembers, Value.toMembers, Xript.canonicalMembers, List.map_cons, canonicalJson_eq value,
      canonicalMembers_eq members]

end

end Rust

/-- Canonical JSON is canonical: values that differ in the order of members have one text, which reads back as the value
with `null` for a number that is not finite and `0` for `-0`; members are written in strictly increasing order of their
names, by code points where these are well-formed; and the Rust text is the same. -/
theorem canonicalJson_canonical :
    (∀ value other : Json, value.Proper → value.Reordered other → canonicalJson value = canonicalJson other) ∧
    (∀ value : Json, value.Proper → ∃ read, parseJson (canonicalJson value) = some read ∧
      (value.mapNumbers spelledNumber).Reordered read) ∧
    (∀ members : List (JSString × Json), (Json.obj members).Proper → ∃ inOrder : List (JSString × Json),
      inOrder.Perm members ∧ inOrder.Pairwise (fun a b => compareCodePoints a.1 b.1 = .lt) ∧
      canonicalJson (.obj members) =
        123 :: [44].intercalate (inOrder.map fun m => jsonString m.1 ++ 58 :: canonicalJson m.2) ++ [125]) ∧
    (∀ s t : JSString, WellFormed s → WellFormed t →
      (compareCodePoints s t = .lt ↔ codePoints s < codePoints t) ∧ (compareCodePoints s t = .eq ↔ s = t) ∧
      (compareCodePoints s t = .gt ↔ codePoints t < codePoints s)) ∧
    ∀ value : Rust.Value, Rust.canonicalJson value = canonicalJson value.toJson := by
  refine ⟨fun value other proper reordered => ?_, fun value proper => ?_, fun members proper => canonicalJson_members proper,
    fun s t formedS formedT => compareCodePoints_exact formedS formedT, Rust.canonicalJson_eq⟩
  · rw [canonicalJson_eq, canonicalJson_eq, reordered.sorted_eq proper]
  · refine ⟨value.sorted.reread, ?_, proper.reordered⟩
    rw [canonicalJson_eq, parseJson_stringifyJson]

/-- Two objects of the same two members, the names of them, and `0`. -/
theorem canonicalJson_pair :
    canonicalJson (.obj [(js "b", .null), (js "a", .num .nan)]) = canonicalJson (.obj [(js "a", .num .nan), (js "b", .null)]) ∧
    (∃ read, parseJson (canonicalJson (.num .nan)) = some read ∧ Json.Reordered .null read) ∧
    (∃ inOrder : List (JSString × Json), inOrder.Perm [(js "a", .null)] ∧
      inOrder.Pairwise (fun a b => compareCodePoints a.1 b.1 = .lt) ∧
      canonicalJson (.obj [(js "a", .null)]) =
        123 :: [44].intercalate (inOrder.map fun m => jsonString m.1 ++ 58 :: canonicalJson m.2) ++ [125]) ∧
    (compareCodePoints (js "a") (js "b") = .lt ↔ codePoints (js "a") < codePoints (js "b")) := by
  obtain ⟨reordered, read, members, order, -⟩ := canonicalJson_canonical
  refine ⟨reordered _ _ ⟨by decide, ⟨by simp only [IsUnits]; decide, trivial⟩, ⟨by simp only [IsUnits]; decide, trivial⟩, trivial⟩ ?_,
    read (.num .nan) trivial, members _ ⟨by decide, ⟨by simp only [IsUnits]; decide, trivial⟩, trivial⟩,
    (order _ _ ⟨['a'], rfl⟩ ⟨['b'], rfl⟩).1⟩
  exact ⟨_, _, rfl, ⟨_, _, rfl, rfl, _, _, rfl, rfl, rfl⟩, .swap ..⟩

/-- `-0` is written as `0`, and reads back as that. -/
theorem canonicalJson_negative_zero : ¬ ∀ value : Json, value.Proper → ∃ read,
    parseJson (canonicalJson value) = some read ∧ (value.mapNumbers finiteNumber).Reordered read := by
  intro same
  obtain ⟨read, parsed, reordered⟩ := same (.num (.finite (.zero true))) trivial
  rw [canonicalJson_eq, parseJson_stringifyJson] at parsed
  cases parsed
  cases reordered

end Xript
