import Xript.Number.F64

namespace Xript

namespace Serde

inductive Number where
  | posInt (n : UInt64)
  | negInt (n : Int64)
  | float (x : Binary64)

/-- `serde_json::Value`, an object as its entries in iteration order. -/
inductive Value where
  | null
  | bool (b : Bool)
  | number (n : Number)
  | string (s : List Char)
  | array (items : List Value)
  | object (entries : List (List Char × Value))

/-- `Map::insert`, into an `IndexMap` where the `preserve_order` feature is on and into a `BTreeMap` where it is off. -/
def insert (preserveOrder : Bool) (key : List Char) (value : Value) : List (List Char × Value) → List (List Char × Value)
  | [] => [(key, value)]
  | entry :: entries =>
    if entry.1 = key then (entry.1, value) :: entries
    else if preserveOrder = false ∧ key.map Char.toNat < entry.1.map Char.toNat then (key, value) :: entry :: entries
    else entry :: insert preserveOrder key value entries

def Value.asObject : Value → Option (List (List Char × Value))
  | .object entries => some entries
  | _ => none

def Value.asArray : Value → Option (List Value)
  | .array items => some items
  | _ => none

def Value.asStr : Value → Option (List Char)
  | .string s => some s
  | _ => none

def Value.asU64 : Value → Option UInt64
  | .number (.posInt n) => some n
  | _ => none

def specialMarker : List Char := "$xript".toList

/-- A script value with no JSON spelling. -/
inductive Special where
  | undefined
  | nan
  | infinity
  | negInfinity
  | negZero

def Special.tag : Special → List Char
  | .undefined => "undefined".toList
  | .nan => "NaN".toList
  | .infinity => "Infinity".toList
  | .negInfinity => "-Infinity".toList
  | .negZero => "-0".toList

def Special.fromTag (tag : List Char) : Option Special :=
  if tag = "undefined".toList then some .undefined
  else if tag = "NaN".toList then some .nan
  else if tag = "Infinity".toList then some .infinity
  else if tag = "-Infinity".toList then some .negInfinity
  else if tag = "-0".toList then some .negZero
  else none

def Special.toValue (preserveOrder : Bool) (special : Special) : Value :=
  .object (insert preserveOrder specialMarker (.string special.tag) [])

def Special.fromValue (value : Value) : Option Special := do
  let object ← value.asObject
  if object.length ≠ 1 then none
  else
    let tag ← (object.lookup specialMarker).bind Value.asStr
    Special.fromTag tag

inductive Marker where
  | special (special : Special)
  | bigInt (digits : List Char)
  | symbol (description : Option (List Char))
  | utf16 (units : List UInt16)
  | cycle (up : UInt64)

def isDecimal (digits : List Char) : Bool :=
  let unsigned := match digits with
    | '-' :: unsigned => unsigned
    | digits => digits
  !unsigned.isEmpty && unsigned.all Char.isDigit

/-- One element of a `units` payload. -/
def unitOf (unit : Value) : Option UInt16 :=
  unit.asU64.bind fun u => if u.toNat < 2 ^ 16 then some u.toUInt16 else none

/-- The `payload` closure of `from_value`. -/
def payload (object : List (List Char × Value)) (key : List Char) : Option Value :=
  if object.length = 2 then object.lookup key else none

/-- The match on the tag of `from_value`. -/
def Marker.ofTag (object : List (List Char × Value)) (tag : List Char) : Option Marker :=
  if tag = "bigint".toList then do
    let digits ← (payload object "value".toList).bind Value.asStr
    if isDecimal digits then some (.bigInt digits) else none
  else if tag = "symbol".toList then
    if object.length = 1 then some (.symbol none)
    else ((payload object "description".toList).bind Value.asStr).map fun description => .symbol (some description)
  else if tag = "string".toList then do
    let units ← (payload object "units".toList).bind Value.asArray
    (units.mapM unitOf).map .utf16
  else if tag = "cycle".toList then do
    let up ← (payload object "up".toList).bind Value.asU64
    if 1 ≤ up then some (.cycle up) else none
  else (Special.fromValue (.object object)).map .special

def Marker.fromValue (value : Value) : Option Marker := do
  let object ← value.asObject
  let tag ← (object.lookup specialMarker).bind Value.asStr
  Marker.ofTag object tag

def Marker.toValue (preserveOrder : Bool) : Marker → Value
  | .special named => named.toValue preserveOrder
  | .bigInt digits =>
    .object (insert preserveOrder "value".toList (.string digits)
      (insert preserveOrder specialMarker (.string "bigint".toList) []))
  | .symbol description =>
    let marker := insert preserveOrder specialMarker (.string "symbol".toList) []
    match description with
    | some description => .object (insert preserveOrder "description".toList (.string description) marker)
    | none => .object marker
  | .utf16 units =>
    .object (insert preserveOrder "units".toList (.array (units.map fun u => .number (.posInt u.toUInt64)))
      (insert preserveOrder specialMarker (.string "string".toList) []))
  | .cycle up =>
    .object (insert preserveOrder "up".toList (.number (.posInt up))
      (insert preserveOrder specialMarker (.string "cycle".toList) []))

/-- The markers the runtime builds. -/
def Marker.Built : Marker → Prop
  | .bigInt digits => isDecimal digits = true
  | .cycle up => 1 ≤ up
  | _ => True

/-- `==` of numbers. -/
def Number.Same : Number → Number → Prop
  | .posInt a, .posInt b => a = b
  | .negInt a, .negInt b => a = b
  | .float a, .float b => a.value = b.value
  | _, _ => False

mutual

/-- `==` of values: objects are equal in any order of their entries. -/
def Value.Same : Value → Value → Prop
  | .null, .null => True
  | .bool a, .bool b => a = b
  | .number a, .number b => a.Same b
  | .string a, .string b => a = b
  | .array a, .array b => SameItems a b
  | .object a, .object b => a.length = b.length ∧ SameEntries a b
  | _, _ => False

def SameItems : List Value → List Value → Prop
  | [], [] => True
  | a :: as, b :: bs => a.Same b ∧ SameItems as bs
  | _, _ => False

def SameEntries : List (List Char × Value) → List (List Char × Value) → Prop
  | [], _ => True
  | (key, value) :: entries, other =>
    (∃ found, other.lookup key = some found ∧ value.Same found) ∧ SameEntries entries other

end

theorem insert_first (preserveOrder : Bool) (value : Value) :
    insert preserveOrder specialMarker value [] = [(specialMarker, value)] := rfl

/-- A payload key comes behind the tag in either kind of map. -/
theorem insert_payload (preserveOrder : Bool) {key : List Char} (tag value : Value) (other : specialMarker ≠ key)
    (later : ¬ key.map Char.toNat < specialMarker.map Char.toNat) :
    insert preserveOrder key value [(specialMarker, tag)] = [(specialMarker, tag), (key, value)] := by
  rw [insert, if_neg other, if_neg fun before => later before.2]
  rfl

theorem unitOf_unit (u : UInt16) : unitOf (.number (.posInt u.toUInt64)) = some u := by
  have small : u.toUInt64.toNat < 2 ^ 16 := by
    rw [UInt16.toNat_toUInt64]
    exact u.toNat_lt
  rw [unitOf, Value.asU64, Option.bind_some, if_pos small]
  exact congrArg some (by simp)

theorem unitOf_some {value : Value} {u : UInt16} (read : unitOf value = some u) :
    value = .number (.posInt u.toUInt64) := by
  obtain ⟨n, held, unit⟩ := Option.bind_eq_some_iff.mp read
  have number : value = .number (.posInt n) := by
    unfold Value.asU64 at held
    split at held
    · rw [Option.some.inj held]
    · cases held
  by_cases small : n.toNat < 2 ^ 16
  · rw [if_pos small, Option.some.injEq] at unit
    rw [number, ← unit]
    congr 2
    refine UInt64.toNat_inj.mp ?_
    rw [UInt16.toNat_toUInt64, UInt64.toNat_toUInt16, Nat.mod_eq_of_lt small]
  · rw [if_neg small] at unit
    cases unit

theorem mapM_unitOf (units : List UInt16) :
    (units.map fun u => Value.number (.posInt u.toUInt64)).mapM unitOf = some units := by
  induction units with
  | nil => rfl
  | cons u units ih =>
    rw [List.map_cons, List.mapM_cons, unitOf_unit, ih]
    rfl

theorem mapM_unitOf_some {values : List Value} {units : List UInt16} (read : values.mapM unitOf = some units) :
    values = units.map fun u => Value.number (.posInt u.toUInt64) := by
  induction values generalizing units with
  | nil =>
    obtain rfl := Option.some.inj read
    rfl
  | cons value values ih =>
    rw [List.mapM_cons] at read
    obtain ⟨u, first, rest⟩ := Option.bind_eq_some_iff.mp read
    obtain ⟨more, others, all⟩ := Option.bind_eq_some_iff.mp rest
    obtain rfl := Option.some.inj all
    rw [unitOf_some first, ih others]
    rfl

theorem fromTag_tag (named : Special) : Special.fromTag named.tag = some named := by
  cases named with
  | undefined | nan | infinity | negInfinity | negZero => rfl

theorem tag_of_fromTag {tag : List Char} {named : Special} (read : Special.fromTag tag = some named) : named.tag = tag := by
  unfold Special.fromTag at read
  repeat' split at read
  all_goals first
    | (obtain rfl := Option.some.inj read; rename_i same; exact same.symm)
    | cases read

/-- An object with its tag first is read by the tag. -/
theorem fromValue_tagged (tag : List Char) (rest : List (List Char × Value)) :
    Marker.fromValue (.object ((specialMarker, .string tag) :: rest)) =
      Marker.ofTag ((specialMarker, .string tag) :: rest) tag := by
  rw [Marker.fromValue, Value.asObject, Option.bind_eq_bind, Option.bind_some, List.lookup_cons_self]
  rfl

theorem payload_second (tag value : Value) {key : List Char} (other : specialMarker ≠ key) :
    payload [(specialMarker, tag), (key, value)] key = some value := by
  have two : [(specialMarker, tag), (key, value)].length = 2 := rfl
  rw [payload, if_pos two, List.lookup_cons, beq_false_of_ne other.symm]
  exact List.lookup_cons_self

/-- A marker the runtime builds is read back from its object. -/
theorem fromValue_toValue (preserveOrder : Bool) {m : Marker} (built : m.Built) :
    Marker.fromValue (m.toValue preserveOrder) = some m := by
  cases m with
  | special named =>
    rw [Marker.toValue, Special.toValue, insert_first, fromValue_tagged, Marker.ofTag]
    have plain : named.tag ≠ "bigint".toList ∧ named.tag ≠ "symbol".toList ∧ named.tag ≠ "string".toList ∧
        named.tag ≠ "cycle".toList := by
      cases named with
      | undefined | nan | infinity | negInfinity | negZero => decide
    rw [if_neg plain.1, if_neg plain.2.1, if_neg plain.2.2.1, if_neg plain.2.2.2]
    have read : Special.fromValue (.object [(specialMarker, .string named.tag)]) = Special.fromTag named.tag := rfl
    rw [read, fromTag_tag]
    rfl
  | bigInt digits =>
    have decimal : isDecimal digits = true := built
    rw [Marker.toValue, insert_first, insert_payload _ _ _ (by decide) (by decide), fromValue_tagged, Marker.ofTag, if_pos rfl,
      payload_second _ _ (by decide)]
    exact if_pos decimal
  | symbol description =>
    cases description with
    | none =>
      rw [Marker.toValue, insert_first, fromValue_tagged, Marker.ofTag, if_neg (by decide), if_pos rfl]
      rfl
    | some description =>
      rw [Marker.toValue, insert_first]
      rw [insert_payload _ _ _ (by decide) (by decide), fromValue_tagged, Marker.ofTag, if_neg (by decide), if_pos rfl,
        payload_second _ _ (by decide)]
      rfl
  | utf16 units =>
    rw [Marker.toValue, insert_first, insert_payload _ _ _ (by decide) (by decide), fromValue_tagged, Marker.ofTag,
      if_neg (by decide), if_neg (by decide), if_pos rfl, payload_second _ _ (by decide)]
    exact congrArg (Option.map Marker.utf16) (mapM_unitOf units)
  | cycle up =>
    have positive : 1 ≤ up := built
    rw [Marker.toValue, insert_first, insert_payload _ _ _ (by decide) (by decide), fromValue_tagged, Marker.ofTag,
      if_neg (by decide), if_neg (by decide), if_neg (by decide), if_pos rfl, payload_second _ _ (by decide)]
    exact if_pos positive

theorem asStr_some {value : Value} {s : List Char} (read : value.asStr = some s) : value = .string s := by
  unfold Value.asStr at read
  split at read
  · rw [Option.some.inj read]
  · cases read

theorem asArray_some {value : Value} {items : List Value} (read : value.asArray = some items) : value = .array items := by
  unfold Value.asArray at read
  split at read
  · rw [Option.some.inj read]
  · cases read

theorem asU64_some {value : Value} {n : UInt64} (read : value.asU64 = some n) : value = .number (.posInt n) := by
  unfold Value.asU64 at read
  split at read
  · rw [Option.some.inj read]
  · cases read

theorem payload_some {object : List (List Char × Value)} {key : List Char} {value : Value}
    (found : payload object key = some value) : object.length = 2 ∧ object.lookup key = some value := by
  unfold payload at found
  split at found
  · rename_i two
    exact ⟨two, found⟩
  · cases found

/-- An object of a tag and a payload, whatever their order. -/
theorem same_tagged {object : List (List Char × Value)} {tag key : List Char} {value found : Value}
    (tagged : object.lookup specialMarker = some (.string tag)) (payload : payload object key = some found)
    (same : value.Same found) : (Value.object [(specialMarker, .string tag), (key, value)]).Same (.object object) := by
  obtain ⟨two, held⟩ := payload_some payload
  exact ⟨two.symm, ⟨_, tagged, rfl⟩, ⟨_, held, same⟩, trivial⟩

theorem same_lone {object : List (List Char × Value)} {tag : List Char} (tagged : object.lookup specialMarker = some (.string tag))
    (one : object.length = 1) : (Value.object [(specialMarker, .string tag)]).Same (.object object) :=
  ⟨one.symm, ⟨_, tagged, rfl⟩, trivial⟩

theorem sameItems_refl {items : List Value} (each : ∀ value ∈ items, value.Same value) : SameItems items items := by
  induction items with
  | nil => exact trivial
  | cons value items ih =>
    exact ⟨each value List.mem_cons_self, ih fun other later => each other (List.mem_cons_of_mem _ later)⟩

theorem special_some {object : List (List Char × Value)} {tag : List Char} {named : Special}
    (tagged : object.lookup specialMarker = some (.string tag)) (read : Special.fromValue (.object object) = some named) :
    object.length = 1 ∧ Special.fromTag tag = some named := by
  rw [Special.fromValue, Value.asObject, Option.bind_eq_bind, Option.bind_some, tagged] at read
  split at read
  · cases read
  · rename_i one
    exact ⟨not_not.mp one, read⟩

/-- What is read as a marker is that marker's object. -/
theorem toValue_of_fromValue (preserveOrder : Bool) {value : Value} {m : Marker} (read : Marker.fromValue value = some m) :
    (m.toValue preserveOrder).Same value := by
  obtain ⟨object, held, inner⟩ := Option.bind_eq_some_iff.mp read
  obtain rfl : value = .object object := by
    unfold Value.asObject at held
    split at held
    · rw [Option.some.inj held]
    · cases held
  obtain ⟨tag, named, matched⟩ := Option.bind_eq_some_iff.mp inner
  obtain ⟨tagValue, tagged, isText⟩ := Option.bind_eq_some_iff.mp named
  obtain rfl := asStr_some isText
  unfold Marker.ofTag at matched
  split at matched
  · rename_i bigint
    subst bigint
    obtain ⟨digits, found, decimal⟩ := Option.bind_eq_some_iff.mp matched
    obtain ⟨payload, second, text⟩ := Option.bind_eq_some_iff.mp found
    obtain rfl := asStr_some text
    split at decimal
    · obtain rfl := Option.some.inj decimal
      rw [Marker.toValue, insert_first, insert_payload _ _ _ (by decide) (by decide)]
      exact same_tagged tagged second rfl
    · cases decimal
  · split at matched
    · rename_i symbol
      subst symbol
      split at matched
      · rename_i one
        obtain rfl := Option.some.inj matched
        rw [Marker.toValue, insert_first]
        exact same_lone tagged one
      · obtain ⟨description, found, rfl⟩ := Option.map_eq_some_iff.mp matched
        obtain ⟨payload, second, text⟩ := Option.bind_eq_some_iff.mp found
        obtain rfl := asStr_some text
        rw [Marker.toValue, insert_first]
        rw [insert_payload _ _ _ (by decide) (by decide)]
        exact same_tagged tagged second rfl
    · split at matched
      · rename_i string
        subst string
        obtain ⟨values, found, all⟩ := Option.bind_eq_some_iff.mp matched
        obtain ⟨units, each, rfl⟩ := Option.map_eq_some_iff.mp all
        obtain ⟨payload, second, list⟩ := Option.bind_eq_some_iff.mp found
        obtain rfl := asArray_some list
        rw [Marker.toValue, insert_first, insert_payload _ _ _ (by decide) (by decide), ← mapM_unitOf_some each]
        refine same_tagged tagged second (sameItems_refl ?_)
        rw [mapM_unitOf_some each]
        intro value member
        obtain ⟨u, -, rfl⟩ := List.mem_map.mp member
        exact rfl
      · split at matched
        · rename_i cycle
          subst cycle
          obtain ⟨up, found, positive⟩ := Option.bind_eq_some_iff.mp matched
          obtain ⟨payload, second, number⟩ := Option.bind_eq_some_iff.mp found
          obtain rfl := asU64_some number
          split at positive
          · obtain rfl := Option.some.inj positive
            rw [Marker.toValue, insert_first, insert_payload _ _ _ (by decide) (by decide)]
            exact same_tagged tagged second rfl
          · cases positive
        · obtain ⟨special, found, rfl⟩ := Option.map_eq_some_iff.mp matched
          obtain ⟨one, again⟩ := special_some tagged found
          rw [Marker.toValue, Special.toValue, insert_first, tag_of_fromTag again]
          exact same_lone tagged one

end Serde

end Xript
