import Xript.Json.RoundTrip
import Xript.Json.Value

namespace Xript

def specialKey : JSString := js "$xript"

/-- The values the kernel spells as markers, by their tags. -/
def specialValues (tag : JSString) : Option JsValue :=
  if tag = js "undefined" then some .undefined
  else if tag = js "NaN" then some (.num .nan)
  else if tag = js "Infinity" then some (.num (.infinite false))
  else if tag = js "-Infinity" then some (.num (.infinite true))
  else if tag = js "-0" then some (.num (.finite (.zero true)))
  else none

def marker (tag : JSString) : Json := .obj [(specialKey, .str tag)]

/-- The tag `crossingReplacer` marks a number with. -/
def numberTag (x : F64) : Option JSString :=
  match x with
  | .nan => some (js "NaN")
  | .infinite false => some (js "Infinity")
  | .infinite true => some (js "-Infinity")
  | .finite b => if b.mantissa = 0 ∧ b.negative then some (js "-0") else none

/-- The function `JSON.stringify` calls in place of reading an object. -/
def toJsonMethod (members : List (JSString × JsValue)) : Option Nat :=
  match Record.get members (js "toJSON") with
  | some (.func id _) => some id
  | _ => none

section

/- What `JSON.stringify` goes on to write for the answer of a mod's function it calls as `toJSON`, given the
object it is called on and its key; `none` where the function throws. -/
variable (answers : Nat → JsValue → JSString → Option Json)

mutual

/-- What `JSON.stringify(value, crossingReplacer)` writes, as the tree its text spells. -/
def crossingTree (key : JSString) : JsValue → Option Json
  | .undefined => some (marker (js "undefined"))
  | .null => some .null
  | .bool b => some (.bool b)
  | .num x =>
    match numberTag x with
    | some tag => some (marker tag)
    | none => some (.num x)
  | .str s => some (.str s)
  | .arr items => (crossingItems 0 items).map .arr
  | .obj members =>
    match toJsonMethod members with
    | some id => answers id (.obj members) key
    | none => (crossingMembers members).map .obj
  | .func id members =>
    match toJsonMethod members with
    | some method => answers method (.func id members) key
    | none => some (marker (js "undefined"))

def crossingItems (index : Nat) : List JsValue → Option (List Json)
  | [] => some []
  | item :: items =>
    (crossingTree (decimal index) item).bind fun written =>
      (crossingItems (index + 1) items).map fun more => written :: more

def crossingMembers : List (JSString × JsValue) → Option (List (JSString × Json))
  | [] => some []
  | (key, value) :: members =>
    (crossingTree key value).bind fun written =>
      (crossingMembers members).map fun more => (key, written) :: more

end

def toCrossing (value : JsValue) : Option JSString := (crossingTree answers [] value).map stringifyJson

/-- The special value a one-key object spells. -/
def specialOf : Json → Option JsValue
  | .obj [(key, .str tag)] => if key = specialKey then specialValues tag else none
  | _ => none

mutual

def fromJson : Json → JsValue
  | .null => .null
  | .bool b => .bool b
  | .num x => .num x
  | .str s => .str s
  | .arr items => .arr (fromJsonItems items)
  | .obj members =>
    match specialOf (.obj members) with
    | some value => value
    | none => .obj (fromJsonMembers members)

def fromJsonItems : List Json → List JsValue
  | [] => []
  | item :: items => fromJson item :: fromJsonItems items

def fromJsonMembers : List (JSString × Json) → List (JSString × JsValue)
  | [] => []
  | (key, value) :: members => (key, fromJson value) :: fromJsonMembers members

end

/-- What arrives at the other worker, where anything does: `fromJson(parse(toCrossing(value)))`. -/
def received (value : JsValue) : Option JsValue :=
  (toCrossing answers value).bind fun text => (parseJson text).map fromJson

end

mutual

/-- The value with every function in it turned to `undefined`. -/
def JsValue.withoutFunctions : JsValue → JsValue
  | .arr items => .arr (JsValue.itemsWithoutFunctions items)
  | .obj members => .obj (JsValue.membersWithoutFunctions members)
  | .func _ _ => .undefined
  | .undefined => .undefined
  | .null => .null
  | .bool b => .bool b
  | .num x => .num x
  | .str s => .str s

def JsValue.itemsWithoutFunctions : List JsValue → List JsValue
  | [] => []
  | item :: items => item.withoutFunctions :: JsValue.itemsWithoutFunctions items

def JsValue.membersWithoutFunctions : List (JSString × JsValue) → List (JSString × JsValue)
  | [] => []
  | (key, value) :: members => (key, value.withoutFunctions) :: JsValue.membersWithoutFunctions members

end

mutual

/-- The values built without functions. -/
def JsValue.FunctionFree : JsValue → Prop
  | .arr items => JsValue.FunctionFreeItems items
  | .obj members => JsValue.FunctionFreeMembers members
  | .func _ _ => False
  | .undefined | .null | .bool _ | .num _ | .str _ => True

def JsValue.FunctionFreeItems : List JsValue → Prop
  | [] => True
  | item :: items => item.FunctionFree ∧ JsValue.FunctionFreeItems items

def JsValue.FunctionFreeMembers : List (JSString × JsValue) → Prop
  | [] => True
  | (_, value) :: members => value.FunctionFree ∧ JsValue.FunctionFreeMembers members

end

mutual

/-- Every object in the value lists its members as JavaScript enumerates them. -/
def JsValue.Ordered : JsValue → Prop
  | .arr items => JsValue.OrderedItems items
  | .obj members => Record.Ordered members ∧ JsValue.OrderedMembers members
  | .undefined | .null | .bool _ | .num _ | .str _ | .func _ _ => True

def JsValue.OrderedItems : List JsValue → Prop
  | [] => True
  | item :: items => item.Ordered ∧ JsValue.OrderedItems items

def JsValue.OrderedMembers : List (JSString × JsValue) → Prop
  | [] => True
  | (_, value) :: members => value.Ordered ∧ JsValue.OrderedMembers members

end

mutual

/-- No object and no function in the value has a function under its key `toJSON`. -/
def JsValue.Quiet : JsValue → Prop
  | .arr items => JsValue.QuietItems items
  | .obj members => toJsonMethod members = none ∧ JsValue.QuietMembers members
  | .func _ members => toJsonMethod members = none
  | .undefined | .null | .bool _ | .num _ | .str _ => True

def JsValue.QuietItems : List JsValue → Prop
  | [] => True
  | item :: items => item.Quiet ∧ JsValue.QuietItems items

def JsValue.QuietMembers : List (JSString × JsValue) → Prop
  | [] => True
  | (_, value) :: members => value.Quiet ∧ JsValue.QuietMembers members

end

/-- An ordinary object that reads as a marker: its one key is `$xript` and holds a known tag. -/
def looksLikeMarker : List (JSString × JsValue) → Bool
  | [(key, .str tag)] => key = specialKey && (specialValues tag).isSome
  | _ => false

mutual

/-- No object in the value reads as a marker. -/
def JsValue.MarkerFree : JsValue → Prop
  | .arr items => JsValue.MarkerFreeItems items
  | .obj members => looksLikeMarker members = false ∧ JsValue.MarkerFreeMembers members
  | .undefined | .null | .bool _ | .num _ | .str _ | .func _ _ => True

def JsValue.MarkerFreeItems : List JsValue → Prop
  | [] => True
  | item :: items => item.MarkerFree ∧ JsValue.MarkerFreeItems items

def JsValue.MarkerFreeMembers : List (JSString × JsValue) → Prop
  | [] => True
  | (_, value) :: members => value.MarkerFree ∧ JsValue.MarkerFreeMembers members

end

end Xript
