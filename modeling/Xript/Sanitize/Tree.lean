import Mathlib.Data.List.Sort
import Xript.Text.Record
import Xript.Sanitize.Rules

namespace Xript

/-- A JSON value: what a fragment prop carries and what an expression evaluates to. -/
inductive Json where
  | null
  | bool (b : Bool)
  | num (x : F64)
  | str (s : JSString)
  | arr (items : List Json)
  | obj (members : List (JSString × Json))

abbrev PropValue := Json

abbrev Props := Record PropValue

inductive TextSegment where
  | literal (value : JSString)
  | expr (source : JSString)
  deriving DecidableEq, Repr

inductive FragmentNode where
  | text (value : JSString) (segments : Option (List TextSegment))
  | element (name : JSString) (props : Props) (children : List FragmentNode) (selfClosing : Bool)

abbrev FragmentTree := List FragmentNode

def forbiddenPropNames : List JSString := ["__proto__", "constructor", "prototype"].map js

def escapeHtml (text : JSString) : JSString :=
  replaceUnit 62 (js "&gt;") (replaceUnit 60 (js "&lt;") (replaceUnit 38 (js "&amp;") text))

def escapeAttrValue (value : JSString) : JSString :=
  replaceUnit 62 (js "&gt;") (replaceUnit 60 (js "&lt;") (replaceUnit 39 (js "&#39;")
    (replaceUnit 34 (js "&quot;") (replaceUnit 38 (js "&amp;") value))))

mutual

/-- JavaScript's `String(value)` over JSON values. -/
def jsString : Json → JSString
  | .str s => s
  | .num x => x.toText
  | .bool b => if b then js "true" else js "false"
  | .null => js "null"
  | .arr items => [44].intercalate (jsStrings items)
  | .obj _ => js "[object Object]"

/-- The pieces an array joins: a `null` item contributes nothing. -/
def jsStrings : List Json → List JSString
  | [] => []
  | .null :: items => [] :: jsStrings items
  | item :: items => jsString item :: jsStrings items

end

def codePointRank (unit : Nat) : Nat :=
  if unit ≥ 0xE000 then unit - 0x800 else if unit ≥ 0xD800 then unit + 0x2000 else unit

/-- `compareCodePoints(a, b) <= 0`. -/
def codePointsLe : JSString → JSString → Bool
  | [], _ => true
  | _ :: _, [] => false
  | a :: s, b :: t =>
    if codePointRank a = codePointRank b then codePointsLe s t else codePointRank a < codePointRank b

def hexDigit (n : Nat) : Nat := if n < 10 then 48 + n else 87 + n

/-- The `\u` escape of a code unit, in four hexadecimal digits. -/
def unicodeEscape (unit : Nat) : JSString :=
  [92, 117, hexDigit (unit / 4096 % 16), hexDigit (unit / 256 % 16), hexDigit (unit / 16 % 16), hexDigit (unit % 16)]

def jsonUnits : JSString → JSString
  | [] => []
  | u :: s =>
    if u = 0x22 then js "\\\"" ++ jsonUnits s
    else if u = 0x5C then js "\\\\" ++ jsonUnits s
    else if u = 0x08 then js "\\b" ++ jsonUnits s
    else if u = 0x0C then js "\\f" ++ jsonUnits s
    else if u = 0x0A then js "\\n" ++ jsonUnits s
    else if u = 0x0D then js "\\r" ++ jsonUnits s
    else if u = 0x09 then js "\\t" ++ jsonUnits s
    else if u < 0x20 then unicodeEscape u ++ jsonUnits s
    else if 0xD800 ≤ u ∧ u ≤ 0xDBFF then
      match s with
      | v :: t =>
        if 0xDC00 ≤ v ∧ v ≤ 0xDFFF then u :: v :: jsonUnits t else unicodeEscape u ++ jsonUnits (v :: t)
      | [] => unicodeEscape u
    else if 0xDC00 ≤ u ∧ u ≤ 0xDFFF then unicodeEscape u ++ jsonUnits s
    else u :: jsonUnits s

def jsonString (value : JSString) : JSString := 34 :: jsonUnits value ++ [34]

mutual

def canonicalJson : Json → JSString
  | .null => js "null"
  | .str s => jsonString s
  | .num x => if x.isFinite then x.toText else js "null"
  | .bool b => if b then js "true" else js "false"
  | .arr items => 91 :: [44].intercalate (canonicalItems items) ++ [93]
  | .obj members =>
    let sorted := (canonicalMembers members).insertionSort fun a b => codePointsLe a.1 b.1
    123 :: [44].intercalate (sorted.map fun m => jsonString m.1 ++ 58 :: m.2) ++ [125]

def canonicalItems : List Json → List JSString
  | [] => []
  | item :: items => canonicalJson item :: canonicalItems items

def canonicalMembers : List (JSString × Json) → List (JSString × JSString)
  | [] => []
  | (key, value) :: members => (key, canonicalJson value) :: canonicalMembers members

end

mutual

/-- `JSON.stringify(value)`: the members of an object keep their order. -/
def stringifyJson : Json → JSString
  | .null => js "null"
  | .str s => jsonString s
  | .num x => if x.isFinite then x.toText else js "null"
  | .bool b => if b then js "true" else js "false"
  | .arr items => 91 :: [44].intercalate (stringifyItems items) ++ [93]
  | .obj members => 123 :: [44].intercalate (stringifyMembers members) ++ [125]

def stringifyItems : List Json → List JSString
  | [] => []
  | item :: items => stringifyJson item :: stringifyItems items

def stringifyMembers : List (JSString × Json) → List JSString
  | [] => []
  | (key, value) :: members => (jsonString key ++ 58 :: stringifyJson value) :: stringifyMembers members

end

def containsObject : List Json → Bool
  | [] => false
  | .obj _ :: _ => true
  | .arr inner :: items => containsObject inner || containsObject items
  | _ :: items => containsObject items

/-- The text a prop value contributes as an HTML attribute value. -/
def propAttributeValue (value : Json) (declaredType : Option (List JSString)) : JSString :=
  match value with
  | .arr items =>
    if (declaredType.getD []).contains (js "array") || containsObject items then canonicalJson value
    else jsString value
  | .obj _ => canonicalJson value
  | _ => jsString value

/-- One attribute of an open tag. A malformed name, `false` and `null` print nothing. -/
def attributeToHtml (declaredType : Option (List JSString)) (key : JSString) (value : Json) : JSString :=
  if isValidAttributeName key then
    match value with
    | .bool true => 32 :: key
    | .bool false => []
    | .null => []
    | _ => 32 :: key ++ js "=\"" ++ escapeAttrValue (propAttributeValue value declaredType) ++ [34]
  else []

/-- The JSON Schema `type` a vocabulary declares for a node's prop. -/
abbrev PropTypeLookup := JSString → JSString → Option (List JSString)

def attributesToHtml (propType : PropTypeLookup) (name : JSString) (props : Props) : JSString :=
  props.flatMap fun entry => attributeToHtml (propType name entry.1) entry.1 entry.2

mutual

def nodeToHtml (propType : PropTypeLookup) : FragmentNode → JSString
  | .text value _ => escapeHtml value
  | .element name props children selfClosing =>
    let attrStr := attributesToHtml propType name props
    if name ∈ voidElements ∨ (selfClosing ∧ children.isEmpty) then 60 :: name ++ attrStr ++ js " />"
    else 60 :: name ++ attrStr ++ 62 :: nodesToHtml propType children ++ js "</" ++ name ++ [62]

def nodesToHtml (propType : PropTypeLookup) : List FragmentNode → JSString
  | [] => []
  | node :: nodes => nodeToHtml propType node ++ nodesToHtml propType nodes

end

/-- `treeToHtml` with a lookup of declared prop types. -/
def treeToHtmlWith (propType : PropTypeLookup) (tree : FragmentTree) : JSString := nodesToHtml propType tree

/-- `treeToHtml` without one: the built-in HTML vocabulary declares no prop types. -/
def treeToHtml (tree : FragmentTree) : JSString := treeToHtmlWith (fun _ _ => none) tree

end Xript
