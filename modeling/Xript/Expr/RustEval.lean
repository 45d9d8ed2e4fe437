import Xript.Expr.Syntax
import Xript.Json.RustCanonical
import Xript.Number.Format
import Xript.Number.RadixInteger
import Xript.Text.Case

namespace Xript

namespace Rust

/-- `String::from_utf16_lossy`: a unit that is half of no pair becomes U+FFFD. -/
def fromUtf16Lossy (units : JSString) : List Char :=
  (codePoints units).map fun c => if c.isValidChar then Char.ofNat c else Char.ofNat 0xFFFD

/-- `String::from_utf16`, the member key that units spell: `none` where a unit is half of no pair. -/
def keyString (key : JSString) : Option (List Char) :=
  if utf16 (fromUtf16Lossy key) = key then some (fromUtf16Lossy key) else none

/-- JavaScript's whitespace set for `String.prototype.trim`. -/
def isJsWhitespace (c : Nat) : Bool :=
  c == 0x9 || c == 0xB || c == 0xC || c == 0x20 || c == 0xA0 || c == 0xFEFF || c == 0xA || c == 0xD || c == 0x2028 ||
    c == 0x2029 || c == 0x1680 || (0x2000 ≤ c && c ≤ 0x200A) || c == 0x202F || c == 0x205F || c == 0x3000

def jsTrim (text : List Char) : List Char :=
  (text.dropWhile fun c => isJsWhitespace c.toNat).rdropWhile fun c => isJsWhitespace c.toNat

def jsTrimUnits (text : JSString) : JSString := (text.dropWhile isJsWhitespace).rdropWhile isJsWhitespace

/-- The radix that the second character of an unsigned integer literal announces. -/
def radixOf (c : Char) : Option Nat :=
  if c = 'x' ∨ c = 'X' then some 16 else if c = 'o' ∨ c = 'O' then some 8 else if c = 'b' ∨ c = 'B' then some 2 else none

/-- `js_number` past the radix literals; `parse` reads a decimal literal as the double nearest to it. -/
def decimalNumber (trimmed : List Char) : F64 :=
  let text := utf16 trimmed
  if text = js "Infinity" ∨ text = js "+Infinity" then .infinite false
  else if text = js "-Infinity" then .infinite true
  else if isDecimalLiteral text then F64.ofDecimalText text else .nan

/-- `js_number`: JavaScript's `Number(string)`. -/
def jsNumber (text : List Char) : F64 :=
  match jsTrim text with
  | [] => .finite (.zero false)
  | '0' :: x :: d :: digits =>
    match radixOf x with
    | some radix => (radixInteger (d :: digits) radix).getD .nan
    | none => decimalNumber ('0' :: x :: d :: digits)
  | trimmed => decimalNumber trimmed

/-- `js_string_to_number`: held to numbers that are finite, of texts that are not blank. -/
def jsStringToNumber (text : List Char) : Option F64 :=
  if jsTrim text = [] then none else (some (jsNumber text)).filter F64.isFinite

/-- `Math.round` as `round_half_up` computes it. -/
def roundHalfUp (value : F64) : F64 :=
  let floor := F64.floor value
  if F64.le (F64.ofRat (1 / 2)) (F64.sub value floor) then F64.add floor (F64.ofNat 1) else floor

/-- `f64::min` of two numbers; which of two zeros it gives is left open. -/
def minNumber (x y : F64) : F64 := if F64.lt y x then y else x

/-- `f64::max`, likewise. -/
def maxNumber (x y : F64) : F64 := if F64.lt x y then y else x

/-- `x.fract() == 0.0`. -/
def isWhole (x : F64) : Bool := F64.eq (F64.sub x (F64.trunc x)) (.finite (.zero false))

/-- The integer of `x as i64` and `x as usize`, cut to a range. -/
def castTo (low high : Int) : F64 → Int
  | .finite b => max low (min high (F64.truncate b.value))
  | .infinite negative => if negative then low else high
  | .nan => 0

def toI64 (x : F64) : Int := castTo (-2 ^ 63) (2 ^ 63 - 1) x

def toUsize (x : F64) : Nat := (castTo 0 (2 ^ 64 - 1) x).toNat

/-- A value while an expression evaluates. Its strings are UTF-16 units; arrays and objects only come from bindings, and
stay JSON. A number is the double that `as_f64` reads it as. -/
inductive X where
  | null
  | bool (b : Bool)
  | num (n : F64)
  | str (s : JSString)
  | arr (items : List Value)
  | obj (members : List (List Char × Value))

def droppedKeys : List (List Char) := ["__proto__".toList, "constructor".toList, "prototype".toList]

mutual

def scrub : Value → Value
  | .array items => .array (scrubItems items)
  | .object members => .object (scrubMap members)
  | other => other

def scrubItems : List Value → List Value
  | [] => []
  | item :: items => scrub item :: scrubItems items

def scrubMap : List (List Char × Value) → List (List Char × Value)
  | [] => []
  | (key, value) :: members =>
    if key ∈ droppedKeys then scrubMap members else (key, scrub value) :: scrubMap members

end

namespace X

def fromJson : Value → X
  | .null => .null
  | .bool b => .bool b
  | .number n => if n.isFinite then .num n else .null
  | .string s => .str (utf16 s)
  | .array items => .arr (scrubItems items)
  | .object members => .obj (scrubMap members)

/-- A computed number, `null` where it is not finite. -/
def ofNumber (value : F64) : X := if value.isFinite then .num value else .null

def intoJson : X → Value
  | .null => .null
  | .bool b => .bool b
  | .num n => .number n
  | .str s => .string (fromUtf16Lossy s)
  | .arr items => .array items
  | .obj members => .object members

def asNumber : X → Option F64
  | .num n => if n.isFinite then some n else none
  | _ => none

def isPrimitive : X → Bool
  | .arr _ | .obj _ => false
  | _ => true

def isString : X → Bool
  | .str _ => true
  | _ => false

end X

def truthy : X → Bool
  | .null => false
  | .bool b => b
  | .num n => !F64.eq n (.finite (.zero false)) && !n.isNaN
  | .str s => !s.isEmpty
  | .arr _ | .obj _ => true

/-- Two arrays or two objects are never equal, even to themselves. -/
def strictEqual : X → X → Bool
  | .null, .null => true
  | .bool a, .bool b => a == b
  | .num a, .num b =>
    match (X.num a).asNumber, (X.num b).asNumber with
    | some a, some b => F64.eq a b
    | _, _ => false
  | .str a, .str b => a == b
  | _, _ => false

/-- How two values are ordered: two numbers, or two strings by their units. -/
def orderOf : X → X → Option Ordering
  | .num a, .num b =>
    match (X.num a).asNumber, (X.num b).asNumber with
    | some a, some b => some (if F64.lt a b then .lt else if F64.eq a b then .eq else .gt)
    | _, _ => none
  | .str a, .str b => some (if a < b then .lt else if a = b then .eq else .gt)
  | _, _ => none

def compare (op : BinaryOp) (left right : X) : Bool :=
  match orderOf left right with
  | none => false
  | some order =>
    match op with
    | .lt => order = .lt
    | .le => order ≠ .gt
    | .gt => order = .gt
    | .ge => order ≠ .lt
    | _ => false

/-- The unit at an index, counted from the end when it is negative. -/
def unitAt (text : JSString) (index : Int) : X :=
  let resolved := if index < 0 then text.length + index else index
  if resolved < 0 then .null else (text[resolved.toNat]?).elim .null fun unit => .str [unit]

/-- What is written so far and the run that is open, after one more code point. -/
def mapCaseStep (map : List Char → JSString) (made : JSString × List Char) (c : Nat) : JSString × List Char :=
  if c.isValidChar then (made.1, made.2 ++ [Char.ofNat c]) else (made.1 ++ map made.2 ++ unitsOf c, [])

/-- Applies a case mapping to each run of well-formed UTF-16, passing other units through. -/
def mapCase (map : List Char → JSString) (text : JSString) : JSString :=
  let mapped := (codePoints text).foldl (mapCaseStep map) ([], [])
  mapped.1 ++ map mapped.2

/-- `str::to_uppercase` and `str::to_lowercase`, in UTF-16. -/
def toUppercase (run : List Char) : JSString := toUpperCase (utf16 run)

def toLowercase (run : List Char) : JSString := toLowerCase (utf16 run)

/-- The relative index of `String.prototype.slice`, computed in floating point. -/
def relativeIndex (index : F64) (length : Nat) : Nat :=
  let index := F64.trunc index
  let length := F64.ofNat length
  toUsize (if F64.lt index (.finite (.zero false)) then maxNumber (F64.add length index) (.finite (.zero false))
    else minNumber index length)

/-- The runs of a length in a list. -/
def windows {α : Type} (length : Nat) (items : List α) : List (List α) :=
  (List.range (items.length + 1 - length)).map fun i => (items.drop i).take length

def containsUnits (haystack needle : JSString) : Bool :=
  needle.isEmpty || (windows needle.length haystack).any fun window => window == needle

/-- `fill.iter().cycle().take(n)` of a fill that is not empty. -/
def cycleTake (fill : JSString) (n : Nat) : JSString := (List.replicate n fill).flatten.take n

/-- The element at a position, where that is a whole number inside the array. -/
def element (items : List Value) (position : F64) : X :=
  if !isWhole position || F64.lt position (.finite (.zero false)) || F64.le (F64.ofNat items.length) position then .null
  else (items[toUsize position]?).elim .null X.fromJson

def member (members : List (List Char × Value)) (key : JSString) : X :=
  ((keyString key).bind fun key => members.lookup key).elim .null X.fromJson

def readName (target : X) (name : JSString) : X :=
  match target with
  | .obj members => member members name
  | .arr items =>
    if name = js "length" then .ofNumber (F64.ofNat items.length) else element items (jsNumber (fromUtf16Lossy name))
  | .str text => if name = js "length" then .ofNumber (F64.ofNat text.length) else .null
  | _ => .null

section

variable (formatNumber : F64 → JSString) (formatFixed : F64 → Nat → JSString)

mutual

/-- `render_into` of a JSON value. That `from_json` strips an array's items again shows in no text. -/
def renderJson : Value → JSString
  | .null => []
  | .bool b => if b then js "true" else js "false"
  | .number n => if n.isFinite then formatNumber n else []
  | .string s => utf16 s
  | .array items => [44].intercalate (renderItems items)
  | .object _ => js "[object Object]"

def renderItems : List Value → List JSString
  | [] => []
  | item :: items => renderJson item :: renderItems items

end

def renderUnits : X → JSString
  | .null => []
  | .bool b => if b then js "true" else js "false"
  | .num n => if n.isFinite then formatNumber n else []
  | .str s => s
  | .arr items => [44].intercalate (renderItems formatNumber items)
  | .obj _ => js "[object Object]"

def readIndex (target : X) (index : F64) : X :=
  match target with
  | .obj members => member members (formatNumber index)
  | .arr items =>
    element items (if F64.lt index (.finite (.zero false)) then F64.add (F64.ofNat items.length) index else index)
  | .str text => if isWhole index then unitAt text (toI64 index) else .null
  | _ => .null

section

variable (args : List X)

/-- The builtins of one number. In every builtin an argument that is not there is a panic: `none`. -/
def numeric (op : F64 → F64) : Option X := do
  let value ← args[0]?
  return value.asNumber.elim .null fun x => .ofNumber (op x)

def foldNumbers (op : F64 → F64 → F64) (start : F64) : X :=
  (args.mapM X.asNumber).elim .null fun nums => .ofNumber (nums.foldl op start)

def callClamp : Option X := do
  let (x, lo, hi) := ((← args[0]?).asNumber, (← args[1]?).asNumber, (← args[2]?).asNumber)
  match x, lo, hi with
  | some x, some lo, some hi => if F64.le lo hi then return .ofNumber (minNumber (maxNumber x lo) hi) else return .null
  | _, _, _ => return .null

def callFixed : Option X := do
  let (x, n) := ((← args[0]?).asNumber, (← args[1]?).asNumber)
  match x, n with
  | some x, some n =>
    if isWhole n && F64.le (F64.ofNat 0) n && F64.le n (F64.ofNat 20) then return .str (formatFixed x (toUsize n))
    else return .null
  | _, _ => return .null

def textual (f : JSString → JSString) : Option X := do
  match ← args[0]? with
  | .str s => return .str (f s)
  | _ => return .null

/-- The width of `pad`, if it is one. -/
def padWidth (value : X) : Option Nat :=
  value.asNumber.bind fun n =>
    if isWhole n && F64.le (F64.ofNat 0) n && F64.le n (F64.ofNat 4096) then some (toUsize n) else none

def padFill : Option X → Option JSString
  | none => some [32]
  | some (.str s) => if s.isEmpty then none else some s
  | some _ => none

def callPad : Option X := do
  match ← args[0]? with
  | .str text =>
    match padWidth (← args[1]?), padFill args[2]? with
    | some width, some fill =>
      if width ≤ text.length then return .str text else return .str (cycleTake fill (width - text.length) ++ text)
    | _, _ => return .null
  | _ => return .null

/-- The end of `slice`, if it is one. -/
def sliceEnd (length : Nat) : Option X → Option Nat
  | none => some length
  | some value => value.asNumber.map fun n => relativeIndex n length

def callSlice : Option X := do
  match ← args[0]? with
  | .str text =>
    match (← args[1]?).asNumber.map fun n => relativeIndex n text.length with
    | some start =>
      match sliceEnd text.length args[2]? with
      | some stop => return .str (if start < stop then (text.drop start).take (stop - start) else [])
      | none => return .null
    | none => return .null
  | _ => return .null

def callLen : Option X := do
  match ← args[0]? with
  | .str s => return .ofNumber (F64.ofNat s.length)
  | .arr items => return .ofNumber (F64.ofNat items.length)
  | .obj members => return .ofNumber (F64.ofNat members.length)
  | _ => return .null

def callHas : Option X := do
  match ← args[0]?, ← args[1]? with
  | .str s, .str needle => return .bool (containsUnits s needle)
  | .str _, _ => return .bool false
  | .arr items, key => return .bool (items.any fun item => strictEqual (X.fromJson item) key)
  | .obj members, .str key => return .bool ((keyString key).any fun key => (members.lookup key).isSome)
  | .obj _, _ => return .bool false
  | _, _ => return .null

def callJoin : Option X := do
  match ← args[0]? with
  | .arr items =>
    match args[1]?.getD (.str [44]) with
    | .str sep => return .str (sep.intercalate (renderItems formatNumber items))
    | _ => return .null
  | _ => return .null

def callAt : Option X := do
  match (← args[1]?).asNumber with
  | some n =>
    if isWhole n then
      let index := toI64 n
      match ← args[0]? with
      | .str s => return unitAt s index
      | .arr items =>
        let resolved := if index < 0 then items.length + index else index
        if resolved < 0 then return .null else return (items[resolved.toNat]?).elim .null X.fromJson
      | _ => return .null
    else return .null
  | none => return .null

def callNum : Option X := do
  match ← args[0]? with
  | .num n => return (X.num n).asNumber.elim .null X.ofNumber
  | .bool b => return .ofNumber (F64.ofNat (if b then 1 else 0))
  | .str s => return (jsStringToNumber (fromUtf16Lossy s)).elim .null X.ofNumber
  | _ => return .null

/-- `builtins::call`. -/
def call (name : JSString) : Option X :=
  if name = js "abs" then numeric args F64.abs
  else if name = js "round" then numeric args roundHalfUp
  else if name = js "floor" then numeric args F64.floor
  else if name = js "ceil" then numeric args F64.ceil
  else if name = js "min" then some (foldNumbers args minNumber (.infinite false))
  else if name = js "max" then some (foldNumbers args maxNumber (.infinite true))
  else if name = js "clamp" then callClamp args
  else if name = js "fixed" then callFixed formatFixed args
  else if name = js "upper" then textual args (mapCase toUppercase)
  else if name = js "lower" then textual args (mapCase toLowercase)
  else if name = js "trim" then textual args jsTrimUnits
  else if name = js "pad" then callPad args
  else if name = js "slice" then callSlice args
  else if name = js "len" then callLen args
  else if name = js "has" then callHas args
  else if name = js "join" then callJoin formatNumber args
  else if name = js "at" then callAt args
  else if name = js "str" then (args[0]?).map fun value => .str (renderUnits formatNumber value)
  else if name = js "num" then callNum args
  else if name = js "bool" then (args[0]?).map fun value => .bool (truthy value)
  else some .null

end

def evalUnary (op : UnaryOp) (value : X) : X :=
  match op with
  | .not => .bool !truthy value
  | .neg => value.asNumber.elim .null fun n => .ofNumber (F64.neg n)
  | .pos => value.asNumber.elim .null .ofNumber

/-- The arithmetic operators on two numbers; a division by zero has no value. -/
def evalArithmetic (op : BinaryOp) (lhs rhs : X) : X :=
  match lhs.asNumber, rhs.asNumber with
  | some a, some b =>
    match op with
    | .add => .ofNumber (F64.add a b)
    | .sub => .ofNumber (F64.sub a b)
    | .mul => .ofNumber (F64.mul a b)
    | .div => if F64.eq b (.finite (.zero false)) then .null else .ofNumber (F64.div a b)
    | .rem => if F64.eq b (.finite (.zero false)) then .null else .ofNumber (F64.rem a b)
    | _ => .null
  | _, _ => .null

def evalBinary (op : BinaryOp) (lhs rhs : X) : X :=
  match op with
  | .eq => .bool (strictEqual lhs rhs)
  | .ne => .bool !strictEqual lhs rhs
  | .lt | .le | .gt | .ge => .bool (compare op lhs rhs)
  | .add =>
    if lhs.isString || rhs.isString then
      if !lhs.isPrimitive || !rhs.isPrimitive then .null
      else .str (renderUnits formatNumber lhs ++ renderUnits formatNumber rhs)
    else evalArithmetic .add lhs rhs
  | .sub | .mul | .div | .rem => evalArithmetic op lhs rhs

/-- An index into a target. -/
def evalIndex (target key : X) : X :=
  match key with
  | .num n => (X.num n).asNumber.elim .null (readIndex formatNumber target)
  | .str name => readName target name
  | _ => .null

variable (bindings : List (List Char × Value))

mutual

/-- `eval`; `none` is a panic. -/
def eval : ExprAst → Option X
  | .num text => some (.ofNumber (F64.ofText text))
  | .str value => some (.str value)
  | .bool value => some (.bool value)
  | .null => some .null
  | .name x => some (member bindings x)
  | .member obj name => do
    let target ← eval obj
    return readName target name
  | .index obj index => do
    let target ← eval obj
    let key ← eval index
    return evalIndex formatNumber target key
  | .unary op arg => do
    let value ← eval arg
    return evalUnary op value
  | .logical op left right => do
    let lhs ← eval left
    match op with
    | .and => if truthy lhs then eval right else return lhs
    | .or => if truthy lhs then return lhs else eval right
    | .nullish => if lhs matches .null then eval right else return lhs
  | .cond test cons alt => do
    let value ← eval test
    if truthy value then eval cons else eval alt
  | .call name args => do
    let evaluated ← evalArgs args
    call formatNumber formatFixed evaluated name
  | .binary op left right => do
    let lhs ← eval left
    let rhs ← eval right
    return evalBinary formatNumber op lhs rhs

def evalArgs : List ExprAst → Option (List X)
  | [] => some []
  | arg :: args => do
    let value ← eval arg
    let values ← evalArgs args
    return value :: values

end

def evaluateAst (ast : ExprAst) : Option Value := (eval formatNumber formatFixed bindings ast).map X.intoJson

end

end Rust

end Xript
