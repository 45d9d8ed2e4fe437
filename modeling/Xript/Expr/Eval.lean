import Xript.Expr.Parser
import Xript.Json.Value
import Xript.Repeat.Keys
import Xript.Text.Case

namespace Xript

/-- What a JavaScript builtin throws when an argument is out of its range. -/
inductive Thrown where
  | rangeError
  deriving DecidableEq

def isTruthy : ExprValue → Bool
  | .null => false
  | .bool b => b
  | .num x => !F64.eq x (.finite (.zero false)) && !x.isNaN
  | .str s => s ≠ []
  | .arr _ | .obj _ => true

mutual

/-- `str()`: the one stringification every runtime shares. `null` renders as empty. -/
def renderValue : ExprValue → JSString
  | .null => []
  | .str s => s
  | .bool b => if b then js "true" else js "false"
  | .num x => if x.isFinite then x.toText else []
  | .arr items => [44].intercalate (renderItems items)
  | .obj _ => js "[object Object]"

def renderItems : List ExprValue → List JSString
  | [] => []
  | item :: items => renderValue item :: renderItems items

end

def asNumber : ExprValue → Option F64
  | .num x => if x.isFinite then some x else none
  | _ => none

def finite (x : F64) : ExprValue := if x.isFinite then .num x else .null

def isPrimitive : ExprValue → Bool
  | .arr _ | .obj _ => false
  | _ => true

def strictEqual : ExprValue → ExprValue → Bool
  | .null, .null => true
  | .bool a, .bool b => a = b
  | .num x, .num y => F64.eq x y
  | .str s, .str t => s = t
  | _, _ => false

/-- The four orderings, on two numbers or on two strings by their code units. -/
def compare (op : BinaryOp) : ExprValue → ExprValue → Bool
  | .num x, .num y =>
    match op with
    | .lt => F64.lt x y
    | .le => F64.le x y
    | .gt => F64.lt y x
    | .ge => F64.le y x
    | _ => false
  | .str s, .str t =>
    match op with
    | .lt => s < t
    | .le => ¬t < s
    | .gt => t < s
    | .ge => ¬s < t
    | _ => false
  | _, _ => false

/-- The integer a double is, where it is one. -/
def toInteger : F64 → Int
  | .finite b => ⌊b.value⌋
  | _ => 0

/-- A length as a number. No string or array is longer than the greatest safe integer. -/
def lengthNumber (n : Nat) : F64 := F64.ofNat (min n (2 ^ 53 - 1))

/-- An index counted from the end when it is negative. -/
def fromEnd (length : Nat) (index : F64) : F64 :=
  if F64.lt index (.finite (.zero false)) then F64.add (lengthNumber length) index else index

/-- The element at a number that is a position of the list. -/
def itemAt {α : Type} (items : List α) (index : F64) : Option α :=
  if index.isInteger ∧ 0 ≤ toInteger index then items[(toInteger index).toNat]? else none

def unitAt (text : JSString) (index : F64) : ExprValue :=
  match itemAt text (fromEnd text.length index) with
  | some unit => .str [unit]
  | none => .null

/-- The key of a member access: a string or a number. -/
inductive MemberKey where
  | name (s : JSString)
  | index (x : F64)

def readMember : ExprValue → MemberKey → ExprValue
  | .str s, .index x => if x.isInteger then unitAt s x else .null
  | .str s, .name key => if key = js "length" then .num (lengthNumber s.length) else .null
  | .arr items, .name key =>
    if key = js "length" then .num (lengthNumber items.length) else (itemAt items (F64.ofText key)).getD .null
  | .arr items, .index x => (itemAt items (fromEnd items.length x)).getD .null
  | .obj members, .name key => (Record.get members key).getD .null
  | .obj members, .index x => (Record.get members x.toText).getD .null
  | _, _ => .null

/-- `Math.round`: the nearest integer, a half going up. -/
def mathRound : F64 → F64
  | .finite b => F64.integral b ⌊b.value + 1 / 2⌋
  | x => x

/-- `Math.min` and `Math.max` of two numbers, the negative zero being the lesser. -/
def mathMin (x y : F64) : F64 :=
  if x.isNaN || y.isNaN then .nan
  else if F64.lt x y then x else if F64.lt y x then y else if x.isNegative then x else y

def mathMax (x y : F64) : F64 :=
  if x.isNaN || y.isNaN then .nan
  else if F64.lt x y then y else if F64.lt y x then x else if x.isNegative then y else x

/-- `Number.prototype.toFixed`, which throws past a hundred digits. -/
def toFixedText (x : F64) (digits : Int) : Except Thrown JSString :=
  if digits < 0 ∨ 100 < digits then .error .rangeError else .ok (F64.toFixed x digits.toNat)

/-- `String.prototype.repeat`, which throws at a negative count. -/
def repeatText (text : JSString) (count : Int) : Except Thrown JSString :=
  if count < 0 then .error .rangeError else .ok (List.replicate count.toNat text).flatten

/-- The start or the end of a slice, clipped to the text. -/
def sliceBound (length : Nat) (x : F64) : Nat :=
  let n := match x with
    | .finite b => F64.truncate b.value
    | _ => 0
  if n < 0 then ((length : Int) + n).toNat else min n.toNat length

def includes (text part : JSString) : Bool := text.tails.any fun rest => part.isPrefixOf rest

/-- The numbers among the arguments, all of them or none. -/
def asNumbers (args : List ExprValue) : Option (List F64) := args.mapM asNumber

/-- `pad(s, n, ch)` past its checks. -/
def padText (s : JSString) (n : Int) (ch : JSString) : Except Thrown ExprValue :=
  if n ≤ s.length then .ok (.str s)
  else do
    let missing := n - s.length
    let filler ← repeatText ch ((missing + ch.length - 1) / ch.length)
    return .str (filler.take missing.toNat ++ s)

section

variable (args : List ExprValue)

/-- An argument of a call; the parser's arity check leaves none out. -/
def argument (i : Nat) : ExprValue := args.getD i .null

/-- The builtins of one number. -/
def ofNumber (f : F64 → F64) : Except Thrown ExprValue :=
  match asNumber (argument args 0) with
  | some x => .ok (.num (f x))
  | none => .ok .null

/-- The builtins of one string. -/
def ofString (f : JSString → JSString) : Except Thrown ExprValue :=
  match argument args 0 with
  | .str s => .ok (.str (f s))
  | _ => .ok .null

/-- `min` and `max`, from the value of no arguments on. -/
def foldNumbers (f : F64 → F64 → F64) (none : F64) : Except Thrown ExprValue :=
  match asNumbers args with
  | some nums => .ok (.num (nums.foldl f none))
  | _ => .ok .null

def callClamp : Except Thrown ExprValue :=
  match asNumber (argument args 0), asNumber (argument args 1), asNumber (argument args 2) with
  | some x, some lo, some hi => if F64.lt hi lo then .ok .null else .ok (.num (mathMin (mathMax x lo) hi))
  | _, _, _ => .ok .null

def callFixed : Except Thrown ExprValue :=
  match asNumber (argument args 0), asNumber (argument args 1) with
  | some x, some n =>
    if n.isInteger ∧ 0 ≤ toInteger n ∧ toInteger n ≤ 20 then (toFixedText x (toInteger n)).map .str else .ok .null
  | _, _ => .ok .null

def callPad : Except Thrown ExprValue :=
  let ch := if args.length > 2 then argument args 2 else .str [32]
  match argument args 0, asNumber (argument args 1), ch with
  | .str s, some n, .str filler =>
    if n.isInteger ∧ 0 ≤ toInteger n ∧ toInteger n ≤ 4096 ∧ filler ≠ [] then padText s (toInteger n) filler
    else .ok .null
  | _, _, _ => .ok .null

def callSlice : Except Thrown ExprValue :=
  match argument args 0, asNumber (argument args 1) with
  | .str s, some a =>
    let start := sliceBound s.length a
    if args.length > 2 then
      match asNumber (argument args 2) with
      | some b => .ok (.str ((s.take (sliceBound s.length b)).drop start))
      | none => .ok .null
    else .ok (.str (s.drop start))
  | _, _ => .ok .null

def callLen : Except Thrown ExprValue :=
  match argument args 0 with
  | .str s => .ok (.num (lengthNumber s.length))
  | .arr items => .ok (.num (lengthNumber items.length))
  | .obj members => .ok (.num (lengthNumber members.length))
  | _ => .ok .null

def callHas : Except Thrown ExprValue :=
  match argument args 0 with
  | .str s =>
    match argument args 1 with
    | .str key => .ok (.bool (includes s key))
    | _ => .ok (.bool false)
  | .arr items => .ok (.bool (items.any fun item => strictEqual item (argument args 1)))
  | .obj members =>
    match argument args 1 with
    | .str key => .ok (.bool (Record.get members key).isSome)
    | _ => .ok (.bool false)
  | _ => .ok .null

def callJoin : Except Thrown ExprValue :=
  let sep := if args.length > 1 then argument args 1 else .str [44]
  match argument args 0, sep with
  | .arr items, .str s => .ok (.str (s.intercalate (renderItems items)))
  | _, _ => .ok .null

def callAt : Except Thrown ExprValue :=
  match asNumber (argument args 1) with
  | some i =>
    if i.isInteger then
      match argument args 0 with
      | .str s => .ok (unitAt s i)
      | .arr items => .ok ((itemAt items (fromEnd items.length i)).getD .null)
      | _ => .ok .null
    else .ok .null
  | none => .ok .null

def callNum : Except Thrown ExprValue :=
  match argument args 0 with
  | .num x => .ok (finite x)
  | .bool b => .ok (.num (F64.ofNat (if b then 1 else 0)))
  | .str s => .ok (if trim s = [] then .null else finite (F64.ofText (trim s)))
  | _ => .ok .null

def callBuiltin (name : JSString) : Except Thrown ExprValue :=
  if name = js "abs" then ofNumber args F64.abs
  else if name = js "round" then ofNumber args mathRound
  else if name = js "floor" then ofNumber args F64.floor
  else if name = js "ceil" then ofNumber args F64.ceil
  else if name = js "min" then foldNumbers args mathMin (.infinite false)
  else if name = js "max" then foldNumbers args mathMax (.infinite true)
  else if name = js "clamp" then callClamp args
  else if name = js "fixed" then callFixed args
  else if name = js "upper" then ofString args toUpperCase
  else if name = js "lower" then ofString args toLowerCase
  else if name = js "trim" then ofString args trim
  else if name = js "pad" then callPad args
  else if name = js "slice" then callSlice args
  else if name = js "len" then callLen args
  else if name = js "has" then callHas args
  else if name = js "join" then callJoin args
  else if name = js "at" then callAt args
  else if name = js "str" then .ok (.str (renderValue (argument args 0)))
  else if name = js "num" then callNum args
  else if name = js "bool" then .ok (.bool (isTruthy (argument args 0)))
  else .ok .null

end

mutual

/-- Normalizes a host value into the values of the language: what JSON cannot express is dropped. -/
def toExprValue : JsValue → ExprValue
  | .undefined | .null | .func _ _ => .null
  | .bool b => .bool b
  | .num x => if x.isFinite then .num x else .null
  | .str s => .str s
  | .arr items => .arr (toExprItems items)
  | .obj members => .obj (toExprMembers members)

def toExprItems : List JsValue → List ExprValue
  | [] => []
  | item :: items => toExprValue item :: toExprItems items

def toExprMembers : List (JSString × JsValue) → List (JSString × ExprValue)
  | [] => []
  | (key, value) :: members =>
    if key ∈ forbiddenPropNames then toExprMembers members else (key, toExprValue value) :: toExprMembers members

end

/-- A bindings object: its own properties, and what its prototype chain holds. -/
structure Bindings where
  own : Record JsValue
  inherited : Record JsValue

def evalUnary (op : UnaryOp) (arg : ExprValue) : ExprValue :=
  match op with
  | .not => .bool !isTruthy arg
  | .neg => (asNumber arg).elim .null fun x => .num (F64.neg x)
  | .pos => (asNumber arg).elim .null .num

/-- The arithmetic operators on two numbers; a division by zero has no value. -/
def evalArithmetic (op : BinaryOp) (left right : ExprValue) : ExprValue :=
  match asNumber left, asNumber right with
  | some a, some b =>
    match op with
    | .add => finite (F64.add a b)
    | .sub => finite (F64.sub a b)
    | .mul => finite (F64.mul a b)
    | .div => if F64.eq b (.finite (.zero false)) then .null else finite (F64.div a b)
    | .rem => if F64.eq b (.finite (.zero false)) then .null else finite (F64.rem a b)
    | _ => .null
  | _, _ => .null

def isString : ExprValue → Bool
  | .str _ => true
  | _ => false

def evalBinary (op : BinaryOp) (left right : ExprValue) : ExprValue :=
  match op with
  | .eq => .bool (strictEqual left right)
  | .ne => .bool !strictEqual left right
  | .lt | .le | .gt | .ge => .bool (compare op left right)
  | .add =>
    if isString left || isString right then
      if isPrimitive left && isPrimitive right then .str (renderValue left ++ renderValue right) else .null
    else evalArithmetic .add left right
  | .sub | .mul | .div | .rem => evalArithmetic op left right

def readIndex (target key : ExprValue) : ExprValue :=
  match key with
  | .num x => readMember target (.index x)
  | .str s => readMember target (.name s)
  | _ => .null

section

variable (bindings : Bindings)

mutual

def evalNode : ExprAst → Except Thrown ExprValue
  | .num text => .ok (finite (F64.ofText text))
  | .str value => .ok (.str value)
  | .bool value => .ok (.bool value)
  | .null => .ok .null
  | .name x => .ok ((Record.get bindings.own x).elim .null toExprValue)
  | .member obj key => do
    let target ← evalNode obj
    return readMember target (.name key)
  | .index obj key => do
    let target ← evalNode obj
    let index ← evalNode key
    return readIndex target index
  | .unary op arg => do
    let value ← evalNode arg
    return evalUnary op value
  | .logical op left right => do
    let value ← evalNode left
    match op with
    | .and => if isTruthy value then evalNode right else return value
    | .or => if isTruthy value then return value else evalNode right
    | .nullish => if value matches .null then evalNode right else return value
  | .cond test cons alt => do
    let value ← evalNode test
    if isTruthy value then evalNode cons else evalNode alt
  | .call f args => do
    let values ← evalArgs args
    callBuiltin values f
  | .binary op left right => do
    let first ← evalNode left
    let second ← evalNode right
    return evalBinary op first second

def evalArgs : List ExprAst → Except Thrown (List ExprValue)
  | [] => return []
  | arg :: args => do
    let value ← evalNode arg
    let values ← evalArgs args
    return value :: values

end

/-- Evaluates a parsed expression; what an evaluation throws is caught and yields `null`. -/
def evaluateAst (ast : ExprAst) : ExprValue :=
  match evalNode bindings ast with
  | .ok value => value
  | .error _ => .null

/-- Evaluates a source string; one that does not parse yields `null`. -/
def evaluateExpression (source : JSString) : ExprValue :=
  match parseExpression defaultMaxExpressionNodes source with
  | .ok parsed => evaluateAst bindings parsed.ast
  | .error _ => .null

/-- `data-if`: the expression's truth. -/
def evaluateCondition (source : JSString) : Bool := isTruthy (evaluateExpression bindings source)

end

end Xript
