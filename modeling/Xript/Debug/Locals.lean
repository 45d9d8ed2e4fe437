import Mathlib.Logic.Relation
import Xript.Crossing.Inbound
import Xript.Debug.Controller
import Xript.Sanitize.Tree

namespace Xript

/-- A value the crossing delivers to a pause, among `size` containers: functions and symbols do not cross. -/
inductive Local (size : Nat) where
  | prim (p : Primitive)
  | object (ref : Fin size)
  deriving DecidableEq

inductive LocalCell (size : Nat) where
  | array (items : List (Local size))
  | object (members : Record (Local size))

/-- A locals object: its members and the containers they lead to, which may share members and form cycles. -/
structure Locals where
  size : Nat
  heap : Fin size → LocalCell size
  members : Record (Local size)

structure Variable where
  name : JSString
  value : JSString
  type : JSString
  variablesReference : Nat

/-- What a pause keeps of its variables; of the registry, every `set` in order. -/
structure VariableStore where
  registry : List (Nat × List Variable)
  counter : Nat
  frameScopes : Nat → Option Nat

/-- How showing a value ends early: below the recursion's last level, or with a thrown `TypeError`. -/
inductive ShowStop where
  | deep
  | typeError
  deriving DecidableEq

namespace VariableStore

def set (store : VariableStore) (ref : Nat) (vars : List Variable) : VariableStore :=
  { store with registry := store.registry ++ [(ref, vars)] }

/-- What the session answers for a reference: what it was last set to. -/
def variablesOf (store : VariableStore) (ref : Nat) : List Variable := (store.registry.reverse.lookup ref).getD []

end VariableStore

namespace Locals

variable {size : Nat}

/-- `Object.entries`. -/
def entries : LocalCell size → List (JSString × Local size)
  | .array items => items.zipIdx.map fun item => (decimal item.2, item.1)
  | .object members => members

section

variable (heap : Fin size → LocalCell size)

def typeOf : Local size → JSString
  | .prim .undefined => js "undefined"
  | .prim .null => js "null"
  | .prim (.bool _) => js "boolean"
  | .prim (.number _) => js "number"
  | .prim (.bigint _) => js "bigint"
  | .prim (.str _) => js "string"
  | .object ref =>
    match heap ref with
    | .array _ => js "array"
    | .object _ => js "object"

/-- `String` of a primitive. -/
def primText : Primitive → JSString
  | .undefined => js "undefined"
  | .null => js "null"
  | .bool b => if b then js "true" else js "false"
  | .number x => x.toText
  | .bigint n => bigintText n
  | .str s => s

/-- `JSON.stringify` inside some containers; none where it leaves the value out. -/
def stringify : Nat → List (Fin size) → Local size → Except ShowStop (Option JSString)
  | _, _, .prim .undefined => .ok none
  | _, _, .prim .null => .ok (js "null")
  | _, _, .prim (.bool b) => .ok (primText (.bool b))
  | _, _, .prim (.number x) => .ok (if x.isFinite then x.toText else js "null")
  | _, _, .prim (.str s) => .ok (jsonString s)
  | _, _, .prim (.bigint _) => .error .typeError
  | fuel, inside, .object ref =>
    if ref ∈ inside then .error .typeError
    else
      match fuel with
      | 0 => .error .deep
      | fuel + 1 =>
        match heap ref with
        | .array items =>
          (items.mapM (stringify fuel (ref :: inside))).map fun texts =>
            some (91 :: [44].intercalate (texts.map (·.getD (js "null"))) ++ [93])
        | .object members =>
          (members.mapM fun member => stringify fuel (ref :: inside) member.2).map fun texts =>
            some (123 :: [44].intercalate ((members.zip texts).filterMap fun member =>
              member.2.map (jsonString member.1.1 ++ 58 :: ·)) ++ [125])

/-- `String(value)` inside some arrays being joined. No delivered member is a function, so an own `toString` leaves an object
with no primitive value. -/
def stringOf : Nat → List (Fin size) → Local size → Except ShowStop JSString
  | _, _, .prim p => .ok (primText p)
  | 0, _, .object _ => .error .deep
  | fuel + 1, joining, .object ref =>
    match heap ref with
    | .object members => if (members.get (js "toString")).isSome then .error .typeError else .ok (js "[object Object]")
    | .array items =>
      if ref ∈ joining then .ok []
      else
        (items.mapM fun item =>
          if item = .prim .undefined ∨ item = .prim .null then .ok []
          else stringOf fuel (ref :: joining) item).map ([44].intercalate ·)

def displayString (fuel : Nat) : Local size → Except ShowStop JSString
  | .prim (.str s) => .ok s
  | .prim .undefined => .ok (js "undefined")
  | .prim .null => .ok (js "null")
  | value =>
    match stringify heap fuel [] value with
    | .ok text => .ok (text.getD (js "undefined"))
    | .error .typeError => stringOf heap fuel [] value
    | .error .deep => .error .deep

/-- The variables of some entries, one after another. -/
def mapEntries (visit : JSString → Local size → VariableStore → Except ShowStop (Variable × VariableStore)) :
    List (JSString × Local size) → VariableStore → Except ShowStop (List Variable × VariableStore)
  | [], store => .ok ([], store)
  | entry :: rest, store =>
    (visit entry.1 entry.2 store).bind fun first =>
      (mapEntries visit rest first.2).map fun others => (first.1 :: others.1, others.2)

def toVariable : Nat → JSString → Local size → VariableStore → Except ShowStop (Variable × VariableStore)
  | fuel, name, .prim p, store =>
    (displayString heap fuel (.prim p)).map fun text => (⟨name, text, typeOf heap (.prim p), 0⟩, store)
  | 0, _, .object _, _ => .error .deep
  | fuel + 1, name, .object ref, store =>
    (mapEntries (toVariable fuel) (entries (heap ref)) { store with counter := store.counter + 1 }).bind fun children =>
      (displayString heap (fuel + 1) (.object ref)).map fun text =>
        (⟨name, text, typeOf heap (.object ref), store.counter + 1⟩, children.2.set (store.counter + 1) children.1)

end

def registerScopeVariables (locals : Locals) (fuel : Nat) (store : VariableStore) : Except ShowStop (Nat × VariableStore) :=
  (mapEntries (toVariable locals.heap fuel) locals.members { store with counter := store.counter + 1 }).map fun vars =>
    (store.counter + 1, vars.2.set (store.counter + 1) vars.1)

/-- `enterPause` where the recursion over the locals may go `fuel` levels deep. -/
def enterPause (locals : Locals) (fuel : Nat) (core : DebugCore) (store : VariableStore) (reason : StopReason)
    (line column : Int) (frameName : String) : Except ShowStop (DebugCore × VariableStore) :=
  (locals.registerScopeVariables fuel { store with registry := [], counter := 0 }).map fun made =>
    (core.enterPause reason line column frameName,
      { made.2 with frameScopes := Function.update made.2.frameScopes 1 (some made.1) })

end Locals

end Xript
