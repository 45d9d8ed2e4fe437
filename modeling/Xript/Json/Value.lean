import Xript.Number.F64
import Xript.Text.CodeUnit

namespace Xript

/-- The JavaScript values that cross the runtime's boundaries. A function is known by a number; like any
object it may carry properties of its own. -/
inductive JsValue where
  | undefined
  | null
  | bool (b : Bool)
  | num (x : F64)
  | str (s : JSString)
  | arr (items : List JsValue)
  | obj (members : List (JSString × JsValue))
  | func (id : Nat) (members : List (JSString × JsValue))

end Xript
