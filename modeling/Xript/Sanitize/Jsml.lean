import Xript.Sanitize.Tree

namespace Xript

mutual

/-- `toPropValue` on a value read from JSON: a forbidden member name is dropped at every depth. -/
def toPropValue : Json → PropValue
  | .arr items => .arr (toPropValues items)
  | .obj members => .obj (toPropMembers [] members)
  | value => value

def toPropValues : List Json → List PropValue
  | [] => []
  | item :: items => toPropValue item :: toPropValues items

def toPropMembers (result : Record PropValue) : List (JSString × Json) → Record PropValue
  | [] => result
  | (key, value) :: members =>
    if key ∈ forbiddenPropNames then toPropMembers result members
    else toPropMembers (Record.set result key (toPropValue value)) members

end

/-- The props of a J5ML element's attribute object. -/
def jsmlProps (raw : List (JSString × Json)) : Props :=
  raw.foldl (fun props entry => Record.set props entry.1 (toPropValue entry.2)) []

mutual

def jsmlNodeToTree : Json → Option FragmentNode
  | .str value => some (.text value none)
  | .arr (.str name :: .obj raw :: rest) => some (.element name (jsmlProps raw) (jsmlToTree rest) false)
  | .arr (.str name :: rest) => some (.element name [] (jsmlToTree rest) false)
  | _ => none

/-- `jsmlToTree`: what is not a node is left out. -/
def jsmlToTree : List Json → FragmentTree
  | [] => []
  | node :: nodes =>
    match jsmlNodeToTree node with
    | some converted => converted :: jsmlToTree nodes
    | none => jsmlToTree nodes

end

end Xript
