import Xript.Expr.Eval

namespace Xript

/-- The implicit index name, in scope inside every copy. -/
def repeatIndexName : JSString := js "$index"

/-- The most copies one render may produce across every `data-each` of a fragment. -/
def maxRepeatCopies : Nat := 10000

def reservedBinderNames : List JSString := ["true", "false", "null", "in"].map js

/-- A `data-each` header: the item name, the optional index name, and the expression after `in`. -/
structure RepeatHeader where
  item : JSString
  index : Option JSString
  source : JSString
  expression : ParsedExpression

def skipHeaderSpace (s : JSString) : JSString := s.dropWhile isExprSpace

/-- The identifier at the start of `s`, and what follows it. -/
def takeIdent : JSString → Option (JSString × JSString)
  | [] => none
  | c :: s => if isIdentStart c then some ((c :: s).takeWhile isIdentPart, (c :: s).dropWhile isIdentPart) else none

def closeBinders (item : JSString) (index : Option JSString) :
    JSString → Except JSString (JSString × Option JSString × JSString)
  | 41 :: s => .ok (item, index, skipHeaderSpace s)
  | _ => .error (js "expected ')' to close the binder list")

/-- The binder names of a header and what follows them. -/
def readBinders : JSString → Except JSString (JSString × Option JSString × JSString)
  | 40 :: s =>
    match takeIdent (skipHeaderSpace s) with
    | none => .error (js "expected an item name after '('")
    | some (item, s) =>
      match skipHeaderSpace s with
      | 44 :: s =>
        match takeIdent (skipHeaderSpace s) with
        | none => .error (js "expected an index name after ','")
        | some (index, s) => closeBinders item (some index) (skipHeaderSpace s)
      | s => closeBinders item none s
  | s =>
    match takeIdent s with
    | none => .error (js "expected 'item in expression' or '(item, index) in expression'")
    | some (item, s) =>
      if s.head?.any isExprSpace then .ok (item, none, skipHeaderSpace s)
      else .error (js "expected whitespace before 'in'")

/-- `in`, which whitespace must follow. -/
def readIn : JSString → Except JSString JSString
  | 105 :: 110 :: c :: s =>
    if isExprSpace c then .ok (c :: s) else .error (js "expected 'in' followed by an expression")
  | _ => .error (js "expected 'in' followed by an expression")

def checkBinder (name : JSString) : Except JSString Unit :=
  if name ∈ reservedBinderNames then .error (js "'" ++ name ++ js "' cannot name a repeat binding") else .ok ()

/-- Parses a `data-each` header: `item in expr` or `(item, index) in expr`. -/
def parseRepeatHeader (source : JSString) : Except JSString RepeatHeader := do
  let (item, index, s) ← readBinders (skipHeaderSpace source)
  let s ← readIn s
  checkBinder item
  match index with
  | none => pure ()
  | some index =>
    checkBinder index
    if index = item then .error (js "the item and index cannot share the name '" ++ item ++ js "'")
  let rest := (skipHeaderSpace s).rdropWhile isExprSpace
  if rest = [] then .error (js "expected an expression after 'in'")
  else
    match parseExpression defaultMaxExpressionNodes rest with
    | .error e => .error e.message
    | .ok expression => return ⟨item, index, rest, expression⟩

/-- The elements a header repeats over; a value that is no array has none. -/
def evaluateRepeatItems (header : RepeatHeader) (bindings : Bindings) : List ExprValue :=
  match evaluateAst bindings header.expression.ast with
  | .arr items => items
  | _ => []

mutual

/-- A value of the expression language as the JavaScript value it is. -/
def hostValue : ExprValue → JsValue
  | .null => .null
  | .bool b => .bool b
  | .num x => .num x
  | .str s => .str s
  | .arr items => .arr (hostItems items)
  | .obj members => .obj (hostMembers members)

def hostItems : List ExprValue → List JsValue
  | [] => []
  | item :: items => hostValue item :: hostItems items

def hostMembers : List (JSString × ExprValue) → List (JSString × JsValue)
  | [] => []
  | (key, value) :: members => (key, hostValue value) :: hostMembers members

end

/-- The bindings a copy evaluates against: the enclosing scope, with `$index`, the item name and the index
name layered on top. -/
def repeatScope (bindings : Bindings) (header : RepeatHeader) (item : ExprValue) (index : Nat) : Bindings :=
  let position := JsValue.num (F64.ofNat index)
  let scope := (Record.set bindings.own repeatIndexName position).set header.item (hostValue item)
  match header.index with
  | none => { bindings with own := scope }
  | some name => { bindings with own := scope.set name position }

end Xript
