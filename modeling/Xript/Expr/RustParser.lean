import Xript.Expr.Parser

namespace Xript.Rust

/-- A token of the Rust lexer. A `String` is kept as its UTF-16 units, a number as the text that is
parsed to an `f64`. -/
inductive Tok where
  | num (text : JSString)
  | str (value : JSString)
  | name (value : JSString)
  | punct (p : Punct)
  | eof
  deriving DecidableEq, Repr

structure Token where
  tok : Tok
  pos : Nat
  deriving DecidableEq, Repr

def fail {α : Type} (pos : Nat) (message : JSString) : Except ExpressionError α := .error ⟨pos, message⟩

def isAsciiDigit (c : Char) : Bool := isDigit c.toNat

def isAsciiHexdigit (c : Char) : Bool := isHexDigit c.toNat

def isSpace (c : Char) : Bool := c == ' ' || c == '\t' || c == '\n' || c == '\r' || c == '\x0b' || c == '\x0c'

def isNameStart (c : Char) : Bool := isLetter c.toNat || c == '_' || c == '$'

def isNamePart (c : Char) : Bool := isLetter c.toNat || isDigit c.toNat || c == '_' || c == '$'

/-- `matches!(chars.get(i), Some(d) if d.is_ascii_digit())`. -/
def digitNext (s : List Char) : Bool := s.head?.any isAsciiDigit

/-- The fraction at the start of `s`, where a digit follows the point. -/
def scanFraction (s : List Char) : List Char × List Char :=
  match s with
  | '.' :: t => if digitNext t then ('.' :: t.takeWhile isAsciiDigit, t.dropWhile isAsciiDigit) else ([], s)
  | _ => ([], s)

/-- The exponent at the start of `s`, where digits follow its sign. -/
def scanExponent (s : List Char) : List Char × List Char :=
  match s with
  | e :: t =>
    if e = 'e' ∨ e = 'E' then
      let sign := (t.take 1).filter fun c => c == '+' || c == '-'
      let u := t.drop sign.length
      if digitNext u then (e :: sign ++ u.takeWhile isAsciiDigit, u.dropWhile isAsciiDigit) else ([], s)
    else ([], s)
  | [] => ([], [])

/-- A number literal; one that opens with its point takes no exponent. -/
def scanNumber (s : List Char) : List Char × List Char :=
  let fraction := scanFraction (s.dropWhile isAsciiDigit)
  let exponent := if s.head? = some '.' then ([], fraction.2) else scanExponent fraction.2
  (s.takeWhile isAsciiDigit ++ fraction.1 ++ exponent.1, exponent.2)

def unterminated (start : Nat) : ExpressionError := ⟨start, js "unterminated string literal"⟩

def invalidEscape (i : Nat) : ExpressionError := ⟨i, js "invalid unicode escape"⟩

/-- The units an escaped character other than `u` stands for. -/
def escapedUnits (c : Char) : JSString :=
  if c = 'n' then [10] else if c = 't' then [9] else if c = 'r' then [13] else if c = 'b' then [8]
  else if c = 'f' then [12] else if c = '0' then [0] else unitsOf c.toNat

/-- The content of a string literal from offset `i` on, and the text after it. -/
def scanString (start : Nat) (quote : Char) : Nat → List Char → Except ExpressionError (JSString × List Char)
  | _, [] => .error (unterminated start)
  | i, c :: s =>
    if c = quote then .ok ([], s)
    else if c = '\n' then .error (unterminated start)
    else if c = '\\' then
      match s with
      | [] => .error (unterminated start)
      | 'u' :: p :: q :: r :: t :: u =>
        if isAsciiHexdigit p ∧ isAsciiHexdigit q ∧ isAsciiHexdigit r ∧ isAsciiHexdigit t then
          (scanString start quote (i + 6) u).map fun rest =>
            ((((hexUnit p.toNat * 16 + hexUnit q.toNat) * 16 + hexUnit r.toNat) * 16 + hexUnit t.toNat) :: rest.1,
              rest.2)
        else .error (invalidEscape (i + 1))
      | e :: t =>
        if e = 'u' then .error (invalidEscape (i + 1))
        else (scanString start quote (i + 2) t).map fun rest => (escapedUnits e ++ rest.1, rest.2)
    else (scanString start quote (i + 1) s).map fun rest => (unitsOf c.toNat ++ rest.1, rest.2)

def punct2 : List (List Char × Punct) := [
  (['=', '='], .eq), (['!', '='], .ne), (['<', '='], .le), (['>', '='], .ge), (['&', '&'], .andAnd),
  (['|', '|'], .orOr), (['?', '?'], .nullish)]

def punct1 : List (List Char × Punct) := [
  (['<'], .lt), (['>'], .gt), (['+'], .plus), (['-'], .minus), (['*'], .star), (['/'], .slash),
  (['%'], .percent), (['!'], .bang), (['?'], .question), ([':'], .colon), (['('], .lparen),
  ([')'], .rparen), (['['], .lbracket), ([']'], .rbracket), ([','], .comma), (['.'], .dot)]

def absentOperators : List (List Char) := [['+', '+'], ['-', '-'], ['=', '>'], ['?', '.']]

/-- `chars.get(i..i + n).unwrap_or(&[])`. -/
def window (n : Nat) (s : List Char) : List Char := if n ≤ s.length then s.take n else []

/-- The message for a character no token starts with. -/
def unexpectedMessage : List Char → JSString
  | '+' :: '+' :: _ => notInGrammar "'++' is"
  | '-' :: '-' :: _ => notInGrammar "'--' is"
  | '=' :: '>' :: _ => notInGrammar "arrow functions are"
  | '?' :: '.' :: _ => notInGrammar "optional chaining is"
  | '=' :: _ => notInGrammar "assignment is"
  | ';' :: _ => notInGrammar "statements are"
  | '\x7b' :: _ => notInGrammar "object literals and blocks are"
  | '\x7d' :: _ => notInGrammar "object literals and blocks are"
  | '&' :: _ => notInGrammar "bitwise operators are"
  | '|' :: _ => notInGrammar "bitwise operators are"
  | '^' :: _ => notInGrammar "bitwise operators are"
  | '~' :: _ => notInGrammar "bitwise operators are"
  | '\x60' :: _ => notInGrammar "template literals are"
  | '#' :: _ => js "block helpers ('\x7b\x7b#if\x7d\x7d', '\x7b\x7b#each\x7d\x7d') do not exist — a fragment carries no control flow"
  | c :: _ => js "unexpected character '" ++ unitsOf c.toNat ++ js "'"
  | [] => []

def scanPunct (s : List Char) : Option (Punct × Nat) :=
  if window 3 s = ['=', '=', '='] then some (.eq, 3)
  else if window 3 s = ['!', '=', '='] then some (.ne, 3)
  else
    match punct2.lookup (window 2 s) with
    | some p => some (p, 2)
    | none =>
      if window 2 s ∈ absentOperators then none else (punct1.lookup (s.take 1)).map fun p => (p, 1)

/-- Rust's documented grammar of a decimal `f64`: digits with at most one point among or around them,
then an optional exponent. -/
def parsesAsF64 (text : List Char) : Bool :=
  let rest := text.dropWhile isAsciiDigit
  let whole := text.takeWhile isAsciiDigit
  let part := match rest with
    | '.' :: t => t.takeWhile isAsciiDigit
    | _ => []
  let tail := match rest with
    | '.' :: t => t.dropWhile isAsciiDigit
    | _ => rest
  (whole ≠ [] || part ≠ []) &&
    (tail == [] || ((scanExponent tail).1 ≠ [] && (scanExponent tail).2 == []))

/-- The token at the start of a text that does not start with whitespace, and the text after it. -/
def scanToken (i : Nat) : List Char → Except ExpressionError (Tok × List Char)
  | [] => .ok (.eof, [])
  | c :: s =>
    if isAsciiDigit c || (c == '.' && digitNext s) then
      if parsesAsF64 (scanNumber (c :: s)).1 then
        .ok (.num (utf16 (scanNumber (c :: s)).1), (scanNumber (c :: s)).2)
      else fail i (js "invalid number literal")
    else if c = '\x22' ∨ c = '\x27' then
      (scanString i c (i + 1) s).map fun rest => (.str rest.1, rest.2)
    else if isNameStart c then
      .ok (.name (utf16 ((c :: s).takeWhile isNamePart)), (c :: s).dropWhile isNamePart)
    else
      match scanPunct (c :: s) with
      | some (p, length) => .ok (.punct p, (c :: s).drop length)
      | none => fail i (unexpectedMessage (c :: s))

def tokenizeFrom : Nat → Nat → List Char → Except ExpressionError (List Token)
  | 0, i, _ => .ok [⟨.eof, i⟩]
  | _ + 1, i, [] => .ok [⟨.eof, i⟩]
  | n + 1, i, c :: s =>
    if isSpace c then tokenizeFrom n (i + 1) s
    else
      match scanToken i (c :: s) with
      | .error e => .error e
      | .ok (tok, rest) =>
        (tokenizeFrom n (i + ((c :: s).length - rest.length)) rest).map fun tokens => ⟨tok, i⟩ :: tokens

def tokenize (source : List Char) : Except ExpressionError (List Token) := tokenizeFrom source.length 0 source

/-- The parser's state, with the tokens from its index on. The last of them is the end marker, which
`next` never passes. -/
structure Parser where
  tokens : List Token
  count : Nat
  depth : Nat
  names : List JSString

def reservedWords : List JSString := [
  "function", "return", "var", "let", "const", "new", "delete", "typeof", "void", "in",
  "instanceof", "this", "class", "import", "export", "await", "yield", "if", "else", "for",
  "while", "do", "switch", "case", "try", "catch", "throw", "undefined", "globalThis", "eval",
  "arguments"].map js

/-- `builtin_arity`; a variadic tail has no greatest count. -/
def builtinArity (name : JSString) : Option (Nat × Option Nat) :=
  if name ∈ ["abs", "round", "floor", "ceil"].map js then some (1, some 1)
  else if name ∈ ["min", "max"].map js then some (1, none)
  else if name = js "clamp" then some (3, some 3)
  else if name = js "fixed" then some (2, some 2)
  else if name ∈ ["upper", "lower", "trim"].map js then some (1, some 1)
  else if name = js "pad" then some (2, some 3)
  else if name = js "slice" then some (2, some 3)
  else if name = js "len" then some (1, some 1)
  else if name = js "has" then some (2, some 2)
  else if name = js "join" then some (1, some 2)
  else if name = js "at" then some (2, some 2)
  else if name ∈ ["str", "num", "bool"].map js then some (1, some 1)
  else none

namespace Parser

def peek (st : Parser) : Token := st.tokens.headD ⟨.eof, 0⟩

def next (st : Parser) : Parser := { st with tokens := st.tokens.tail }

/-- `at(value)`. -/
def isAt (st : Parser) (p : Punct) : Bool := st.peek.tok == .punct p

def expect (p : Punct) (st : Parser) : Except ExpressionError Parser :=
  if st.isAt p then .ok st.next else fail st.peek.pos (js "expected '" ++ p.text ++ js "'")

def reserve (maxNodes : Nat) (st : Parser) : Except ExpressionError Parser :=
  if st.count + 1 > maxNodes then
    fail 0 (js "expression exceeds the " ++ decimal maxNodes ++ js "-node limit")
  else .ok { st with count := st.count + 1 }

def node (maxNodes : Nat) (ast : ExprAst) (st : Parser) : Except ExpressionError (ExprAst × Parser) := do
  let st ← reserve maxNodes st
  return (ast, st)

def enter (pos : Nat) (st : Parser) : Except ExpressionError Parser :=
  if st.depth + 1 > maxExpressionDepth then
    fail pos (js "expression nests deeper than " ++ decimal maxExpressionDepth ++ js " levels")
  else .ok { st with depth := st.depth + 1 }

def leave (st : Parser) : Parser := { st with depth := st.depth - 1 }

def addName (x : JSString) (st : Parser) : Parser :=
  if x ∈ st.names then st else { st with names := st.names ++ [x] }

/-- The operator of a level that the parser stands at, in the order the code asks for them. -/
def operatorAt (st : Parser) : Level → Option (ExprAst → ExprAst → ExprAst)
  | .nullish => if st.isAt .nullish then some (.logical .nullish) else none
  | .or => if st.isAt .orOr then some (.logical .or) else none
  | .and => if st.isAt .andAnd then some (.logical .and) else none
  | .equality =>
    if st.isAt .eq then some (.binary .eq) else if st.isAt .ne then some (.binary .ne) else none
  | .relational =>
    if st.isAt .le then some (.binary .le) else if st.isAt .ge then some (.binary .ge)
    else if st.isAt .lt then some (.binary .lt) else if st.isAt .gt then some (.binary .gt) else none
  | .additive =>
    if st.isAt .plus then some (.binary .add) else if st.isAt .minus then some (.binary .sub) else none
  | .multiplicative =>
    if st.isAt .star then some (.binary .mul) else if st.isAt .slash then some (.binary .div)
    else if st.isAt .percent then some (.binary .rem) else none

def unaryAt (st : Parser) : Option UnaryOp :=
  if st.isAt .bang then some .not else if st.isAt .minus then some .neg
  else if st.isAt .plus then some .pos else none

end Parser

open Xript.Rust.Parser

def arityMessage (name : JSString) (arity : Nat × Option Nat) (got : Nat) : JSString :=
  js "'" ++ name ++ js "' takes " ++ decimal arity.1 ++ 0x2013 :: (arity.2.elim (js "n") decimal) ++
    js " argument(s), got " ++ decimal got

section

variable (maxNodes : Nat)

mutual

def parseExpr : Nat → Parser → Except ExpressionError (ExprAst × Parser)
  | 0, _ => fail 0 []
  | n + 1, st => do
    let (test, st) ← parseLevel n .nullish st
    if st.isAt .question then
      let (cons, st) ← parseExpr n st.next
      let st ← expect .colon st
      let (alt, st) ← parseExpr n st
      node maxNodes (.cond test cons alt) st
    else return (test, st)

/-- `parse_nullish`, `parse_or`, `parse_and`, `parse_equality`, `parse_relational`, `parse_additive`
and `parse_multiplicative`. -/
def parseLevel : Nat → Level → Parser → Except ExpressionError (ExprAst × Parser)
  | 0, _, _ => fail 0 []
  | n + 1, level, st => do
    let (left, st) ← parseOperand n level st
    levelLoop n level left st

def parseOperand : Nat → Level → Parser → Except ExpressionError (ExprAst × Parser)
  | 0, _, _ => fail 0 []
  | n + 1, level, st =>
    match level.tighter with
    | some tighter => parseLevel n tighter st
    | none => parseUnary n st

def levelLoop : Nat → Level → ExprAst → Parser → Except ExpressionError (ExprAst × Parser)
  | 0, _, _, _ => fail 0 []
  | n + 1, level, left, st =>
    match st.operatorAt level with
    | none => .ok (left, st)
    | some build => do
      let (right, st) ← parseOperand n level st.next
      let (left, st) ← node maxNodes (build left right) st
      levelLoop n level left st

def parseUnary : Nat → Parser → Except ExpressionError (ExprAst × Parser)
  | 0, _ => fail 0 []
  | n + 1, st =>
    match st.unaryAt with
    | none => parsePostfix n st
    | some op => do
      let st ← reserve maxNodes st.next
      let (arg, st) ← parseUnary n st
      return (.unary op arg, st)

def parsePostfix : Nat → Parser → Except ExpressionError (ExprAst × Parser)
  | 0, _ => fail 0 []
  | n + 1, st => do
    let (target, st) ← parsePrimary n st
    postfixLoop n target st

def postfixLoop : Nat → ExprAst → Parser → Except ExpressionError (ExprAst × Parser)
  | 0, _, _ => fail 0 []
  | n + 1, target, st =>
    if st.isAt .dot then
      match st.next.peek.tok with
      | .name key => do
        let (target, st) ← node maxNodes (.member target key) st.next.next
        postfixLoop n target st
      | _ => fail st.next.peek.pos (js "expected a property name after '.'")
    else if st.isAt .lbracket then do
      let inside ← enter st.peek.pos st.next
      let (key, st) ← parseExpr n inside
      let st ← expect .rbracket st.leave
      let (target, st) ← node maxNodes (.index target key) st
      postfixLoop n target st
    else if st.isAt .lparen then
      fail st.peek.pos (js "only builtin functions are callable; a binding value is not")
    else .ok (target, st)

def parsePrimary : Nat → Parser → Except ExpressionError (ExprAst × Parser)
  | 0, _ => fail 0 []
  | n + 1, st =>
    match st.peek.tok with
    | .num text => node maxNodes (.num text) st.next
    | .str value => node maxNodes (.str value) st.next
    | .name name =>
      if name = js "true" then node maxNodes (.bool true) st.next
      else if name = js "false" then node maxNodes (.bool false) st.next
      else if name = js "null" then node maxNodes .null st.next
      else if name ∈ reservedWords then
        fail st.peek.pos (js "'" ++ name ++ js "' is not part of the xript expression grammar")
      else if st.next.isAt .lparen then
        match builtinArity name with
        | none => fail st.peek.pos (js "unknown function '" ++ name ++ js "' — only builtins are callable")
        | some arity => do
          let inside ← enter st.next.peek.pos st.next.next
          let (args, inner) ← parseArgs n inside
          let after ← expect .rparen inner.leave
          if arityAdmits arity args.length then node maxNodes (.call name args) after
          else fail st.peek.pos (arityMessage name arity args.length)
      else node maxNodes (.name name) (addName name st.next)
    | .punct .lparen => do
      let inside ← enter st.peek.pos st.next
      let (inner, st) ← parseExpr n inside
      let st ← expect .rparen st.leave
      return (inner, st)
    | .eof => fail st.peek.pos (js "unexpected end of expression")
    | .punct p => fail st.peek.pos (js "unexpected token '" ++ p.text ++ js "'")

def parseArgs : Nat → Parser → Except ExpressionError (List ExprAst × Parser)
  | 0, _ => fail 0 []
  | n + 1, st => if st.isAt .rparen then .ok ([], st) else parseArgList n st

def parseArgList : Nat → Parser → Except ExpressionError (List ExprAst × Parser)
  | 0, _ => fail 0 []
  | n + 1, st => do
    let (arg, st) ← parseExpr n st
    if st.isAt .comma then
      let (args, st) ← parseArgList n st.next
      return (arg :: args, st)
    else return ([arg], st)

end

/-- Rust's `char::is_whitespace`. -/
def isWhitespace (c : Char) : Bool :=
  (9 ≤ c.toNat && c.toNat ≤ 13) || c.toNat == 0x20 || c.toNat == 0x85 || c.toNat == 0xA0 || c.toNat == 0x1680 ||
    (0x2000 ≤ c.toNat && c.toNat ≤ 0x200A) || c.toNat == 0x2028 || c.toNat == 0x2029 || c.toNat == 0x202F ||
    c.toNat == 0x205F || c.toNat == 0x3000

/-- The text of a token in the error for input after the expression. A number there is printed as an
`f64`, of which only the literal is kept here. -/
def Tok.text : Tok → JSString
  | .num text => text
  | .str value => value
  | .name value => value
  | .punct p => p.text
  | .eof => []

/-- `parse_with_limit`. -/
def parseWithLimit (source : List Char) : Except ExpressionError ParsedExpression :=
  if source.all isWhitespace then fail 0 (js "empty expression")
  else do
    let tokens ← tokenize source
    let (ast, st) ← parseExpr maxNodes (30 * tokens.length + 30) ⟨tokens, 0, 0, []⟩
    if st.peek.tok = .eof then return ⟨utf16 source, ast.kind, ast, st.names, st.count⟩
    else fail st.peek.pos (js "unexpected token '" ++ st.peek.tok.text ++ js "'")

end

end Xript.Rust
