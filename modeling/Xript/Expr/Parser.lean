import Xript.Expr.Lexer
import Xript.Number.Text

namespace Xript

/-- The levels of left-associative infix operators, loosest first. -/
inductive Level where
  | nullish
  | or
  | and
  | equality
  | relational
  | additive
  | multiplicative
  deriving DecidableEq, Repr

/-- The level of the operands of a level; the operands of the tightest one are unary expressions. -/
def Level.tighter : Level → Option Level
  | .nullish => some .or
  | .or => some .and
  | .and => some .equality
  | .equality => some .relational
  | .relational => some .additive
  | .additive => some .multiplicative
  | .multiplicative => none

/-- The node an operator of a level builds from its two operands. -/
def Level.operator : Level → Punct → Option (ExprAst → ExprAst → ExprAst)
  | .nullish, .nullish => some (.logical .nullish)
  | .or, .orOr => some (.logical .or)
  | .and, .andAnd => some (.logical .and)
  | .equality, .eq => some (.binary .eq)
  | .equality, .ne => some (.binary .ne)
  | .relational, .lt => some (.binary .lt)
  | .relational, .gt => some (.binary .gt)
  | .relational, .le => some (.binary .le)
  | .relational, .ge => some (.binary .ge)
  | .additive, .plus => some (.binary .add)
  | .additive, .minus => some (.binary .sub)
  | .multiplicative, .star => some (.binary .mul)
  | .multiplicative, .slash => some (.binary .div)
  | .multiplicative, .percent => some (.binary .rem)
  | _, _ => none

def unaryOperator : Punct → Option UnaryOp
  | .bang => some .not
  | .minus => some .neg
  | .plus => some .pos
  | _ => none

/-- The parser's state: the tokens from its index on, the nodes counted so far, the brackets open,
and the names read. -/
structure ParserState where
  tokens : List ExprToken
  count : Nat
  depth : Nat
  names : List JSString

namespace ParserState

/-- `peek()`; the last token is the end marker, which is never passed. -/
def peek (st : ParserState) : ExprToken := st.tokens.headD ⟨.eof, 0⟩

/-- The punctuator the parser stands at. -/
def punct? (st : ParserState) : Option Punct :=
  match st.peek.tok with
  | .punct p => some p
  | _ => none

def advance (st : ParserState) : ParserState := { st with tokens := st.tokens.tail }

def fail {α : Type} (pos : Nat) (message : JSString) : Except ExpressionError α := .error ⟨pos, message⟩

def quoted (text : JSString) : JSString := 39 :: text ++ [39]

def expect (p : Punct) (st : ParserState) : Except ExpressionError ParserState :=
  if st.punct? = some p then .ok st.advance else fail st.peek.pos (js "expected " ++ quoted p.text)

/-- Counts a node against the cap. -/
def reserve (maxNodes : Nat) (st : ParserState) : Except ExpressionError ParserState :=
  if st.count + 1 > maxNodes then
    fail 0 (js "expression exceeds the " ++ decimal maxNodes ++ js "-node limit")
  else .ok { st with count := st.count + 1 }

def node (maxNodes : Nat) (ast : ExprAst) (st : ParserState) : Except ExpressionError (ExprAst × ParserState) := do
  let st ← reserve maxNodes st
  return (ast, st)

/-- Opens one bracketed level at the bracket the parser stands at. -/
def enter (st : ParserState) : Except ExpressionError ParserState :=
  if st.depth + 1 > maxExpressionDepth then
    fail st.peek.pos (js "expression nests deeper than " ++ decimal maxExpressionDepth ++ js " levels")
  else .ok { st.advance with depth := st.depth + 1 }

def leave (st : ParserState) : ParserState := { st with depth := st.depth - 1 }

def addName (x : JSString) (st : ParserState) : ParserState :=
  if x ∈ st.names then st else { st with names := st.names ++ [x] }

end ParserState

open ParserState

/-- The argument counts an arity admits, as the arity error spells them. -/
def arityText (arity : Nat × Option Nat) : JSString :=
  match arity.2 with
  | none => js "at least " ++ decimal arity.1
  | some most => if arity.1 = most then decimal arity.1 else decimal arity.1 ++ 0x2013 :: decimal most

def unknownFunction (name : JSString) : JSString :=
  js "unknown function " ++ quoted name ++ js " — the builtin table is " ++
    (js ", ").intercalate (builtins.map Prod.fst)

def arityMessage (name : JSString) (arity : Nat × Option Nat) (got : Nat) : JSString :=
  quoted name ++ js " takes " ++ arityText arity ++ js " argument(s), got " ++ decimal got

section

variable (maxNodes : Nat)

mutual

def parseExpr : Nat → ParserState → Except ExpressionError (ExprAst × ParserState)
  | 0, _ => fail 0 []
  | n + 1, st => do
    let (test, st) ← parseBinary n .nullish st
    if st.punct? = some .question then
      let (cons, st) ← parseExpr n st.advance
      let st ← expect .colon st
      let (alt, st) ← parseExpr n st
      node maxNodes (.cond test cons alt) st
    else return (test, st)

/-- `parseNullish`, `parseOr`, `parseAnd`, `parseEquality`, `parseRelational`, `parseAdditive` and
`parseMultiplicative`: an operand, then operators of the level while there are any. -/
def parseBinary : Nat → Level → ParserState → Except ExpressionError (ExprAst × ParserState)
  | 0, _, _ => fail 0 []
  | n + 1, level, st => do
    let (left, st) ← parseOperand n level st
    binaryLoop n level left st

def parseOperand : Nat → Level → ParserState → Except ExpressionError (ExprAst × ParserState)
  | 0, _, _ => fail 0 []
  | n + 1, level, st =>
    match level.tighter with
    | some tighter => parseBinary n tighter st
    | none => parseUnary n st

def binaryLoop : Nat → Level → ExprAst → ParserState → Except ExpressionError (ExprAst × ParserState)
  | 0, _, _, _ => fail 0 []
  | n + 1, level, left, st =>
    match st.punct?.bind level.operator with
    | none => .ok (left, st)
    | some build => do
      let (right, st) ← parseOperand n level st.advance
      let (left, st) ← node maxNodes (build left right) st
      binaryLoop n level left st

def parseUnary : Nat → ParserState → Except ExpressionError (ExprAst × ParserState)
  | 0, _ => fail 0 []
  | n + 1, st =>
    match st.punct?.bind unaryOperator with
    | none => parsePostfix n st
    | some op => do
      let st ← reserve maxNodes st.advance
      let (arg, st) ← parseUnary n st
      return (.unary op arg, st)

def parsePostfix : Nat → ParserState → Except ExpressionError (ExprAst × ParserState)
  | 0, _ => fail 0 []
  | n + 1, st => do
    let (target, st) ← parsePrimary n st
    postfixLoop n target st

def postfixLoop : Nat → ExprAst → ParserState → Except ExpressionError (ExprAst × ParserState)
  | 0, _, _ => fail 0 []
  | n + 1, target, st =>
    match st.punct? with
    | some .dot =>
      match st.advance.peek.tok with
      | .name key => do
        let (target, st) ← node maxNodes (.member target key) st.advance.advance
        postfixLoop n target st
      | _ => fail st.advance.peek.pos (js "expected a property name after '.'")
    | some .lbracket => do
      let st ← enter st
      let (key, st) ← parseExpr n st
      let st ← expect .rbracket st.leave
      let (target, st) ← node maxNodes (.index target key) st
      postfixLoop n target st
    | some .lparen => fail st.peek.pos (js "only builtin functions are callable; a binding value is not")
    | _ => .ok (target, st)

def parsePrimary : Nat → ParserState → Except ExpressionError (ExprAst × ParserState)
  | 0, _ => fail 0 []
  | n + 1, st =>
    match st.peek.tok with
    | .num text => node maxNodes (.num text) st.advance
    | .str _ value => node maxNodes (.str value) st.advance
    | .name name =>
      if name = js "true" then node maxNodes (.bool true) st.advance
      else if name = js "false" then node maxNodes (.bool false) st.advance
      else if name = js "null" then node maxNodes .null st.advance
      else if name ∈ reservedWords then
        fail st.peek.pos (quoted name ++ js " is not part of the xript expression grammar")
      else if st.advance.punct? = some .lparen then
        match builtins.lookup name with
        | none => fail st.peek.pos (unknownFunction name)
        | some arity => do
          let (args, inner) ← parseArgs n (← enter st.advance)
          let after ← expect .rparen inner.leave
          if arityAdmits arity args.length then node maxNodes (.call name args) after
          else fail st.peek.pos (arityMessage name arity args.length)
      else node maxNodes (.name name) (addName name st.advance)
    | .punct .lparen => do
      let (inner, st) ← parseExpr n (← enter st)
      let st ← expect .rparen st.leave
      return (inner, st)
    | .eof => fail st.peek.pos (js "unexpected end of expression")
    | .punct p => fail st.peek.pos (js "unexpected token " ++ quoted p.text)

/-- The arguments of a call up to its closing bracket. -/
def parseArgs : Nat → ParserState → Except ExpressionError (List ExprAst × ParserState)
  | 0, _ => fail 0 []
  | n + 1, st => if st.punct? = some .rparen then .ok ([], st) else parseArgList n st

def parseArgList : Nat → ParserState → Except ExpressionError (List ExprAst × ParserState)
  | 0, _ => fail 0 []
  | n + 1, st => do
    let (arg, st) ← parseExpr n st
    if st.punct? = some .comma then
      let (args, st) ← parseArgList n st.advance
      return (arg :: args, st)
    else return ([arg], st)

end

/-- `Parser.parse`. Every call of a parse function either passes a token or goes one level down, and
there are fewer than thirty levels, so this many calls always suffice. -/
def parseTokens (source : JSString) (tokens : List ExprToken) : Except ExpressionError ParsedExpression := do
  let (ast, st) ← parseExpr maxNodes (30 * tokens.length + 30) ⟨tokens, 0, 0, []⟩
  if st.peek.tok = .eof then return ⟨source, ast.kind, ast, st.names, st.count⟩
  else fail st.peek.pos (js "unexpected token " ++ quoted st.peek.tok.text)

def parseExpression (source : JSString) : Except ExpressionError ParsedExpression :=
  if trim source = [] then fail 0 (js "empty expression")
  else do
    let tokens ← exprTokens source
    parseTokens maxNodes source tokens

end

end Xript
