import Xript.Expr.Syntax

namespace Xript

/-- The whitespace between tokens: space, tab, LF, CR, FF and VT. -/
def isExprSpace (u : Nat) : Bool :=
  u == 32 || u == 9 || u == 10 || u == 13 || u == 12 || u == 11

def isIdentStart (u : Nat) : Bool := isLetter u || u == 95 || u == 36

def isIdentPart (u : Nat) : Bool := isLetter u || isDigit u || u == 95 || u == 36

/-- The fraction at the start of `s`: a point that a digit follows, and its digits. -/
def scanFraction : JSString → JSString × JSString
  | 46 :: s =>
    if s.takeWhile isDigit = [] then ([], 46 :: s) else (46 :: s.takeWhile isDigit, s.dropWhile isDigit)
  | s => ([], s)

/-- The sign an exponent may have after its `e`. -/
def exponentSign : JSString → JSString
  | 43 :: _ => [43]
  | 45 :: _ => [45]
  | _ => []

/-- The exponent at the start of `s`, taken only where it has digits. -/
def scanExponent : JSString → JSString × JSString
  | [] => ([], [])
  | e :: s =>
    if e = 101 ∨ e = 69 then
      let t := s.drop (exponentSign s).length
      if t.takeWhile isDigit = [] then ([], e :: s)
      else (e :: exponentSign s ++ t.takeWhile isDigit, t.dropWhile isDigit)
    else ([], e :: s)

/-- A number literal at a digit. -/
def scanNumber (s : JSString) : JSString × JSString :=
  let fraction := scanFraction (s.dropWhile isDigit)
  let exponent := scanExponent fraction.2
  (s.takeWhile isDigit ++ fraction.1 ++ exponent.1, exponent.2)

/-- A number literal at a point that a digit follows takes no exponent. -/
def scanPointNumber (s : JSString) : JSString × JSString :=
  (46 :: s.takeWhile isDigit, s.dropWhile isDigit)

def unterminatedString (start : Nat) : ExpressionError := ⟨start, js "unterminated string literal"⟩

/-- The character an escape other than `\u` stands for. -/
def escapedUnit (u : Nat) : Nat :=
  if u = 110 then 10 else if u = 116 then 9 else if u = 114 then 13 else if u = 98 then 8
  else if u = 102 then 12 else if u = 48 then 0 else u

def hexUnit (u : Nat) : Nat := if isDigit u then u - 48 else if isUpper u then u - 55 else u - 87

/-- The content of a string literal that opened at `start`, read from offset `i` after its quote:
the content, the source text of the rest of the literal, and the text after it. -/
def scanString (start quote : Nat) : Nat → JSString → Except ExpressionError (JSString × JSString × JSString)
  | _, [] => .error (unterminatedString start)
  | i, u :: s =>
    if u = quote then .ok ([], [u], s)
    else if u = 92 then
      match s with
      | [] => .error (unterminatedString start)
      | 117 :: a :: b :: c :: d :: t =>
        if isHexDigit a ∧ isHexDigit b ∧ isHexDigit c ∧ isHexDigit d then
          (scanString start quote (i + 6) t).map fun r =>
            ((((hexUnit a * 16 + hexUnit b) * 16 + hexUnit c) * 16 + hexUnit d) :: r.1,
              u :: 117 :: a :: b :: c :: d :: r.2.1, r.2.2)
        else .error ⟨i + 1, js "invalid unicode escape"⟩
      | e :: t =>
        if e = 117 then .error ⟨i + 1, js "invalid unicode escape"⟩
        else (scanString start quote (i + 2) t).map fun r => (escapedUnit e :: r.1, u :: e :: r.2.1, r.2.2)
    else if u = 10 then .error (unterminatedString start)
    else (scanString start quote (i + 1) s).map fun r => (u :: r.1, u :: r.2.1, r.2.2)

def punct3 : List (JSString × Punct) := [(js "===", .eq), (js "!==", .ne)]

def punct2 : List (JSString × Punct) := [
  (js "==", .eq), (js "!=", .ne), (js "<=", .le), (js ">=", .ge), (js "&&", .andAnd), (js "||", .orOr),
  (js "??", .nullish)]

def punct1 : List (JSString × Punct) := [
  (js "<", .lt), (js ">", .gt), (js "+", .plus), (js "-", .minus), (js "*", .star), (js "/", .slash),
  (js "%", .percent), (js "!", .bang), (js "?", .question), (js ":", .colon), (js "(", .lparen),
  (js ")", .rparen), (js "[", .lbracket), (js "]", .rbracket), (js ",", .comma), (js ".", .dot)]

/-- The operators of two characters that are refused by name. -/
def absentOperators : List JSString := ["++", "--", "=>", "?."].map js

/-- The operator at the start of `s`, the longest first, and its length. -/
def scanPunct (s : JSString) : Option (Punct × Nat) :=
  match punct3.lookup (s.take 3) with
  | some p => some (p, 3)
  | none =>
    match punct2.lookup (s.take 2) with
    | some p => some (p, 2)
    | none => if s.take 2 ∈ absentOperators then none else (punct1.lookup (s.take 1)).map fun p => (p, 1)

def notInGrammar (what : String) : JSString := js what ++ js " not part of the xript expression grammar"

/-- The message for a character no token starts with. -/
def unexpectedMessage : JSString → JSString
  | 43 :: 43 :: _ => notInGrammar "'++' is"
  | 45 :: 45 :: _ => notInGrammar "'--' is"
  | 61 :: 62 :: _ => notInGrammar "arrow functions are"
  | 63 :: 46 :: _ => notInGrammar "optional chaining is"
  | 61 :: _ => notInGrammar "assignment is"
  | 59 :: _ => notInGrammar "statements are"
  | 123 :: _ => notInGrammar "object literals and blocks are"
  | 125 :: _ => notInGrammar "object literals and blocks are"
  | 38 :: _ => notInGrammar "bitwise operators are"
  | 124 :: _ => notInGrammar "bitwise operators are"
  | 94 :: _ => notInGrammar "bitwise operators are"
  | 126 :: _ => notInGrammar "bitwise operators are"
  | 96 :: _ => notInGrammar "template literals are"
  | 35 :: _ => js "block helpers ('\x7b\x7b#if\x7d\x7d', '\x7b\x7b#each\x7d\x7d') do not exist — a fragment carries no control flow"
  | c :: _ => js "unexpected character '" ++ [c] ++ js "'"
  | [] => []

/-- The token at the start of a non-empty text that does not start with whitespace, at offset `i`,
and the text after it. -/
def scanToken (i : Nat) : JSString → Except ExpressionError (Tok × JSString)
  | [] => .ok (.eof, [])
  | c :: s =>
    if isDigit c then .ok (.num (scanNumber (c :: s)).1, (scanNumber (c :: s)).2)
    else if c = 46 ∧ s.takeWhile isDigit ≠ [] then .ok (.num (scanPointNumber s).1, (scanPointNumber s).2)
    else if c = 34 ∨ c = 39 then
      (scanString i c (i + 1) s).map fun r => (.str (c :: r.2.1) r.1, r.2.2)
    else if isIdentStart c then .ok (.name ((c :: s).takeWhile isIdentPart), (c :: s).dropWhile isIdentPart)
    else
      match scanPunct (c :: s) with
      | some (p, length) => .ok (.punct p, (c :: s).drop length)
      | none => .error ⟨i, unexpectedMessage (c :: s)⟩

def exprTokensFrom : Nat → Nat → JSString → Except ExpressionError (List ExprToken)
  | 0, i, _ => .ok [⟨.eof, i⟩]
  | _ + 1, i, [] => .ok [⟨.eof, i⟩]
  | n + 1, i, c :: s =>
    if isExprSpace c then exprTokensFrom n (i + 1) s
    else
      match scanToken i (c :: s) with
      | .error e => .error e
      | .ok (tok, rest) =>
        (exprTokensFrom n (i + ((c :: s).length - rest.length)) rest).map fun tokens => ⟨tok, i⟩ :: tokens

/-- `tokenize` of the expression lexer. -/
def exprTokens (source : JSString) : Except ExpressionError (List ExprToken) :=
  exprTokensFrom source.length 0 source

end Xript
