import Xript.Text.CodeUnit

namespace Xript

inductive UnaryOp where
  | not
  | neg
  | pos
  deriving DecidableEq, Repr

inductive BinaryOp where
  | eq
  | ne
  | lt
  | le
  | gt
  | ge
  | add
  | sub
  | mul
  | div
  | rem
  deriving DecidableEq, Repr

inductive LogicalOp where
  | and
  | or
  | nullish
  deriving DecidableEq, Repr

/-- The parsed shape of an expression. A number literal keeps the text it was read from; its value
is `Number(text)`. -/
inductive ExprAst where
  | num (text : JSString)
  | str (value : JSString)
  | bool (value : Bool)
  | null
  | name (x : JSString)
  | member (obj : ExprAst) (key : JSString)
  | index (obj key : ExprAst)
  | unary (op : UnaryOp) (arg : ExprAst)
  | binary (op : BinaryOp) (left right : ExprAst)
  | logical (op : LogicalOp) (left right : ExprAst)
  | cond (test cons alt : ExprAst)
  | call (f : JSString) (args : List ExprAst)

mutual

/-- The number of nodes of an expression. -/
def ExprAst.size : ExprAst → Nat
  | .member obj _ => obj.size + 1
  | .index obj key => obj.size + key.size + 1
  | .unary _ arg => arg.size + 1
  | .binary _ left right => left.size + right.size + 1
  | .logical _ left right => left.size + right.size + 1
  | .cond test cons alt => test.size + cons.size + alt.size + 1
  | .call _ args => sizeArgs args + 1
  | _ => 1

def ExprAst.sizeArgs : List ExprAst → Nat
  | [] => 0
  | arg :: args => arg.size + sizeArgs args

end

mutual

/-- The identifiers an expression reads, from left to right, with repetitions. -/
def ExprAst.reads : ExprAst → List JSString
  | .name x => [x]
  | .member obj _ => obj.reads
  | .index obj key => obj.reads ++ key.reads
  | .unary _ arg => arg.reads
  | .binary _ left right => left.reads ++ right.reads
  | .logical _ left right => left.reads ++ right.reads
  | .cond test cons alt => test.reads ++ cons.reads ++ alt.reads
  | .call _ args => readsArgs args
  | _ => []

def ExprAst.readsArgs : List ExprAst → List JSString
  | [] => []
  | arg :: args => arg.reads ++ readsArgs args

end

inductive ExpressionKind where
  | name
  | expression
  deriving DecidableEq, Repr

def ExprAst.kind : ExprAst → ExpressionKind
  | .name _ => .name
  | _ => .expression

structure ParsedExpression where
  source : JSString
  kind : ExpressionKind
  ast : ExprAst
  names : List JSString
  nodeCount : Nat

structure ExpressionError where
  position : Nat
  message : JSString
  deriving DecidableEq, Repr

inductive Punct where
  | eq
  | ne
  | le
  | ge
  | andAnd
  | orOr
  | nullish
  | lt
  | gt
  | plus
  | minus
  | star
  | slash
  | percent
  | bang
  | question
  | colon
  | lparen
  | rparen
  | lbracket
  | rbracket
  | comma
  | dot
  deriving DecidableEq, Repr

def Punct.text : Punct → JSString
  | .eq => js "=="
  | .ne => js "!="
  | .le => js "<="
  | .ge => js ">="
  | .andAnd => js "&&"
  | .orOr => js "||"
  | .nullish => js "??"
  | .lt => js "<"
  | .gt => js ">"
  | .plus => js "+"
  | .minus => js "-"
  | .star => js "*"
  | .slash => js "/"
  | .percent => js "%"
  | .bang => js "!"
  | .question => js "?"
  | .colon => js ":"
  | .lparen => js "("
  | .rparen => js ")"
  | .lbracket => js "["
  | .rbracket => js "]"
  | .comma => js ","
  | .dot => js "."

/-- A token without its place; a string token keeps its source text beside its content. -/
inductive Tok where
  | num (text : JSString)
  | str (raw value : JSString)
  | name (value : JSString)
  | punct (p : Punct)
  | eof
  deriving DecidableEq, Repr

/-- `token.value`, the text an error message quotes. -/
def Tok.text : Tok → JSString
  | .num text => text
  | .str raw _ => raw
  | .name value => value
  | .punct p => p.text
  | .eof => []

structure ExprToken where
  tok : Tok
  pos : Nat
  deriving DecidableEq, Repr

def defaultMaxExpressionNodes : Nat := 256

def maxExpressionDepth : Nat := 64

def reservedWords : List JSString := [
  "function", "return", "var", "let", "const", "new", "delete", "typeof", "void",
  "in", "instanceof", "this", "class", "import", "export", "await", "yield",
  "if", "else", "for", "while", "do", "switch", "case", "try", "catch", "throw",
  "undefined", "globalThis", "eval", "arguments"].map js

/-- Builtin call arity, as the least and the greatest argument count; `none` marks a variadic tail. -/
def builtins : List (JSString × Nat × Option Nat) := [
  (js "abs", 1, some 1), (js "round", 1, some 1), (js "floor", 1, some 1), (js "ceil", 1, some 1),
  (js "min", 1, none), (js "max", 1, none), (js "clamp", 3, some 3), (js "fixed", 2, some 2),
  (js "upper", 1, some 1), (js "lower", 1, some 1), (js "trim", 1, some 1), (js "pad", 2, some 3),
  (js "slice", 2, some 3), (js "len", 1, some 1), (js "has", 2, some 2), (js "join", 1, some 2),
  (js "at", 2, some 2), (js "str", 1, some 1), (js "num", 1, some 1), (js "bool", 1, some 1)]

theorem mem_of_lookup {α β : Type} [BEq α] [LawfulBEq α] {l : List (α × β)} {k : α} {b : β}
    (found : l.lookup k = some b) : (k, b) ∈ l := by
  obtain ⟨before, after, rfl, -⟩ := List.lookup_eq_some_iff.mp found
  exact List.mem_append_right _ (List.mem_cons_self ..)

/-- Whether a builtin of this arity takes `n` arguments. -/
def arityAdmits (arity : Nat × Option Nat) (n : Nat) : Bool :=
  arity.1 ≤ n && (match arity.2 with | some most => n ≤ most | none => true)

end Xript
