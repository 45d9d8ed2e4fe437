import Xript.Expr.Parser

namespace Xript

/-- A decimal exponent with its digits. -/
inductive ExponentText : JSString → Prop where
  | plain {e : Nat} {digits : JSString} : e = 101 ∨ e = 69 → digits ≠ [] → digits.all isDigit →
      ExponentText (e :: digits)
  | signed {e sign : Nat} {digits : JSString} : e = 101 ∨ e = 69 → sign = 43 ∨ sign = 45 → digits ≠ [] →
      digits.all isDigit → ExponentText (e :: sign :: digits)

/-- A number literal. One that opens with its point takes no exponent. -/
inductive NumberText : JSString → Prop where
  | digits {whole : JSString} : whole ≠ [] → whole.all isDigit → NumberText whole
  | fraction {whole part : JSString} : whole.all isDigit → part ≠ [] → part.all isDigit →
      NumberText (whole ++ 46 :: part)
  | exponent {whole exp : JSString} : whole ≠ [] → whole.all isDigit → ExponentText exp →
      NumberText (whole ++ exp)
  | fractionExponent {whole part exp : JSString} : whole ≠ [] → whole.all isDigit → part ≠ [] →
      part.all isDigit → ExponentText exp → NumberText (whole ++ 46 :: part ++ exp)

/-- The text between the quotes of a string literal, and its content. -/
inductive StringBody (quote : Nat) : JSString → JSString → Prop where
  | nil : StringBody quote [] []
  | plain {u : Nat} {body content : JSString} : u ≠ quote → u ≠ 92 → u ≠ 10 → StringBody quote body content →
      StringBody quote (u :: body) (u :: content)
  | unicode {a b c d : Nat} {body content : JSString} :
      isHexDigit a ∧ isHexDigit b ∧ isHexDigit c ∧ isHexDigit d → StringBody quote body content →
      StringBody quote (92 :: 117 :: a :: b :: c :: d :: body)
        ((((hexUnit a * 16 + hexUnit b) * 16 + hexUnit c) * 16 + hexUnit d) :: content)
  | escape {e : Nat} {body content : JSString} : e ≠ 117 → StringBody quote body content →
      StringBody quote (92 :: e :: body) (escapedUnit e :: content)

/-- The spellings of the punctuators. -/
def punctuators : List (JSString × Punct) := punct3 ++ punct2 ++ punct1

inductive Lexeme : JSString → Tok → Prop where
  | num {text : JSString} : NumberText text → Lexeme text (.num text)
  | str {quote : Nat} {body content : JSString} : quote = 34 ∨ quote = 39 → StringBody quote body content →
      Lexeme (quote :: body ++ [quote]) (.str (quote :: body ++ [quote]) content)
  | name {c : Nat} {s : JSString} : isIdentStart c → s.all isIdentPart → Lexeme (c :: s) (.name (c :: s))
  | punct {text : JSString} {p : Punct} : (text, p) ∈ punctuators → Lexeme text (.punct p)

/-- Maximal munch: no longer text at the same place is a lexeme, nor one of the operators `++`, `--`,
`=>` and `?.` that the language deliberately lacks. -/
def Longest (text rest : JSString) : Prop :=
  ∀ longer, longer <+: text ++ rest → text.length < longer.length →
    longer ∉ absentOperators ∧ ∀ tok, ¬Lexeme longer tok

/-- The token sequence of a source text. -/
inductive Lexes : JSString → List Tok → Prop where
  | nil : Lexes [] []
  | space {c : Nat} {s : JSString} {toks : List Tok} : isExprSpace c → Lexes s toks → Lexes (c :: s) toks
  | token {text rest : JSString} {tok : Tok} {toks : List Tok} : Lexeme text tok → Longest text rest →
      Lexes rest toks → Lexes (text ++ rest) (tok :: toks)

inductive Nonterminal where
  | expr
  | level (level : Level)
  | unary
  | postfixed
  | primary
  deriving DecidableEq, Repr

def Level.operand (level : Level) : Nonterminal :=
  match level.tighter with
  | some tighter => .level tighter
  | none => .unary

/-- A name token that is neither a literal nor a reserved word. -/
def isIdentifier (name : JSString) : Prop :=
  name ∉ ["true", "false", "null"].map js ∧ name ∉ reservedWords

/-- The productions of the expression grammar. `Derives depth nt toks ast` says that `toks` derives
from `nt` with at most `depth` brackets open at any place, and that `ast` is its tree. -/
inductive Derives : Nat → Nonterminal → List Tok → ExprAst → Prop where
  | expr {d : Nat} {toks : List Tok} {ast : ExprAst} :
      Derives d (.level .nullish) toks ast → Derives d .expr toks ast
  | cond {d : Nat} {t c a : List Tok} {test cons alt : ExprAst} :
      Derives d (.level .nullish) t test → Derives d .expr c cons → Derives d .expr a alt →
      Derives d .expr (t ++ .punct .question :: (c ++ .punct .colon :: a)) (.cond test cons alt)
  | operand {d : Nat} {level : Level} {toks : List Tok} {ast : ExprAst} :
      Derives d level.operand toks ast → Derives d (.level level) toks ast
  | binary {d : Nat} {level : Level} {l r : List Tok} {left right : ExprAst} {p : Punct}
      {build : ExprAst → ExprAst → ExprAst} :
      Derives d (.level level) l left → level.operator p = some build → Derives d level.operand r right →
      Derives d (.level level) (l ++ .punct p :: r) (build left right)
  | unary {d : Nat} {toks : List Tok} {p : Punct} {op : UnaryOp} {arg : ExprAst} :
      unaryOperator p = some op → Derives d .unary toks arg →
      Derives d .unary (.punct p :: toks) (.unary op arg)
  | postfixed {d : Nat} {toks : List Tok} {ast : ExprAst} :
      Derives d .postfixed toks ast → Derives d .unary toks ast
  | primary {d : Nat} {toks : List Tok} {ast : ExprAst} :
      Derives d .primary toks ast → Derives d .postfixed toks ast
  | member {d : Nat} {toks : List Tok} {obj : ExprAst} {key : JSString} :
      Derives d .postfixed toks obj →
      Derives d .postfixed (toks ++ [.punct .dot, .name key]) (.member obj key)
  | index {d : Nat} {toks inner : List Tok} {obj key : ExprAst} :
      Derives (d + 1) .postfixed toks obj → Derives d .expr inner key →
      Derives (d + 1) .postfixed (toks ++ .punct .lbracket :: (inner ++ [.punct .rbracket])) (.index obj key)
  | num {d : Nat} {text : JSString} : Derives d .primary [.num text] (.num text)
  | str {d : Nat} {raw value : JSString} : Derives d .primary [.str raw value] (.str value)
  | true {d : Nat} : Derives d .primary [.name (js "true")] (.bool true)
  | false {d : Nat} : Derives d .primary [.name (js "false")] (.bool false)
  | null {d : Nat} : Derives d .primary [.name (js "null")] .null
  | name {d : Nat} {x : JSString} : isIdentifier x → Derives d .primary [.name x] (.name x)
  | call {d : Nat} {f : JSString} {arity : Nat × Option Nat} {args : List (List Tok × ExprAst)} :
      builtins.lookup f = some arity → arityAdmits arity args.length →
      (∀ arg, arg ∈ args → Derives d .expr arg.1 arg.2) →
      Derives (d + 1) .primary
        (.name f :: .punct .lparen :: ([Tok.punct .comma].intercalate (args.map Prod.fst) ++ [.punct .rparen]))
        (.call f (args.map Prod.snd))
  | group {d : Nat} {toks : List Tok} {ast : ExprAst} :
      Derives d .expr toks ast →
      Derives (d + 1) .primary (.punct .lparen :: (toks ++ [.punct .rparen])) ast

/-- `names` lists the members of `reads`, each once, in the order of their first appearances. -/
structure FirstAppearances (names reads : List JSString) : Prop where
  exact : ∀ x, x ∈ names ↔ x ∈ reads
  once : names.Nodup
  ordered : names.Pairwise fun x y => reads.idxOf x < reads.idxOf y

end Xript
