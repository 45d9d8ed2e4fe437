import Xript.Expr.Accepts
import Xript.Expr.RustLexerAgrees

namespace Xript

/-- The two parsers are at the same place. -/
structure ParserState.Sim (st : ParserState) (rs : Rust.Parser) : Prop where
  tokens : st.toks.map Tok.rust = rs.tokens.map Rust.Token.tok
  count : rs.count = st.count
  depth : rs.depth = st.depth
  names : rs.names = st.names

/-- Two runs agree: both fail, or both succeed with the same value at the same place. -/
def RunsAgree {α : Type} (ours : Except ExpressionError (α × ParserState))
    (theirs : Except ExpressionError (α × Rust.Parser)) : Prop :=
  match ours, theirs with
  | .ok (a, st), .ok (b, rs) => a = b ∧ st.Sim rs
  | .error _, .error _ => True
  | _, _ => False

/-- The same for runs that only move. -/
def MovesAgree (ours : Except ExpressionError ParserState) (theirs : Except ExpressionError Rust.Parser) : Prop :=
  match ours, theirs with
  | .ok st, .ok rs => st.Sim rs
  | .error _, .error _ => True
  | _, _ => False

theorem RunsAgree.bind {α β : Type} {ours : Except ExpressionError (α × ParserState)}
    {theirs : Except ExpressionError (α × Rust.Parser)}
    {f : α × ParserState → Except ExpressionError (β × ParserState)}
    {g : α × Rust.Parser → Except ExpressionError (β × Rust.Parser)} (first : RunsAgree ours theirs)
    (rest : ∀ a st rs, st.Sim rs → RunsAgree (f (a, st)) (g (a, rs))) : RunsAgree (ours >>= f) (theirs >>= g) := by
  cases ours with
  | error e =>
    cases theirs with
    | error e' => trivial
    | ok r' => exact first.elim
  | ok r =>
    cases theirs with
    | error e' => exact first.elim
    | ok r' =>
      obtain ⟨a, st⟩ := r
      obtain ⟨b, rs⟩ := r'
      obtain ⟨rfl, sim⟩ := first
      exact rest a st rs sim

theorem MovesAgree.bind {β : Type} {ours : Except ExpressionError ParserState}
    {theirs : Except ExpressionError Rust.Parser} {f : ParserState → Except ExpressionError (β × ParserState)}
    {g : Rust.Parser → Except ExpressionError (β × Rust.Parser)} (first : MovesAgree ours theirs)
    (rest : ∀ st rs, st.Sim rs → RunsAgree (f st) (g rs)) : RunsAgree (ours >>= f) (theirs >>= g) := by
  cases ours with
  | error e =>
    cases theirs with
    | error e' => trivial
    | ok r' => exact first.elim
  | ok r =>
    cases theirs with
    | error e' => exact first.elim
    | ok r' => exact rest r r' first

namespace ParserState.Sim

variable {st : ParserState} {rs : Rust.Parser} (sim : st.Sim rs)

include sim

theorem peek_eq : rs.peek.tok = st.peek.tok.rust := by
  obtain ⟨tokens, count, depth, names⟩ := st
  obtain ⟨tokens', count', depth', names'⟩ := rs
  have same := sim.tokens
  cases tokens with
  | nil =>
    cases tokens' with
    | nil => rfl
    | cons t' tokens' => cases same
  | cons t tokens =>
    cases tokens' with
    | nil => cases same
    | cons t' tokens' => exact (List.cons.inj same).1.symm

theorem advance : st.advance.Sim rs.next := by
  obtain ⟨tokens, count, depth, names⟩ := sim
  refine ⟨?_, count, depth, names⟩
  have tail := congrArg List.tail tokens
  simpa [toks, ParserState.advance, Rust.Parser.next] using tail

theorem isAt_eq (p : Punct) : rs.isAt p = decide (st.punct? = some p) := by
  unfold Rust.Parser.isAt punct?
  rw [sim.peek_eq]
  cases st.peek.tok <;> simp [Tok.rust, beq_eq_decide]

theorem isAt_iff (p : Punct) : rs.isAt p = true ↔ st.punct? = some p := by
  rw [sim.isAt_eq, decide_eq_true_eq]

theorem expect (p : Punct) : MovesAgree (st.expect p) (rs.expect p) := by
  unfold ParserState.expect Rust.Parser.expect
  by_cases here : st.punct? = some p
  · rw [if_pos here, if_pos ((sim.isAt_iff p).mpr here)]
    exact sim.advance
  · rw [if_neg here, if_neg fun is => here ((sim.isAt_iff p).mp is)]
    trivial

theorem reserve (maxNodes : Nat) : MovesAgree (st.reserve maxNodes) (rs.reserve maxNodes) := by
  unfold ParserState.reserve Rust.Parser.reserve
  rw [sim.count]
  split
  · trivial
  · exact ⟨sim.tokens, rfl, sim.depth, sim.names⟩

theorem node (maxNodes : Nat) (ast : ExprAst) : RunsAgree (st.node maxNodes ast) (rs.node maxNodes ast) :=
  (sim.reserve maxNodes).bind fun _ _ after => ⟨rfl, after⟩

theorem enter (pos : Nat) : MovesAgree st.enter (rs.next.enter pos) := by
  unfold ParserState.enter Rust.Parser.enter
  rw [sim.advance.depth]
  have same : st.advance.depth = st.depth := rfl
  rw [same]
  split
  · trivial
  · exact ⟨sim.advance.tokens, sim.count, rfl, sim.names⟩

theorem leave : st.leave.Sim rs.leave :=
  ⟨sim.tokens, sim.count, congrArg (· - 1) sim.depth, sim.names⟩

theorem addName (x : JSString) : (st.addName x).Sim (rs.addName x) := by
  unfold ParserState.addName Rust.Parser.addName
  rw [sim.names]
  split
  · exact sim
  · exact ⟨sim.tokens, sim.count, sim.depth, rfl⟩

theorem operatorAt_eq (level : Level) : rs.operatorAt level = st.punct?.bind level.operator := by
  cases level <;> simp only [Rust.Parser.operatorAt, sim.isAt_eq, decide_eq_true_eq] <;>
    cases st.punct? with
    | none => rfl
    | some p => cases p <;> rfl

theorem unaryAt_eq : rs.unaryAt = st.punct?.bind unaryOperator := by
  simp only [Rust.Parser.unaryAt, sim.isAt_eq, decide_eq_true_eq]
  cases st.punct? with
  | none => rfl
  | some p => cases p <;> rfl

end ParserState.Sim

theorem rust_reservedWords : Rust.reservedWords = reservedWords := rfl

theorem rust_builtinArity (name : JSString) : Rust.builtinArity name = builtins.lookup name := by
  by_cases known : name ∈ builtins.map Prod.fst
  · have rows : ∀ x ∈ builtins.map Prod.fst, Rust.builtinArity x = builtins.lookup x := by decide
    exact rows name known
  · have missed : builtins.lookup name = none := by
      rw [List.lookup_eq_none_iff]
      intro row member
      rw [bne_iff_ne]
      exact fun is => known (is ▸ List.mem_map_of_mem member)
    have all : ∀ x ∈ ["abs", "round", "floor", "ceil", "min", "max", "clamp", "fixed", "upper", "lower", "trim",
        "pad", "slice", "len", "has", "join", "at", "str", "num", "bool"].map js, x ∈ builtins.map Prod.fst := by decide
    have other : ∀ x ∈ ["abs", "round", "floor", "ceil", "min", "max", "clamp", "fixed", "upper", "lower", "trim",
        "pad", "slice", "len", "has", "join", "at", "str", "num", "bool"].map js, name ≠ x := fun x member is =>
      known (is ▸ all x member)
    simp only [List.map_cons, List.map_nil, List.forall_mem_cons, List.not_mem_nil, false_imp_iff, implies_true,
      and_true] at other
    rw [missed]
    simp only [Rust.builtinArity, List.map_cons, List.map_nil, List.mem_cons, List.not_mem_nil, other, or_false,
      if_false]

structure ParsersAgree (maxNodes n : Nat) : Prop where
  expr : ∀ {st rs}, st.Sim rs → RunsAgree (parseExpr maxNodes n st) (Rust.parseExpr maxNodes n rs)
  binary : ∀ {level st rs}, st.Sim rs →
    RunsAgree (parseBinary maxNodes n level st) (Rust.parseLevel maxNodes n level rs)
  operand : ∀ {level st rs}, st.Sim rs →
    RunsAgree (parseOperand maxNodes n level st) (Rust.parseOperand maxNodes n level rs)
  binaryTail : ∀ {level left st rs}, st.Sim rs →
    RunsAgree (binaryLoop maxNodes n level left st) (Rust.levelLoop maxNodes n level left rs)
  unary : ∀ {st rs}, st.Sim rs → RunsAgree (parseUnary maxNodes n st) (Rust.parseUnary maxNodes n rs)
  postfixed : ∀ {st rs}, st.Sim rs → RunsAgree (parsePostfix maxNodes n st) (Rust.parsePostfix maxNodes n rs)
  postfixTail : ∀ {target st rs}, st.Sim rs →
    RunsAgree (postfixLoop maxNodes n target st) (Rust.postfixLoop maxNodes n target rs)
  primary : ∀ {st rs}, st.Sim rs → RunsAgree (parsePrimary maxNodes n st) (Rust.parsePrimary maxNodes n rs)
  args : ∀ {st rs}, st.Sim rs → RunsAgree (parseArgs maxNodes n st) (Rust.parseArgs maxNodes n rs)
  argList : ∀ {st rs}, st.Sim rs → RunsAgree (parseArgList maxNodes n st) (Rust.parseArgList maxNodes n rs)

namespace ParsersAgree

variable {maxNodes n : Nat} (ih : ParsersAgree maxNodes n) {st : ParserState} {rs : Rust.Parser} (sim : st.Sim rs)

include ih sim

theorem expr_succ : RunsAgree (parseExpr maxNodes (n + 1) st) (Rust.parseExpr maxNodes (n + 1) rs) := by
  simp only [parseExpr, Rust.parseExpr]
  refine (ih.binary sim).bind fun test st rs sim => ?_
  simp only [sim.isAt_iff]
  split
  · refine (ih.expr sim.advance).bind fun cons st rs sim => ?_
    refine (sim.expect .colon).bind fun st rs sim => ?_
    exact (ih.expr sim).bind fun alt st rs sim => sim.node ..
  · exact ⟨rfl, sim⟩

theorem binary_succ {level : Level} :
    RunsAgree (parseBinary maxNodes (n + 1) level st) (Rust.parseLevel maxNodes (n + 1) level rs) := by
  simp only [parseBinary, Rust.parseLevel]
  exact (ih.operand sim).bind fun left st rs sim => ih.binaryTail sim

theorem operand_succ {level : Level} :
    RunsAgree (parseOperand maxNodes (n + 1) level st) (Rust.parseOperand maxNodes (n + 1) level rs) := by
  simp only [parseOperand, Rust.parseOperand]
  cases level.tighter with
  | some tighter => exact ih.binary sim
  | none => exact ih.unary sim

theorem binaryTail_succ {level : Level} {left : ExprAst} :
    RunsAgree (binaryLoop maxNodes (n + 1) level left st) (Rust.levelLoop maxNodes (n + 1) level left rs) := by
  simp only [binaryLoop, Rust.levelLoop, sim.operatorAt_eq]
  cases st.punct?.bind level.operator with
  | none => exact ⟨rfl, sim⟩
  | some build =>
    refine (ih.operand sim.advance).bind fun right st rs sim => ?_
    exact (sim.node ..).bind fun left st rs sim => ih.binaryTail sim

theorem unary_succ : RunsAgree (parseUnary maxNodes (n + 1) st) (Rust.parseUnary maxNodes (n + 1) rs) := by
  simp only [parseUnary, Rust.parseUnary, sim.unaryAt_eq]
  cases st.punct?.bind unaryOperator with
  | none => exact ih.postfixed sim
  | some op =>
    refine (sim.advance.reserve maxNodes).bind fun st rs sim => ?_
    exact (ih.unary sim).bind fun arg st rs sim => ⟨rfl, sim⟩

theorem postfixed_succ : RunsAgree (parsePostfix maxNodes (n + 1) st) (Rust.parsePostfix maxNodes (n + 1) rs) := by
  simp only [parsePostfix, Rust.parsePostfix]
  exact (ih.primary sim).bind fun target st rs sim => ih.postfixTail sim

theorem postfixTail_succ {target : ExprAst} :
    RunsAgree (postfixLoop maxNodes (n + 1) target st) (Rust.postfixLoop maxNodes (n + 1) target rs) := by
  simp only [postfixLoop, Rust.postfixLoop, sim.isAt_iff]
  split
  · rename_i dot
    rw [if_pos dot, sim.advance.peek_eq]
    cases st.advance.peek.tok with
    | name key => exact (sim.advance.advance.node ..).bind fun target st rs sim => ih.postfixTail sim
    | _ => trivial
  · rename_i bracket
    rw [if_neg (by rw [bracket]; decide), if_pos bracket]
    refine (sim.enter _).bind fun st rs sim => ?_
    refine (ih.expr sim).bind fun key st rs sim => ?_
    refine (sim.leave.expect .rbracket).bind fun st rs sim => ?_
    exact (sim.node ..).bind fun target st rs sim => ih.postfixTail sim
  · rename_i paren
    rw [if_neg (by rw [paren]; decide), if_neg (by rw [paren]; decide), if_pos paren]
    trivial
  · rename_i notDot notBracket notParen
    rw [if_neg notDot, if_neg notBracket, if_neg notParen]
    exact ⟨rfl, sim⟩

theorem args_succ : RunsAgree (parseArgs maxNodes (n + 1) st) (Rust.parseArgs maxNodes (n + 1) rs) := by
  simp only [parseArgs, Rust.parseArgs, sim.isAt_iff]
  split
  · exact ⟨rfl, sim⟩
  · exact ih.argList sim

theorem argList_succ : RunsAgree (parseArgList maxNodes (n + 1) st) (Rust.parseArgList maxNodes (n + 1) rs) := by
  simp only [parseArgList, Rust.parseArgList]
  refine (ih.expr sim).bind fun arg st rs sim => ?_
  simp only [sim.isAt_iff]
  split
  · exact (ih.argList sim.advance).bind fun args st rs sim => ⟨rfl, sim⟩
  · exact ⟨rfl, sim⟩

theorem primary_succ : RunsAgree (parsePrimary maxNodes (n + 1) st) (Rust.parsePrimary maxNodes (n + 1) rs) := by
  simp only [parsePrimary, Rust.parsePrimary]
  rw [sim.peek_eq]
  cases st.peek.tok with
  | num text => exact sim.advance.node ..
  | str raw value => exact sim.advance.node ..
  | eof => trivial
  | name name =>
    simp only [Tok.rust, rust_reservedWords, rust_builtinArity, sim.advance.isAt_iff]
    split
    · exact sim.advance.node ..
    split
    · exact sim.advance.node ..
    split
    · exact sim.advance.node ..
    split
    · trivial
    split
    · cases builtins.lookup name with
      | none => trivial
      | some arity =>
        refine (sim.advance.enter _).bind fun st rs sim => ?_
        refine (ih.args sim).bind fun args st rs sim => ?_
        refine (sim.leave.expect .rparen).bind fun st rs sim => ?_
        split
        · exact sim.node ..
        · trivial
    · exact (sim.advance.addName name).node ..
  | punct p =>
    cases p with
    | lparen =>
      refine (sim.enter _).bind fun st rs sim => ?_
      refine (ih.expr sim).bind fun inner st rs sim => ?_
      exact (sim.leave.expect .rparen).bind fun st rs sim => ⟨rfl, sim⟩
    | _ => trivial

end ParsersAgree

theorem parsersAgree (maxNodes n : Nat) : ParsersAgree maxNodes n := by
  induction n with
  | zero => constructor <;> intros <;> trivial
  | succ n ih =>
    exact ⟨ih.expr_succ, (ih.binary_succ ·), (ih.operand_succ ·), (ih.binaryTail_succ ·), ih.unary_succ,
      ih.postfixed_succ, (ih.postfixTail_succ ·), ih.primary_succ, ih.args_succ, ih.argList_succ⟩

/-- Lexing and parsing without the check for a blank source. -/
def parseLexed (maxNodes : Nat) (source : JSString) : Except ExpressionError ParsedExpression := do
  let tokens ← exprTokens source
  parseTokens maxNodes source tokens

/-- The same of the Rust parser. -/
def Rust.parseLexed (maxNodes : Nat) (source : List Char) : Except ExpressionError ParsedExpression := do
  let tokens ← Rust.tokenize source
  let (ast, st) ← Rust.parseExpr maxNodes (30 * tokens.length + 30) ⟨tokens, 0, 0, []⟩
  if st.peek.tok = .eof then return ⟨utf16 source, ast.kind, ast, st.names, st.count⟩
  else Rust.fail st.peek.pos (js "unexpected token '" ++ st.peek.tok.text ++ js "'")

theorem parseLexed_agrees (maxNodes : Nat) (source : List Char) :
    (parseLexed maxNodes (utf16 source)).toOption = (Rust.parseLexed maxNodes source).toOption := by
  have lexed := tokenize_agrees source
  unfold parseLexed Rust.parseLexed
  cases ours : exprTokens (utf16 source) with
  | error e =>
    cases theirs : Rust.tokenize source with
    | error e' => rfl
    | ok tokens' =>
      rw [ours, theirs] at lexed
      exact lexed.elim
  | ok tokens =>
    cases theirs : Rust.tokenize source with
    | error e' =>
      rw [ours, theirs] at lexed
      exact lexed.elim
    | ok tokens' =>
      rw [ours, theirs] at lexed
      have length : tokens.length = tokens'.length := by simpa using congrArg List.length lexed
      have initial : (⟨tokens, 0, 0, []⟩ : ParserState).Sim ⟨tokens', 0, 0, []⟩ := ⟨lexed, rfl, rfl, rfl⟩
      have agree := (parsersAgree maxNodes (30 * tokens.length + 30)).expr initial
      change (parseTokens maxNodes (utf16 source) tokens).toOption = Except.toOption (do
        let (ast, st) ← Rust.parseExpr maxNodes (30 * tokens'.length + 30) ⟨tokens', 0, 0, []⟩
        if st.peek.tok = .eof then return ⟨utf16 source, ast.kind, ast, st.names, st.count⟩
        else Rust.fail st.peek.pos (js "unexpected token '" ++ st.peek.tok.text ++ js "'"))
      rw [← length, parseTokens]
      cases first : parseExpr maxNodes (30 * tokens.length + 30) ⟨tokens, 0, 0, []⟩ with
      | error e =>
        cases second : Rust.parseExpr maxNodes (30 * tokens.length + 30) ⟨tokens', 0, 0, []⟩ with
        | error e' => rfl
        | ok r' =>
          rw [first, second] at agree
          exact agree.elim
      | ok r =>
        cases second : Rust.parseExpr maxNodes (30 * tokens.length + 30) ⟨tokens', 0, 0, []⟩ with
        | error e' =>
          rw [first, second] at agree
          exact agree.elim
        | ok r' =>
          rw [first, second] at agree
          obtain ⟨ast, st⟩ := r
          obtain ⟨ast', rs⟩ := r'
          obtain ⟨rfl, sim⟩ := agree
          have ends : rs.peek.tok = .eof ↔ st.peek.tok = .eof := by
            rw [sim.peek_eq]
            cases st.peek.tok <;> simp [Tok.rust]
          by_cases atEnd : st.peek.tok = .eof
          · refine (congrArg Except.toOption (if_pos atEnd)).trans ?_
            refine Eq.trans ?_ (congrArg Except.toOption (if_pos (ends.mpr atEnd))).symm
            rw [sim.names, sim.count]
          · refine (congrArg Except.toOption (if_neg atEnd)).trans ?_
            refine Eq.trans ?_ (congrArg Except.toOption (if_neg fun is => atEnd (ends.mp is))).symm
            rfl

/-- A source without tokens does not parse. -/
theorem parseLexed_blank (maxNodes : Nat) {source : JSString} {blank : Nat → Bool}
    (starts : ∀ {c t tok}, Lexeme (c :: t) tok → blank c = false) (all : source.all blank) :
    (parseLexed maxNodes source).toOption = none := by
  cases run : parseLexed maxNodes source with
  | error e => rfl
  | ok parsed =>
    obtain ⟨tokens, lexed, parse⟩ := ok_of_bind run
    obtain ⟨toks, lexes, marked⟩ := exprTokensFrom_lexes (Nat.le_refl _) lexed
    have derives := (parseTokens_sound marked lexes.no_eof parse).1
    exact absurd (lexes.nil_of_blank starts all) derives.ne_nil

theorem utf16_all_whitespace {s : List Char} (all : s.all Rust.isWhitespace) :
    (utf16 s).all fun u => isSpace u || 128 ≤ u := by
  induction s with
  | nil => rfl
  | cons c s ih =>
    rw [List.all_cons, Bool.and_eq_true] at all
    rw [utf16_cons, List.all_append, ih all.2, Bool.and_true]
    by_cases inAscii : c.toNat < 128
    · have space : isSpace c.toNat := by
        have white := all.1
        simp [Rust.isWhitespace, isSpace] at white ⊢
        omega
      rw [unitsOf_ascii inAscii]
      simp [space]
    · unfold unitsOf
      split <;> simp <;> omega

/-- The two parsers fail together, or parse a source alike. -/
theorem parse_cases (maxNodes : Nat) (source : List Char) :
    (∃ e e', parseExpression maxNodes (utf16 source) = .error e ∧ Rust.parseWithLimit maxNodes source = .error e') ∨
      ∃ parsed, parseExpression maxNodes (utf16 source) = .ok parsed ∧
        Rust.parseWithLimit maxNodes source = .ok parsed := by
  have same : (parseExpression maxNodes (utf16 source)).toOption = (Rust.parseWithLimit maxNodes source).toOption := by
    have agree := parseLexed_agrees maxNodes source
    by_cases blank : trim (utf16 source) = []
    · have none := parseLexed_blank maxNodes Lexeme.not_blank (trim_eq_nil.mp blank)
      rw [agree] at none
      rw [parseExpression, if_pos blank, Rust.parseWithLimit]
      split
      · rfl
      · exact none.symm
    · rw [parseExpression, if_neg blank, Rust.parseWithLimit]
      split
      · rename_i white
        refine (parseLexed_blank maxNodes (fun lexeme => ?_) (utf16_all_whitespace white)).trans rfl
        have ascii := lexeme.ascii
        rw [lexeme.not_blank, Bool.false_or, decide_eq_false_iff_not]
        omega
      · exact agree
  cases ours : parseExpression maxNodes (utf16 source) with
  | error e =>
    cases theirs : Rust.parseWithLimit maxNodes source with
    | error e' => exact .inl ⟨e, e', rfl, rfl⟩
    | ok parsed =>
      rw [ours, theirs] at same
      cases same
  | ok parsed =>
    cases theirs : Rust.parseWithLimit maxNodes source with
    | error e' =>
      rw [ours, theirs] at same
      cases same
    | ok parsed' =>
      rw [ours, theirs] at same
      cases same
      exact .inr ⟨parsed, rfl, rfl⟩

/-- The two parsers agree: for every source of Unicode scalar values and every node limit both fail, or
both give the same kind, tree, names and node count. -/
theorem parseExpression_agrees (maxNodes : Nat) (source : List Char) :
    (parseExpression maxNodes (utf16 source)).toOption = (Rust.parseWithLimit maxNodes source).toOption := by
  rcases parse_cases maxNodes source with ⟨e, e', ours, theirs⟩ | ⟨parsed, ours, theirs⟩
  · rw [ours, theirs]
    rfl
  · rw [ours, theirs]

end Xript
