import Xript.Expr.ParserSound

namespace Xript

theorem bind_of_ok {ε α β : Type} {x : Except ε α} {f : α → Except ε β} {a : α} {r : Except ε β}
    (first : x = .ok a) (then_ : f a = r) : x >>= f = r := by
  rw [first]
  exact then_

/-- How tightly a punctuator binds to the expression before it. -/
def Punct.strength : Punct → Nat
  | .lparen => 10
  | .dot | .lbracket => 9
  | .star | .slash | .percent => 8
  | .plus | .minus => 7
  | .lt | .gt | .le | .ge => 6
  | .eq | .ne => 5
  | .andAnd => 4
  | .orOr => 3
  | .nullish => 2
  | .question => 1
  | _ => 0

def Level.strength : Level → Nat
  | .nullish => 2
  | .or => 3
  | .and => 4
  | .equality => 5
  | .relational => 6
  | .additive => 7
  | .multiplicative => 8

/-- How tightly the next token binds to the expression before it. -/
def nextStrength : List Tok → Nat
  | .punct p :: _ => p.strength
  | _ => 0

theorem Level.operator_strength {level : Level} {p : Punct} {build : ExprAst → ExprAst → ExprAst}
    (builds : level.operator p = some build) : p.strength = level.strength := by
  unfold Level.operator at builds
  split at builds <;> first | rfl | cases builds

theorem Level.tighter_strength {level tighter : Level} (found : level.tighter = some tighter) :
    tighter.strength = level.strength + 1 := by
  cases level <;> cases found <;> rfl

theorem Level.strength_of_tightest {level : Level} (found : level.tighter = none) : level.strength = 8 := by
  cases level <;> first | rfl | cases found

namespace ParserState

/-- The state after `k` tokens, `size` nodes and the reads `reads`. -/
def pass (st : ParserState) (k size : Nat) (reads : List JSString) : ParserState :=
  ⟨st.tokens.drop k, st.count + size, st.depth, addNames st.names reads⟩

variable {st : ParserState}

@[simp] theorem pass_pass (k₁ k₂ s₁ s₂ : Nat) (r₁ r₂ : List JSString) :
    (st.pass k₁ s₁ r₁).pass k₂ s₂ r₂ = st.pass (k₁ + k₂) (s₁ + s₂) (r₁ ++ r₂) := by
  simp only [pass, List.drop_drop, addNames_append, Nat.add_assoc]

@[simp] theorem pass_zero : st.pass 0 0 [] = st := rfl

@[simp] theorem pass_count (k size : Nat) (reads : List JSString) :
    (st.pass k size reads).count = st.count + size := rfl

@[simp] theorem pass_room (k size : Nat) (reads : List JSString) : (st.pass k size reads).room = st.room := rfl

theorem advance_eq : st.advance = st.pass 1 0 [] := by
  simp [advance, pass]

theorem pass_toks {t rest : List Tok} (tokens : st.toks = t ++ rest) (size : Nat) (reads : List JSString) :
    (st.pass t.length size reads).toks = rest := by
  unfold toks at tokens ⊢
  rw [pass, List.map_drop, tokens, List.drop_left]

theorem pass_one_toks {tok : Tok} {rest : List Tok} (tokens : st.toks = tok :: rest) :
    (st.pass 1 0 []).toks = rest :=
  pass_toks (t := [tok]) tokens 0 []

theorem peek_of_toks {tok : Tok} {rest : List Tok} (tokens : st.toks = tok :: rest) : st.peek.tok = tok := by
  obtain ⟨tokens', count, depth, names⟩ := st
  cases tokens' with
  | nil => cases tokens
  | cons t tokens' => exact (List.cons.inj tokens).1

theorem punct_of_toks {p : Punct} {rest : List Tok} (tokens : st.toks = .punct p :: rest) :
    st.punct? = some p := by
  rw [punct?, peek_of_toks tokens]

/-- The next punctuator, if there is one, binds as tightly as the next token does. -/
theorem strength_of_punct {p : Punct} (here : st.punct? = some p) : nextStrength st.toks = p.strength := by
  rw [toks_of_peek (peek_of_punct here) nofun]
  rfl

theorem expect_of_toks {p : Punct} {rest : List Tok} (tokens : st.toks = .punct p :: rest) :
    st.expect p = .ok (st.pass 1 0 []) := by
  rw [expect, if_pos (punct_of_toks tokens), advance_eq]

theorem reserve_of_count {maxNodes : Nat} (capped : st.count + 1 ≤ maxNodes) :
    st.reserve maxNodes = .ok (st.pass 0 1 []) := by
  rw [reserve, if_neg (Nat.not_lt.mpr capped)]
  rfl

theorem node_of_count {maxNodes : Nat} (ast : ExprAst) (capped : st.count + 1 ≤ maxNodes) :
    st.node maxNodes ast = .ok (ast, st.pass 0 1 []) := by
  rw [node, reserve_of_count capped]
  rfl

theorem addName_eq (x : JSString) : st.addName x = st.pass 0 0 [x] := by
  unfold addName pass addNames
  split <;> rename_i known <;> simp [known]

/-- The state inside a bracket. -/
def inside (st : ParserState) : ParserState := { st.advance with depth := st.depth + 1 }

theorem enter_of_room (room : 0 < st.room) : st.enter = .ok st.inside := by
  unfold ParserState.room at room
  rw [enter, if_neg (by omega)]
  rfl

theorem inside_toks {tok : Tok} {rest : List Tok} (tokens : st.toks = tok :: rest) : st.inside.toks = rest := by
  have dropped := pass_one_toks tokens
  rwa [← advance_eq] at dropped

theorem inside_room : st.inside.room = st.room - 1 := by
  simp only [inside, room]
  omega

@[simp] theorem inside_count : st.inside.count = st.count := rfl

theorem leave_toks : st.leave.toks = st.toks := rfl

theorem leave_inside (k size : Nat) (reads : List JSString) :
    (st.inside.pass k size reads).leave = st.pass (1 + k) size reads := by
  simp [inside, leave, pass, advance, Nat.add_comm]

end ParserState

open ParserState

/-- The calls a parse function makes before it passes a token. -/
def Nonterminal.rank : Nonterminal → Nat
  | .expr => 26
  | .level ℓ => 30 - 3 * ℓ.strength
  | .unary => 4
  | .postfixed => 2
  | .primary => 1

/-- With enough fuel, a parse function reads the tokens of a derivation up to a token that does not
bind as tightly as `strength`. -/
def ReadsAll (maxNodes : Nat) (parse : Nat → ParserState → Except ExpressionError (ExprAst × ParserState))
    (strength rank d : Nat) (toks : List Tok) (ast : ExprAst) : Prop :=
  ∀ {st rest n}, st.toks = toks ++ rest → d ≤ st.room → st.count + ast.size ≤ maxNodes →
    nextStrength rest < strength → 30 * toks.length + rank ≤ n →
    parse n st = .ok (ast, st.pass toks.length ast.size ast.reads)

/-- With enough fuel, a parse function reads the tokens of a derivation and is then at its loop. -/
def ReadsUpTo (maxNodes : Nat) (parse : Nat → ParserState → Except ExpressionError (ExprAst × ParserState))
    (loop : Nat → ExprAst → ParserState → Except ExpressionError (ExprAst × ParserState))
    (strength rank d : Nat) (toks : List Tok) (ast : ExprAst) : Prop :=
  ∀ {st rest n m}, st.toks = toks ++ rest → d ≤ st.room → st.count + ast.size ≤ maxNodes →
    nextStrength rest < strength → m + (30 * toks.length + rank) ≤ n →
    ∃ left, m ≤ left ∧ parse n st = loop left ast (st.pass toks.length ast.size ast.reads)

/-- What reading a derivation of a nonterminal means for its parse function. -/
def ParseComplete (maxNodes d : Nat) : Nonterminal → List Tok → ExprAst → Prop
  | .expr => ReadsAll maxNodes (parseExpr maxNodes) 1 Nonterminal.expr.rank d
  | .level level => ReadsUpTo maxNodes (fun n => parseBinary maxNodes n level) (fun n => binaryLoop maxNodes n level)
      (level.strength + 1) (Nonterminal.level level).rank d
  | .unary => ReadsAll maxNodes (parseUnary maxNodes) 9 Nonterminal.unary.rank d
  | .postfixed => ReadsUpTo maxNodes (parsePostfix maxNodes) (postfixLoop maxNodes) 10 Nonterminal.postfixed.rank d
  | .primary => ReadsAll maxNodes (parsePrimary maxNodes) 10 Nonterminal.primary.rank d

theorem binaryLoop_stop {maxNodes n : Nat} {level : Level} {ast : ExprAst} {st : ParserState}
    (weaker : nextStrength st.toks < level.strength) :
    binaryLoop maxNodes (n + 1) level ast st = .ok (ast, st) := by
  have stops : st.punct?.bind level.operator = none := by
    rw [Option.eq_none_iff_forall_ne_some]
    intro build found
    obtain ⟨p, here, builds⟩ := Option.bind_eq_some_iff.mp found
    rw [strength_of_punct here, Level.operator_strength builds] at weaker
    exact Nat.lt_irrefl _ weaker
  rw [binaryLoop, stops]

theorem postfixLoop_stop {maxNodes n : Nat} {ast : ExprAst} {st : ParserState}
    (weaker : nextStrength st.toks < 9) : postfixLoop maxNodes (n + 1) ast st = .ok (ast, st) := by
  rw [postfixLoop]
  split
  all_goals first
    | rfl
    | (rename_i here; rw [strength_of_punct here] at weaker; exact absurd weaker (by decide))

theorem builtin_isIdentifier {f : JSString} {arity : Nat × Option Nat} (known : builtins.lookup f = some arity) :
    isIdentifier f := by
  have all : ∀ entry ∈ builtins, entry.1 ∉ ["true", "false", "null"].map js ∧ entry.1 ∉ reservedWords := by decide
  exact all (f, arity) (mem_of_lookup known)

namespace ParseComplete

variable {maxNodes d : Nat} {toks : List Tok} {ast : ExprAst}

theorem binary {level : Level} (whole : ParseComplete maxNodes d (.level level) toks ast) :
    ReadsAll maxNodes (fun n => parseBinary maxNodes n level) level.strength
      ((Nonterminal.level level).rank + 1) d toks ast := by
  intro st rest n tokens room capped weaker fuel
  obtain ⟨left, remaining, run⟩ := whole (n := n) (m := 1) tokens room capped (by omega) (by omega)
  obtain ⟨left, rfl⟩ : ∃ k, left = k + 1 := ⟨left - 1, by omega⟩
  refine run.trans (binaryLoop_stop ?_)
  rwa [pass_toks tokens]

theorem operand {level : Level} (whole : ParseComplete maxNodes d level.operand toks ast) :
    ReadsAll maxNodes (fun n => parseOperand maxNodes n level) (level.strength + 1)
      (29 - 3 * level.strength) d toks ast := by
  intro st rest n tokens room capped weaker fuel
  obtain ⟨n, rfl⟩ : ∃ k, n = k + 1 := ⟨n - 1, by cases level <;> simp only [Level.strength] at fuel <;> omega⟩
  unfold Level.operand at whole
  cases found : level.tighter with
  | some tighter =>
    rw [found] at whole
    have tight := Level.tighter_strength found
    have bound : tighter.strength ≤ 8 := by cases tighter <;> decide
    simp only [parseOperand, found]
    refine whole.binary tokens room capped (by omega) ?_
    simp only [Nonterminal.rank]
    omega
  | none =>
    rw [found] at whole
    have tightest := Level.strength_of_tightest found
    simp only [parseOperand, found]
    refine whole tokens room capped (by omega) ?_
    simp only [Nonterminal.rank]
    omega

theorem postfixed (whole : ParseComplete maxNodes d .postfixed toks ast) :
    ReadsAll maxNodes (parsePostfix maxNodes) 9 3 d toks ast := by
  intro st rest n tokens room capped weaker fuel
  obtain ⟨left, remaining, run⟩ := whole (n := n) (m := 1) tokens room capped (by omega)
    (by simp only [Nonterminal.rank]; omega)
  obtain ⟨left, rfl⟩ : ∃ k, left = k + 1 := ⟨left - 1, by omega⟩
  refine run.trans (postfixLoop_stop ?_)
  rwa [pass_toks tokens]

theorem expr_plain (whole : ParseComplete maxNodes d (.level .nullish) toks ast) :
    ParseComplete maxNodes d .expr toks ast := by
  intro st rest n tokens room capped weaker fuel
  simp only [Nonterminal.rank] at fuel
  obtain ⟨n, rfl⟩ : ∃ k, n = k + 1 := ⟨n - 1, by omega⟩
  have parsed := whole.binary (n := n) tokens room capped (by simp only [Level.strength]; omega)
    (by simp only [Nonterminal.rank, Level.strength]; omega)
  have ends : (st.pass toks.length ast.size ast.reads).punct? ≠ some .question := by
    intro here
    have strength := strength_of_punct here
    rw [pass_toks tokens] at strength
    simp only [Punct.strength] at strength
    omega
  simp only [parseExpr, parsed]
  exact if_neg ends

theorem cond {t c a : List Tok} {test cons alt : ExprAst}
    (first : ParseComplete maxNodes d (.level .nullish) t test) (second : ParseComplete maxNodes d .expr c cons)
    (third : ParseComplete maxNodes d .expr a alt) :
    ParseComplete maxNodes d .expr (t ++ .punct .question :: (c ++ .punct .colon :: a)) (.cond test cons alt) := by
  intro st rest n tokens room capped weaker fuel
  simp only [Nonterminal.rank, List.length_append, List.length_cons] at fuel
  simp only [ExprAst.size] at capped
  obtain ⟨n, rfl⟩ : ∃ k, n = k + 1 := ⟨n - 1, by omega⟩
  simp only [List.append_assoc, List.cons_append] at tokens
  have parsedTest := first.binary (n := n) tokens room (by omega)
    (by decide : Punct.question.strength < 2) (by simp only [Nonterminal.rank, Level.strength]; omega)
  have atQuestion := pass_toks tokens test.size test.reads
  have atCons := pass_one_toks atQuestion
  have parsedCons := second (n := n) atCons room (by simp only [pass_count]; omega)
    (by decide : Punct.colon.strength < 1) (by simp only [Nonterminal.rank]; omega)
  have atColon := pass_toks atCons cons.size cons.reads
  have atAlt := pass_one_toks atColon
  have parsedAlt := third (n := n) atAlt room (by simp only [pass_count]; omega) weaker
    (by simp only [Nonterminal.rank]; omega)
  rw [parseExpr]
  refine bind_of_ok parsedTest ((if_pos (punct_of_toks atQuestion)).trans ?_)
  rw [advance_eq]
  refine bind_of_ok parsedCons (bind_of_ok (expect_of_toks atColon) (bind_of_ok parsedAlt ?_))
  refine (node_of_count _ (by simp only [pass_count]; omega)).trans ?_
  simp only [pass_pass]
  congr 3
  · simp only [List.length_append, List.length_cons]
    omega
  · simp [ExprAst.reads]

theorem level_operand {level : Level} (whole : ParseComplete maxNodes d level.operand toks ast) :
    ParseComplete maxNodes d (.level level) toks ast := by
  intro st rest n m tokens room capped weaker fuel
  have bound : level.strength ≤ 8 := by cases level <;> decide
  simp only [Nonterminal.rank] at fuel
  obtain ⟨n, rfl⟩ : ∃ k, n = k + 1 := ⟨n - 1, by omega⟩
  refine ⟨n, by omega, ?_⟩
  simp only [parseBinary]
  exact bind_of_ok (whole.operand tokens room capped weaker (by omega)) rfl

theorem level_binary {level : Level} {l r : List Tok} {left right : ExprAst} {p : Punct}
    {build : ExprAst → ExprAst → ExprAst} (first : ParseComplete maxNodes d (.level level) l left)
    (builds : level.operator p = some build) (second : ParseComplete maxNodes d level.operand r right) :
    ParseComplete maxNodes d (.level level) (l ++ .punct p :: r) (build left right) := by
  intro st rest n m tokens room capped weaker fuel
  simp only [Nonterminal.rank, List.length_append, List.length_cons] at fuel
  rw [Level.operator_size builds] at capped
  simp only [List.append_assoc, List.cons_append] at tokens
  have tight : nextStrength (.punct p :: (r ++ rest)) < level.strength + 1 := by
    rw [nextStrength, Level.operator_strength builds]
    omega
  obtain ⟨k, remaining, parsedLeft⟩ := first (n := n) (m := m + 30 * r.length + 30) tokens room (by omega) tight
    (by simp only [Nonterminal.rank]; omega)
  obtain ⟨k, rfl⟩ : ∃ j, k = j + 1 := ⟨k - 1, by omega⟩
  have atOperator := pass_toks tokens left.size left.reads
  have parsedRight := second.operand (n := k) (pass_one_toks atOperator) room
    (by simp only [pass_count]; omega) weaker (by omega)
  refine ⟨k, by omega, parsedLeft.trans ?_⟩
  simp only [binaryLoop, punct_of_toks atOperator, Option.bind_some, builds, advance_eq]
  refine bind_of_ok parsedRight (bind_of_ok (node_of_count _ (by simp only [pass_count]; omega)) ?_)
  simp only [pass_pass, Level.operator_size builds, Level.operator_reads builds]
  congr 1
  simp only [List.length_append, List.length_cons, List.append_nil]
  congr 1
  omega

theorem unary {p : Punct} {op : UnaryOp} {arg : ExprAst} (signs : unaryOperator p = some op)
    (whole : ParseComplete maxNodes d .unary toks arg) :
    ParseComplete maxNodes d .unary (.punct p :: toks) (.unary op arg) := by
  intro st rest n tokens room capped weaker fuel
  simp only [Nonterminal.rank, List.length_cons] at fuel
  simp only [ExprAst.size] at capped
  obtain ⟨n, rfl⟩ : ∃ k, n = k + 1 := ⟨n - 1, by omega⟩
  have counted : (st.pass 1 0 []).reserve maxNodes = .ok (st.pass 1 1 []) :=
    (reserve_of_count (by simp only [pass_count]; omega)).trans (by simp)
  have atArg : (st.pass 1 1 []).toks = toks ++ rest := pass_one_toks tokens
  have parsed := whole (n := n) atArg room
    (by simp only [pass_count]; omega) weaker (by simp only [Nonterminal.rank]; omega)
  simp only [parseUnary, punct_of_toks tokens, Option.bind_some, signs, advance_eq]
  refine bind_of_ok counted (bind_of_ok parsed ?_)
  simp only [pass_pass, List.length_cons, ExprAst.size, ExprAst.reads]
  congr 3
  · omega
  · omega

theorem unary_postfixed (whole : ParseComplete maxNodes d .postfixed toks ast)
    (plain : ∀ p rest, toks = .punct p :: rest → unaryOperator p = none) (some : toks ≠ []) :
    ParseComplete maxNodes d .unary toks ast := by
  intro st rest n tokens room capped weaker fuel
  simp only [Nonterminal.rank] at fuel
  obtain ⟨n, rfl⟩ : ∃ k, n = k + 1 := ⟨n - 1, by omega⟩
  have unsigned : st.punct?.bind unaryOperator = none := by
    rw [Option.eq_none_iff_forall_ne_some]
    intro op found
    obtain ⟨p, here, signs⟩ := Option.bind_eq_some_iff.mp found
    obtain ⟨tok, others, rfl⟩ := List.exists_cons_of_ne_nil some
    have first := peek_of_punct here
    rw [peek_of_toks tokens] at first
    subst first
    rw [plain p others rfl] at signs
    cases signs
  simp only [parseUnary, unsigned]
  exact whole.postfixed tokens room capped weaker (by omega)

theorem postfixed_primary (whole : ParseComplete maxNodes d .primary toks ast) :
    ParseComplete maxNodes d .postfixed toks ast := by
  intro st rest n m tokens room capped weaker fuel
  simp only [Nonterminal.rank] at fuel
  obtain ⟨n, rfl⟩ : ∃ k, n = k + 1 := ⟨n - 1, by omega⟩
  refine ⟨n, by omega, ?_⟩
  simp only [parsePostfix]
  exact bind_of_ok (whole tokens room capped weaker (by simp only [Nonterminal.rank]; omega)) rfl

theorem member {obj : ExprAst} {key : JSString} (whole : ParseComplete maxNodes d .postfixed toks obj) :
    ParseComplete maxNodes d .postfixed (toks ++ [.punct .dot, .name key]) (.member obj key) := by
  intro st rest n m tokens room capped weaker fuel
  simp only [Nonterminal.rank, List.length_append, List.length_cons, List.length_nil] at fuel
  simp only [ExprAst.size] at capped
  simp only [List.append_assoc, List.cons_append, List.nil_append] at tokens
  obtain ⟨k, remaining, parsed⟩ := whole (n := n) (m := m + 1) tokens room (by omega)
    (by decide : Punct.dot.strength < 10) (by simp only [Nonterminal.rank]; omega)
  obtain ⟨k, rfl⟩ : ∃ j, k = j + 1 := ⟨k - 1, by omega⟩
  have atDot := pass_toks tokens obj.size obj.reads
  have atKey := peek_of_toks (pass_one_toks atDot)
  refine ⟨k, by omega, parsed.trans ?_⟩
  simp only [postfixLoop, punct_of_toks atDot, advance_eq, atKey]
  refine bind_of_ok (node_of_count _ (by simp only [pass_count]; omega)) ?_
  simp [ExprAst.size, ExprAst.reads]

theorem index {inner : List Tok} {obj key : ExprAst} (target : ParseComplete maxNodes (d + 1) .postfixed toks obj)
    (bracketed : ParseComplete maxNodes d .expr inner key) :
    ParseComplete maxNodes (d + 1) .postfixed (toks ++ .punct .lbracket :: (inner ++ [.punct .rbracket]))
      (.index obj key) := by
  intro st rest n m tokens room capped weaker fuel
  simp only [Nonterminal.rank, List.length_append, List.length_cons, List.length_nil] at fuel
  simp only [ExprAst.size] at capped
  simp only [List.append_assoc, List.cons_append, List.nil_append] at tokens
  obtain ⟨k, remaining, parsed⟩ := target (n := n) (m := m + 30 * inner.length + 30) tokens room (by omega)
    (by decide : Punct.lbracket.strength < 10) (by simp only [Nonterminal.rank]; omega)
  obtain ⟨k, rfl⟩ : ∃ j, k = j + 1 := ⟨k - 1, by omega⟩
  have atBracket := pass_toks tokens obj.size obj.reads
  have atKey := inside_toks atBracket
  have parsedKey := bracketed (n := k) atKey (by rw [inside_room, pass_room]; omega)
    (by simp only [inside_count, pass_count]; omega) (by decide : Punct.rbracket.strength < 1)
    (by simp only [Nonterminal.rank]; omega)
  have atEnd := pass_toks atKey key.size key.reads
  refine ⟨k, by omega, parsed.trans ?_⟩
  simp only [postfixLoop, punct_of_toks atBracket]
  refine bind_of_ok (enter_of_room (by rw [pass_room]; omega)) (bind_of_ok parsedKey ?_)
  refine bind_of_ok (expect_of_toks (leave_toks.trans atEnd)) ?_
  rw [leave_inside]
  refine bind_of_ok (node_of_count _ (by simp only [pass_count]; omega)) ?_
  simp only [pass_pass, ExprAst.size, ExprAst.reads, List.length_append, List.length_cons, List.length_nil]
  congr 1
  simp only [List.append_nil]
  congr 1
  omega

/-- A primary expression of one token. -/
theorem leaf {tok : Tok} (sized : ast.size = 1) (named : ast.reads = [])
    (step : ∀ n st, st.peek.tok = tok → parsePrimary maxNodes (n + 1) st = st.advance.node maxNodes ast) :
    ParseComplete maxNodes d .primary [tok] ast := by
  intro st rest n tokens room capped weaker fuel
  obtain ⟨n, rfl⟩ : ∃ k, n = k + 1 := ⟨n - 1, by simp only [Nonterminal.rank] at fuel; omega⟩
  rw [sized] at capped
  rw [step n st (peek_of_toks tokens), advance_eq, node_of_count _ (by simpa using capped), sized, named]
  simp

theorem name {x : JSString} (identifier : isIdentifier x) :
    ParseComplete maxNodes d .primary [.name x] (.name x) := by
  intro st rest n tokens room capped weaker fuel
  obtain ⟨n, rfl⟩ : ∃ k, n = k + 1 := ⟨n - 1, by simp only [Nonterminal.rank] at fuel; omega⟩
  obtain ⟨notLiteral, unreserved⟩ := identifier
  simp only [List.map_cons, List.map_nil, List.mem_cons, List.not_mem_nil, or_false, not_or] at notLiteral
  have uncalled : (st.pass 1 0 []).punct? ≠ some .lparen := by
    intro here
    have strength := strength_of_punct here
    rw [show (st.pass 1 0 []).toks = rest from pass_one_toks tokens] at strength
    rw [strength] at weaker
    exact absurd weaker (by decide)
  simp only [parsePrimary, peek_of_toks tokens, if_neg notLiteral.1, if_neg notLiteral.2.1, if_neg notLiteral.2.2,
    if_neg unreserved, advance_eq, if_neg uncalled, addName_eq]
  simp only [ExprAst.size] at capped
  refine (node_of_count _ (by simpa using capped)).trans ?_
  simp [ExprAst.size, ExprAst.reads]

theorem group (whole : ParseComplete maxNodes d .expr toks ast) :
    ParseComplete maxNodes (d + 1) .primary (.punct .lparen :: (toks ++ [.punct .rparen])) ast := by
  intro st rest n tokens room capped weaker fuel
  simp only [Nonterminal.rank, List.length_append, List.length_cons, List.length_nil] at fuel
  obtain ⟨n, rfl⟩ : ∃ k, n = k + 1 := ⟨n - 1, by omega⟩
  simp only [List.append_assoc, List.cons_append, List.nil_append] at tokens
  have atInner := inside_toks tokens
  have parsed := whole (n := n) atInner (by rw [inside_room]; omega) capped (by decide : Punct.rparen.strength < 1)
    (by simp only [Nonterminal.rank]; omega)
  have atEnd := pass_toks atInner ast.size ast.reads
  simp only [parsePrimary, peek_of_toks tokens]
  refine bind_of_ok (enter_of_room (by omega)) (bind_of_ok parsed ?_)
  refine bind_of_ok (expect_of_toks (leave_toks.trans atEnd)) ?_
  rw [leave_inside, pass_pass]
  simp only [List.length_append, List.length_cons, List.length_nil, List.append_nil, Nat.add_zero]
  congr 3
  omega

/-- The arguments of a call, each of which reads its derivation. -/
theorem argList {args : List (List Tok × ExprAst)} (some : args ≠ [])
    (each : ∀ arg, arg ∈ args → ParseComplete maxNodes d .expr arg.1 arg.2) {st : ParserState} {rest : List Tok}
    {n : Nat} (tokens : st.toks = [Tok.punct .comma].intercalate (args.map Prod.fst) ++ .punct .rparen :: rest)
    (room : d ≤ st.room) (capped : st.count + ExprAst.sizeArgs (args.map Prod.snd) ≤ maxNodes)
    (fuel : 30 * ([Tok.punct .comma].intercalate (args.map Prod.fst)).length + 28 ≤ n) :
    parseArgList maxNodes n st = .ok (args.map Prod.snd,
      st.pass ([Tok.punct .comma].intercalate (args.map Prod.fst)).length
        (ExprAst.sizeArgs (args.map Prod.snd)) (ExprAst.readsArgs (args.map Prod.snd))) := by
  induction args generalizing st n with
  | nil => exact absurd rfl some
  | cons arg args ih =>
    obtain ⟨n, rfl⟩ : ∃ k, n = k + 1 := ⟨n - 1, by omega⟩
    cases args with
    | nil =>
      simp only [List.map_cons, List.map_nil, List.intercalate_singleton] at tokens fuel ⊢
      simp only [List.map_cons, List.map_nil, ExprAst.sizeArgs, Nat.add_zero] at capped
      have parsed := each arg (List.mem_cons_self ..) (n := n) tokens room capped
        (by decide : Punct.rparen.strength < 1) (by simp only [Nonterminal.rank]; omega)
      have ends : (st.pass arg.1.length arg.2.size arg.2.reads).punct? ≠ Option.some .comma := by
        rw [punct_of_toks (pass_toks tokens _ _)]
        decide
      simp only [parseArgList]
      refine bind_of_ok parsed ((if_neg ends).trans ?_)
      simp [ExprAst.sizeArgs, ExprAst.readsArgs, pure, Except.pure]
    | cons other args =>
      simp only [List.map_cons, List.intercalate_cons_cons, List.append_assoc, List.cons_append, List.nil_append,
        List.length_append, List.length_cons] at tokens fuel ⊢
      simp only [List.map_cons, ExprAst.sizeArgs] at capped
      have parsed := each arg (List.mem_cons_self ..) (n := n) tokens room (by omega)
        (by decide : Punct.comma.strength < 1) (by simp only [Nonterminal.rank]; omega)
      have atComma := pass_toks tokens arg.2.size arg.2.reads
      have others := ih (List.cons_ne_nil _ _) (fun x member => each x (List.mem_cons_of_mem _ member)) (n := n)
        (pass_one_toks atComma) room (by simp only [pass_count, List.map_cons, ExprAst.sizeArgs]; omega)
        (by simp only [List.map_cons]; omega)
      simp only [parseArgList]
      refine bind_of_ok parsed ((if_pos (punct_of_toks atComma)).trans ?_)
      rw [advance_eq]
      refine bind_of_ok others ?_
      simp only [pure, Except.pure, pass_pass, List.map_cons, ExprAst.sizeArgs, ExprAst.readsArgs, List.append_nil]
      congr 3
      omega

theorem args {args : List (List Tok × ExprAst)}
    (each : ∀ arg, arg ∈ args → ParseComplete maxNodes d .expr arg.1 arg.2)
    (starts : ∀ arg, arg ∈ args → ∃ tok rest, arg.1 = tok :: rest ∧ tok ≠ .punct .rparen)
    {st : ParserState} {rest : List Tok}
    {n : Nat} (tokens : st.toks = [Tok.punct .comma].intercalate (args.map Prod.fst) ++ .punct .rparen :: rest)
    (room : d ≤ st.room) (capped : st.count + ExprAst.sizeArgs (args.map Prod.snd) ≤ maxNodes)
    (fuel : 30 * ([Tok.punct .comma].intercalate (args.map Prod.fst)).length + 29 ≤ n) :
    parseArgs maxNodes n st = .ok (args.map Prod.snd,
      st.pass ([Tok.punct .comma].intercalate (args.map Prod.fst)).length
        (ExprAst.sizeArgs (args.map Prod.snd)) (ExprAst.readsArgs (args.map Prod.snd))) := by
  obtain ⟨n, rfl⟩ : ∃ k, n = k + 1 := ⟨n - 1, by omega⟩
  rw [parseArgs]
  cases args with
  | nil =>
    rw [if_pos (punct_of_toks tokens)]
    rfl
  | cons arg args =>
    obtain ⟨tok, more, first, open_⟩ := starts arg (List.mem_cons_self ..)
    obtain ⟨after, whole⟩ : ∃ after, st.toks = tok :: after := by
      rw [tokens]
      cases args <;> simp [first, List.intercalate_cons_cons]
    have unclosed : st.punct? ≠ some .rparen := by
      intro here
      have same := peek_of_punct here
      rw [peek_of_toks whole] at same
      exact open_ same
    rw [if_neg unclosed]
    exact argList (List.cons_ne_nil _ _) each tokens room capped (by omega)

theorem call {f : JSString} {arity : Nat × Option Nat} {args : List (List Tok × ExprAst)}
    (known : builtins.lookup f = some arity) (admitted : arityAdmits arity args.length)
    (each : ∀ arg, arg ∈ args → ParseComplete maxNodes d .expr arg.1 arg.2)
    (starts : ∀ arg, arg ∈ args → ∃ tok rest, arg.1 = tok :: rest ∧ tok ≠ .punct .rparen) :
    ParseComplete maxNodes (d + 1) .primary
      (.name f :: .punct .lparen :: ([Tok.punct .comma].intercalate (args.map Prod.fst) ++ [.punct .rparen]))
      (.call f (args.map Prod.snd)) := by
  intro st rest n tokens room capped weaker fuel
  simp only [Nonterminal.rank, List.length_append, List.length_cons, List.length_nil] at fuel
  simp only [ExprAst.size] at capped
  obtain ⟨n, rfl⟩ : ∃ k, n = k + 1 := ⟨n - 1, by omega⟩
  simp only [List.append_assoc, List.cons_append, List.nil_append] at tokens
  obtain ⟨notLiteral, unreserved⟩ := builtin_isIdentifier known
  simp only [List.map_cons, List.map_nil, List.mem_cons, List.not_mem_nil, or_false, not_or] at notLiteral
  have atParen := pass_one_toks tokens
  have atArgs := inside_toks atParen
  have parsed := ParseComplete.args (n := n) each starts atArgs (by rw [inside_room, pass_room]; omega)
    (by simp only [inside_count, pass_count]; omega) (by omega)
  have atEnd := pass_toks atArgs (ExprAst.sizeArgs (args.map Prod.snd)) (ExprAst.readsArgs (args.map Prod.snd))
  simp only [parsePrimary, peek_of_toks tokens, if_neg notLiteral.1, if_neg notLiteral.2.1, if_neg notLiteral.2.2,
    if_neg unreserved, advance_eq, if_pos (punct_of_toks atParen), known]
  refine bind_of_ok (enter_of_room (by rw [pass_room]; omega)) (bind_of_ok parsed ?_)
  refine bind_of_ok (expect_of_toks (leave_toks.trans atEnd)) ((if_pos (by simpa using admitted)).trans ?_)
  rw [leave_inside]
  refine (node_of_count _ (by simp only [pass_count]; omega)).trans ?_
  simp only [pass_pass, ExprAst.size, ExprAst.reads, List.length_append, List.length_cons, List.length_nil,
    List.append_nil, List.nil_append]
  congr 3 <;> omega

end ParseComplete

def Tok.startsPrimary : Tok → Bool
  | .num _ | .str _ _ | .name _ | .punct .lparen => true
  | _ => false

def Tok.signs : Tok → Bool
  | .punct p => (unaryOperator p).isSome
  | _ => false

/-- The tokens a derivation may start with. -/
def Nonterminal.starts : Nonterminal → Tok → Bool
  | .primary, tok => tok.startsPrimary
  | .postfixed, tok => tok.startsPrimary
  | _, tok => tok.startsPrimary || tok.signs

theorem Derives.starts {d : Nat} {nt : Nonterminal} {toks : List Tok} {ast : ExprAst}
    (derives : Derives d nt toks ast) : ∃ tok rest, toks = tok :: rest ∧ nt.starts tok := by
  induction derives with
  | expr _ ih =>
    obtain ⟨tok, rest, rfl, starts⟩ := ih
    exact ⟨tok, rest, rfl, starts⟩
  | cond _ _ _ ih _ _ =>
    obtain ⟨tok, rest, rfl, starts⟩ := ih
    exact ⟨tok, _, rfl, starts⟩
  | operand _ ih =>
    obtain ⟨tok, rest, rfl, starts⟩ := ih
    exact ⟨tok, rest, rfl, by unfold Level.operand at starts; split at starts <;> exact starts⟩
  | binary _ _ _ ih _ =>
    obtain ⟨tok, rest, rfl, starts⟩ := ih
    exact ⟨tok, _, rfl, starts⟩
  | unary signs _ _ => exact ⟨_, _, rfl, by simp [Nonterminal.starts, Tok.signs, signs]⟩
  | postfixed _ ih =>
    obtain ⟨tok, rest, rfl, starts⟩ := ih
    exact ⟨tok, rest, rfl, Bool.or_eq_true_iff.mpr (Or.inl starts)⟩
  | primary _ ih =>
    obtain ⟨tok, rest, rfl, starts⟩ := ih
    exact ⟨tok, rest, rfl, starts⟩
  | member _ ih =>
    obtain ⟨tok, rest, rfl, starts⟩ := ih
    exact ⟨tok, _, rfl, starts⟩
  | index _ _ ih _ =>
    obtain ⟨tok, rest, rfl, starts⟩ := ih
    exact ⟨tok, _, rfl, starts⟩
  | _ => exact ⟨_, _, rfl, rfl⟩

theorem Tok.not_signs_of_startsPrimary {p : Punct} (starts : (Tok.punct p).startsPrimary) :
    unaryOperator p = none := by
  cases p <;> first | rfl | cases starts

/-- Every derivation is read by the parse function of its nonterminal. -/
theorem Derives.parseComplete {d : Nat} {nt : Nonterminal} {toks : List Tok} {ast : ExprAst} (maxNodes : Nat)
    (derives : Derives d nt toks ast) : ParseComplete maxNodes d nt toks ast := by
  induction derives with
  | expr _ ih => exact ih.expr_plain
  | cond _ _ _ first second third => exact first.cond second third
  | operand _ ih => exact ih.level_operand
  | binary _ builds _ first second => exact first.level_binary builds second
  | unary signs _ ih => exact ih.unary signs
  | postfixed inner ih =>
    obtain ⟨tok, rest, rfl, starts⟩ := inner.starts
    refine ih.unary_postfixed (fun p others same => ?_) (List.cons_ne_nil _ _)
    cases same
    exact Tok.not_signs_of_startsPrimary starts
  | primary _ ih => exact ih.postfixed_primary
  | member _ ih => exact ih.member
  | index _ _ target key => exact target.index key
  | num => exact ParseComplete.leaf rfl rfl fun n st atTok => by simp only [parsePrimary, atTok]
  | str => exact ParseComplete.leaf rfl rfl fun n st atTok => by simp only [parsePrimary, atTok]
  | true => exact ParseComplete.leaf rfl rfl fun n st atTok => by simp only [parsePrimary, atTok, if_true]
  | false =>
    refine ParseComplete.leaf rfl rfl fun n st atTok => ?_
    simp only [parsePrimary, atTok, if_neg (by decide : js "false" ≠ js "true"), if_true]
  | null =>
    refine ParseComplete.leaf rfl rfl fun n st atTok => ?_
    simp only [parsePrimary, atTok, if_neg (by decide : js "null" ≠ js "true"),
      if_neg (by decide : js "null" ≠ js "false"), if_true]
  | name identifier => exact ParseComplete.name identifier
  | call known admitted args ih =>
    refine ParseComplete.call known admitted ih fun arg member => ?_
    obtain ⟨tok, rest, same, starts⟩ := (args arg member).starts
    exact ⟨tok, rest, same, fun closing => by subst closing; cases starts⟩
  | group _ ih => exact ih.group

end Xript
