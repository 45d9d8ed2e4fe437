import Xript.Expr.Grammar

namespace Xript

theorem ok_of_bind {ε α β : Type} {x : Except ε α} {f : α → Except ε β} {b : β}
    (run : x >>= f = .ok b) : ∃ a, x = .ok a ∧ f a = .ok b := by
  cases x with
  | error e => cases run
  | ok a => exact ⟨a, rfl, run⟩

/-- The names list after further reads. -/
def addNames (names reads : List JSString) : List JSString :=
  reads.foldl (fun names x => if x ∈ names then names else names ++ [x]) names

@[simp] theorem addNames_nil (names : List JSString) : addNames names [] = names := rfl

theorem addNames_append (names first second : List JSString) :
    addNames names (first ++ second) = addNames (addNames names first) second := by
  simp only [addNames, List.foldl_append]

namespace ParserState

def toks (st : ParserState) : List Tok := st.tokens.map ExprToken.tok

/-- The brackets that may still be opened. -/
def room (st : ParserState) : Nat := maxExpressionDepth - st.depth

/-- What a successful run of the parser from `st` to `after` has done: it has passed `toks`, counted
`size` nodes under the cap and read `reads`, and every bracket it opened is closed again. -/
structure Consumes (maxNodes : Nat) (st after : ParserState) (toks : List Tok) (size : Nat)
    (reads : List JSString) : Prop where
  tokens : st.toks = toks ++ after.toks
  count : after.count = st.count + size
  capped : st.count ≤ maxNodes → after.count ≤ maxNodes
  depth : after.depth = st.depth
  names : after.names = addNames st.names reads

variable {maxNodes : Nat} {st after last : ParserState}

theorem Consumes.room_eq {t : List Tok} {s : Nat} {r : List JSString}
    (run : Consumes maxNodes st after t s r) : after.room = st.room := by
  rw [room, room, run.depth]

theorem Consumes.refl (st : ParserState) : Consumes maxNodes st st [] 0 [] :=
  ⟨rfl, rfl, id, rfl, rfl⟩

theorem Consumes.trans {t₁ t₂ : List Tok} {s₁ s₂ : Nat} {r₁ r₂ : List JSString}
    (first : Consumes maxNodes st after t₁ s₁ r₁) (second : Consumes maxNodes after last t₂ s₂ r₂) :
    Consumes maxNodes st last (t₁ ++ t₂) (s₁ + s₂) (r₁ ++ r₂) where
  tokens := by rw [first.tokens, second.tokens, List.append_assoc]
  count := by rw [second.count, first.count, Nat.add_assoc]
  capped := second.capped ∘ first.capped
  depth := second.depth.trans first.depth
  names := by rw [second.names, first.names, addNames_append]

theorem toks_of_peek {tok : Tok} (atTok : st.peek.tok = tok) (real : tok ≠ .eof) :
    st.toks = tok :: st.advance.toks := by
  obtain ⟨tokens, count, depth, names⟩ := st
  cases tokens with
  | nil => exact absurd atTok.symm real
  | cons t tokens =>
    subst atTok
    rfl

theorem peek_of_punct {p : Punct} (here : st.punct? = some p) : st.peek.tok = .punct p := by
  unfold punct? at here
  split at here
  · rename_i q atTok
    cases here
    exact atTok
  · cases here

theorem Consumes.token {tok : Tok} (atTok : st.peek.tok = tok) (real : tok ≠ .eof) :
    Consumes maxNodes st st.advance [tok] 0 [] :=
  ⟨toks_of_peek atTok real, rfl, id, rfl, rfl⟩

theorem Consumes.punct {p : Punct} (here : st.punct? = some p) :
    Consumes maxNodes st st.advance [.punct p] 0 [] :=
  .token (peek_of_punct here) nofun

theorem Consumes.expect {p : Punct} (run : st.expect p = .ok after) :
    Consumes maxNodes st after [.punct p] 0 [] := by
  unfold ParserState.expect at run
  split at run
  · rename_i here
    cases run
    exact .punct here
  · cases run

theorem Consumes.reserve (run : st.reserve maxNodes = .ok after) : Consumes maxNodes st after [] 1 [] := by
  unfold ParserState.reserve at run
  split at run
  · cases run
  · rename_i room
    cases run
    exact ⟨rfl, rfl, fun _ => Nat.le_of_not_lt room, rfl, rfl⟩

theorem Consumes.node {ast result : ExprAst} (run : st.node maxNodes ast = .ok (result, after)) :
    result = ast ∧ Consumes maxNodes st after [] 1 [] := by
  obtain ⟨reserved, counted, equal⟩ := ok_of_bind run
  cases equal
  exact ⟨rfl, .reserve counted⟩

theorem Consumes.addName (x : JSString) (st : ParserState) :
    Consumes maxNodes st (st.addName x) [] 0 [x] := by
  unfold ParserState.addName
  split
  · rename_i known
    exact ⟨rfl, rfl, id, rfl, by simp [addNames, known]⟩
  · rename_i fresh
    exact ⟨rfl, rfl, id, rfl, by simp [addNames, fresh]⟩

/-- A bracketed level: the bracket opened, what is inside read, the level left. -/
theorem Consumes.nested {p : Punct} {inside : ParserState} {t : List Tok} {s : Nat} {r : List JSString}
    (here : st.punct? = some p) (opened : st.enter = .ok inside) (run : Consumes maxNodes inside after t s r) :
    Consumes maxNodes st after.leave (.punct p :: t) s r ∧
      st.room = inside.room + 1 := by
  unfold ParserState.enter at opened
  split at opened
  · cases opened
  · rename_i room
    cases opened
    refine ⟨⟨?_, run.count, run.capped, ?_, run.names⟩, ?_⟩
    · rw [toks_of_peek (peek_of_punct here) nofun, List.cons_append]
      exact congrArg _ run.tokens
    · simp only [leave, run.depth, Nat.add_sub_cancel]
    · simp only [ParserState.room]
      omega

end ParserState

open ParserState

/-- A parse function reads a derivation of its nonterminal. -/
def ReadsDerivation (maxNodes : Nat) (nt : Nonterminal)
    (parse : ParserState → Except ExpressionError (ExprAst × ParserState)) : Prop :=
  ∀ {st ast after}, parse st = .ok (ast, after) →
    ∃ toks, Consumes maxNodes st after toks ast.size ast.reads ∧ Derives st.room nt toks ast

/-- A loop extends the derivation of the operand it starts from. -/
def ExtendsDerivation (maxNodes : Nat) (nt : Nonterminal)
    (loop : ExprAst → ParserState → Except ExpressionError (ExprAst × ParserState)) : Prop :=
  ∀ {left st ast after passed}, loop left st = .ok (ast, after) → Derives st.room nt passed left →
    ∃ toks size reads, Consumes maxNodes st after toks size reads ∧ ast.size = left.size + size ∧
      ast.reads = left.reads ++ reads ∧ Derives st.room nt (passed ++ toks) ast

/-- An argument loop reads expressions with commas between them. -/
def ReadsArguments (maxNodes : Nat)
    (parse : ParserState → Except ExpressionError (List ExprAst × ParserState)) : Prop :=
  ∀ {st asts after}, parse st = .ok (asts, after) →
    ∃ args : List (List Tok × ExprAst), asts = args.map Prod.snd ∧
      (∀ arg, arg ∈ args → Derives st.room .expr arg.1 arg.2) ∧
      Consumes maxNodes st after ([Tok.punct .comma].intercalate (args.map Prod.fst))
        (ExprAst.sizeArgs asts) (ExprAst.readsArgs asts)

theorem Level.operator_size {level : Level} {p : Punct} {build : ExprAst → ExprAst → ExprAst}
    (builds : level.operator p = some build) (left right : ExprAst) :
    (build left right).size = left.size + right.size + 1 := by
  unfold Level.operator at builds
  split at builds <;> cases builds <;> rfl

theorem Level.operator_reads {level : Level} {p : Punct} {build : ExprAst → ExprAst → ExprAst}
    (builds : level.operator p = some build) (left right : ExprAst) :
    (build left right).reads = left.reads ++ right.reads := by
  unfold Level.operator at builds
  split at builds <;> cases builds <;> rfl

/-- A primary expression of one token that counts one node. -/
theorem ParserState.leaf {maxNodes : Nat} {st after : ParserState} {ast result : ExprAst} {tok : Tok} (atTok : st.peek.tok = tok)
    (real : tok ≠ .eof) (sized : ast.size = 1) (named : ast.reads = []) (derives : Derives st.room .primary [tok] ast)
    (run : st.advance.node maxNodes ast = .ok (result, after)) :
    ∃ toks, Consumes maxNodes st after toks result.size result.reads ∧ Derives st.room .primary toks result := by
  obtain ⟨rfl, counted⟩ := Consumes.node run
  refine ⟨[tok], ?_, derives⟩
  rw [sized, named]
  exact (Consumes.token atTok real).trans counted

theorem parseArgList_ne_nil {maxNodes n : Nat} {st after : ParserState} {args : List ExprAst}
    (run : parseArgList maxNodes n st = .ok (args, after)) : args ≠ [] := by
  cases n with
  | zero => cases run
  | succ n =>
    simp only [parseArgList] at run
    obtain ⟨⟨arg, st₁⟩, first, run⟩ := ok_of_bind run
    simp only at run
    split at run
    · obtain ⟨⟨others, st₂⟩, second, run⟩ := ok_of_bind run
      cases run
      exact List.cons_ne_nil _ _
    · cases run
      exact List.cons_ne_nil _ _

structure ParseSound (maxNodes n : Nat) : Prop where
  expr : ReadsDerivation maxNodes .expr (parseExpr maxNodes n)
  binary : ∀ level, ReadsDerivation maxNodes (.level level) (parseBinary maxNodes n level)
  operand : ∀ level, ReadsDerivation maxNodes level.operand (parseOperand maxNodes n level)
  binaryTail : ∀ level, ExtendsDerivation maxNodes (.level level) (binaryLoop maxNodes n level)
  unary : ReadsDerivation maxNodes .unary (parseUnary maxNodes n)
  postfixed : ReadsDerivation maxNodes .postfixed (parsePostfix maxNodes n)
  postfixTail : ExtendsDerivation maxNodes .postfixed (postfixLoop maxNodes n)
  primary : ReadsDerivation maxNodes .primary (parsePrimary maxNodes n)
  args : ReadsArguments maxNodes (parseArgs maxNodes n)
  argList : ReadsArguments maxNodes (parseArgList maxNodes n)

namespace ParseSound

variable {maxNodes n : Nat} (ih : ParseSound maxNodes n)

include ih

theorem operand_succ (level : Level) :
    ReadsDerivation maxNodes level.operand (parseOperand maxNodes (n + 1) level) := by
  intro st ast after run
  simp only [parseOperand] at run
  unfold Level.operand
  cases tighter : level.tighter with
  | some inner =>
    simp only [tighter] at run
    exact ih.binary inner run
  | none =>
    simp only [tighter] at run
    exact ih.unary run

theorem expr_succ : ReadsDerivation maxNodes .expr (parseExpr maxNodes (n + 1)) := by
  intro st ast after run
  simp only [parseExpr] at run
  obtain ⟨⟨test, st₁⟩, first, run⟩ := ok_of_bind run
  obtain ⟨t, passedTest, derivesTest⟩ := ih.binary _ first
  simp only at run
  split at run
  · rename_i question
    obtain ⟨⟨cons, st₂⟩, second, run⟩ := ok_of_bind run
    obtain ⟨st₃, colon, run⟩ := ok_of_bind run
    obtain ⟨⟨alt, st₄⟩, third, run⟩ := ok_of_bind run
    obtain ⟨c, passedCons, derivesCons⟩ := ih.expr second
    obtain ⟨a, passedAlt, derivesAlt⟩ := ih.expr third
    obtain ⟨rfl, counted⟩ := Consumes.node run
    have upToQuestion := passedTest.trans (.punct question)
    have upToColon := (upToQuestion.trans passedCons).trans (.expect colon)
    have whole := (upToColon.trans passedAlt).trans counted
    rw [upToQuestion.room_eq] at derivesCons
    rw [upToColon.room_eq] at derivesAlt
    refine ⟨_, ?_, .cond derivesTest derivesCons derivesAlt⟩
    simpa [ExprAst.size, ExprAst.reads] using whole
  · cases run
    exact ⟨t, passedTest, .expr derivesTest⟩

theorem binary_succ (level : Level) :
    ReadsDerivation maxNodes (.level level) (parseBinary maxNodes (n + 1) level) := by
  intro st ast after run
  simp only [parseBinary] at run
  obtain ⟨⟨left, st₁⟩, first, rest⟩ := ok_of_bind run
  obtain ⟨l, passedLeft, derivesLeft⟩ := ih.operand level first
  rw [← passedLeft.room_eq] at derivesLeft
  obtain ⟨toks, size, reads, passed, sized, named, derives⟩ := ih.binaryTail level rest (.operand derivesLeft)
  rw [passedLeft.room_eq] at derives
  refine ⟨_, ?_, derives⟩
  rw [sized, named]
  exact passedLeft.trans passed

theorem binaryTail_succ (level : Level) :
    ExtendsDerivation maxNodes (.level level) (binaryLoop maxNodes (n + 1) level) := by
  intro left st ast after passed run derivesLeft
  simp only [binaryLoop] at run
  split at run
  · cases run
    exact ⟨[], 0, [], .refl _, rfl, by simp, by simpa using derivesLeft⟩
  · rename_i build operator
    obtain ⟨p, here, builds⟩ := Option.bind_eq_some_iff.mp operator
    obtain ⟨⟨right, st₁⟩, second, run⟩ := ok_of_bind run
    obtain ⟨⟨joined, st₂⟩, counting, rest⟩ := ok_of_bind run
    obtain ⟨r, passedRight, derivesRight⟩ := ih.operand level second
    obtain ⟨rfl, counted⟩ := Consumes.node counting
    have step := ((Consumes.punct here).trans passedRight).trans counted
    have atOperator : Consumes maxNodes st st.advance [.punct p] 0 [] := .punct here
    rw [atOperator.room_eq] at derivesRight
    have joins := Derives.binary derivesLeft builds derivesRight
    rw [← step.room_eq] at joins
    obtain ⟨toks, size, reads, more, sized, named, derives⟩ := ih.binaryTail level rest joins
    rw [step.room_eq] at derives
    refine ⟨_, _, _, step.trans more, ?_, ?_, ?_⟩
    · simp only [sized, Level.operator_size builds]
      omega
    · simp only [named, Level.operator_reads builds]
      simp
    · simpa using derives

theorem unary_succ : ReadsDerivation maxNodes .unary (parseUnary maxNodes (n + 1)) := by
  intro st ast after run
  simp only [parseUnary] at run
  split at run
  · obtain ⟨toks, passed, derives⟩ := ih.postfixed run
    exact ⟨toks, passed, .postfixed derives⟩
  · rename_i op operator
    obtain ⟨p, here, signs⟩ := Option.bind_eq_some_iff.mp operator
    obtain ⟨st₁, counted, run⟩ := ok_of_bind run
    obtain ⟨⟨arg, st₂⟩, inner, run⟩ := ok_of_bind run
    cases run
    obtain ⟨toks, passed, derives⟩ := ih.unary inner
    have step := (Consumes.punct here).trans (.reserve counted)
    rw [step.room_eq] at derives
    refine ⟨_, ?_, .unary signs derives⟩
    simpa [ExprAst.size, ExprAst.reads, Nat.add_comm] using step.trans passed

theorem postfixed_succ : ReadsDerivation maxNodes .postfixed (parsePostfix maxNodes (n + 1)) := by
  intro st ast after run
  simp only [parsePostfix] at run
  obtain ⟨⟨target, st₁⟩, first, rest⟩ := ok_of_bind run
  obtain ⟨t, passedTarget, derivesTarget⟩ := ih.primary first
  rw [← passedTarget.room_eq] at derivesTarget
  obtain ⟨toks, size, reads, passed, sized, named, derives⟩ := ih.postfixTail rest (.primary derivesTarget)
  rw [passedTarget.room_eq] at derives
  refine ⟨_, ?_, derives⟩
  rw [sized, named]
  exact passedTarget.trans passed

theorem postfixTail_succ : ExtendsDerivation maxNodes .postfixed (postfixLoop maxNodes (n + 1)) := by
  intro target st ast after passed run derivesTarget
  simp only [postfixLoop] at run
  split at run
  · rename_i dot
    split at run
    · rename_i key named
      obtain ⟨⟨next, st₁⟩, counting, rest⟩ := ok_of_bind run
      obtain ⟨rfl, counted⟩ := Consumes.node counting
      have step := ((Consumes.punct dot).trans (.token named nofun)).trans counted
      have joins : Derives st.room .postfixed _ (.member target key) := .member derivesTarget
      rw [← step.room_eq] at joins
      obtain ⟨toks, size, reads, more, sized, listed, derives⟩ := ih.postfixTail rest joins
      rw [step.room_eq] at derives
      refine ⟨_, _, _, step.trans more, ?_, ?_, ?_⟩
      · rw [sized, ExprAst.size]
        omega
      · rw [listed, ExprAst.reads]
        simp
      · simpa using derives
    · cases run
  · rename_i bracket
    obtain ⟨st₁, opened, run⟩ := ok_of_bind run
    obtain ⟨⟨key, st₂⟩, inner, run⟩ := ok_of_bind run
    obtain ⟨st₃, closed, run⟩ := ok_of_bind run
    obtain ⟨⟨next, st₄⟩, counting, rest⟩ := ok_of_bind run
    obtain ⟨k, passedKey, derivesKey⟩ := ih.expr inner
    obtain ⟨nested, deeper⟩ := passedKey.nested bracket opened
    obtain ⟨rfl, counted⟩ := Consumes.node counting
    have step := (nested.trans (.expect closed)).trans counted
    rw [deeper] at derivesTarget
    have joins := Derives.index derivesTarget derivesKey
    rw [← deeper, ← step.room_eq] at joins
    obtain ⟨toks, size, reads, more, sized, listed, derives⟩ := ih.postfixTail rest joins
    rw [step.room_eq] at derives
    refine ⟨_, _, _, step.trans more, ?_, ?_, ?_⟩
    · simp only [sized, ExprAst.size]
      omega
    · simp only [listed, ExprAst.reads]
      simp
    · simpa using derives
  · cases run
  · cases run
    exact ⟨[], 0, [], .refl _, rfl, by simp, by simpa using derivesTarget⟩

theorem args_succ : ReadsArguments maxNodes (parseArgs maxNodes (n + 1)) := by
  intro st asts after run
  simp only [parseArgs] at run
  split at run
  · cases run
    exact ⟨[], rfl, nofun, .refl _⟩
  · exact ih.argList run

theorem argList_succ : ReadsArguments maxNodes (parseArgList maxNodes (n + 1)) := by
  intro st asts after run
  simp only [parseArgList] at run
  obtain ⟨⟨arg, st₁⟩, first, run⟩ := ok_of_bind run
  obtain ⟨t, passedArg, derivesArg⟩ := ih.expr first
  simp only at run
  split at run
  · rename_i comma
    obtain ⟨⟨others, st₂⟩, second, run⟩ := ok_of_bind run
    cases run
    obtain ⟨args, rfl, derives, passed⟩ := ih.argList second
    have step := passedArg.trans (.punct comma)
    have some := parseArgList_ne_nil second
    obtain ⟨other, more, rfl⟩ := List.exists_cons_of_ne_nil fun empty => some (List.map_eq_nil_iff.mpr empty)
    refine ⟨(t, arg) :: other :: more, rfl, ?_, ?_⟩
    · intro x member
      rcases List.mem_cons.mp member with rfl | member
      · exact derivesArg
      · rw [← step.room_eq]
        exact derives x member
    · simpa [ExprAst.sizeArgs, ExprAst.readsArgs, List.intercalate] using step.trans passed
  · cases run
    refine ⟨[(t, arg)], rfl, ?_, ?_⟩
    · intro x member
      rw [List.mem_singleton.mp member]
      exact derivesArg
    · simpa [ExprAst.sizeArgs, ExprAst.readsArgs, List.intercalate] using passedArg

theorem call {st after : ParserState} {f : JSString} {arity : Nat × Option Nat} {result : ExprAst}
    (named : st.peek.tok = .name f) (parenthesis : st.advance.punct? = some .lparen)
    (known : builtins.lookup f = some arity)
    (run : (do
      let (args, inner) ← parseArgs maxNodes n (← enter st.advance)
      let after ← expect .rparen inner.leave
      if arityAdmits arity args.length then node maxNodes (.call f args) after
      else fail st.peek.pos (arityMessage f arity args.length)) = .ok (result, after)) :
    ∃ toks, Consumes maxNodes st after toks result.size result.reads ∧ Derives st.room .primary toks result := by
  obtain ⟨st₁, opened, run⟩ := ok_of_bind run
  obtain ⟨⟨asts, st₂⟩, inner, run⟩ := ok_of_bind run
  obtain ⟨st₃, closed, run⟩ := ok_of_bind run
  split at run
  · rename_i admitted
    obtain ⟨rfl, counted⟩ := Consumes.node run
    obtain ⟨args, rfl, derives, passed⟩ := ih.args inner
    obtain ⟨nested, deeper⟩ := passed.nested parenthesis opened
    have step : Consumes maxNodes st st.advance [.name f] 0 [] := .token named nofun
    rw [step.room_eq] at deeper
    refine ⟨_, ?_, deeper ▸ Derives.call known (by simpa using admitted) derives⟩
    simpa [ExprAst.size, ExprAst.reads] using ((step.trans nested).trans (.expect closed)).trans counted
  · cases run

theorem primary_succ : ReadsDerivation maxNodes .primary (parsePrimary maxNodes (n + 1)) := by
  intro st ast after run
  simp only [parsePrimary] at run
  split at run
  · rename_i text atTok
    exact ParserState.leaf atTok nofun rfl rfl .num run
  · rename_i raw value atTok
    exact ParserState.leaf atTok nofun rfl rfl .str run
  · rename_i f atTok
    split at run
    · rename_i literal
      subst literal
      exact ParserState.leaf atTok nofun rfl rfl .true run
    split at run
    · rename_i literal
      subst literal
      exact ParserState.leaf atTok nofun rfl rfl .false run
    split at run
    · rename_i literal
      subst literal
      exact ParserState.leaf atTok nofun rfl rfl .null run
    split at run
    · cases run
    split at run
    · rename_i parenthesis
      split at run
      · cases run
      · rename_i arity known
        exact ih.call atTok parenthesis known run
    · rename_i notTrue notFalse notNull unreserved _
      obtain ⟨rfl, counted⟩ := Consumes.node run
      refine ⟨_, ?_, .name ⟨?_, unreserved⟩⟩
      · exact ((Consumes.token atTok nofun).trans (.addName f _)).trans counted
      · simp [notTrue, notFalse, notNull]
  · rename_i parenthesis
    have here : st.punct? = some .lparen := by simp [punct?, parenthesis]
    obtain ⟨st₁, opened, run⟩ := ok_of_bind run
    obtain ⟨⟨inner, st₂⟩, first, run⟩ := ok_of_bind run
    obtain ⟨st₃, closed, run⟩ := ok_of_bind run
    cases run
    obtain ⟨toks, passed, derives⟩ := ih.expr first
    obtain ⟨nested, deeper⟩ := passed.nested here opened
    refine ⟨_, ?_, deeper ▸ Derives.group derives⟩
    simpa using nested.trans (.expect closed)
  · cases run
  · cases run

end ParseSound

/-- Whatever the fuel, a successful parse has read a derivation. -/
theorem parseSound (maxNodes n : Nat) : ParseSound maxNodes n := by
  induction n with
  | zero => constructor <;> intros <;> (intro _ _ _; intros; contradiction)
  | succ n ih =>
    exact ⟨ih.expr_succ, ih.binary_succ, ih.operand_succ, ih.binaryTail_succ, ih.unary_succ, ih.postfixed_succ,
      ih.postfixTail_succ, ih.primary_succ, ih.args_succ, ih.argList_succ⟩

end Xript
