import Xript.Expr.LexerCorrect
import Xript.Expr.ParserComplete
import Xript.Text.Join

namespace Xript

open ParserState

theorem addNames_concat (names reads : List JSString) (x : JSString) :
    addNames names (reads ++ [x]) =
      if x ∈ addNames names reads then addNames names reads else addNames names reads ++ [x] := by
  rw [addNames_append]
  rfl

/-- The names collected by a run are the first appearances of what it read. -/
theorem firstAppearances_addNames (reads : List JSString) : FirstAppearances (addNames [] reads) reads := by
  induction reads using List.reverseRecOn with
  | nil => exact ⟨fun _ => Iff.rfl, List.nodup_nil, List.Pairwise.nil⟩
  | append_singleton reads x ih =>
    have earlier : ∀ y, y ∈ addNames [] reads → (reads ++ [x]).idxOf y = reads.idxOf y := fun y member =>
      List.idxOf_append_of_mem ((ih.exact y).mp member)
    have kept : (addNames [] reads).Pairwise fun y z => (reads ++ [x]).idxOf y < (reads ++ [x]).idxOf z := by
      refine ih.ordered.imp_of_mem fun {y z} first second before => ?_
      rwa [earlier y first, earlier z second]
    rw [addNames_concat]
    split
    · rename_i known
      refine ⟨fun y => ?_, ih.once, kept⟩
      rw [List.mem_append, List.mem_singleton, ih.exact y]
      exact ⟨Or.inl, fun either => either.elim id fun same => same ▸ (ih.exact x).mp known⟩
    · rename_i fresh
      refine ⟨fun y => ?_, ?_, ?_⟩
      · rw [List.mem_append, List.mem_append, ih.exact y]
      · exact List.nodup_append.mpr ⟨ih.once, List.pairwise_singleton _ x, fun y member z last => by
          rw [List.mem_singleton.mp last]
          exact fun same => fresh (same ▸ member)⟩
      · refine List.pairwise_append.mpr ⟨kept, List.pairwise_singleton _ _, fun y member z last => ?_⟩
        obtain rfl := List.mem_singleton.mp last
        rw [earlier y member, List.idxOf_append_of_notMem (fun read => fresh ((ih.exact z).mpr read))]
        have inside := List.idxOf_lt_length_of_mem ((ih.exact y).mp member)
        omega

/-- No derivation holds an end marker. -/
theorem Derives.no_eof {d : Nat} {nt : Nonterminal} {toks : List Tok} {ast : ExprAst}
    (derives : Derives d nt toks ast) : Tok.eof ∉ toks := by
  induction derives with
  | call _ _ _ ih =>
    simp only [List.mem_cons, List.mem_append, List.not_mem_nil, or_false, not_or]
    refine ⟨Tok.noConfusion, Tok.noConfusion, fun member => ?_, Tok.noConfusion⟩
    rcases mem_intercalate member with comma | ⟨part, inside, here⟩
    · cases List.mem_singleton.mp comma
    · obtain ⟨arg, among, rfl⟩ := List.mem_map.mp inside
      exact ih arg among here
  | _ => simp_all

/-- The end marker cuts a token sequence in one way only. -/
theorem append_eof_inj {toks passed rest : List Tok} (whole : toks ++ [.eof] = passed ++ .eof :: rest)
    (first : Tok.eof ∉ passed) (second : Tok.eof ∉ toks) : toks = passed := by
  induction passed generalizing toks with
  | nil =>
    cases toks with
    | nil => rfl
    | cons tok toks =>
      cases whole
      exact absurd (List.mem_cons_self ..) second
  | cons tok passed ih =>
    cases toks with
    | nil =>
      rw [List.nil_append, List.cons_append] at whole
      exact absurd ((List.cons.inj whole).1 ▸ List.mem_cons_self ..) first
    | cons other toks =>
      obtain ⟨rfl, inner⟩ := List.cons.inj whole
      rw [ih inner (fun member => first (List.mem_cons_of_mem _ member))
        (fun member => second (List.mem_cons_of_mem _ member))]

theorem Lexes.no_eof {source : JSString} {toks : List Tok} (lexes : Lexes source toks) : Tok.eof ∉ toks := by
  induction lexes with
  | nil => exact List.not_mem_nil
  | space _ _ ih => exact ih
  | token lexeme _ _ ih =>
    rw [List.mem_cons, not_or]
    exact ⟨by cases lexeme <;> nofun, ih⟩

theorem Lexes.functional {source : JSString} {toks others : List Tok} (first : Lexes source toks)
    (second : Lexes source others) : toks = others := by
  obtain ⟨tokens, run, same⟩ := exprTokens_iff.mpr first
  obtain ⟨tokens', run', same'⟩ := exprTokens_iff.mpr second
  rw [run] at run'
  cases run'
  rw [same] at same'
  exact List.append_cancel_right same'

/-- A text of characters that start no lexeme has no tokens. -/
theorem Lexes.nil_of_blank {source : JSString} {toks : List Tok} {blank : Nat → Bool}
    (starts : ∀ {c t tok}, Lexeme (c :: t) tok → blank c = false) (lexes : Lexes source toks)
    (all : source.all blank) : toks = [] := by
  induction lexes with
  | nil => rfl
  | space _ _ ih =>
    rw [List.all_cons, Bool.and_eq_true] at all
    exact ih all.2
  | token lexeme _ _ _ =>
    obtain ⟨c, t, rfl⟩ := List.exists_cons_of_ne_nil lexeme.ne_nil
    rw [List.cons_append, List.all_cons, starts lexeme] at all
    cases all

theorem toks_of_eof {st : ParserState} (atEnd : st.peek.tok = .eof) : st.toks = [] ∨ ∃ rest, st.toks = .eof :: rest := by
  obtain ⟨tokens, count, depth, names⟩ := st
  cases tokens with
  | nil => exact Or.inl rfl
  | cons t tokens => exact Or.inr ⟨tokens.map ExprToken.tok, congrArg (· :: tokens.map ExprToken.tok) atEnd⟩

/-- A successful parse of a marked token sequence has read a derivation of all of it. -/
theorem parseTokens_sound {maxNodes : Nat} {source : JSString} {tokens : List ExprToken} {toks : List Tok}
    {parsed : ParsedExpression} (marked : tokens.map ExprToken.tok = toks ++ [.eof]) (real : Tok.eof ∉ toks)
    (run : parseTokens maxNodes source tokens = .ok parsed) :
    Derives maxExpressionDepth .expr toks parsed.ast ∧ parsed.ast.size ≤ maxNodes ∧
      parsed = ⟨source, parsed.ast.kind, parsed.ast, addNames [] parsed.ast.reads, parsed.ast.size⟩ := by
  obtain ⟨⟨ast, st⟩, read, run⟩ := ok_of_bind run
  simp only at run
  split at run
  · rename_i atEnd
    cases run
    obtain ⟨passed, consumes, derives⟩ := (parseSound maxNodes _).expr read
    have count : st.count = ast.size := consumes.count.trans (Nat.zero_add _)
    have names : st.names = addNames [] ast.reads := consumes.names
    have capped := consumes.capped (Nat.zero_le _)
    have whole : toks ++ [.eof] = passed ++ st.toks := marked.symm.trans consumes.tokens
    obtain rfl : toks = passed := by
      rcases toks_of_eof atEnd with none | ⟨rest, more⟩
      · rw [none, List.append_nil] at whole
        exact absurd (whole ▸ List.mem_append_right toks (List.mem_singleton_self _)) derives.no_eof
      · rw [more] at whole
        exact append_eof_inj whole derives.no_eof real
    refine ⟨derives, ?_, ?_⟩
    · rwa [← count]
    · rw [count, names]
  · cases run

/-- Every derivation within the limits is parsed. -/
theorem parseTokens_complete {maxNodes : Nat} {tokens : List ExprToken} {toks : List Tok} {ast : ExprAst}
    (source : JSString) (marked : tokens.map ExprToken.tok = toks ++ [.eof])
    (derives : Derives maxExpressionDepth .expr toks ast) (capped : ast.size ≤ maxNodes) :
    parseTokens maxNodes source tokens = .ok ⟨source, ast.kind, ast, addNames [] ast.reads, ast.size⟩ := by
  have length : tokens.length = toks.length + 1 := by
    rw [← List.length_map (f := ExprToken.tok), marked, List.length_append, List.length_singleton]
  have initial : (⟨tokens, 0, 0, []⟩ : ParserState).toks = toks ++ [.eof] := marked
  have read := derives.parseComplete maxNodes (n := 30 * tokens.length + 30) initial (Nat.le_refl _)
    (by simpa using capped) (by decide : nextStrength [.eof] < 1) (by simp only [Nonterminal.rank]; omega)
  refine bind_of_ok read ?_
  have atEnd := peek_of_toks (pass_toks initial ast.size ast.reads)
  refine (if_pos atEnd).trans ?_
  simp [ParserState.pass, pure, Except.pure]

theorem Derives.ne_nil {d : Nat} {nt : Nonterminal} {toks : List Tok} {ast : ExprAst}
    (derives : Derives d nt toks ast) : toks ≠ [] := by
  obtain ⟨tok, rest, rfl, -⟩ := derives.starts
  exact List.cons_ne_nil _ _

/-- What parsing a source gives: the tree of its token sequence, with the names it reads and its size. -/
theorem parseExpression_eq_ok {maxNodes : Nat} {source : JSString} {parsed : ParsedExpression} :
    parseExpression maxNodes source = .ok parsed ↔
      ∃ toks, Lexes source toks ∧ Derives maxExpressionDepth .expr toks parsed.ast ∧ parsed.ast.size ≤ maxNodes ∧
        parsed = ⟨source, parsed.ast.kind, parsed.ast, addNames [] parsed.ast.reads, parsed.ast.size⟩ := by
  constructor
  · intro run
    unfold parseExpression at run
    split at run
    · cases run
    · obtain ⟨tokens, lexed, run⟩ := ok_of_bind run
      obtain ⟨toks, lexes, marked⟩ := exprTokensFrom_lexes (Nat.le_refl _) lexed
      exact ⟨toks, lexes, parseTokens_sound marked lexes.no_eof run⟩
  · rintro ⟨toks, lexes, derives, capped, same⟩
    have visible : trim source ≠ [] := fun blank =>
      derives.ne_nil (lexes.nil_of_blank Lexeme.not_blank (trim_eq_nil.mp blank))
    obtain ⟨tokens, lexed, marked⟩ := exprTokens_iff.mpr lexes
    rw [parseExpression, if_neg visible]
    refine bind_of_ok lexed ?_
    rw [parseTokens_complete source marked derives capped, ← same]

/-- A token sequence has at most one derivation tree. -/
theorem Derives.functional {toks : List Tok} {ast other : ExprAst} (first : Derives maxExpressionDepth .expr toks ast)
    (second : Derives maxExpressionDepth .expr toks other) : ast = other := by
  have marked : ((toks ++ [Tok.eof]).map fun tok => ExprToken.mk tok 0).map ExprToken.tok = toks ++ [.eof] := by
    simp [Function.comp_def]
  have run := parseTokens_complete [] marked first (Nat.le_max_left ast.size other.size)
  rw [parseTokens_complete [] marked second (Nat.le_max_right ast.size other.size)] at run
  exact (congrArg ParsedExpression.ast (Except.ok.inj run)).symm

/-- The parser accepts exactly its grammar, and gives the one derivation tree of the source's token
sequence with its size and the names it reads. -/
theorem parseExpression_accepts (maxNodes : Nat) (source : JSString) :
    ((∃ parsed, parseExpression maxNodes source = .ok parsed) ↔
      ∃ toks ast, Lexes source toks ∧ Derives maxExpressionDepth .expr toks ast ∧ ast.size ≤ maxNodes) ∧
    ∀ parsed, parseExpression maxNodes source = .ok parsed →
      ∃ toks, (∀ other, Lexes source other ↔ other = toks) ∧
        (∀ ast, Derives maxExpressionDepth .expr toks ast ↔ ast = parsed.ast) ∧
        parsed.nodeCount = parsed.ast.size ∧ FirstAppearances parsed.names parsed.ast.reads := by
  refine ⟨⟨?_, ?_⟩, ?_⟩
  · rintro ⟨parsed, run⟩
    obtain ⟨toks, lexes, derives, capped, -⟩ := parseExpression_eq_ok.1 run
    exact ⟨toks, parsed.ast, lexes, derives, capped⟩
  · rintro ⟨toks, ast, lexes, derives, capped⟩
    exact ⟨⟨source, ast.kind, ast, addNames [] ast.reads, ast.size⟩,
      parseExpression_eq_ok.2 ⟨toks, lexes, derives, capped, rfl⟩⟩
  · intro parsed run
    obtain ⟨toks, lexes, derives, -, same⟩ := parseExpression_eq_ok.1 run
    refine ⟨toks, fun other => ⟨fun found => found.functional lexes, fun is => is ▸ lexes⟩,
      fun ast => ⟨fun found => found.functional derives, fun is => is ▸ derives⟩, ?_, ?_⟩
    · rw [same]
    · rw [same]
      exact firstAppearances_addNames _

theorem parseExpression_accepts_sum : ∃ parsed, parseExpression 256 (js "a+len(a)") = .ok parsed ∧
    ∃ toks, (∀ other, Lexes (js "a+len(a)") other ↔ other = toks) ∧
      (∀ ast, Derives maxExpressionDepth .expr toks ast ↔ ast = parsed.ast) ∧
      parsed.nodeCount = parsed.ast.size ∧ FirstAppearances parsed.names parsed.ast.reads := by
  have accepted : (parseExpression 256 (js "a+len(a)")).isOk = true := by decide +kernel
  cases run : parseExpression 256 (js "a+len(a)") with
  | error e =>
    rw [run] at accepted
    cases accepted
  | ok parsed => exact ⟨parsed, rfl, (parseExpression_accepts 256 (js "a+len(a)")).2 parsed run⟩

end Xript
