import Xript.Expr.EvalClean

namespace Xript

mutual

/-- Every call in the tree names a builtin and gives it as many arguments as it takes. -/
def ExprAst.Admitted : ExprAst → Prop
  | .member obj _ => obj.Admitted
  | .index obj key => obj.Admitted ∧ key.Admitted
  | .unary _ arg => arg.Admitted
  | .binary _ left right => left.Admitted ∧ right.Admitted
  | .logical _ left right => left.Admitted ∧ right.Admitted
  | .cond test cons alt => test.Admitted ∧ cons.Admitted ∧ alt.Admitted
  | .call f args =>
    (∃ arity, builtins.lookup f = some arity ∧ arityAdmits arity args.length = true) ∧ AdmittedArgs args
  | _ => True

def ExprAst.AdmittedArgs : List ExprAst → Prop
  | [] => True
  | arg :: args => arg.Admitted ∧ AdmittedArgs args

end

theorem admittedArgs_iff {args : List ExprAst} : ExprAst.AdmittedArgs args ↔ ∀ arg ∈ args, arg.Admitted := by
  induction args with
  | nil => simp [ExprAst.AdmittedArgs]
  | cons arg args ih => simp [ExprAst.AdmittedArgs, ih]

theorem operator_admitted {level : Level} {p : Punct} {build : ExprAst → ExprAst → ExprAst}
    (operator : level.operator p = some build) {left right : ExprAst} (admittedLeft : left.Admitted)
    (admittedRight : right.Admitted) : (build left right).Admitted := by
  unfold Level.operator at operator
  split at operator <;> cases operator <;> simp only [ExprAst.Admitted] <;> exact ⟨admittedLeft, admittedRight⟩

/-- The grammar derives admitted trees only. -/
theorem Derives.admitted {d : Nat} {nt : Nonterminal} {toks : List Tok} {ast : ExprAst}
    (derives : Derives d nt toks ast) : ast.Admitted := by
  induction derives with
  | expr _ ih | operand _ ih | postfixed _ ih | primary _ ih | group _ ih => exact ih
  | cond _ _ _ test cons alt =>
    simp only [ExprAst.Admitted]
    exact ⟨test, cons, alt⟩
  | binary _ operator _ left right => exact operator_admitted operator left right
  | unary _ _ ih | member _ ih => simpa only [ExprAst.Admitted] using ih
  | index _ _ obj key =>
    simp only [ExprAst.Admitted]
    exact ⟨obj, key⟩
  | num | str | true | false | null | name => simp only [ExprAst.Admitted]
  | call builtin admits _ ih =>
    simp only [ExprAst.Admitted]
    refine ⟨⟨_, builtin, by rwa [List.length_map]⟩, admittedArgs_iff.2 fun arg member => ?_⟩
    obtain ⟨pair, inside, rfl⟩ := List.mem_map.mp member
    exact ih pair inside

/-- No builtin takes an empty argument list. -/
theorem arguments_of_admits {f : JSString} {arity : Nat × Option Nat} (builtin : builtins.lookup f = some arity)
    {n : Nat} (admits : arityAdmits arity n = true) : 0 < n := by
  have least : ∀ entry ∈ builtins, 0 < entry.2.1 := by decide
  have positive := least _ (mem_of_lookup builtin)
  simp only [arityAdmits, Bool.and_eq_true, decide_eq_true_eq] at admits
  exact Nat.lt_of_lt_of_le positive admits.1

theorem evalUnary_clean (op : UnaryOp) {arg : ExprValue} : (evalUnary op arg).Clean := by
  cases op with
  | not => exact clean_bool _
  | neg =>
    simp only [evalUnary]
    cases read : asNumber arg with
    | none => exact clean_null
    | some x => exact clean_num.2 (F64.neg_isFinite (asNumber_finite read))
  | pos =>
    simp only [evalUnary]
    cases read : asNumber arg with
    | none => exact clean_null
    | some x => exact clean_num.2 (asNumber_finite read)

theorem evalArithmetic_clean (op : BinaryOp) (left right : ExprValue) : (evalArithmetic op left right).Clean := by
  unfold evalArithmetic
  split
  · split
    · exact finite_clean _
    · exact finite_clean _
    · exact finite_clean _
    · split
      · exact clean_null
      · exact finite_clean _
    · split
      · exact clean_null
      · exact finite_clean _
    · exact clean_null
  · exact clean_null

theorem evalBinary_clean (op : BinaryOp) (left right : ExprValue) : (evalBinary op left right).Clean := by
  unfold evalBinary
  split
  any_goals exact clean_bool _
  · split
    · split
      · exact clean_str _
      · exact clean_null
    · exact evalArithmetic_clean ..
  all_goals exact evalArithmetic_clean ..

theorem readIndex_clean {target : ExprValue} (clean : target.Clean) (key : ExprValue) :
    (readIndex target key).Clean := by
  unfold readIndex
  split
  · exact readMember_clean clean _
  · exact readMember_clean clean _
  · exact clean_null

section

variable (bindings : Bindings)

mutual

/-- Evaluation of an admitted tree returns, and what it returns is clean. -/
theorem evalNode_yields : ∀ {ast : ExprAst}, ast.Admitted → Yields (evalNode bindings ast)
  | .num _, _ => by
    rw [evalNode]
    exact yields_ok (finite_clean _)
  | .str _, _ => by
    rw [evalNode]
    exact yields_ok (clean_str _)
  | .bool _, _ => by
    rw [evalNode]
    exact yields_ok (clean_bool _)
  | .null, _ => by
    rw [evalNode]
    exact yields_null
  | .name x, _ => by
    rw [evalNode]
    refine yields_ok ?_
    cases Record.get bindings.own x with
    | none => exact clean_null
    | some value => exact toExprValue_clean value
  | .member obj key, admitted => by
    simp only [ExprAst.Admitted] at admitted
    obtain ⟨target, run, clean⟩ := evalNode_yields admitted
    rw [evalNode, run]
    exact yields_ok (readMember_clean clean _)
  | .index obj key, admitted => by
    simp only [ExprAst.Admitted] at admitted
    obtain ⟨target, run, clean⟩ := evalNode_yields admitted.1
    obtain ⟨index, read, -⟩ := evalNode_yields admitted.2
    rw [evalNode, run, read]
    exact yields_ok (readIndex_clean clean _)
  | .unary op arg, admitted => by
    simp only [ExprAst.Admitted] at admitted
    obtain ⟨value, run, -⟩ := evalNode_yields admitted
    rw [evalNode, run]
    exact yields_ok (evalUnary_clean op)
  | .logical op left right, admitted => by
    simp only [ExprAst.Admitted] at admitted
    obtain ⟨value, run, clean⟩ := evalNode_yields admitted.1
    have other := evalNode_yields admitted.2
    rw [evalNode, run]
    cases op with
    | and => exact yields_ite other (yields_ok clean)
    | or => exact yields_ite (yields_ok clean) other
    | nullish => exact yields_ite other (yields_ok clean)
  | .cond test cons alt, admitted => by
    simp only [ExprAst.Admitted] at admitted
    obtain ⟨value, run, -⟩ := evalNode_yields admitted.1
    have first := evalNode_yields admitted.2.1
    have second := evalNode_yields admitted.2.2
    rw [evalNode, run]
    exact yields_ite first second
  | .call f args, admitted => by
    simp only [ExprAst.Admitted] at admitted
    obtain ⟨⟨arity, builtin, admits⟩, inner⟩ := admitted
    obtain ⟨values, run, length, clean⟩ := evalArgs_yields inner
    have nonempty : values ≠ [] := List.length_pos_iff.mp (length ▸ arguments_of_admits builtin admits)
    rw [evalNode, run]
    exact callBuiltin_yields clean nonempty f
  | .binary op left right, admitted => by
    simp only [ExprAst.Admitted] at admitted
    obtain ⟨first, run, -⟩ := evalNode_yields admitted.1
    obtain ⟨second, read, -⟩ := evalNode_yields admitted.2
    rw [evalNode, run, read]
    exact yields_ok (evalBinary_clean ..)

theorem evalArgs_yields : ∀ {args : List ExprAst}, ExprAst.AdmittedArgs args →
    ∃ values, evalArgs bindings args = .ok values ∧ values.length = args.length ∧ CleanItems values
  | [], _ => by
    rw [evalArgs]
    exact ⟨[], rfl, rfl, by simp only [CleanItems]⟩
  | arg :: args, admitted => by
    simp only [ExprAst.AdmittedArgs] at admitted
    obtain ⟨value, run, clean⟩ := evalNode_yields admitted.1
    obtain ⟨values, others, length, cleanRest⟩ := evalArgs_yields admitted.2
    rw [evalArgs, run, others]
    refine ⟨value :: values, rfl, by rw [List.length_cons, List.length_cons, length], ?_⟩
    simp only [CleanItems]
    exact ⟨clean, cleanRest⟩

end

end

/-- Two bindings objects with the same own property of each of these names. -/
def AgreeOn (names : List JSString) (first second : Bindings) : Prop :=
  ∀ x ∈ names, Record.get first.own x = Record.get second.own x

theorem AgreeOn.mono {names fewer : List JSString} {first second : Bindings} (agree : AgreeOn names first second)
    (sub : ∀ x ∈ fewer, x ∈ names) : AgreeOn fewer first second := fun x member => agree x (sub x member)

theorem AgreeOn.left {names others : List JSString} {first second : Bindings}
    (agree : AgreeOn (names ++ others) first second) : AgreeOn names first second :=
  agree.mono fun _ member => List.mem_append_left _ member

theorem AgreeOn.right {names others : List JSString} {first second : Bindings}
    (agree : AgreeOn (names ++ others) first second) : AgreeOn others first second :=
  agree.mono fun _ member => List.mem_append_right _ member

section

variable {first second : Bindings}

mutual

/-- Evaluation depends on the own properties that the tree reads. -/
theorem evalNode_agree : ∀ {ast : ExprAst}, AgreeOn ast.reads first second → evalNode first ast = evalNode second ast
  | .num _, _ | .str _, _ | .bool _, _ | .null, _ => by rw [evalNode, evalNode]
  | .name x, agree => by
    rw [ExprAst.reads] at agree
    rw [evalNode, evalNode, agree x (List.mem_singleton_self x)]
  | .member obj key, agree => by
    rw [ExprAst.reads] at agree
    rw [evalNode, evalNode, evalNode_agree agree]
  | .index obj key, agree => by
    rw [ExprAst.reads] at agree
    rw [evalNode, evalNode, evalNode_agree agree.left, evalNode_agree agree.right]
  | .unary op arg, agree => by
    rw [ExprAst.reads] at agree
    rw [evalNode, evalNode, evalNode_agree agree]
  | .logical op left right, agree => by
    rw [ExprAst.reads] at agree
    rw [evalNode, evalNode, evalNode_agree agree.left, evalNode_agree agree.right]
  | .cond test cons alt, agree => by
    rw [ExprAst.reads] at agree
    rw [evalNode, evalNode, evalNode_agree agree.left.left, evalNode_agree agree.left.right,
      evalNode_agree agree.right]
  | .call f args, agree => by
    rw [ExprAst.reads] at agree
    rw [evalNode, evalNode, evalArgs_agree agree]
  | .binary op left right, agree => by
    rw [ExprAst.reads] at agree
    rw [evalNode, evalNode, evalNode_agree agree.left, evalNode_agree agree.right]

theorem evalArgs_agree : ∀ {args : List ExprAst}, AgreeOn (ExprAst.readsArgs args) first second →
    evalArgs first args = evalArgs second args
  | [], _ => by rw [evalArgs, evalArgs]
  | arg :: args, agree => by
    rw [ExprAst.readsArgs] at agree
    rw [evalArgs, evalArgs, evalNode_agree agree.left, evalArgs_agree agree.right]

end

end

/-- Evaluation reads only the own properties that the parser listed, never throws, and gives finite
numbers and harmless keys at every depth. -/
theorem evaluateAst_reads_names (maxNodes : Nat) (source : JSString) (parsed : ParsedExpression)
    (parses : parseExpression maxNodes source = .ok parsed) :
    (∀ first second : Bindings, (∀ x ∈ parsed.names, Record.get first.own x = Record.get second.own x) →
      evaluateAst first parsed.ast = evaluateAst second parsed.ast) ∧
    ∀ bindings : Bindings, ∃ value, evalNode bindings parsed.ast = .ok value ∧
      evaluateAst bindings parsed.ast = value ∧ value.Clean := by
  obtain ⟨toks, -, derives, -, same⟩ := parseExpression_eq_ok.1 parses
  have names : parsed.names = addNames [] parsed.ast.reads := by rw [same]
  constructor
  · intro first second agree
    have reads : AgreeOn parsed.ast.reads first second := fun x member =>
      agree x (names ▸ ((firstAppearances_addNames parsed.ast.reads).exact x).mpr member)
    rw [evaluateAst, evaluateAst, evalNode_agree reads]
  · intro bindings
    obtain ⟨value, run, clean⟩ := evalNode_yields bindings derives.admitted
    exact ⟨value, run, by rw [evaluateAst, run], clean⟩

theorem evaluateAst_reads_names_sum : ∃ parsed, parseExpression 256 (js "a+min(b.c,2)") = .ok parsed ∧
    parsed.names = [js "a", js "b"] ∧
    evaluateAst ⟨[(js "a", .num (F64.ofNat 1)), (js "z", .null)], []⟩ parsed.ast =
      evaluateAst ⟨[(js "a", .num (F64.ofNat 1))], [(js "b", .null)]⟩ parsed.ast ∧
    (evaluateAst ⟨[(js "a", .num .nan)], []⟩ parsed.ast).Clean := by
  have listed : (parseExpression 256 (js "a+min(b.c,2)")).toOption.map ParsedExpression.names =
      some [js "a", js "b"] := by decide +kernel
  cases run : parseExpression 256 (js "a+min(b.c,2)") with
  | error e =>
    rw [run] at listed
    cases listed
  | ok parsed =>
    rw [run] at listed
    have names : parsed.names = [js "a", js "b"] := Option.some.inj listed
    obtain ⟨reads, yields⟩ := evaluateAst_reads_names 256 (js "a+min(b.c,2)") parsed run
    refine ⟨parsed, rfl, names, reads _ _ ?_, ?_⟩
    · intro x member
      rw [names] at member
      rcases List.mem_pair.mp member with rfl | rfl
      · rfl
      · rfl
    · obtain ⟨value, -, same, clean⟩ := yields ⟨[(js "a", .num .nan)], []⟩
      exact same ▸ clean

end Xript
