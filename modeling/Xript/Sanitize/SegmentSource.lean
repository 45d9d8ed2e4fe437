import Xript.Sanitize.Segments

namespace Xript

/-- `value.split("\x7b\x7b").join("\\\x7b\x7b")`. -/
def escapeBraces : JSString → JSString
  | 123 :: 123 :: s => 92 :: 123 :: 123 :: escapeBraces s
  | c :: s => c :: escapeBraces s
  | [] => []

/-- `segmentsToSource`. -/
def segmentsToSource (segments : List TextSegment) : JSString :=
  segments.flatMap fun
    | .literal value => escapeBraces value
    | .expr source => js "\x7b\x7b " ++ source ++ js " \x7d\x7d"

/-- A text with every escape replaced by the opener it stands for. -/
def unescapeBraces : JSString → JSString
  | 92 :: 123 :: 123 :: s => 123 :: 123 :: unescapeBraces s
  | c :: s => c :: unescapeBraces s
  | [] => []

/-- Whether a text ends in an odd run of braces. -/
def dangles (s : JSString) : Bool := s.foldl (fun odd u => u == 123 && !odd) false

@[simp] theorem dangles_nil : dangles [] = false := rfl

@[simp] theorem dangles_append_unit (s : JSString) (u : Nat) : dangles (s ++ [u]) = (u == 123 && !dangles s) := by
  rw [dangles, List.foldl_append]
  rfl

theorem dangles_append_opener (s : JSString) : dangles (s ++ [123, 123]) = dangles s := by
  have split : s ++ [123, 123] = (s ++ [123]) ++ [123] := by simp
  rw [split, dangles_append_unit, dangles_append_unit]
  simp

/-- Whether a site directly follows a run of braces, the escapes in it resolved, that is odd. -/
def strayBrace (odd : Bool) : List TextPart → Bool
  | [] => false
  | .site _ :: parts => odd || strayBrace false parts
  | .escape :: parts => strayBrace odd parts
  | .opener :: parts => strayBrace odd parts
  | .unit u :: parts => strayBrace (u == 123 && !odd) parts

/-- The parts of a literal's source. -/
def literalParts : JSString → List TextPart
  | 123 :: 123 :: s => .escape :: literalParts s
  | c :: s => .unit c :: literalParts s
  | [] => []

theorem pieces_literalParts (literal acc : JSString) (parts : List TextPart) :
    pieces acc (literalParts literal ++ parts) = pieces (acc ++ literal) parts := by
  fun_induction literalParts literal generalizing acc with
  | case1 s ih => rw [List.cons_append, pieces, ih]; simp
  | case2 c s _ ih => rw [List.cons_append, pieces, ih]; simp
  | case3 => simp

theorem escapeBraces_head {s rest : JSString} (next : (escapeBraces s ++ rest).head? = some 123) :
    s = [] ∧ rest.head? = some 123 ∨ ∃ t, s = 123 :: t ∧ t.head? ≠ some 123 ∧ escapeBraces s = 123 :: escapeBraces t := by
  fun_cases escapeBraces s with
  | case1 s => simp [escapeBraces] at next
  | case2 c s plain =>
    rw [escapeBraces.eq_2 c s plain, List.cons_append, List.head?_cons, Option.some.injEq] at next
    subst next
    refine .inr ⟨s, rfl, fun head => ?_, rfl⟩
    obtain ⟨t, rfl⟩ := List.head?_eq_some_iff.mp head
    exact plain t rfl rfl
  | case3 => exact .inl ⟨rfl, next⟩

theorem dangles_cons {c : Nat} {s : JSString} (plain : ∀ t, c = 123 → s = 123 :: t → False) (dangling : dangles s) :
    dangles (c :: s) := by
  cases s with
  | nil => cases dangling
  | cons d t =>
    by_cases brace : c = 123
    · have other : (d == 123) = false := beq_false_of_ne fun same => plain t brace (by rw [same])
      simp only [dangles, List.foldl_cons, other, Bool.false_and] at dangling ⊢
      exact dangling
    · have other : (c == 123) = false := beq_false_of_ne brace
      simp only [dangles, List.foldl_cons, other, Bool.false_and] at dangling ⊢
      exact dangling

theorem opener_head {s more : JSString} (start : 123 :: more <+: s) : s.head? = some 123 := by
  obtain ⟨t, rfl⟩ := start
  rfl

theorem getLast?_cons_of_some {c d : Nat} {s : JSString} (last : s.getLast? = some d) : (c :: s).getLast? = some d := by
  rw [List.getLast?_cons, last]
  rfl

/-- A literal's source is read as the literal, unless a brace is left over in front of another one or a backslash ends
up in front of an opener. -/
theorem literal_reads {literal rest : JSString} {parts : List TextPart} (reads : Reads rest parts)
    (even : dangles literal → rest.head? ≠ some 123) (solid : literal.getLast? = some 92 → ¬[123, 123] <+: rest) :
    Reads (escapeBraces literal ++ rest) (literalParts literal ++ parts) := by
  fun_induction escapeBraces literal with
  | case1 s ih =>
    rw [literalParts]
    exact .escape (ih even fun last => solid (getLast?_cons_of_some (getLast?_cons_of_some last)))
  | case2 c s plain ih =>
    rw [literalParts.eq_2 c s plain]
    have inner := ih (fun dangling => even (dangles_cons plain dangling)) fun last => solid (getLast?_cons_of_some last)
    refine .unit (s := escapeBraces s ++ rest) ?_ ?_ inner
    · intro escaped
      obtain ⟨rfl, opener⟩ := List.cons_prefix_cons.mp escaped
      rcases escapeBraces_head (opener_head opener) with ⟨rfl, -⟩ | ⟨t, rfl, lone, source⟩
      · exact solid rfl opener
      · rw [source] at opener
        obtain ⟨-, brace⟩ := List.cons_prefix_cons.mp opener
        rcases escapeBraces_head (opener_head brace) with ⟨rfl, next⟩ | ⟨t', rfl, -, -⟩
        · exact even rfl next
        · exact lone rfl
    · intro opener
      obtain ⟨rfl, brace⟩ := List.cons_prefix_cons.mp opener
      rcases escapeBraces_head (opener_head brace) with ⟨rfl, next⟩ | ⟨t, rfl, -, -⟩
      · exact even rfl next
      · exact plain t rfl rfl
  | case3 => exact reads

/-- The pieces that a text is segmented into. -/
inductive Segmented : List TextSegment → Prop
  | done : Segmented []
  | last {value : JSString} (nonempty : value ≠ []) : Segmented [.literal value]
  | literal {value source : JSString} {segments : List TextSegment} (nonempty : value ≠ [])
      (solid : value.getLast? ≠ some 92) (rest : Segmented (.expr source :: segments)) :
      Segmented (.literal value :: .expr source :: segments)
  | expr {source : JSString} {segments : List TextSegment} (trimmed : trim source = source)
      (unclosed : ¬[125, 125] <:+: source) (rest : Segmented segments) : Segmented (.expr source :: segments)

theorem Reads.segmented {s : JSString} {parts : List TextPart} (reads : Reads s parts) :
    ∀ {acc : JSString}, (acc.getLast? = some 92 → ¬[123, 123] <+: s) → Segmented (pieces acc parts) := by
  induction reads with
  | done =>
    intro acc _
    rw [pieces, literalPiece]
    split
    · exact .done
    · rename_i nonempty
      exact .last nonempty
  | escape _ ih | opener _ _ ih =>
    intro acc _
    exact ih fun last => by simp at last
  | @site s body after parts closed _ ih =>
    intro acc solid
    have rest : Segmented (.expr (trim body) :: pieces [] parts) :=
      .expr (trim_idem body) (fun inside => breakOn_absent (by simp) closed (inside.trans (trim_within body)))
        (ih fun last => by cases last)
    rw [pieces, literalPiece]
    split
    · exact rest
    · rename_i nonempty
      exact .literal nonempty (fun last => solid last ⟨s, rfl⟩) rest
  | unit unescaped plain _ ih =>
    intro acc _
    refine ih fun last opener => ?_
    rw [List.getLast?_append, List.getLast?_singleton, Option.some_or, Option.some.injEq] at last
    subst last
    exact unescaped (List.cons_prefix_cons.mpr ⟨rfl, opener⟩)

/-- Whether some literal in front of an expression ends in an odd run of braces. -/
def danglingBrace : List TextSegment → Bool
  | .literal value :: .expr _ :: segments => dangles value || danglingBrace segments
  | _ :: segments => danglingBrace segments
  | [] => false

theorem danglingBrace_pieces (parts : List TextPart) (acc : JSString) :
    danglingBrace (pieces acc parts) = strayBrace (dangles acc) parts := by
  induction parts generalizing acc with
  | nil =>
    rw [pieces, literalPiece, strayBrace]
    split <;> rfl
  | cons part parts ih =>
    cases part with
    | escape | opener => rw [pieces, strayBrace, ih, dangles_append_opener]
    | unit u => rw [pieces, strayBrace, ih, dangles_append_unit]
    | site body =>
      rw [pieces, strayBrace, literalPiece]
      split
      · rename_i empty
        rw [empty, List.nil_append, danglingBrace, ih, dangles_nil, Bool.false_or]
        intro _ _ _ same
        cases same
      · rw [List.singleton_append, danglingBrace, ih, dangles_nil]

/-- The parts of the source of a piece. -/
def segmentParts : TextSegment → List TextPart
  | .literal value => literalParts value
  | .expr source => [.site (32 :: source ++ [32])]

theorem trim_padded {source : JSString} (trimmed : trim source = source) : trim (32 :: source ++ [32]) = source := by
  rw [trim, List.cons_append, List.dropWhile_cons_of_pos (by rfl)]
  by_cases blank : source = []
  · rw [blank]
    rfl
  · obtain ⟨c, t, rfl⟩ := List.exists_cons_of_ne_nil blank
    rw [List.cons_append, List.dropWhile_cons_of_neg (by rw [trim_head trimmed]; simp), ← List.cons_append,
      List.rdropWhile_concat_pos _ _ _ (by rfl)]
    rw [trim, List.dropWhile_cons_of_neg (by rw [trim_head trimmed]; simp)] at trimmed
    exact trimmed

theorem site_closes {body after : JSString} (unclosed : ¬[125, 125] <:+: body) :
    breakOn [125, 125] (body ++ [32] ++ [125, 125] ++ after) = some (body ++ [32], after) := by
  have split : body ++ [32] ++ [125, 125] ++ after = (body ++ [32]) ++ 125 :: 125 :: after := by simp
  rw [split]
  refine breakOn_double (fun inside => ?_) (by simp)
  rcases List.infix_concat_iff.mp inside with ⟨t, whole⟩ | earlier
  · have last := congrArg List.getLast? whole
    simp at last
  · exact unclosed earlier

/-- The source of an expression is read as its site. -/
theorem expr_reads {source after : JSString} {parts : List TextPart} (unclosed : ¬[125, 125] <:+: source)
    (rest : Reads after parts) :
    Reads (js "\x7b\x7b " ++ source ++ js " \x7d\x7d" ++ after) (segmentParts (.expr source) ++ parts) := by
  have closed : breakOn [125, 125] (32 :: source ++ [32] ++ [125, 125] ++ after) = some (32 :: source ++ [32], after) := by
    refine site_closes fun inside => ?_
    rcases List.infix_cons_iff.mp inside with start | later
    · cases (List.cons_prefix_cons.mp start).1
    · exact unclosed later
  have whole : js "\x7b\x7b " ++ source ++ js " \x7d\x7d" ++ after =
      123 :: 123 :: (32 :: source ++ [32] ++ [125, 125] ++ after) := by
    have opener : js "\x7b\x7b " = [123, 123, 32] := rfl
    have closer : js " \x7d\x7d" = [32, 125, 125] := rfl
    rw [opener, closer]
    simp
  rw [whole]
  exact .site closed rest

end Xript
