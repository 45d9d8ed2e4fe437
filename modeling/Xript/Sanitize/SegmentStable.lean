import Xript.Sanitize.SegmentSource

namespace Xript

theorem literal_source (value : JSString) (segments : List TextSegment) :
    segmentsToSource (.literal value :: segments) = escapeBraces value ++ segmentsToSource segments := by
  simp only [segmentsToSource, List.flatMap_cons]

theorem expr_source (source : JSString) (segments : List TextSegment) :
    segmentsToSource (.expr source :: segments) =
      js "\x7b\x7b " ++ source ++ js " \x7d\x7d" ++ segmentsToSource segments := by
  simp only [segmentsToSource, List.flatMap_cons]

theorem Segmented.reads {segments : List TextSegment} (segmented : Segmented segments)
    (even : danglingBrace segments = false) : Reads (segmentsToSource segments) (segments.flatMap segmentParts) := by
  induction segmented with
  | done => exact .done
  | @last value nonempty =>
    rw [literal_source, List.flatMap_cons]
    exact literal_reads .done (fun _ same => by cases same) fun _ opener => by simp [segmentsToSource] at opener
  | @literal value source segments nonempty solid rest ih =>
    rw [danglingBrace, Bool.or_eq_false_iff] at even
    rw [literal_source, List.flatMap_cons]
    have inner : danglingBrace (.expr source :: segments) = false := by
      rw [danglingBrace]
      · exact even.2
      · intro _ _ _ same
        cases same
    exact literal_reads (ih inner) (fun dangling => absurd dangling (by rw [even.1]; simp)) fun ends => absurd ends solid
  | @expr source segments trimmed unclosed rest ih =>
    rw [danglingBrace] at even
    · rw [expr_source, List.flatMap_cons]
      exact expr_reads unclosed (ih even)
    · intro _ _ _ same
      cases same

theorem Segmented.pieces_eq {segments : List TextSegment} (segmented : Segmented segments) :
    pieces [] (segments.flatMap segmentParts) = segments := by
  induction segmented with
  | done => rfl
  | @last value nonempty =>
    rw [List.flatMap_cons, segmentParts, pieces_literalParts, List.flatMap_nil, pieces, literalPiece,
      List.nil_append, if_neg nonempty]
  | @literal value source segments nonempty solid rest ih =>
    rw [List.flatMap_cons, segmentParts, pieces_literalParts, List.nil_append]
    rw [List.flatMap_cons, segmentParts, List.singleton_append, pieces] at ih ⊢
    rw [literalPiece, if_pos rfl, List.nil_append] at ih
    rw [literalPiece, if_neg nonempty, ih, List.singleton_append]
  | @expr source segments trimmed unclosed rest ih =>
    rw [List.flatMap_cons, segmentParts, List.singleton_append, pieces, ih, trim_padded trimmed, literalPiece,
      if_pos rfl, List.nil_append]

theorem literalParts_opens {value : JSString} (opener : [123, 123] <:+: value) :
    (literalParts value).any TextPart.opens := by
  fun_induction literalParts value with
  | case1 s ih => rfl
  | case2 c s plain ih =>
    rcases List.infix_cons_iff.mp opener with start | later
    · obtain ⟨t, whole⟩ := start
      cases whole
      exact absurd rfl (plain t rfl)
    · rw [List.any_cons, ih later, Bool.or_true]
  | case3 => simp at opener

theorem pieces_open (parts : List TextPart) {acc : JSString} (opened : [123, 123] <:+: acc ∨ parts.any TextPart.opens) :
    ((pieces acc parts).flatMap segmentParts).any TextPart.opens := by
  induction parts generalizing acc with
  | nil =>
    have opener := opened.resolve_right (by simp)
    have nonempty : acc ≠ [] := by
      rintro rfl
      simp at opener
    rw [pieces, literalPiece, if_neg nonempty, List.flatMap_cons, List.flatMap_nil, List.append_nil]
    exact literalParts_opens opener
  | cons part parts ih =>
    cases part with
    | escape | opener => exact ih (.inl (List.suffix_append acc _).isInfix)
    | unit u =>
      refine ih (opened.imp (fun earlier => ?_) fun later => by simpa [TextPart.opens] using later)
      exact earlier.trans (List.prefix_append acc _).isInfix
    | site body =>
      rw [pieces, List.flatMap_append, List.any_append, List.flatMap_cons, List.any_append]
      simp [segmentParts, TextPart.opens]

/-- The pieces of a text without an odd run of braces in front of a site are read back from their source. -/
theorem pieces_reread {text : JSString} (opened : (textParts text).any TextPart.opens)
    (even : strayBrace false (textParts text) = false) :
    (segmentText (segmentsToSource (pieces [] (textParts text)))).1 = some (pieces [] (textParts text)) := by
  have segmented : Segmented (pieces [] (textParts text)) := (reads_textParts text).segmented nofun
  have dangling : danglingBrace (pieces [] (textParts text)) = false := by
    rw [danglingBrace_pieces, dangles_nil, even]
  have parts := (segmented.reads dangling).textParts_eq
  rw [segmentText_eq, parts, if_pos (pieces_open _ (.inr opened)), segmented.pieces_eq]

theorem pieces_literal (parts : List TextPart) {acc : JSString} (nonempty : acc ≠ []) :
    ∃ value segments, pieces acc parts = .literal value :: segments ∧ acc <+: value := by
  induction parts generalizing acc with
  | nil => exact ⟨acc, [], by rw [pieces, literalPiece, if_neg nonempty], List.prefix_rfl⟩
  | cons part parts ih =>
    have later : ∀ shown, ∃ value segments, pieces (acc ++ shown) parts = .literal value :: segments ∧ acc <+: value := by
      intro shown
      obtain ⟨value, segments, equal, start⟩ := ih (show acc ++ shown ≠ [] by simp [nonempty])
      exact ⟨value, segments, equal, (List.prefix_append acc shown).trans start⟩
    cases part with
    | escape | opener => exact later [123, 123]
    | unit u => exact later [u]
    | site body => exact ⟨acc, _, by rw [pieces, literalPiece, if_neg nonempty]; rfl, List.prefix_rfl⟩

theorem escapeBraces_append {s t : JSString} (apart : dangles s → t.head? ≠ some 123) :
    escapeBraces (s ++ t) = escapeBraces s ++ escapeBraces t := by
  fun_induction escapeBraces s with
  | case1 s ih =>
    rw [List.cons_append, List.cons_append, escapeBraces, ih apart]
    rfl
  | case2 c s plain ih =>
    have joined : ∀ more, c = 123 → s ++ t = 123 :: more → False := by
      intro more brace next
      cases s with
      | nil => exact apart (by rw [brace]; rfl) (by rw [List.nil_append] at next; rw [next]; rfl)
      | cons d s => exact plain s brace (by rw [(List.cons.inj next).1])
    rw [List.cons_append, escapeBraces.eq_2 c _ joined, ih fun dangling => apart (dangles_cons plain dangling)]
    rfl
  | case3 => rfl

/-- A brace left over in front of an expression goes into it, or ends up behind a backslash. -/
theorem dangling_misread {value source after : JSString} {segments : List TextSegment} (odd : dangles value)
    (unclosed : ¬[125, 125] <:+: source) :
    pieces [] (textParts (escapeBraces value ++ (js "\x7b\x7b " ++ source ++ js " \x7d\x7d" ++ after))) ≠
      .literal value :: segments := by
  rcases List.eq_nil_or_concat' value with rfl | ⟨front, u, rfl⟩
  · cases odd
  rw [dangles_append_unit, Bool.and_eq_true, beq_iff_eq, Bool.not_eq_true'] at odd
  obtain ⟨rfl, even⟩ := odd
  have opener : js "\x7b\x7b " = [123, 123, 32] := rfl
  by_cases solid : front.getLast? = some 92
  · obtain ⟨front, rfl⟩ := List.getLast?_eq_some_iff.mp solid
    have spelled : escapeBraces (front ++ [92] ++ [123]) = escapeBraces front ++ [92, 123] := by
      rw [List.append_assoc]
      exact escapeBraces_append fun _ same => by cases same
    have reads : Reads (escapeBraces front ++ 92 :: 123 :: 123 :: (123 :: 32 :: (source ++ js " \x7d\x7d" ++ after)))
        (literalParts front ++ .escape :: textParts (123 :: 32 :: (source ++ js " \x7d\x7d" ++ after))) :=
      literal_reads (.escape (reads_textParts _)) (fun _ same => by cases same) (by simp)
    have whole : escapeBraces (front ++ [92] ++ [123]) ++ (js "\x7b\x7b " ++ source ++ js " \x7d\x7d" ++ after) =
        escapeBraces front ++ 92 :: 123 :: 123 :: (123 :: 32 :: (source ++ js " \x7d\x7d" ++ after)) := by
      rw [spelled, opener]
      simp
    obtain ⟨first, more, equal, start⟩ := pieces_literal (textParts (123 :: 32 :: (source ++ js " \x7d\x7d" ++ after)))
      (show [] ++ front ++ [123, 123] ≠ [] by simp)
    rw [whole, reads.textParts_eq, pieces_literalParts, pieces, equal]
    intro same
    cases same
    rw [List.nil_append, List.append_assoc, List.prefix_append_right_inj] at start
    cases (List.cons_prefix_cons.mp start).1
  · have spelled : escapeBraces (front ++ [123]) = escapeBraces front ++ [123] :=
      escapeBraces_append fun dangling => absurd dangling (by rw [even]; simp)
    have inner : ¬[125, 125] <:+: 123 :: 32 :: source := by
      simp only [List.infix_cons_iff, List.cons_prefix_cons, not_or]
      exact ⟨by simp, by simp, unclosed⟩
    have reads : Reads (escapeBraces front ++ 123 :: 123 :: (123 :: 32 :: source ++ [32] ++ [125, 125] ++ after))
        (literalParts front ++ .site (123 :: 32 :: source ++ [32]) :: textParts after) :=
      literal_reads (.site (site_closes inner) (reads_textParts after)) (fun dangling => absurd dangling (by rw [even]; simp))
        fun last => absurd last solid
    have whole : escapeBraces (front ++ [123]) ++ (js "\x7b\x7b " ++ source ++ js " \x7d\x7d" ++ after) =
        escapeBraces front ++ 123 :: 123 :: (123 :: 32 :: source ++ [32] ++ [125, 125] ++ after) := by
      have closer : js " \x7d\x7d" = [32, 125, 125] := rfl
      rw [spelled, opener, closer]
      simp
    rw [whole, reads.textParts_eq, pieces_literalParts, pieces, literalPiece, List.nil_append]
    split
    · intro same
      cases same
    · intro same
      have shorter := TextSegment.literal.inj (List.cons.inj same).1
      simp at shorter

/-- Pieces with an odd run of braces in front of an expression are not read back. -/
theorem Segmented.misread {segments : List TextSegment} (segmented : Segmented segments)
    (odd : danglingBrace segments) : pieces [] (textParts (segmentsToSource segments)) ≠ segments := by
  induction segmented with
  | done | last => cases odd
  | @expr source segments trimmed unclosed rest ih =>
    rw [danglingBrace] at odd
    · rw [expr_source, (expr_reads unclosed (reads_textParts _)).textParts_eq, segmentParts, List.singleton_append, pieces,
        trim_padded trimmed]
      intro same
      exact ih odd (List.cons.inj same).2
    · intro _ _ _ same
      cases same
  | @literal value source segments nonempty solid rest ih =>
    cases rest with
    | expr trimmed unclosed rest =>
    rw [literal_source, expr_source]
    by_cases dangling : dangles value
    · exact dangling_misread dangling unclosed
    · have later : danglingBrace (.expr source :: segments) := by
        rw [danglingBrace, Bool.or_eq_true] at odd
        rw [danglingBrace]
        · exact odd.resolve_left dangling
        · intro _ _ _ same
          cases same
      have wrong := ih later
      have reads := expr_reads unclosed (reads_textParts (segmentsToSource segments))
      rw [expr_source, reads.textParts_eq] at wrong
      have joined := literal_reads reads (fun odd => absurd odd dangling) fun last => absurd last solid
      rw [joined.textParts_eq, pieces_literalParts, List.nil_append]
      rw [segmentParts, List.singleton_append, pieces, literalPiece, if_pos rfl, List.nil_append] at wrong
      rw [segmentParts, List.singleton_append, pieces, literalPiece, if_neg nonempty, List.singleton_append]
      exact fun same => wrong (List.cons.inj same).2

theorem strayBrace_of_closed {parts : List TextPart} (closed : parts.any TextPart.opens = false) (odd : Bool) :
    strayBrace odd parts = false := by
  induction parts generalizing odd with
  | nil => rfl
  | cons part parts ih =>
    rw [List.any_cons, Bool.or_eq_false_iff] at closed
    cases part with
    | escape | site => cases closed.1
    | opener | unit => exact ih closed.2 _

/-- Whether the scan changes anything, in terms of the text. -/
theorem Reads.opens_iff {s : JSString} {parts : List TextPart} (reads : Reads s parts) :
    parts.any TextPart.opens ↔ [92, 123, 123] <:+: s ∨ ∃ before body after, s = before ++ 123 :: 123 :: (body ++ 125 :: 125 :: after) := by
  induction reads with
  | done => simp
  | escape rest ih => exact iff_of_true rfl (.inl (List.prefix_append [92, 123, 123] _).isInfix)
  | @opener s parts unclosed rest ih =>
    rw [List.any_cons, TextPart.opens, Bool.false_or, ih]
    have absent := breakOn_eq_none.mp unclosed
    constructor
    · rintro (escaped | ⟨before, body, after, rfl⟩)
      · exact .inl (escaped.trans (List.suffix_append [123, 123] _).isInfix)
      · exact .inr ⟨123 :: 123 :: before, body, after, rfl⟩
    · rintro (escaped | ⟨before, body, after, whole⟩)
      · simp only [List.infix_cons_iff, List.cons_prefix_cons] at escaped
        exact .inl (by simpa using escaped)
      · have closer : [125, 125] <:+: s := by
          have split : before ++ 123 :: 123 :: (body ++ 125 :: 125 :: after) =
              (before ++ 123 :: 123 :: body) ++ ([125, 125] ++ after) := by simp
          have dropped := congrArg (List.drop 2) (whole.trans split)
          rw [List.drop_append_of_le_length (by simp; omega)] at dropped
          exact ⟨_, after, by rw [List.append_assoc]; exact dropped.symm⟩
        exact absurd closer absent
  | @site s body after parts closed rest ih =>
    refine iff_of_true rfl (.inr ⟨[], body, after, ?_⟩)
    rw [breakOn_split closed]
    simp
  | @unit u s parts unescaped plain rest ih =>
    rw [List.any_cons, TextPart.opens, Bool.false_or, ih, List.infix_cons_iff, or_iff_right unescaped]
    refine or_congr Iff.rfl ⟨?_, ?_⟩
    · rintro ⟨before, body, after, rfl⟩
      exact ⟨u :: before, body, after, rfl⟩
    · rintro ⟨before, body, after, whole⟩
      cases before with
      | nil =>
        rw [whole] at plain
        exact absurd ⟨_, rfl⟩ plain
      | cons c before => exact ⟨before, body, after, (List.cons.inj whole).2⟩

def TextSegment.isLiteral : TextSegment → Bool
  | .literal _ => true
  | .expr _ => false

/-- The text that a piece carries verbatim. -/
def TextSegment.literalText : TextSegment → JSString
  | .literal value => value
  | .expr _ => []

theorem pieces_literalText (parts : List TextPart) (acc : JSString) :
    (pieces acc parts).flatMap TextSegment.literalText = acc ++ parts.flatMap TextPart.shown := by
  have alone : ∀ text, (literalPiece text).flatMap TextSegment.literalText = text := by
    intro text
    rw [literalPiece]
    split
    · rename_i empty
      exact empty.symm
    · simp [TextSegment.literalText]
  induction parts generalizing acc with
  | nil => rw [pieces, alone, List.flatMap_nil, List.append_nil]
  | cons part parts ih =>
    cases part with
    | escape | opener | unit u => rw [pieces, ih, List.append_assoc]; rfl
    | site body =>
      rw [pieces, List.flatMap_append, alone, List.flatMap_cons, ih]
      rfl

theorem site_absent {parts : List TextPart} {acc : JSString} (literal : ∀ source, .expr source ∉ pieces acc parts)
    (body : JSString) : .site body ∉ parts := by
  induction parts generalizing acc with
  | nil => nofun
  | cons part parts ih =>
    cases part with
    | escape | opener | unit u =>
      rw [List.mem_cons, not_or]
      exact ⟨nofun, ih literal⟩
    | site body =>
      refine absurd ?_ (literal (trim body))
      rw [pieces]
      simp

/-- Without a site the parts show the text with its escapes resolved. -/
theorem Reads.shown {s : JSString} {parts : List TextPart} (reads : Reads s parts)
    (literal : ∀ body, .site body ∉ parts) : parts.flatMap TextPart.shown = unescapeBraces s := by
  induction reads with
  | done => rfl
  | escape rest ih => rw [List.flatMap_cons, ih fun body inside => literal body (.tail _ inside)]; rfl
  | opener unclosed rest ih => rw [List.flatMap_cons, ih fun body inside => literal body (.tail _ inside)]; rfl
  | site closed rest ih => exact absurd (.head _) (literal _)
  | @unit u s parts unescaped plain rest ih =>
    have kept : ∀ t, u = 92 → s = 123 :: 123 :: t → False := by
      rintro t rfl rfl
      exact unescaped ⟨t, rfl⟩
    rw [List.flatMap_cons, ih fun body inside => literal body (.tail _ inside), unescapeBraces.eq_2 u s kept]
    rfl

theorem Segmented.apart {segments : List TextSegment} (segmented : Segmented segments) :
    segments.IsChain fun a b => ¬(a.isLiteral ∧ b.isLiteral) := by
  induction segmented with
  | done => exact .nil
  | last => exact .singleton _
  | literal _ _ _ ih => exact .cons_cons (by simp [TextSegment.isLiteral]) ih
  | @expr source segments _ _ _ ih =>
    cases segments with
    | nil => exact .singleton _
    | cons next segments => exact .cons_cons (by simp [TextSegment.isLiteral]) ih

theorem Segmented.nonempty {segments : List TextSegment} (segmented : Segmented segments) : .literal [] ∉ segments := by
  induction segmented with
  | done => nofun
  | last nonempty => simpa using nonempty.symm
  | literal nonempty _ _ ih =>
    rw [List.mem_cons, not_or]
    exact ⟨fun same => nonempty (TextSegment.literal.inj same).symm, ih⟩
  | expr _ _ _ ih =>
    rw [List.mem_cons, not_or]
    exact ⟨nofun, ih⟩

/-- The segmenting of a text is stable. -/
structure SegmentsStable (text : JSString) : Prop where
  apart : ∀ segments, (segmentText text).1 = some segments →
    segments.IsChain (fun a b => ¬(a.isLiteral ∧ b.isLiteral)) ∧ .literal [] ∉ segments
  reread : ∀ segments, (segmentText text).1 = some segments →
    (segmentText (segmentsToSource segments)).1 = some segments
  absent : (segmentText text).1 = none ↔
    ¬js "\\\x7b\x7b" <:+: text ∧
      ¬∃ before body after, text = before ++ js "\x7b\x7b" ++ body ++ js "\x7d\x7d" ++ after
  untouched : (segmentText text).1 = none → text = unescapeBraces text
  plain : ∀ segments, (segmentText text).1 = some segments → (∀ source, .expr source ∉ segments) →
    segments.flatMap TextSegment.literalText = unescapeBraces text

theorem segmentText_none_iff (text : JSString) :
    (segmentText text).1 = none ↔ (textParts text).any TextPart.opens = false := by
  rw [segmentText_eq]
  split
  · rename_i opened
    exact iff_of_false nofun (by simp [opened])
  · rename_i closed
    exact iff_of_true rfl (by simpa using closed)

theorem segmentText_some {text : JSString} {segments : List TextSegment} (found : (segmentText text).1 = some segments) :
    (textParts text).any TextPart.opens ∧ segments = pieces [] (textParts text) := by
  rw [segmentText_eq] at found
  split at found
  · rename_i opened
    exact ⟨opened, (Option.some.inj found).symm⟩
  · cases found

/-- The segmenting of a text is stable exactly when no site of it directly follows an odd run of braces. -/
theorem segmentText_stable_iff (text : JSString) :
    SegmentsStable text ↔ strayBrace false (textParts text) = false := by
  have segmented : Segmented (pieces [] (textParts text)) := (reads_textParts text).segmented nofun
  constructor
  · intro stable
    cases opened : (textParts text).any TextPart.opens with
    | false => exact strayBrace_of_closed opened false
    | true =>
      have found : (segmentText text).1 = some (pieces [] (textParts text)) := by rw [segmentText_eq, if_pos opened]
      have again := stable.reread _ found
      have same := (segmentText_some again).2
      by_contra odd
      rw [Bool.not_eq_false, ← dangles_nil, ← danglingBrace_pieces] at odd
      exact segmented.misread odd same.symm
  · intro even
    refine ⟨?_, ?_, ?_, ?_, ?_⟩
    · intro segments found
      obtain ⟨-, rfl⟩ := segmentText_some found
      exact ⟨segmented.apart, segmented.nonempty⟩
    · intro segments found
      obtain ⟨opened, rfl⟩ := segmentText_some found
      exact pieces_reread opened even
    · have opens := (reads_textParts text).opens_iff
      rw [segmentText_none_iff, ← Bool.not_eq_true, opens, not_or]
      have shape : ∀ before body after : JSString, before ++ js "\x7b\x7b" ++ body ++ js "\x7d\x7d" ++ after =
          before ++ 123 :: 123 :: (body ++ 125 :: 125 :: after) := by
        intro before body after
        have opener : js "\x7b\x7b" = [123, 123] := rfl
        have closer : js "\x7d\x7d" = [125, 125] := rfl
        rw [opener, closer]
        simp
      simp only [shape]
      rfl
    · intro absent
      rw [segmentText_none_iff, List.any_eq_false] at absent
      have shown := (reads_textParts text).shown fun body inside => absent _ inside rfl
      rw [← shown]
      conv_lhs => rw [← (reads_textParts text).spelled]
      refine List.flatMap_congr fun part inside => ?_
      cases part with
      | escape | site => exact absurd rfl (absent _ inside)
      | opener | unit => rfl
    · intro segments found literal
      obtain ⟨-, rfl⟩ := segmentText_some found
      rw [pieces_literalText, List.nil_append]
      exact (reads_textParts text).shown (site_absent literal)

/-- A lone brace, an escape and a site: the brace that is left over in the source of the literal goes into the site. -/
theorem segmentText_unstable : ¬SegmentsStable (js "\x7b\\\x7b\x7b\x7b\x7ba\x7d\x7d") := by
  intro stable
  have found : (segmentText (js "\x7b\\\x7b\x7b\x7b\x7ba\x7d\x7d")).1 =
      some [.literal (js "\x7b\x7b\x7b"), .expr (js "a")] := by
    rw [segmentText_eq]
    decide +kernel
  have misread : (segmentText (segmentsToSource [.literal (js "\x7b\x7b\x7b"), .expr (js "a")])).1 =
      some [.literal (js "\x7b\x7b"), .expr (js "\x7b a")] := by
    rw [segmentText_eq]
    decide +kernel
  have again := (stable.reread _ found).symm.trans misread
  exact absurd again (by decide +kernel)

end Xript
