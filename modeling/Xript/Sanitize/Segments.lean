import Xript.Sanitize.Interpolate

namespace Xript

/-- A part of a text: an escaped opener, an opener that is not closed, a site by its body, or a character. -/
inductive TextPart where
  | escape
  | opener
  | site (body : JSString)
  | unit (u : Nat)
  deriving DecidableEq

namespace TextPart

def spelled : TextPart → JSString
  | escape => [92, 123, 123]
  | opener => [123, 123]
  | site body => 123 :: 123 :: body ++ [125, 125]
  | unit u => [u]

/-- The text that it stands for outside the sites. -/
def shown : TextPart → JSString
  | escape | opener => [123, 123]
  | site _ => []
  | unit u => [u]

/-- Whether it makes the text differ from what is shown. -/
def opens : TextPart → Bool
  | escape | site _ => true
  | opener | unit _ => false

end TextPart

def textPartsFrom : Nat → JSString → List TextPart
  | 0, _ => []
  | _ + 1, [] => []
  | n + 1, c :: s =>
    if [92, 123, 123] <+: c :: s then .escape :: textPartsFrom n ((c :: s).drop 3)
    else if [123, 123] <+: c :: s then
      match breakOn [125, 125] ((c :: s).drop 2) with
      | none => .opener :: textPartsFrom n ((c :: s).drop 2)
      | some (body, rest) => .site body :: textPartsFrom n rest
    else .unit c :: textPartsFrom n s

/-- The parts of a text, from left to right. -/
def textParts (text : JSString) : List TextPart := textPartsFrom text.length text

/-- A text taken apart. -/
inductive Reads : JSString → List TextPart → Prop
  | done : Reads [] []
  | escape {s : JSString} {parts : List TextPart} (rest : Reads s parts) :
      Reads (92 :: 123 :: 123 :: s) (.escape :: parts)
  | opener {s : JSString} {parts : List TextPart} (unclosed : breakOn [125, 125] s = none) (rest : Reads s parts) :
      Reads (123 :: 123 :: s) (.opener :: parts)
  | site {s body after : JSString} {parts : List TextPart} (closed : breakOn [125, 125] s = some (body, after))
      (rest : Reads after parts) : Reads (123 :: 123 :: s) (.site body :: parts)
  | unit {u : Nat} {s : JSString} {parts : List TextPart} (unescaped : ¬[92, 123, 123] <+: u :: s)
      (plain : ¬[123, 123] <+: u :: s) (rest : Reads s parts) : Reads (u :: s) (.unit u :: parts)

theorem reads_from {n : Nat} {s : JSString} (enough : s.length ≤ n) : Reads s (textPartsFrom n s) := by
  induction n generalizing s with
  | zero =>
    obtain rfl := List.eq_nil_of_length_eq_zero (Nat.le_zero.mp enough)
    exact .done
  | succ n ih =>
    cases s with
    | nil => exact .done
    | cons c s =>
      rw [List.length_cons] at enough
      rw [textPartsFrom]
      split
      · rename_i escaped
        obtain ⟨t, whole⟩ := escaped
        rw [← whole]
        have length := congrArg List.length whole
        simp only [List.cons_append, List.length_cons, List.nil_append] at length
        have shorter : t.length ≤ n := by omega
        exact .escape (ih shorter)
      · rename_i unescaped
        split
        · rename_i opens
          obtain ⟨t, whole⟩ := opens
          rw [← whole]
          have length := congrArg List.length whole
          simp only [List.cons_append, List.length_cons, List.nil_append] at length
          simp only [List.cons_append, List.drop_succ_cons, List.drop_zero, List.nil_append]
          cases closed : breakOn [125, 125] t with
          | none => exact .opener closed (ih (by omega))
          | some cut =>
            have shorter := breakOn_length closed
            exact .site closed (ih (by omega))
        · rename_i plain
          exact .unit unescaped plain (ih (by omega))

theorem reads_textParts (text : JSString) : Reads text (textParts text) := reads_from le_rfl

/-- A text is taken apart in one way. -/
theorem Reads.unique {s : JSString} {parts others : List TextPart} (first : Reads s parts) (second : Reads s others) :
    parts = others := by
  induction first generalizing others with
  | done =>
    cases second
    rfl
  | escape _ ih =>
    cases second with
    | escape rest => rw [ih rest]
    | unit unescaped _ _ => exact absurd ⟨_, rfl⟩ unescaped
  | opener unclosed _ ih =>
    cases second with
    | opener _ rest => rw [ih rest]
    | site closed _ => cases unclosed.symm.trans closed
    | unit _ plain _ => exact absurd ⟨_, rfl⟩ plain
  | site closed _ ih =>
    cases second with
    | opener unclosed _ => cases closed.symm.trans unclosed
    | site again rest =>
      cases closed.symm.trans again
      rw [ih rest]
    | unit _ plain _ => exact absurd ⟨_, rfl⟩ plain
  | unit unescaped plain _ ih =>
    cases second with
    | escape _ => exact absurd ⟨_, rfl⟩ unescaped
    | opener _ _ | site _ _ => exact absurd ⟨_, rfl⟩ plain
    | unit _ _ rest => rw [ih rest]

theorem Reads.textParts_eq {s : JSString} {parts : List TextPart} (reads : Reads s parts) : textParts s = parts :=
  (reads_textParts s).unique reads

/-- The parts of a text spell it. -/
theorem Reads.spelled {s : JSString} {parts : List TextPart} (reads : Reads s parts) :
    parts.flatMap TextPart.spelled = s := by
  induction reads with
  | done => rfl
  | escape _ ih | unit _ _ _ ih | opener _ _ ih => rw [List.flatMap_cons, ih]; rfl
  | site closed _ ih =>
    rw [List.flatMap_cons, ih, breakOn_split closed, TextPart.spelled]
    simp

/-- The literal piece of a text, if there is any of it. -/
def literalPiece (text : JSString) : List TextSegment := if text = [] then [] else [.literal text]

/-- The pieces of a text, after some literal text. -/
def pieces (literal : JSString) : List TextPart → List TextSegment
  | [] => literalPiece literal
  | .site body :: parts => literalPiece literal ++ .expr (trim body) :: pieces [] parts
  | .escape :: parts => pieces (literal ++ [123, 123]) parts
  | .opener :: parts => pieces (literal ++ [123, 123]) parts
  | .unit u :: parts => pieces (literal ++ [u]) parts

/-- What is reported of the site that opens at `i`. -/
def siteIssues (i : Nat) (body : JSString) : List SegmentIssue :=
  if js "\x7b\x7b" <:+: body then [⟨i, js "nested '\x7b\x7b' inside an interpolation site"⟩]
  else
    match parseExpression defaultMaxExpressionNodes (trim body) with
    | .ok _ => []
    | .error e => [⟨i + 2 + e.position, e.message⟩]

/-- The sites of a text whose parts start at `i`, each with the offset it opens at. -/
def sitesFrom (i : Nat) : List TextPart → List (Nat × JSString)
  | [] => []
  | .site body :: parts => (i, body) :: sitesFrom (i + (body.length + 4)) parts
  | .escape :: parts => sitesFrom (i + 3) parts
  | .opener :: parts => sitesFrom (i + 2) parts
  | .unit _ :: parts => sitesFrom (i + 1) parts

namespace Segmenter

@[simp] theorem flush_segments (st : Segmenter) : st.flush.segments = st.segments ++ literalPiece st.literal := by
  rw [flush, literalPiece]
  split
  · rw [List.append_nil]
  · rfl

@[simp] theorem flush_literal (st : Segmenter) : st.flush.literal = [] := by
  rw [flush]
  split
  · assumption
  · rfl

@[simp] theorem flush_issues (st : Segmenter) : st.flush.issues = st.issues := by
  rw [flush]
  split <;> rfl

@[simp] theorem flush_opened (st : Segmenter) : st.flush.opened = st.opened := by
  rw [flush]
  split <;> rfl

@[simp] theorem addExpr_segments (st : Segmenter) (source : JSString) :
    (st.addExpr source).segments = st.segments ++ literalPiece st.literal ++ [.expr source] := by
  rw [addExpr, flush_segments]

@[simp] theorem addExpr_literal (st : Segmenter) (source : JSString) : (st.addExpr source).literal = [] :=
  st.flush_literal

@[simp] theorem addExpr_issues (st : Segmenter) (source : JSString) : (st.addExpr source).issues = st.issues :=
  st.flush_issues

@[simp] theorem addExpr_opened (st : Segmenter) (source : JSString) : (st.addExpr source).opened = st.opened :=
  st.flush_opened

end Segmenter

/-- What a site leaves. -/
structure SiteLeaves (i : Nat) (body : JSString) (before after : Segmenter) : Prop where
  segments : after.segments = before.segments ++ literalPiece before.literal ++ [.expr (trim body)]
  literal : after.literal = []
  issues : after.issues = before.issues ++ siteIssues i body
  opened : after.opened = true

theorem segmentSite_leaves (i : Nat) (body : JSString) (st : Segmenter) :
    SiteLeaves i body st (segmentSite i body st) := by
  rw [segmentSite]
  split
  · rename_i nested
    refine ⟨by simp [Segmenter.addIssue], by simp, ?_, by simp [Segmenter.addIssue]⟩
    rw [siteIssues, if_pos nested]
    simp [Segmenter.addIssue]
  · rename_i plain
    cases parsed : parseExpression defaultMaxExpressionNodes (trim body) with
    | ok _ =>
      refine ⟨by simp, by simp, ?_, by simp⟩
      rw [siteIssues, if_neg plain, parsed]
      simp
    | error e =>
      refine ⟨by simp [Segmenter.addIssue], by simp, ?_, by simp [Segmenter.addIssue]⟩
      rw [siteIssues, if_neg plain, parsed]
      simp [Segmenter.addIssue]

/-- What the scan leaves of a text. -/
structure ScanLeaves (i : Nat) (parts : List TextPart) (before after : Segmenter) : Prop where
  segments : after.segments ++ literalPiece after.literal = before.segments ++ pieces before.literal parts
  issues : after.issues = before.issues ++ (sitesFrom i parts).flatMap fun site => siteIssues site.1 site.2
  opened : after.opened = (before.opened || parts.any TextPart.opens)

theorem Reads.scan {s : JSString} {parts : List TextPart} (reads : Reads s parts) :
    ∀ {n : Nat} (i : Nat) (st : Segmenter), s.length ≤ n → ScanLeaves i parts st (segmentFrom n i s st) := by
  have escape : js "\\\x7b\x7b" = [92, 123, 123] := rfl
  have opener : js "\x7b\x7b" = [123, 123] := rfl
  have closer : js "\x7d\x7d" = [125, 125] := rfl
  induction reads with
  | done =>
    intro n i st _
    have stays : segmentFrom n i [] st = st := by cases n <;> rfl
    rw [stays]
    exact ⟨rfl, by simp [sitesFrom], by simp⟩
  | @escape s parts _ ih =>
    intro n i st enough
    obtain ⟨n, rfl⟩ := Nat.exists_eq_succ_of_ne_zero (Nat.ne_of_gt (lt_of_lt_of_le (Nat.succ_pos _) enough))
    simp only [List.length_cons] at enough
    rw [segmentFrom, escape, if_pos ⟨s, rfl⟩, opener]
    obtain ⟨segments, issues, opened⟩ := ih (n := n) (i + 3) { st.addLiteral [123, 123] with opened := true } (by omega)
    refine ⟨segments, issues, ?_⟩
    simp only [List.drop_succ_cons, List.drop_zero, opened, List.any_cons, TextPart.opens, Bool.true_or, Bool.or_true]
  | @opener s parts unclosed _ ih =>
    intro n i st enough
    obtain ⟨n, rfl⟩ := Nat.exists_eq_succ_of_ne_zero (Nat.ne_of_gt (lt_of_lt_of_le (Nat.succ_pos _) enough))
    simp only [List.length_cons] at enough
    have plain : ¬[92, 123, 123] <+: 123 :: 123 :: s := by simp
    rw [segmentFrom, escape, if_neg plain, opener, if_pos ⟨s, rfl⟩, closer]
    simp only [List.drop_succ_cons, List.drop_zero, unclosed]
    obtain ⟨segments, issues, opened⟩ := ih (n := n) (i + 2) (st.addLiteral [123, 123]) (by omega)
    exact ⟨segments, issues, opened⟩
  | @site s body after parts closed _ ih =>
    intro n i st enough
    obtain ⟨n, rfl⟩ := Nat.exists_eq_succ_of_ne_zero (Nat.ne_of_gt (lt_of_lt_of_le (Nat.succ_pos _) enough))
    simp only [List.length_cons] at enough
    have plain : ¬[92, 123, 123] <+: 123 :: 123 :: s := by simp
    have shorter := breakOn_length closed
    rw [segmentFrom, escape, if_neg plain, opener, if_pos ⟨s, rfl⟩, closer]
    simp only [List.drop_succ_cons, List.drop_zero, closed]
    have left := segmentSite_leaves i body st
    obtain ⟨segments, issues, opened⟩ := ih (n := n) (i + 2 + body.length + 2) (segmentSite i body st) (by omega)
    refine ⟨?_, ?_, ?_⟩
    · rw [segments, left.segments, left.literal, pieces]
      simp only [List.append_assoc, List.singleton_append]
    · rw [issues, left.issues, sitesFrom, List.flatMap_cons, List.append_assoc]
      congr 4
      omega
    · simp only [opened, left.opened, List.any_cons, TextPart.opens, Bool.true_or, Bool.or_true]
  | @unit u s parts unescaped plain _ ih =>
    intro n i st enough
    obtain ⟨n, rfl⟩ := Nat.exists_eq_succ_of_ne_zero (Nat.ne_of_gt (lt_of_lt_of_le (Nat.succ_pos _) enough))
    simp only [List.length_cons] at enough
    rw [segmentFrom, escape, if_neg unescaped, opener, if_neg plain]
    obtain ⟨segments, issues, opened⟩ := ih (n := n) (i + 1) (st.addLiteral [u]) (by omega)
    exact ⟨segments, issues, opened⟩

/-- `segmentText` by the parts of the text. -/
theorem segmentText_eq (text : JSString) :
    segmentText text = (if (textParts text).any TextPart.opens then some (pieces [] (textParts text)) else none,
      (sitesFrom 0 (textParts text)).flatMap fun site => siteIssues site.1 site.2) := by
  obtain ⟨segments, issues, opened⟩ := (reads_textParts text).scan 0 ⟨[], [], [], false⟩ le_rfl
  rw [List.nil_append] at segments issues
  rw [Bool.false_or] at opened
  rw [segmentText, opened, issues, Segmenter.flush_segments, segments]
  split <;> rfl

end Xript
