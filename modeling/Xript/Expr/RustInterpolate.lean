import Xript.Expr.RustEvalAgrees
import Xript.Expr.RustParserAgrees
import Xript.Fragment.Bind
import Xript.Ops.Apply
import Xript.Sanitize.SegmentSource

namespace Xript

namespace Rust

/-- The scan's state: the pieces found, the issues at their byte offsets, the literal text not yet flushed, and whether the
scan changed anything. -/
structure Segmenter where
  segments : List TextSegment
  issues : List SegmentIssue
  literal : List Char
  changed : Bool

namespace Segmenter

def flush (st : Segmenter) : Segmenter :=
  if st.literal = [] then st
  else { st with segments := st.segments ++ [.literal st.literal], literal := [] }

def addLiteral (st : Segmenter) (text : List Char) : Segmenter := { st with literal := st.literal ++ text }

def addExpr (st : Segmenter) (source : List Char) : Segmenter :=
  let flushed := st.flush
  { flushed with segments := flushed.segments ++ [.expr source] }

def addIssue (st : Segmenter) (position : Nat) (message : JSString) : Segmenter :=
  { st with issues := st.issues ++ [⟨position, message⟩] }

end Segmenter

/-- A site that opens at `i` and closes, by its body. -/
def segmentSite (i : Nat) (body : List Char) (st : Segmenter) : Segmenter :=
  let st := { st with changed := true }
  if "\x7b\x7b".toList <:+: body then
    (st.addIssue i (js "nested '\x7b\x7b' inside an interpolation site")).addExpr (jsTrim body)
  else
    match parseWithLimit defaultMaxExpressionNodes (jsTrim body) with
    | .ok _ => st.addExpr (jsTrim body)
    | .error e => (st.addIssue (i + 2 + e.position) e.message).addExpr (jsTrim body)

/-- The loop of `segment_text` from the byte `i` on. -/
def segmentFrom : Nat → Nat → List Char → Segmenter → Segmenter
  | 0, _, _, st => st
  | _ + 1, _, [], st => st
  | n + 1, i, c :: s, st =>
    if "\\\x7b\x7b".toList <+: c :: s then
      segmentFrom n (i + 3) ((c :: s).drop 3) { st.addLiteral "\x7b\x7b".toList with changed := true }
    else if "\x7b\x7b".toList <+: c :: s then
      match breakOn "\x7d\x7d".toList ((c :: s).drop 2) with
      | none => segmentFrom n (i + 2) ((c :: s).drop 2) (st.addLiteral "\x7b\x7b".toList)
      | some (body, rest) => segmentFrom n (i + 2 + (body.map Char.utf8Size).sum + 2) rest (segmentSite i body st)
    else segmentFrom n (i + c.utf8Size) s (st.addLiteral [c])

/-- `segment_text`: the pieces, `none` when the scan changed nothing, and the issues. -/
def segmentText (text : List Char) : Option (List TextSegment) × List SegmentIssue :=
  let st := segmentFrom text.length 0 text ⟨[], [], [], false⟩
  if st.changed then (some st.flush.segments, st.issues) else (none, st.issues)

def containsInterpolation (text : List Char) : Bool := "\x7b\x7b".toList <:+: text

/-- `text.replace("\x7b\x7b", "\\\x7b\x7b")`. -/
def escapeBraces : List Char → List Char
  | '\x7b' :: '\x7b' :: s => '\\' :: '\x7b' :: '\x7b' :: escapeBraces s
  | c :: s => c :: escapeBraces s
  | [] => []

/-- `segments_to_source`. -/
def segmentsToSource (segments : List TextSegment) : List Char :=
  segments.flatMap fun
    | .literal text => escapeBraces text
    | .expr source => "\x7b\x7b ".toList ++ source ++ " \x7d\x7d".toList

section

variable (formatNumber : F64 → JSString) (formatFixed : F64 → Nat → JSString) (bindings : List (List Char × Value))

/-- What one piece is rendered as; `none` is a panic. The cache of parsed sources shows in no result. -/
def resolveSegment : TextSegment → Option JSString
  | .literal text => some (utf16 text)
  | .expr source =>
    match parseWithLimit defaultMaxExpressionNodes source with
    | .ok expression => (eval formatNumber formatFixed bindings expression.ast).map (renderUnits formatNumber)
    | .error _ => some []

def resolveSegments (segments : List TextSegment) : Option (List Char) :=
  (segments.mapM (resolveSegment formatNumber formatFixed bindings)).map fun pieces => fromUtf16Lossy pieces.flatten

end

/-- The piece as TypeScript holds it. -/
def TextSegment.units : TextSegment → Xript.TextSegment
  | .literal text => .literal (utf16 text)
  | .expr source => .expr (utf16 source)

/-- The two scans have come to the same pieces and to issues with the same sites. -/
structure Segmenter.Sim (st : Segmenter) (other : Xript.Segmenter) : Prop where
  segments : st.segments.map TextSegment.units = other.segments
  issues : st.issues.length = other.issues.length
  literal : utf16 st.literal = other.literal
  changed : st.changed = other.opened

namespace Segmenter.Sim

variable {st : Segmenter} {other : Xript.Segmenter} (sim : st.Sim other)

include sim

theorem flush : st.flush.Sim other.flush := by
  obtain ⟨segments, issues, literal, changed⟩ := sim
  rw [Segmenter.flush, Xript.Segmenter.flush, ← literal]
  by_cases empty : st.literal = []
  · rw [if_pos empty, if_pos (utf16_eq_nil.mpr empty)]
    exact ⟨segments, issues, literal, changed⟩
  · rw [if_neg empty, if_neg fun none => empty (utf16_eq_nil.mp none)]
    exact ⟨by rw [List.map_append, segments]; rfl, issues, rfl, changed⟩

theorem addLiteral {text : List Char} {units : JSString} (same : utf16 text = units) :
    (st.addLiteral text).Sim (other.addLiteral units) :=
  ⟨sim.segments, sim.issues, by rw [Segmenter.addLiteral, utf16_append, sim.literal, same]; rfl, sim.changed⟩

theorem addExpr {source : List Char} {units : JSString} (same : utf16 source = units) :
    (st.addExpr source).Sim (other.addExpr units) := by
  obtain ⟨segments, issues, literal, changed⟩ := sim.flush
  refine ⟨?_, issues, literal, changed⟩
  rw [Segmenter.addExpr, Xript.Segmenter.addExpr, List.map_append, segments, ← same]
  rfl

theorem addIssue (i j : Nat) (message other' : JSString) : (st.addIssue i message).Sim (other.addIssue j other') :=
  ⟨sim.segments, by simp only [Segmenter.addIssue, Xript.Segmenter.addIssue, List.length_append, sim.issues]; rfl,
    sim.literal, sim.changed⟩

theorem opened : Segmenter.Sim { st with changed := true } { other with opened := true } :=
  ⟨sim.segments, sim.issues, sim.literal, rfl⟩

end Segmenter.Sim

theorem unitsOf_cases (c : Char) : unitsOf c.toNat = [c.toNat] ∨ ∃ hi lo, unitsOf c.toNat = [hi, lo] ∧
    128 ≤ hi ∧ 128 ≤ lo := by
  unfold unitsOf
  split
  · exact .inl rfl
  · exact .inr ⟨_, _, rfl, by omega, by omega⟩

section

variable {d : Char} (ascii : d.toNat < 128)

include ascii

theorem not_starts_low {ds : List Char} {lo : Nat} {t : JSString} (low : 128 ≤ lo) : ¬ utf16 (d :: ds) <+: lo :: t := by
  rw [utf16_cons_ascii ascii]
  intro start
  have same := (List.cons_prefix_cons.mp start).1
  omega

/-- Cutting an encoded text is encoding the cut. -/
theorem breakOn_utf16 (ds s : List Char) :
    breakOn (utf16 (d :: ds)) (utf16 s) = (breakOn (d :: ds) s).map fun cut => (utf16 cut.1, utf16 cut.2) := by
  have nonempty : utf16 (d :: ds) ≠ [] := by
    rw [utf16_cons_ascii ascii]
    exact List.cons_ne_nil _ _
  induction s with
  | nil =>
    rw [utf16_nil, breakOn, breakOn, if_neg nonempty, if_neg (List.cons_ne_nil d ds)]
    rfl
  | cons c s ih =>
    by_cases start : d :: ds <+: c :: s
    · have units := utf16_prefix_iff.mpr start
      obtain ⟨rest, whole⟩ := start
      obtain ⟨u, t, spelled⟩ := List.exists_cons_of_ne_nil (fun none => nonempty (List.prefix_nil.mp (none ▸ units)))
      rw [spelled] at units ⊢
      rw [breakOn, breakOn, if_pos units, if_pos ⟨rest, whole⟩, ← spelled, ← whole, utf16_append, List.drop_left,
        List.drop_left]
      rfl
    · have plain : ¬ utf16 (d :: ds) <+: utf16 (c :: s) := fun inside => start (utf16_prefix_iff.mp inside)
      have later : breakOn (d :: ds) (c :: s) = (breakOn (d :: ds) s).map fun cut => (c :: cut.1, cut.2) := by
        rw [breakOn, if_neg start]
      rw [later, Option.map_map]
      rcases unitsOf_cases c with units | ⟨hi, lo, units, -, low⟩
      · rw [utf16_cons c, units, List.singleton_append] at plain ⊢
        rw [breakOn, if_neg plain, ih, Option.map_map]
        refine congrArg (Option.map · _) (funext fun cut => ?_)
        simp only [Function.comp_apply, utf16_cons, units, List.singleton_append]
      · rw [utf16_cons c, units, List.cons_append, List.singleton_append] at plain ⊢
        rw [breakOn, if_neg plain, breakOn, if_neg (not_starts_low ascii low), ih, Option.map_map, Option.map_map]
        refine congrArg (Option.map · _) (funext fun cut => ?_)
        simp only [Function.comp_apply, utf16_cons, units, List.cons_append, List.nil_append]

theorem infix_utf16 (ds s : List Char) : utf16 (d :: ds) <:+: utf16 s ↔ d :: ds <:+: s := by
  rw [← not_iff_not, ← breakOn_eq_none, ← breakOn_eq_none, breakOn_utf16 ascii, Option.map_eq_none_iff]

end

theorem segmentSite_sim {st : Segmenter} {other : Xript.Segmenter} (sim : st.Sim other) (i j : Nat) (body : List Char) :
    (segmentSite i body st).Sim (Xript.segmentSite j (utf16 body) other) := by
  have nested : js "\x7b\x7b" <:+: utf16 body ↔ "\x7b\x7b".toList <:+: body :=
    infix_utf16 (d := '\x7b') (by decide) ['\x7b'] body
  have trimmed := utf16_jsTrim body
  rw [segmentSite, Xript.segmentSite, ← trimmed]
  by_cases within : "\x7b\x7b".toList <:+: body
  · rw [if_pos within, if_pos (nested.mpr within)]
    exact (sim.opened.addIssue i j _ _).addExpr rfl
  · rw [if_neg within, if_neg fun inside => within (nested.mp inside)]
    rcases parse_cases defaultMaxExpressionNodes (jsTrim body) with ⟨e, e', ours, theirs⟩ | ⟨parsed, ours, theirs⟩
    · rw [ours, theirs]
      exact (sim.opened.addIssue _ _ _ _).addExpr rfl
    · rw [ours, theirs]
      exact sim.opened.addExpr rfl

theorem segmentFrom_nil (n i : Nat) (st : Xript.Segmenter) : Xript.segmentFrom n i [] st = st := by
  cases n <;> rfl

theorem segmentFrom_sim {n m i j : Nat} {s : List Char} {st : Segmenter} {other : Xript.Segmenter} (sim : st.Sim other)
    (enough : s.length ≤ n) (room : (utf16 s).length ≤ m) :
    (segmentFrom n i s st).Sim (Xript.segmentFrom m j (utf16 s) other) := by
  induction n generalizing m i j s st other with
  | zero =>
    obtain rfl := List.eq_nil_of_length_eq_zero (Nat.le_zero.mp enough)
    rw [segmentFrom, utf16_nil, segmentFrom_nil]
    exact sim
  | succ n ih =>
    cases s with
    | nil =>
      rw [segmentFrom, utf16_nil, segmentFrom_nil]
      exact sim
    | cons c s =>
      have escape : js "\\\x7b\x7b" <+: utf16 (c :: s) ↔ "\\\x7b\x7b".toList <+: c :: s := utf16_prefix_iff
      have opener : js "\x7b\x7b" <+: utf16 (c :: s) ↔ "\x7b\x7b".toList <+: c :: s := utf16_prefix_iff
      obtain ⟨k, rfl⟩ : ∃ k, m = k + 1 := by
        have some := List.length_pos_of_ne_nil fun none => List.cons_ne_nil c s (utf16_eq_nil.mp none)
        exact ⟨m - 1, by omega⟩
      rw [segmentFrom]
      by_cases escaped : "\\\x7b\x7b".toList <+: c :: s
      · have units := escape.mpr escaped
        rw [if_pos escaped]
        obtain ⟨rest, (whole : '\\' :: '\x7b' :: '\x7b' :: rest = c :: s)⟩ := escaped
        cases whole
        have spelled : utf16 ('\\' :: '\x7b' :: '\x7b' :: rest) = 92 :: 123 :: 123 :: utf16 rest := rfl
        rw [spelled] at units room ⊢
        rw [Xript.segmentFrom, if_pos units]
        simp only [List.length_cons] at enough room
        simp only [List.drop_succ_cons, List.drop_zero]
        exact ih (sim.addLiteral rfl).opened (by omega) (by omega)
      · rw [if_neg escaped]
        by_cases opens : "\x7b\x7b".toList <+: c :: s
        · have units := opener.mpr opens
          have plain : ¬ js "\\\x7b\x7b" <+: utf16 (c :: s) := fun start => escaped (escape.mp start)
          rw [if_pos opens]
          obtain ⟨rest, (whole : '\x7b' :: '\x7b' :: rest = c :: s)⟩ := opens
          cases whole
          have spelled : utf16 ('\x7b' :: '\x7b' :: rest) = 123 :: 123 :: utf16 rest := rfl
          have cut : breakOn (js "\x7d\x7d") (utf16 rest) =
              (breakOn "\x7d\x7d".toList rest).map fun cut => (utf16 cut.1, utf16 cut.2) :=
            breakOn_utf16 (d := '\x7d') (by decide) ['\x7d'] rest
          rw [spelled] at units plain room ⊢
          rw [Xript.segmentFrom, if_neg plain, if_pos units]
          simp only [List.length_cons] at enough room
          simp only [List.drop_succ_cons, List.drop_zero, cut]
          cases found : breakOn "\x7d\x7d".toList rest with
          | none => exact ih (sim.addLiteral rfl) (by omega) (by omega)
          | some pair =>
            rw [found] at cut
            have shorter := breakOn_length found
            have shorter' := breakOn_length cut
            exact ih (segmentSite_sim sim i j pair.1) (by omega) (by omega)
        · have plain : ¬ js "\\\x7b\x7b" <+: utf16 (c :: s) := fun start => escaped (escape.mp start)
          have closed : ¬ js "\x7b\x7b" <+: utf16 (c :: s) := fun start => opens (opener.mp start)
          rw [if_neg opens]
          rw [List.length_cons] at enough
          rcases unitsOf_cases c with units | ⟨hi, lo, units, -, low⟩
          · rw [utf16_cons, units, List.singleton_append] at plain closed room ⊢
            rw [Xript.segmentFrom, if_neg plain, if_neg closed]
            rw [List.length_cons] at room
            exact ih (sim.addLiteral (by rw [utf16_cons, units]; rfl)) (by omega) (by omega)
          · rw [utf16_cons, units, List.cons_append, List.singleton_append] at plain closed room ⊢
            simp only [List.length_cons] at room
            obtain ⟨k, rfl⟩ : ∃ l, k = l + 1 := ⟨k - 1, by omega⟩
            have plain' : ¬ js "\\\x7b\x7b" <+: lo :: utf16 s := not_starts_low (d := '\\') (by decide) low
            have closed' : ¬ js "\x7b\x7b" <+: lo :: utf16 s := not_starts_low (d := '\x7b') (by decide) low
            rw [Xript.segmentFrom, if_neg plain, if_neg closed, Xript.segmentFrom, if_neg plain', if_neg closed']
            refine ih ⟨sim.segments, sim.issues, ?_, sim.changed⟩ (by omega) (by omega)
            simp only [Segmenter.addLiteral, Xript.Segmenter.addLiteral, utf16_append, utf16_cons, utf16_nil, units,
              sim.literal, List.append_assoc, List.append_nil]
            rfl

theorem segmentText_alike (text : List Char) :
    (segmentText text).1.map (List.map TextSegment.units) = (Xript.segmentText (utf16 text)).1 ∧
      (segmentText text).2.length = (Xript.segmentText (utf16 text)).2.length := by
  have start : Segmenter.Sim ⟨[], [], [], false⟩ ⟨[], [], [], false⟩ := ⟨rfl, rfl, rfl, rfl⟩
  have sim := segmentFrom_sim (i := 0) (j := 0) start (le_refl text.length) (le_refl (utf16 text).length)
  rw [segmentText, Xript.segmentText]
  generalize segmentFrom text.length 0 text ⟨[], [], [], false⟩ = st at sim ⊢
  generalize Xript.segmentFrom (utf16 text).length 0 (utf16 text) ⟨[], [], [], false⟩ = other at sim ⊢
  rw [sim.changed]
  split
  · exact ⟨congrArg some sim.flush.segments, sim.issues⟩
  · exact ⟨rfl, sim.issues⟩

theorem utf16_escapeBraces (s : List Char) : utf16 (escapeBraces s) = Xript.escapeBraces (utf16 s) := by
  fun_induction escapeBraces s with
  | case1 s ih =>
    show 92 :: 123 :: 123 :: utf16 (escapeBraces s) = 92 :: 123 :: 123 :: Xript.escapeBraces (utf16 s)
    rw [ih]
  | case2 c s plain ih =>
    rcases unitsOf_cases c with units | ⟨hi, lo, units, high, low⟩
    · rw [utf16_cons, utf16_cons, units, List.singleton_append, List.singleton_append, Xript.escapeBraces, ih]
      intro t first next
      obtain ⟨d, r, rfl, second, -⟩ := utf16_eq_cons next (by decide)
      exact plain r (char_eq first) (by rw [char_eq (d := '\x7b') second])
    · rw [utf16_cons, utf16_cons, units]
      simp only [List.cons_append, List.nil_append]
      rw [Xript.escapeBraces, Xript.escapeBraces, ih]
      · omega
      · omega
  | case3 => rfl

theorem utf16_segmentsToSource (segments : List TextSegment) :
    utf16 (segmentsToSource segments) = Xript.segmentsToSource (segments.map TextSegment.units) := by
  induction segments with
  | nil => rfl
  | cons segment segments ih =>
    cases segment with
    | literal text =>
      show utf16 (escapeBraces text ++ segmentsToSource segments) =
        Xript.escapeBraces (utf16 text) ++ Xript.segmentsToSource (segments.map TextSegment.units)
      rw [utf16_append, utf16_escapeBraces, ih]
    | expr source =>
      show utf16 ("\x7b\x7b ".toList ++ source ++ " \x7d\x7d".toList ++ segmentsToSource segments) =
        js "\x7b\x7b " ++ utf16 source ++ js " \x7d\x7d" ++ Xript.segmentsToSource (segments.map TextSegment.units)
      rw [utf16_append, utf16_append, utf16_append, ih]
      rfl

section

variable (formatNumber : F64 → JSString) (formatFixed : F64 → Nat → JSString) (bindings : List (List Char × Value))

/-- `evaluate`; `none` is a panic. -/
def evaluate (source : List Char) : Option Value :=
  match parseWithLimit defaultMaxExpressionNodes source with
  | .ok expression => evaluateAst formatNumber formatFixed bindings expression.ast
  | .error _ => some .null

/-- `evaluate_condition`. -/
def evaluateCondition (source : List Char) : Option Bool :=
  match parseWithLimit defaultMaxExpressionNodes source with
  | .ok expression => (eval formatNumber formatFixed bindings expression.ast).map truthy
  | .error _ => some false

end

/-- The length of what each part of a source's expression evaluates to is a safe integer. -/
def ShortSource (bindings : Bindings) (source : JSString) : Prop :=
  ∀ parsed, parseExpression defaultMaxExpressionNodes source = .ok parsed →
    ∀ part ∈ parsed.ast.parts, Short (Xript.evaluateAst bindings part)

section

variable {entries : List (List Char × Value)} {bindings : Bindings} (agree : BindingsAlike entries bindings)

include agree

/-- A source evaluates to the same JSON and, as a condition, to the same truth. -/
theorem evaluate_alike {source : List Char} (short : ShortSource bindings (utf16 source)) :
    (∃ value, evaluate F64.toText F64.toFixed entries source = some value ∧
      value.toJson.mapNumbers spelledNumber =
        (evaluateExpression bindings (utf16 source)).lossy.mapNumbers spelledNumber) ∧
    evaluateCondition F64.toText F64.toFixed entries source =
      some (Xript.evaluateCondition bindings (utf16 source)) := by
  rw [evaluate, evaluateCondition, Xript.evaluateCondition, evaluateExpression]
  rcases parse_cases defaultMaxExpressionNodes source with ⟨e, e', ours, theirs⟩ | ⟨parsed, ours, theirs⟩
  · rw [ours, theirs]
    exact ⟨⟨.null, rfl, rfl⟩, rfl⟩
  · obtain ⟨toks, -, derives, -, -⟩ := parseExpression_eq_ok.1 ours
    obtain ⟨value, other, mine, its, alike⟩ := eval_answers agree derives.admitted (short parsed ours)
    rw [ours, theirs]
    simp only [evaluateAst, mine, Xript.evaluateAst, its, Option.map_some, alike.truthy]
    exact ⟨⟨value.intoJson, rfl, alike.shown⟩, trivial⟩

/-- A piece is rendered as the same text. -/
theorem resolveSegment_alike {segment : TextSegment}
    (short : ∀ source, segment = .expr source → ShortSource bindings (utf16 source)) :
    resolveSegment F64.toText F64.toFixed entries segment =
      some (Xript.resolveSegments [segment.units] bindings) := by
  cases segment with
  | literal text =>
    rw [resolveSegment, TextSegment.units, Xript.resolveSegments, List.flatMap_singleton]
  | expr source =>
    rw [TextSegment.units, Xript.resolveSegments, List.flatMap_singleton, resolveSegment]
    show _ = some (renderValue (evaluateExpression bindings (utf16 source)))
    rw [evaluateExpression]
    rcases parse_cases defaultMaxExpressionNodes source with ⟨e, e', ours, theirs⟩ | ⟨parsed, ours, theirs⟩
    · rw [ours, theirs]
      rfl
    · obtain ⟨toks, -, derives, -, -⟩ := parseExpression_eq_ok.1 ours
      obtain ⟨value, other, mine, its, alike⟩ := eval_answers agree derives.admitted (short source rfl parsed ours)
      rw [ours, theirs]
      dsimp only
      rw [mine, Xript.evaluateAst, its, Option.map_some, alike.render]

theorem resolveSegments_alike {segments : List TextSegment}
    (short : ∀ source, .expr source ∈ segments → ShortSource bindings (utf16 source)) :
    resolveSegments F64.toText F64.toFixed entries segments =
      some (fromUtf16Lossy (Xript.resolveSegments (segments.map TextSegment.units) bindings)) := by
  have pieces : ∃ pieces, segments.mapM (resolveSegment F64.toText F64.toFixed entries) = some pieces ∧
      pieces.flatten = Xript.resolveSegments (segments.map TextSegment.units) bindings := by
    induction segments with
    | nil => exact ⟨[], rfl, rfl⟩
    | cons segment segments ih =>
      obtain ⟨pieces, rest, joined⟩ := ih fun source member => short source (List.mem_cons_of_mem _ member)
      have first := resolveSegment_alike agree fun source same => short source (same ▸ List.mem_cons_self)
      refine ⟨_ :: pieces, by rw [List.mapM_cons, first, rest]; rfl, ?_⟩
      rw [List.flatten_cons, joined, List.map_cons, Xript.resolveSegments, List.flatMap_singleton]
      rfl
  obtain ⟨pieces, rendered, joined⟩ := pieces
  rw [resolveSegments, rendered, Option.map_some, joined]

end

end Rust

/-- Both runtimes take a text apart alike: they find sites in the same texts, the same pieces, as many issues and the same
source, and they show the same text (lone surrogates replaced), given the same number-to-text functions. -/
theorem segmentText_rust (text : List Char) (entries : List (List Char × Rust.Value)) (inherited : Record JsValue)
    (short : ∀ segments, (Rust.segmentText text).1 = some segments → ∀ source, .expr source ∈ segments →
      Rust.ShortSource (Rust.bindingsOf entries inherited) (utf16 source)) :
    Rust.containsInterpolation text = containsInterpolation (utf16 text) ∧
    (Rust.segmentText text).2.length = (segmentText (utf16 text)).2.length ∧
    (Rust.segmentText text).1.map (List.map Rust.TextSegment.units) = (segmentText (utf16 text)).1 ∧
    ∀ segments, (Rust.segmentText text).1 = some segments →
      utf16 (Rust.segmentsToSource segments) = segmentsToSource (segments.map Rust.TextSegment.units) ∧
      Rust.resolveSegments F64.toText F64.toFixed entries segments =
        some (Rust.fromUtf16Lossy (resolveSegments (segments.map Rust.TextSegment.units)
          (Rust.bindingsOf entries inherited))) := by
  obtain ⟨pieces, issues⟩ := Rust.segmentText_alike text
  refine ⟨?_, issues, pieces, fun segments found => ⟨Rust.utf16_segmentsToSource segments, ?_⟩⟩
  · exact decide_eq_decide.mpr (Rust.infix_utf16 (d := '\x7b') (by decide) ['\x7b'] text).symm
  · exact Rust.resolveSegments_alike (Rust.bindingsOf_alike entries inherited) (short segments found)

abbrev greetedEntries : List (List Char × Rust.Value) := [("who".toList, .string "é".toList)]

theorem segmentText_rust_greeting :
    (Rust.segmentText "Hi \x7b\x7b who \x7d\x7d".toList).1.map (List.map Rust.TextSegment.units) =
      some [.literal (js "Hi "), .expr (js "who")] ∧
    ∀ segments, (Rust.segmentText "Hi \x7b\x7b who \x7d\x7d".toList).1 = some segments →
      Rust.resolveSegments F64.toText F64.toFixed greetedEntries segments =
        some (Rust.fromUtf16Lossy (resolveSegments (segments.map Rust.TextSegment.units)
          (Rust.bindingsOf greetedEntries []))) := by
  have pieces : (Rust.segmentText "Hi \x7b\x7b who \x7d\x7d".toList).1.map (List.map Rust.TextSegment.units) =
      some [.literal (js "Hi "), .expr (js "who")] := by decide +kernel
  have all : (parseExpression defaultMaxExpressionNodes (js "who")).toOption.all (fun parsed =>
      parsed.ast.parts.all fun part =>
        decide (Rust.Short (evaluateAst (Rust.bindingsOf greetedEntries []) part))) = true := by decide +kernel
  have short : ∀ segments, (Rust.segmentText "Hi \x7b\x7b who \x7d\x7d".toList).1 = some segments →
      ∀ source, .expr source ∈ segments → Rust.ShortSource (Rust.bindingsOf greetedEntries []) (utf16 source) := by
    intro segments found source member parsed run part inside
    rw [found, Option.map_some, Option.some.injEq] at pieces
    have listed : Rust.TextSegment.units (.expr source) ∈ segments.map Rust.TextSegment.units :=
      List.mem_map_of_mem member
    rw [pieces] at listed
    simp only [Rust.TextSegment.units, List.mem_cons, reduceCtorEq, TextSegment.expr.injEq, List.not_mem_nil, false_or,
      or_false] at listed
    rw [listed] at run
    rw [run] at all
    exact of_decide_eq_true (List.all_eq_true.mp all part inside)
  obtain ⟨-, -, -, shown⟩ := segmentText_rust "Hi \x7b\x7b who \x7d\x7d".toList greetedEntries [] short
  exact ⟨pieces, fun segments found => (shown segments found).2⟩

end Xript
