import Xript.Expr.Parser
import Xript.Sanitize.Tree

namespace Xript

structure SegmentIssue where
  position : Nat
  message : JSString
  deriving DecidableEq, Repr

/-- The scan's state: the pieces found, the issues, the literal text not yet flushed, and whether
the scan changed anything. -/
structure Segmenter where
  segments : List TextSegment
  issues : List SegmentIssue
  literal : JSString
  opened : Bool

namespace Segmenter

def flush (st : Segmenter) : Segmenter :=
  if st.literal = [] then st
  else { st with segments := st.segments ++ [.literal st.literal], literal := [] }

def addLiteral (st : Segmenter) (text : JSString) : Segmenter := { st with literal := st.literal ++ text }

def addExpr (st : Segmenter) (source : JSString) : Segmenter :=
  let flushed := st.flush
  { flushed with segments := flushed.segments ++ [.expr source] }

def addIssue (st : Segmenter) (position : Nat) (message : JSString) : Segmenter :=
  { st with issues := st.issues ++ [⟨position, message⟩] }

end Segmenter

/-- A site that opens at `i` and closes, by its body. -/
def segmentSite (i : Nat) (body : JSString) (st : Segmenter) : Segmenter :=
  let st := { st with opened := true }
  if js "\x7b\x7b" <:+: body then
    (st.addIssue i (js "nested '\x7b\x7b' inside an interpolation site")).addExpr (trim body)
  else
    match parseExpression defaultMaxExpressionNodes (trim body) with
    | .ok _ => st.addExpr (trim body)
    | .error e => (st.addIssue (i + 2 + e.position) e.message).addExpr (trim body)

/-- The loop of `segmentText` from the offset `i` on. -/
def segmentFrom : Nat → Nat → JSString → Segmenter → Segmenter
  | 0, _, _, st => st
  | _ + 1, _, [], st => st
  | n + 1, i, c :: s, st =>
    if js "\\\x7b\x7b" <+: c :: s then
      segmentFrom n (i + 3) ((c :: s).drop 3) { st.addLiteral (js "\x7b\x7b") with opened := true }
    else if js "\x7b\x7b" <+: c :: s then
      match breakOn (js "\x7d\x7d") ((c :: s).drop 2) with
      | none => segmentFrom n (i + 2) ((c :: s).drop 2) (st.addLiteral (js "\x7b\x7b"))
      | some (body, rest) => segmentFrom n (i + 2 + body.length + 2) rest (segmentSite i body st)
    else segmentFrom n (i + 1) s (st.addLiteral [c])

/-- `segmentText`: the pieces, `none` when the text opens no site, and the issues. -/
def segmentText (text : JSString) : Option (List TextSegment) × List SegmentIssue :=
  let st := segmentFrom text.length 0 text ⟨[], [], [], false⟩
  if st.opened then (some st.flush.segments, st.issues) else (none, st.issues)

def containsInterpolation (text : JSString) : Bool := js "\x7b\x7b" <:+: text

end Xript
