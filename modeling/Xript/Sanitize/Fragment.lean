import Xript.Json.Parse
import Xript.Sanitize.Jsml
import Xript.Sanitize.ReadBack

namespace Xript

inductive FragmentContentType where
  | html
  | tree
  deriving DecidableEq, Repr

structure SanitizedFragment where
  tree : FragmentTree
  html : JSString
  contentType : FragmentContentType
  report : Report

structure FragmentParseError where
  format : JSString
  message : JSString
  deriving DecidableEq, Repr

def reservedHyphenatedNames : List JSString := [
  "annotation-xml", "color-profile", "font-face", "font-face-src", "font-face-uri", "font-face-format",
  "font-face-name", "missing-glyph"].map js

/-- A unit of a custom element's name before its first hyphen. -/
def isCustomNameUnit (u : Nat) : Bool := isLower u || isDigit u || u = 46 || u = 95

/-- `/^[a-z][a-z0-9._]*-[a-z0-9._-]*$/.test(lower)`. -/
def matchesCustomName : JSString → Bool
  | [] => false
  | c :: s =>
    isLower c &&
      match s.dropWhile isCustomNameUnit with
      | 45 :: rest => rest.all fun u => isCustomNameUnit u || u = 45
      | _ => false

def isCustomElementName (name : JSString) : Bool :=
  matchesCustomName (toLowerCase name) && toLowerCase name ∉ reservedHyphenatedNames

/-- Whether a format has a meaningful HTML projection. -/
def projectsToHtml (profile : FormatProfile) : Bool :=
  profile.builtin || speaksHtml profile && profile.scope.all fun entry =>
    match entry with
    | .declared _ nodes => nodes.keys.all isCustomElementName
    | .builtinHtml => true

/-- A JSML source as a node list: a bare element is one of one node. -/
def parseJsmlSource (source format : JSString) : Except FragmentParseError (List Json) :=
  match parseJson source with
  | none => .error ⟨format, js "invalid JSON"⟩
  | some (.arr (.str name :: rest)) => .ok [.arr (.str name :: rest)]
  | some (.arr nodes) => .ok nodes
  | some node => .ok [node]

/-- Sanitizes a fragment source against the vocabulary its format declares. -/
def sanitizeFragment (source : JSString) (profile : FormatProfile) (options : VocabularyOptions) :
    Except FragmentParseError SanitizedFragment :=
  let projected (tree : FragmentTree) : JSString :=
    if projectsToHtml profile then treeToHtmlWith (propTypeLookup profile) tree else []
  if profile.syn = .j5ml then do
    let nodes ← parseJsmlSource source profile.id
    let parsed := sanitizeTree (jsmlToTree nodes) profile options
    return ⟨parsed.tree, projected parsed.tree, if profile.builtin then .html else .tree, parsed.report⟩
  else
    let parsed := sanitizeTree (htmlToTree source (some profile)) profile options
    if profile.builtin = false then .ok ⟨parsed.tree, projected parsed.tree, .tree, parsed.report⟩
    else .ok ⟨parsed.tree, treeToHtml parsed.tree, .html, parsed.report⟩

mutual

/-- No text of the node is in segments. -/
def UnsegmentedNode : FragmentNode → Prop
  | .text _ segments => segments = none
  | .element _ _ children _ => Unsegmented children

def Unsegmented : List FragmentNode → Prop
  | [] => True
  | node :: nodes => UnsegmentedNode node ∧ Unsegmented nodes

end

theorem Unsegmented.append {s t : List FragmentNode} (first : Unsegmented s) (second : Unsegmented t) :
    Unsegmented (s ++ t) := by
  induction s with
  | nil => exact second
  | cons node s ih => exact ⟨first.1, ih first.2⟩

mutual

theorem ShapedNode.unsegmented (node : FragmentNode) (shaped : ShapedNode node) : UnsegmentedNode node := by
  cases node with
  | text value segments => exact shaped
  | element name props children selfClosing => exact Shaped.unsegmented children shaped.2.2

theorem Shaped.unsegmented (nodes : List FragmentNode) (shaped : Shaped nodes) : Unsegmented nodes := by
  cases nodes with
  | nil => trivial
  | cons node nodes => exact ⟨ShapedNode.unsegmented node shaped.1, Shaped.unsegmented nodes shaped.2⟩

end

mutual

theorem jsmlNodeToTree_unsegmented (node : Json) {converted : FragmentNode} (found : jsmlNodeToTree node = some converted) :
    UnsegmentedNode converted := by
  unfold jsmlNodeToTree at found
  split at found
  · cases found
    rfl
  next rest =>
    cases found
    exact jsmlToTree_unsegmented rest
  next rest _ =>
    cases found
    exact jsmlToTree_unsegmented rest
  · cases found

theorem jsmlToTree_unsegmented (nodes : List Json) : Unsegmented (jsmlToTree nodes) := by
  cases nodes with
  | nil => trivial
  | cons node nodes =>
    rw [jsmlToTree]
    split
    next converted found => exact ⟨jsmlNodeToTree_unsegmented node found, jsmlToTree_unsegmented nodes⟩
    next => exact jsmlToTree_unsegmented nodes

end

theorem textNode_off {ctx : WalkContext} (off : ctx.interpolate = false) (value : JSString)
    (segments : Option (List TextSegment)) (path : JSString) :
    textNode ctx value segments path = (.text value segments, .empty) := by
  rw [textNode, off]
  rfl

mutual

theorem walkNode_unsegmented {ctx : WalkContext} (off : ctx.interpolate = false) (inSvg : Bool) (path : JSString)
    (constraint : ChildrenConstraint) (node : FragmentNode) (plain : UnsegmentedNode node) :
    Unsegmented (walkNode ctx inSvg path constraint node).1 := by
  cases node with
  | text value segments =>
    rw [walkNode, textNode_off off]
    split
    · exact ⟨plain, trivial⟩
    · split <;> trivial
  | element name props children selfClosing =>
    have inner : ∀ inSvg path constraint, Unsegmented (walkNodes ctx inSvg path constraint 0 children).1 :=
      fun inSvg path constraint => walkNodes_unsegmented off inSvg path constraint 0 children plain
    unfold walkNode
    split
    · simp only
      split
      · exact inner ..
      · trivial
    · trivial
    · exact inner ..
    · split
      · refine ⟨?_, trivial⟩
        unfold sanitizeSvgTextNode
        simp only
        split
        · trivial
        · rw [textNode_off off]
          exact ⟨rfl, trivial⟩
      · trivial
    · split
      · exact ⟨inner .., trivial⟩
      · trivial
    · split
      · exact ⟨inner .., trivial⟩
      · trivial

/-- Without interpolation a walk segments no text. -/
theorem walkNodes_unsegmented {ctx : WalkContext} (off : ctx.interpolate = false) (inSvg : Bool) (path : JSString)
    (constraint : ChildrenConstraint) (index : Nat) (nodes : List FragmentNode) (plain : Unsegmented nodes) :
    Unsegmented (walkNodes ctx inSvg path constraint index nodes).1 := by
  cases nodes with
  | nil => trivial
  | cons node nodes =>
    rw [walkNodes]
    exact (walkNode_unsegmented off inSvg _ constraint node plain.1).append
      (walkNodes_unsegmented off inSvg path constraint _ nodes plain.2)

end

/-- Without interpolation a fragment's tree holds no segments. -/
theorem sanitizeFragment_unsegmented {source : JSString} {profile : FormatProfile} {strict : Bool}
    {fragment : SanitizedFragment} (sanitized : sanitizeFragment source profile ⟨strict, false⟩ = .ok fragment) :
    Unsegmented fragment.tree := by
  have walked : ∀ tree : FragmentTree, Unsegmented tree → Unsegmented (sanitizeTree tree profile ⟨strict, false⟩).tree :=
    fun tree plain => walkNodes_unsegmented rfl false [] .any 0 tree plain
  unfold sanitizeFragment at sanitized
  simp only at sanitized
  split at sanitized
  · cases parsed : parseJsmlSource source profile.id with
    | error e =>
      rw [parsed] at sanitized
      cases sanitized
    | ok nodes =>
      rw [parsed] at sanitized
      cases sanitized
      exact walked _ (jsmlToTree_unsegmented nodes)
  · have markup := walked _ (Shaped.unsegmented _ (htmlToTree_shaped source (some profile)))
    split at sanitized
    · cases sanitized
      exact markup
    · cases sanitized
      exact markup

end Xript
