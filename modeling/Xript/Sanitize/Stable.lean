import Xript.Sanitize.Built
import Xript.Sanitize.Vocabulary

namespace Xript

theorem Report.append_empty : Report.empty ++ Report.empty = Report.empty := rfl

/-- The pass over props that drops nothing with a report reports nothing. -/
theorem collectProps_quiet {check : JSString → PropValue → PropOutcome} {props : Props}
    (quiet : ∀ entry ∈ props, ∀ report, check entry.1 entry.2 = .drop report → report = .empty) :
    (collectProps check props).2 = .empty := by
  unfold collectProps
  refine List.foldlRecOn (motive := fun found : Props × Report => found.2 = .empty) props _ rfl fun found empty entry member => ?_
  split
  · exact empty
  · rename_i report dropped
    simp only [quiet entry member report dropped, empty]
    rfl

/-- Every prop that is kept was let through by the check. -/
theorem mem_collectProps {check : JSString → PropValue → PropOutcome} {props : Props} {entry : JSString × PropValue}
    (member : entry ∈ (collectProps check props).1) :
    ∃ old ∈ props, check old.1 old.2 = .keep entry.1 entry.2 := by
  suffices kept : ∀ entry ∈ (collectProps check props).1, ∃ old ∈ props, check old.1 old.2 = .keep entry.1 entry.2 from
    kept entry member
  unfold collectProps
  refine List.foldlRecOn (motive := fun found : Props × Report =>
    ∀ entry ∈ found.1, ∃ old ∈ props, check old.1 old.2 = .keep entry.1 entry.2) props _
      (fun _ inside => absurd inside List.not_mem_nil) fun found earlier old here => ?_
  split
  · rename_i key value keeps
    intro entry inside
    rcases Record.mem_set inside with rfl | before
    · exact ⟨old, here, keeps⟩
    · exact earlier entry before
  · exact earlier

theorem toLowerCase_of_valid {key lower : JSString} (spelled : toLowerCase key = lower)
    (valid : isValidAttributeName lower = true) : toLowerCase lower = lower := by
  have ascii : ∀ u ∈ lower, u < 128 ∨ u = 0xFFFD := by
    intro u member
    have unit := (isValidAttributeName_units valid).2 u member
    simp only [isNameUnit, isLetter, isUpper, isLower, isDigit, Bool.or_eq_true, Bool.and_eq_true, decide_eq_true_eq,
      beq_iff_eq] at unit
    omega
  rw [toLowerCase_ascii ascii]
  refine map_asciiLower_of_not_upper fun u member => ?_
  rw [← spelled] at member
  exact toLowerCase_not_upper member

theorem toLowerCase_canonical {lower : JSString} (fixed : toLowerCase lower = lower) :
    toLowerCase (canonicalAttributeName lower) = lower := by
  have table : ∀ entry ∈ caseSensitiveAttributes, toLowerCase entry.2 = entry.1 := by decide +kernel
  unfold canonicalAttributeName
  cases found : caseSensitiveAttributes.lookup lower with
  | none => exact fixed
  | some spelled =>
    obtain ⟨before, after, split, -⟩ := List.lookup_eq_some_iff.mp found
    exact table (lower, spelled) (by rw [split]; simp)

theorem normalizeUri_idem (value : JSString) : normalizeUri (normalizeUri value) = normalizeUri value := by
  have kept : (normalizeUri value).filter (fun u => !(u == 9 || u == 10 || u == 13)) = normalizeUri value := by
    rw [List.filter_eq_self]
    intro u member
    have inside := (List.dropWhile_suffix _).subset ((List.rdropWhile_prefix _ _).subset member)
    exact (List.mem_filter.mp inside).2
  rw [normalizeUri, kept]
  exact strip_idem _ _

theorem sanitizeUri_shape {value attrName cleaned : JSString} {schemes : List JSString}
    (passed : sanitizeUri value attrName schemes = some cleaned) : cleaned = normalizeUri value := by
  unfold sanitizeUri at passed
  simp only at passed
  split at passed
  · exact (Option.some.inj passed).symm
  · split_ifs at passed
    · exact (Option.some.inj passed).symm
    · exact (Option.some.inj passed).symm

/-- A value that passed is passed again, unchanged. -/
theorem sanitizeUri_idem {value attrName cleaned : JSString} {schemes : List JSString}
    (passed : sanitizeUri value attrName schemes = some cleaned) : sanitizeUri cleaned attrName schemes = some cleaned := by
  have shape := sanitizeUri_shape passed
  have same : sanitizeUri cleaned attrName schemes = sanitizeUri value attrName schemes := by
    simp only [sanitizeUri, shape, normalizeUri_idem]
  rw [same, passed]

/-- An attribute that the built-in vocabulary lets through, by its name in lower case. -/
structure QuietProp (schemes : List JSString) (key : JSString) (value : PropValue) : Prop where
  unreserved : toLowerCase key ∉ forbiddenPropNames
  valid : isValidAttributeName (toLowerCase key) = true
  allowed : isAllowedAttribute (toLowerCase key) = true
  safe : toLowerCase key = js "href" ∨ toLowerCase key = js "src" →
    ∀ s, value = .str s → sanitizeUri s (toLowerCase key) schemes ≠ none

/-- An attribute that is let through on an SVG `title` or `desc`. -/
structure QuietSvgProp (key : JSString) : Prop where
  unreserved : toLowerCase key ∉ forbiddenPropNames
  valid : isValidAttributeName (toLowerCase key) = true
  allowed : toLowerCase key ∈ svgTextAttributes ∨ isMetadataPropName (toLowerCase key) = true

theorem QuietProp.quiet {ctx : WalkContext} {tag path key : JSString} {value : PropValue} {report : Report}
    (quiet : QuietProp ctx.profile.schemes key value) (sourced : SourcedValue value)
    (dropped : htmlProp ctx tag path key value = .drop report) : report = .empty := by
  unfold htmlProp at dropped
  simp only [if_neg quiet.unreserved, quiet.valid, quiet.allowed, Bool.not_true, Bool.false_eq_true, if_false] at dropped
  split at dropped
  · rename_i link
    rcases sourced with rfl | ⟨s, rfl, -⟩
    · exact absurd link.2 (by simp [projectsToMarkup])
    · split at dropped
      · cases dropped
      · rename_i refused
        exact absurd refused (quiet.safe link.1 s rfl)
  · split at dropped
    · split at dropped
      · cases dropped
        rfl
      · cases dropped
    · cases dropped

theorem QuietSvgProp.kept {tag path key : JSString} {value : PropValue} (quiet : QuietSvgProp key) :
    svgTextProp tag path key value = .keep (toLowerCase key) value := by
  unfold svgTextProp
  rw [if_pos ⟨quiet.unreserved, quiet.valid, quiet.allowed⟩]

/-- How an attribute of an HTML element is kept: as a link that passed, as a style that is not
empty, or as it is under its canonical name. -/
theorem htmlProp_keep {ctx : WalkContext} {tag path key kept : JSString} {value after : PropValue}
    (keeps : htmlProp ctx tag path key value = .keep kept after) :
    (toLowerCase key ∉ forbiddenPropNames ∧ isValidAttributeName (toLowerCase key) = true ∧
      isAllowedAttribute (toLowerCase key) = true) ∧
    ((kept = toLowerCase key ∧ ∃ cleaned, after = .str cleaned ∧
        sanitizeUri (jsString value) (toLowerCase key) ctx.profile.schemes = some cleaned) ∨
      (kept = toLowerCase key ∧ toLowerCase key = js "style" ∧ after = .str (sanitizeStyleValue (jsString value))) ∨
      (kept = canonicalAttributeName (toLowerCase key) ∧ after = value ∧
        ¬((toLowerCase key = js "href" ∨ toLowerCase key = js "src") ∧ projectsToMarkup value = true))) := by
  unfold htmlProp at keeps
  simp only at keeps
  split at keeps
  · cases keeps
  · rename_i unreserved
    split at keeps
    · cases keeps
    · rename_i valid
      rw [Bool.not_eq_true, Bool.not_eq_false'] at valid
      split at keeps
      · unfold dropAttribute at keeps
        cases keeps
      · rename_i allowed
        rw [Bool.not_eq_true, Bool.not_eq_false'] at allowed
        refine ⟨⟨unreserved, valid, allowed⟩, ?_⟩
        split at keeps
        · split at keeps
          · rename_i cleaned passed
            cases keeps
            exact .inl ⟨rfl, cleaned, rfl, passed⟩
          · cases keeps
        · rename_i other
          split at keeps
          · rename_i style
            split at keeps
            · cases keeps
            · cases keeps
              exact .inr (.inl ⟨rfl, style.1, rfl⟩)
          · cases keeps
            exact .inr (.inr ⟨rfl, rfl, other⟩)

/-- What the pass over an HTML element's attributes keeps, it lets through again. -/
theorem htmlProp_quiet {ctx : WalkContext} {tag path key kept : JSString} {value after : PropValue}
    (keeps : htmlProp ctx tag path key value = .keep kept after) : QuietProp ctx.profile.schemes kept after := by
  obtain ⟨⟨unreserved, valid, allowed⟩, how⟩ := htmlProp_keep keeps
  have fixed := toLowerCase_of_valid rfl valid
  rcases how with ⟨rfl, cleaned, rfl, passed⟩ | ⟨rfl, style, rfl⟩ | ⟨rfl, rfl, other⟩
  · refine ⟨fixed.symm ▸ unreserved, fixed.symm ▸ valid, fixed.symm ▸ allowed, ?_⟩
    rintro - s ⟨⟩
    rw [fixed, sanitizeUri_idem passed]
    exact Option.some_ne_none _
  · refine ⟨fixed.symm ▸ unreserved, fixed.symm ▸ valid, fixed.symm ▸ allowed, fun link => ?_⟩
    rw [fixed, style] at link
    exact absurd link (by decide)
  · have same := toLowerCase_canonical fixed
    refine ⟨same.symm ▸ unreserved, same.symm ▸ valid, same.symm ▸ allowed, ?_⟩
    rintro link s rfl
    rw [same] at link
    exact absurd ⟨link, rfl⟩ other

theorem mem_normalizeUri {value : JSString} {u : Nat} (member : u ∈ normalizeUri value) : u ∈ value := by
  have inside := (List.dropWhile_suffix _).subset ((List.rdropWhile_prefix _ _).subset member)
  exact (List.mem_filter.mp inside).1

theorem SourcedValue.text {value : PropValue} (sourced : SourcedValue value) : 0 ∉ jsString value := by
  rcases sourced with rfl | ⟨s, rfl, clean⟩
  · decide
  · exact clean

theorem htmlProp_sourced {ctx : WalkContext} {tag path key kept : JSString} {value after : PropValue}
    (keeps : htmlProp ctx tag path key value = .keep kept after) (sourced : SourcedValue value) : SourcedValue after := by
  obtain ⟨-, ⟨-, cleaned, rfl, passed⟩ | ⟨-, -, rfl⟩ | ⟨-, rfl, -⟩⟩ := htmlProp_keep keeps
  · rw [sanitizeUri_shape passed]
    exact .inr ⟨_, rfl, fun member => sourced.text (mem_normalizeUri member)⟩
  · exact .inr ⟨_, rfl, fun member => null_notMem_removeDangerousStyle sourced.text (mem_trim member)⟩
  · exact sourced

theorem svgTextProp_keep {tag path key kept : JSString} {value after : PropValue}
    (keeps : svgTextProp tag path key value = .keep kept after) : QuietSvgProp kept ∧ after = value := by
  unfold svgTextProp at keeps
  simp only at keeps
  split at keeps
  · rename_i allowed
    cases keeps
    have fixed := toLowerCase_of_valid rfl allowed.2.1
    exact ⟨⟨fixed.symm ▸ allowed.1, fixed.symm ▸ allowed.2.1, fixed.symm ▸ allowed.2.2⟩, rfl⟩
  · unfold dropAttribute at keeps
    cases keeps

mutual

/-- The nodes that the built-in vocabulary lets through and that print as they are. -/
def TameNode (inSvg : Bool) : FragmentNode → Prop
  | .text value _ => 0 ∉ value
  | .element name props children _ =>
    (∀ entry ∈ props, SourcedValue entry.2) ∧
    (name ∈ allowedElements ∧ (∀ entry ∈ props, QuietProp defaultUriSchemes entry.1 entry.2) ∧
        (name = js "style" → ∀ child ∈ children, child.isText = true) ∨
      name ∈ svgTextElements ∧ inSvg = true ∧ (∀ entry ∈ props, QuietSvgProp entry.1) ∧
        ∀ child ∈ children, child.isText = true) ∧
    Tame (inSvg || name = js "svg") children

def Tame (inSvg : Bool) : List FragmentNode → Prop
  | [] => True
  | node :: nodes => TameNode inSvg node ∧ Tame inSvg nodes

end

theorem Tame.append {inSvg : Bool} {s t : List FragmentNode} (first : Tame inSvg s) (second : Tame inSvg t) :
    Tame inSvg (s ++ t) := by
  induction s with
  | nil => exact second
  | cons node s ih => exact ⟨first.1, ih first.2⟩

/-- A walk over the built-in vocabulary alone, with the interpolation mode off. -/
structure BuiltinWalk (ctx : WalkContext) : Prop where
  scope : ctx.profile.scope = [.builtinHtml]
  schemes : ctx.profile.schemes = defaultUriSchemes
  plain : ctx.interpolate = false

theorem BuiltinWalk.resolve {ctx : WalkContext} (builtin : BuiltinWalk ctx) (name : JSString) (inSvg : Bool) :
    resolveNode name ctx.profile inSvg = (resolveHtml name ctx.profile inSvg).getD .unknown := by
  rw [resolveNode, builtin.scope]
  rfl

/-- The claims of the built-in vocabulary. -/
theorem resolveHtml_cases (name : JSString) (profile : FormatProfile) (inSvg : Bool) :
    (inSvg = true ∧ toLowerCase name ∈ svgTextElements ∧
      resolveHtml name profile inSvg = some (.svgText (toLowerCase name))) ∨
    resolveHtml name profile inSvg = some (.stripped (toLowerCase name)) ∨
    resolveHtml name profile inSvg = some .unwrap ∨
    (toLowerCase name ∈ allowedElements ∧ resolveHtml name profile inSvg = some (.html (toLowerCase name))) ∨
    resolveHtml name profile inSvg = none := by
  unfold resolveHtml
  simp only
  split
  · rename_i inside
    exact .inl ⟨inside.1, inside.2, rfl⟩
  · split
    · exact .inr (.inl rfl)
    · split
      · exact .inr (.inr (.inl rfl))
      · split
        · rename_i allowed
          exact .inr (.inr (.inr (.inl ⟨allowed, rfl⟩)))
        · exact .inr (.inr (.inr (.inr rfl)))

mutual

/-- No text of the node holds a NUL. -/
def NullFreeNode : FragmentNode → Prop
  | .text value _ => 0 ∉ value
  | .element _ _ children _ => NullFree children

def NullFree : List FragmentNode → Prop
  | [] => True
  | node :: nodes => NullFreeNode node ∧ NullFree nodes

end

mutual

theorem SourcedNode.nullFree (node : FragmentNode) (sourced : SourcedNode node) : NullFreeNode node := by
  cases node with
  | text value segments => exact sourced
  | element name props children selfClosing => exact Sourced.nullFree children sourced.2.2

theorem Sourced.nullFree (nodes : List FragmentNode) (sourced : Sourced nodes) : NullFree nodes := by
  cases nodes with
  | nil => trivial
  | cons node nodes => exact ⟨SourcedNode.nullFree node sourced.1, Sourced.nullFree nodes sourced.2⟩

end

mutual

theorem null_notMem_svgTextOf (owner path : JSString) (node : FragmentNode) (clean : NullFreeNode node) :
    0 ∉ (svgTextOf owner path node).1 := by
  cases node with
  | text value segments => exact clean
  | element name props children selfClosing =>
    simp only [svgTextOf]
    split
    · exact List.not_mem_nil
    · split
      · exact List.not_mem_nil
      · exact null_notMem_collectSvgText owner path 0 children clean

theorem null_notMem_collectSvgText (owner path : JSString) (index : Nat) (nodes : List FragmentNode)
    (clean : NullFree nodes) : 0 ∉ (collectSvgText owner path index nodes).1 := by
  cases nodes with
  | nil => exact List.not_mem_nil
  | cons node nodes =>
    rw [collectSvgText, List.mem_append, not_or]
    exact ⟨null_notMem_svgTextOf owner _ node clean.1, null_notMem_collectSvgText owner path _ nodes clean.2⟩

end

theorem textNode_plain {ctx : WalkContext} (builtin : BuiltinWalk ctx) (value : JSString)
    (segments : Option (List TextSegment)) (path : JSString) :
    textNode ctx value segments path = (.text value segments, .empty) := by
  rw [textNode, builtin.plain]
  rfl

theorem walkNode_text {ctx : WalkContext} (builtin : BuiltinWalk ctx) (inSvg : Bool) (path value : JSString)
    (segments : Option (List TextSegment)) :
    walkNode ctx inSvg path .any (.text value segments) = ([.text value segments], .empty) := by
  have allowed : textAllowed .any = true := rfl
  rw [walkNode, if_pos allowed, textNode_plain builtin]

theorem sanitizeSvgTextNode_tame {ctx : WalkContext} (builtin : BuiltinWalk ctx) {tag path : JSString} {props : Props}
    {children : List FragmentNode} (text : tag ∈ svgTextElements) (sourced : ∀ entry ∈ props, SourcedValue entry.2)
    (inner : Sourced children) : TameNode true (sanitizeSvgTextNode ctx tag path props children).1 := by
  have quiet : ∀ entry ∈ (collectProps (svgTextProp tag path) props).1, QuietSvgProp entry.1 ∧ SourcedValue entry.2 := by
    intro entry member
    obtain ⟨old, inside, keeps⟩ := mem_collectProps member
    obtain ⟨quiet, same⟩ := svgTextProp_keep keeps
    exact ⟨quiet, same ▸ sourced old inside⟩
  have clean := null_notMem_collectSvgText tag path 0 children (Sourced.nullFree children inner)
  unfold sanitizeSvgTextNode
  simp only
  split
  · refine ⟨fun entry member => (quiet entry member).2, .inr ⟨text, rfl, fun entry member => (quiet entry member).1, ?_⟩, trivial⟩
    exact fun child impossible => absurd impossible List.not_mem_nil
  · rw [textNode_plain builtin]
    refine ⟨fun entry member => (quiet entry member).2, .inr ⟨text, rfl, fun entry member => (quiet entry member).1, ?_⟩, clean, trivial⟩
    exact List.forall_mem_singleton.mpr rfl

theorem walkNodes_texts {ctx : WalkContext} (builtin : BuiltinWalk ctx) {inSvg : Bool} {path : JSString} {index : Nat}
    {nodes : List FragmentNode} (texts : ∀ node ∈ nodes, node.isText = true) :
    walkNodes ctx inSvg path .any index nodes = (nodes, .empty) := by
  induction nodes generalizing index with
  | nil => rfl
  | cons node nodes ih =>
    rw [List.forall_mem_cons] at texts
    cases node with
    | element name props children selfClosing => exact absurd texts.1 (by simp [FragmentNode.isText])
    | text value segments =>
      rw [walkNodes, ih texts.2, walkNode_text builtin]
      rfl

mutual

theorem walkNode_tame {ctx : WalkContext} (builtin : BuiltinWalk ctx) (inSvg : Bool) (path : JSString) (node : FragmentNode)
    (sourced : SourcedNode node) : Tame inSvg (walkNode ctx inSvg path .any node).1 := by
  cases node with
  | text value segments =>
    rw [walkNode_text builtin]
    exact ⟨sourced, trivial⟩
  | element name props children selfClosing =>
    obtain ⟨values, style, inner⟩ := sourced
    unfold walkNode
    rw [builtin.resolve]
    rcases resolveHtml_cases name ctx.profile inSvg with ⟨inside, text, claim⟩ | claim | claim | ⟨allowed, claim⟩ | claim
    · rw [claim]
      subst inside
      exact ⟨sanitizeSvgTextNode_tame builtin text values inner, trivial⟩
    · rw [claim]
      trivial
    · rw [claim]
      exact walkNodes_tame builtin inSvg path 0 children inner
    · rw [claim]
      refine ⟨⟨?_, .inl ⟨allowed, ?_, ?_⟩, walkNodes_tame builtin _ path 0 children inner⟩, trivial⟩
      · intro entry member
        obtain ⟨old, before, keeps⟩ := mem_collectProps member
        exact htmlProp_sourced keeps (values old before)
      · intro entry member
        obtain ⟨old, before, keeps⟩ := mem_collectProps member
        have quiet := htmlProp_quiet keeps
        rw [builtin.schemes] at quiet
        exact quiet
      · intro isStyle
        have texts := style isStyle
        rw [walkNodes_texts builtin texts]
        exact texts
    · rw [claim]
      simp only [Option.getD_none]
      split
      · exact walkNodes_tame builtin inSvg path 0 children inner
      · trivial

/-- What a walk over the built-in vocabulary leaves is tame. -/
theorem walkNodes_tame {ctx : WalkContext} (builtin : BuiltinWalk ctx) (inSvg : Bool) (path : JSString) (index : Nat)
    (nodes : List FragmentNode) (sourced : Sourced nodes) : Tame inSvg (walkNodes ctx inSvg path .any index nodes).1 := by
  cases nodes with
  | nil => trivial
  | cons node nodes =>
    rw [walkNodes]
    exact (walkNode_tame builtin inSvg _ node sourced.1).append (walkNodes_tame builtin inSvg path _ nodes sourced.2)

end

theorem attachNode_tame {inSvg : Bool} {node : FragmentNode} {nodes : List FragmentNode} (first : TameNode inSvg node)
    (others : Tame inSvg nodes) : Tame inSvg (attachNode node nodes) := by
  unfold attachNode
  split
  · refine ⟨fun member => ?_, others.2⟩
    rcases List.mem_append.mp member with left | right
    · exact first left
    · exact others.1 right
  · split
    · exact others
    · exact ⟨first, others⟩
  · exact ⟨first, others⟩

theorem attachNode_isText {node : FragmentNode} {nodes : List FragmentNode} (first : node.isText = true)
    (others : ∀ n ∈ nodes, n.isText = true) : ∀ n ∈ attachNode node nodes, n.isText = true := by
  unfold attachNode
  split
  · rw [List.forall_mem_cons] at others ⊢
    exact ⟨rfl, others.2⟩
  · split
    · exact others
    · exact List.forall_mem_cons.mpr ⟨rfl, others⟩
  · exact List.forall_mem_cons.mpr ⟨first, others⟩

theorem joinTexts_isText {nodes : List FragmentNode} (texts : ∀ n ∈ nodes, n.isText = true) :
    ∀ n ∈ joinTexts nodes, n.isText = true := by
  induction nodes with
  | nil => exact fun n impossible => absurd impossible List.not_mem_nil
  | cons node nodes ih =>
    rw [List.forall_mem_cons] at texts
    have first : (joinNode node).isText = true := by
      cases node with
      | text value segments => rfl
      | element name props children selfClosing => exact absurd texts.1 (by simp [FragmentNode.isText])
    rw [joinTexts]
    exact attachNode_isText first (ih texts.2)

mutual

theorem joinNode_tame {inSvg : Bool} (node : FragmentNode) (tame : TameNode inSvg node) : TameNode inSvg (joinNode node) := by
  cases node with
  | text value segments => exact tame
  | element name props children selfClosing =>
    obtain ⟨values, how, inner⟩ := tame
    refine ⟨values, ?_, joinTexts_tame children inner⟩
    rcases how with ⟨allowed, quiet, style⟩ | ⟨text, inside, quiet, texts⟩
    · exact .inl ⟨allowed, quiet, fun isStyle => joinTexts_isText (style isStyle)⟩
    · exact .inr ⟨text, inside, quiet, joinTexts_isText texts⟩

theorem joinTexts_tame {inSvg : Bool} (nodes : List FragmentNode) (tame : Tame inSvg nodes) :
    Tame inSvg (joinTexts nodes) := by
  cases nodes with
  | nil => trivial
  | cons node nodes =>
    rw [joinTexts]
    exact attachNode_tame (joinNode_tame node tame.1) (joinTexts_tame nodes tame.2)

end

theorem knownElement_units {name : JSString} (known : name ∈ allowedElements ∨ name ∈ svgTextElements) :
    name ≠ [] ∧ name.all isNameUnit ∧ toLowerCase name = name := by
  have table : ∀ name ∈ allowedElements ++ svgTextElements,
      name ≠ [] ∧ name.all isNameUnit ∧ name.all (fun u => u < 128 && !isUpper u) := by decide +kernel
  obtain ⟨some, units, lower⟩ := table name (List.mem_append.mpr known)
  exact ⟨some, units, toLowerCase_of_lower lower⟩

theorem allowedElement_disjoint : ∀ name ∈ allowedElements,
    name ∉ svgTextElements ∧ name ∉ strippedElements ∧ name ∉ unwrappedElements := by decide +kernel

theorem isTagName_of_tame {name : JSString} (known : name ∈ allowedElements ∨ name ∈ svgTextElements) : IsTagName name := by
  obtain ⟨some, units, -⟩ := knownElement_units known
  exact ⟨some, List.all_eq_true.mp units⟩

theorem printedAttribute_sourced {declaredType : Option (List JSString)} {entry : JSString × PropValue} {a : Attribute}
    (sourced : SourcedValue entry.2) (printed : printedAttribute declaredType entry.1 entry.2 = some a) :
    a.name = entry.1 ∧ (entry.2 = .bool true ∧ a.value = [] ∨ entry.2 = .str a.value) := by
  unfold printedAttribute at printed
  rcases sourced with isTrue | ⟨s, isStr, -⟩
  · rw [isTrue] at printed ⊢
    split at printed
    · cases printed
      exact ⟨rfl, .inl ⟨rfl, rfl⟩⟩
    · cases printed
  · rw [isStr] at printed ⊢
    split at printed
    · cases printed
      exact ⟨rfl, .inr rfl⟩
    · cases printed

theorem printedAttributes_clean {propType : PropTypeLookup} {name : JSString} {props : Props}
    (sourced : ∀ entry ∈ props, SourcedValue entry.2) : ∀ a ∈ printedAttributes propType name props, 0 ∉ a.value := by
  intro a member
  obtain ⟨entry, inside, printed⟩ := List.mem_filterMap.mp member
  have value := sourced entry inside
  rcases (printedAttribute_sourced value printed).2 with ⟨-, empty⟩ | text
  · rw [empty]
    exact List.not_mem_nil
  · rw [text] at value
    exact value.text

theorem apart_attachNode {propType : PropTypeLookup} {node : FragmentNode} {nodes : List FragmentNode}
    (first : ∀ value segments, node = .text value segments → 0 ∉ value) (element : node.isText = false → PrintableNode propType node)
    (others : Printable propType nodes) : Printable propType (attachNode node nodes) := by
  unfold attachNode
  split
  · rename_i value segments next segments' nodes
    obtain ⟨⟨some, clean⟩, apart, rest⟩ := others
    refine ⟨⟨?_, fun member => ?_⟩, fun _ => apart rfl, rest⟩
    · exact List.append_ne_nil_of_right_ne_nil _ some
    · rcases List.mem_append.mp member with left | right
      · exact first value segments rfl left
      · exact clean right
  · rename_i value segments notText
    split
    · exact others
    · rename_i some
      refine ⟨⟨some, first value segments rfl⟩, fun _ next member => ?_, others⟩
      cases nodes with
      | nil => cases member
      | cons n nodes =>
        cases member
        cases next with
        | text next segments' => exact absurd rfl (notText next segments' nodes)
        | element name props children selfClosing => rfl
  · rename_i notText _
    have isElement : node.isText = false := by
      cases node with
      | text value segments => exact (notText value segments rfl).elim
      | element name props children selfClosing => rfl
    exact ⟨element isElement, fun isText => absurd (isElement.symm.trans isText) Bool.false_ne_true, others⟩

mutual

theorem joinNode_printable {propType : PropTypeLookup} {inSvg : Bool} (node : FragmentNode) (tame : TameNode inSvg node)
    (element : node.isText = false) : PrintableNode propType (joinNode node) := by
  cases node with
  | text value segments => cases element
  | element name props children selfClosing =>
    obtain ⟨values, how, inner⟩ := tame
    have known : name ∈ allowedElements ∨ name ∈ svgTextElements := how.imp (·.1) (·.1)
    exact ⟨isTagName_of_tame known, printedAttributes_clean values, joinTexts_printable children inner⟩

/-- Joined, a tame tree loses nothing in print. -/
theorem joinTexts_printable {propType : PropTypeLookup} {inSvg : Bool} (nodes : List FragmentNode) (tame : Tame inSvg nodes) :
    Printable propType (joinTexts nodes) := by
  cases nodes with
  | nil => trivial
  | cons node nodes =>
    have others : Printable propType (joinTexts nodes) := joinTexts_printable nodes tame.2
    rw [joinTexts]
    refine apart_attachNode ?_ ?_ others
    · intro value segments equal
      have joined := joinNode_tame node tame.1
      rw [equal] at joined
      exact joined
    · intro element
      refine joinNode_printable node tame.1 ?_
      cases node with
      | text value segments => cases element
      | element name props children selfClosing => rfl

end

mutual

theorem rebuildable_node {inSvg : Bool} (node : FragmentNode) (tame : TameNode inSvg node) : RebuildableNode inSvg node := by
  cases node with
  | text value segments => trivial
  | element name props children selfClosing =>
    have notStyle : js "style" ∉ svgTextElements := by decide
    obtain ⟨-, how, inner⟩ := tame
    have known : name ∈ allowedElements ∨ name ∈ svgTextElements := how.imp (·.1) (·.1)
    refine ⟨(knownElement_units known).2.2, ?_, ?_, rebuildable_nodes children inner⟩
    · intro stripped
      rcases how with ⟨allowed, -⟩ | ⟨text, inside, -⟩
      · exact absurd stripped (allowedElement_disjoint name allowed).2.1
      · exact ⟨text, inside⟩
    · rcases how with ⟨-, -, style⟩ | ⟨text, -, -, -⟩
      · exact fun isStyle => styleless_of_texts (style isStyle)
      · rintro rfl
        exact absurd text notStyle

theorem rebuildable_nodes {inSvg : Bool} (nodes : List FragmentNode) (tame : Tame inSvg nodes) : Rebuildable inSvg nodes := by
  cases nodes with
  | nil => trivial
  | cons node nodes => exact ⟨rebuildable_node node tame.1, rebuildable_nodes nodes tame.2⟩

end

/-- The props read back from print are those of the tree, an empty text reading as a bare attribute. -/
theorem mem_reread_props {propType : PropTypeLookup} {name : JSString} {props : Props} {entry : JSString × PropValue}
    (sourced : ∀ entry ∈ props, SourcedValue entry.2)
    (member : entry ∈ attributesToProps (printedAttributes propType name props)) :
    ∃ old ∈ props, entry.1 = old.1 ∧ SourcedValue entry.2 ∧ (entry.2 = .bool true ∨ entry.2 = old.2) := by
  obtain ⟨attr, inside, rfl⟩ := mem_attributesToProps member
  obtain ⟨old, before, printed⟩ := List.mem_filterMap.mp inside
  have value := sourced old before
  obtain ⟨same, how⟩ := printedAttribute_sourced value printed
  refine ⟨old, before, same, ?_⟩
  unfold attributeProp
  split
  · exact ⟨.inl rfl, .inl rfl⟩
  · rename_i some
    rcases how with ⟨-, empty⟩ | text
    · exact absurd empty some
    · rw [text] at value
      exact ⟨value, .inr text.symm⟩

theorem QuietProp.reread {schemes : List JSString} {key : JSString} {value after : PropValue}
    (quiet : QuietProp schemes key value) (same : after = .bool true ∨ after = value) : QuietProp schemes key after := by
  rcases same with rfl | rfl
  · exact ⟨quiet.unreserved, quiet.valid, quiet.allowed, fun _ s impossible => by cases impossible⟩
  · exact quiet

theorem resolveHtml_allowed {name : JSString} (profile : FormatProfile) (inSvg : Bool) (allowed : name ∈ allowedElements) :
    resolveHtml name profile inSvg = some (.html name) := by
  have lower := (knownElement_units (.inl allowed)).2.2
  obtain ⟨notText, notStripped, notUnwrapped⟩ := allowedElement_disjoint name allowed
  simp [resolveHtml, lower, notText, notStripped, notUnwrapped, allowed]

theorem resolveHtml_svgText {name : JSString} (profile : FormatProfile) (text : name ∈ svgTextElements) :
    resolveHtml name profile true = some (.svgText name) := by
  have lower := (knownElement_units (.inr text)).2.2
  simp [resolveHtml, lower, text]

theorem collectSvgText_texts {owner path : JSString} {index : Nat} {nodes : List FragmentNode}
    (texts : ∀ node ∈ nodes, node.isText = true) : (collectSvgText owner path index nodes).2 = .empty := by
  induction nodes generalizing index with
  | nil => rfl
  | cons node nodes ih =>
    rw [List.forall_mem_cons] at texts
    cases node with
    | element name props children selfClosing => exact absurd texts.1 (by simp [FragmentNode.isText])
    | text value segments =>
      rw [collectSvgText, ih texts.2, svgTextOf]
      rfl

theorem styleChildren_isText (tokens : List Token) : ∀ child ∈ styleChildren tokens, child.isText = true := by
  unfold styleChildren
  simp only
  split
  · exact fun child impossible => absurd impossible List.not_mem_nil
  · exact List.forall_mem_singleton.mpr rfl

theorem rereadNodes_isText {propType : PropTypeLookup} {rest : List Token} {nodes : List FragmentNode}
    (texts : ∀ node ∈ nodes, node.isText = true) : ∀ node ∈ rereadNodes propType rest nodes, node.isText = true := by
  induction nodes with
  | nil => exact fun child impossible => absurd impossible List.not_mem_nil
  | cons node nodes ih =>
    rw [List.forall_mem_cons] at texts
    cases node with
    | element name props children selfClosing => exact absurd texts.1 (by simp [FragmentNode.isText])
    | text value segments =>
      rw [rereadNodes, rereadNode]
      exact List.forall_mem_cons.mpr ⟨rfl, ih texts.2⟩

mutual

theorem walkNode_reread {propType : PropTypeLookup} {ctx : WalkContext} (builtin : BuiltinWalk ctx) (inSvg : Bool)
    (path : JSString) (rest : List Token) (node : FragmentNode) (tame : TameNode inSvg node) :
    (walkNode ctx inSvg path .any (rereadNode propType rest node)).2 = .empty := by
  cases node with
  | text value segments => rw [rereadNode, walkNode_text builtin]
  | element name props children selfClosing =>
    obtain ⟨values, how, inner⟩ := tame
    obtain ⟨children', selfClosing', shape, contents⟩ : ∃ children' selfClosing',
        rereadNode propType rest (.element name props children selfClosing) =
          .element name (attributesToProps (printedAttributes propType name props)) children' selfClosing' ∧
        ((∀ child ∈ children', child.isText = true) ∨ ∃ rest, children' = rereadNodes propType rest children) := by
      unfold rereadNode
      simp only
      split
      · refine ⟨_, _, rfl, .inl ?_⟩
        split
        · exact styleChildren_isText _
        · exact fun child impossible => absurd impossible List.not_mem_nil
      · refine ⟨_, _, rfl, ?_⟩
        split
        · exact .inl (styleChildren_isText _)
        · exact .inr ⟨_, rfl⟩
    rw [shape]
    unfold walkNode
    rw [builtin.resolve]
    rcases how with ⟨allowed, quiet, -⟩ | ⟨text, rfl, quiet, texts⟩
    · rw [resolveHtml_allowed _ _ allowed]
      have kept : (collectProps (htmlProp ctx name path)
          (attributesToProps (printedAttributes propType name props))).2 = .empty := by
        refine collectProps_quiet fun entry member report dropped => ?_
        obtain ⟨old, before, same, sourced, value⟩ := mem_reread_props values member
        have again := (quiet old before).reread value
        rw [← same, ← builtin.schemes] at again
        exact again.quiet sourced dropped
      have walked : (walkNodes ctx (inSvg || name = js "svg") path .any 0 children').2 = .empty := by
        rcases contents with texts | ⟨rest', rfl⟩
        · rw [walkNodes_texts builtin texts]
        · exact walkNodes_reread builtin _ path 0 rest' children inner
      simp only [Option.getD_some, childAllowed, if_true, kept, walked]
      rfl
    · rw [resolveHtml_svgText _ text]
      have kept : (collectProps (svgTextProp name path)
          (attributesToProps (printedAttributes propType name props))).2 = .empty := by
        refine collectProps_quiet fun entry member report dropped => ?_
        obtain ⟨old, before, same, -, -⟩ := mem_reread_props values member
        have again := quiet old before
        rw [← same] at again
        rw [again.kept] at dropped
        cases dropped
      have collected : (collectSvgText name path 0 children').2 = .empty := by
        refine collectSvgText_texts ?_
        rcases contents with texts | ⟨rest', rfl⟩
        · exact texts
        · exact rereadNodes_isText texts
      simp only [Option.getD_some, childAllowed, if_true, sanitizeSvgTextNode, kept, collected, textNode_plain builtin]
      split
      · rfl
      · rfl

/-- Read back from print, a tame tree is walked without a report. -/
theorem walkNodes_reread {propType : PropTypeLookup} {ctx : WalkContext} (builtin : BuiltinWalk ctx) (inSvg : Bool)
    (path : JSString) (index : Nat) (rest : List Token) (nodes : List FragmentNode) (tame : Tame inSvg nodes) :
    (walkNodes ctx inSvg path .any index (rereadNodes propType rest nodes)).2 = .empty := by
  cases nodes with
  | nil => rfl
  | cons node nodes =>
    rw [rereadNodes, walkNodes]
    simp only [walkNode_reread builtin inSvg _ _ node tame.1, walkNodes_reread builtin inSvg path _ rest nodes tame.2]
    rfl

end

theorem builtinWalk_textHtml (html : JSString → JSString) : BuiltinWalk ⟨textHtml, false, false, html⟩ := ⟨rfl, rfl, rfl⟩

/-- Reading the printed form of a tame tree back and walking it again reports nothing. -/
theorem sanitizeHtmlString_printed {tree : FragmentTree} (tame : Tame false tree) :
    (sanitizeHtmlString (treeToHtml tree)).2 = .empty := by
  have joined := joinTexts_tame tree tame
  have same : treeToHtml tree = treeToHtmlWith (fun _ _ => none) (joinTexts tree) := (nodesToHtml_joinTexts tree).symm
  have printable : Printable (fun _ _ => none) (joinTexts tree) := joinTexts_printable tree tame
  have read := htmlToTree_printed printable (rebuildable_nodes _ joined)
  simp only [sanitizeHtmlString, sanitizeTreeWith, same, read]
  exact walkNodes_reread (builtinWalk_textHtml id) false [] 0 [] (joinTexts tree) joined

/-- Sanitizing the sanitizer's own output strips no element and no attribute and meets no unknown node. -/
theorem sanitizeHTML_stable (s : JSString) :
    (sanitizeHTMLDetailed (sanitizeHTML s)).2.strippedElements = [] ∧
    (sanitizeHTMLDetailed (sanitizeHTML s)).2.strippedAttributes = [] ∧
    ∀ d ∈ (sanitizeHTMLDetailed (sanitizeHTML s)).2.diagnostics, d.code ≠ .unknownNode := by
  have tame : Tame false (sanitizeTreeWith id (htmlToTree s (some textHtml)) textHtml ⟨false, false⟩).tree :=
    walkNodes_tame (builtinWalk_textHtml id) false [] 0 _ (htmlToTree_sourced s)
  have quiet : (sanitizeHTMLDetailed (sanitizeHTML s)).2 = .empty := sanitizeHtmlString_printed tame
  rw [quiet]
  exact ⟨rfl, rfl, fun d impossible => absurd impossible List.not_mem_nil⟩

end Xript
