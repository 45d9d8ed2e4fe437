import Xript.Fragment.Harmless
import Xript.Sanitize.Fragment

namespace Xript

/-- The `html` of a fragment's content: the bound tree in print, where its format has an HTML projection. -/
def boundHtml (profile : FormatProfile) (bound : FragmentTree) : JSString :=
  if projectsToHtml profile then treeToHtmlWith (propTypeLookup profile) bound else []

mutual

/-- A node without the interpolation sites of its texts. -/
def unsegmentNode : FragmentNode → FragmentNode
  | .text value _ => .text value none
  | .element name props children selfClosing => .element name props (unsegment children) selfClosing

def unsegment : List FragmentNode → List FragmentNode
  | [] => []
  | node :: nodes => unsegmentNode node :: unsegment nodes

end

mutual

/-- A node as it prints: only one without children closes itself. -/
def unhintNode : FragmentNode → FragmentNode
  | .text value segments => .text value segments
  | .element name props children selfClosing =>
    .element name props (unhint children) (selfClosing && children.isEmpty)

def unhint : List FragmentNode → List FragmentNode
  | [] => []
  | node :: nodes => unhintNode node :: unhint nodes

end

/-- The props of an element that print: each once, under a valid name, bare or with a text. -/
structure PrintingProps (props : Props) : Prop where
  distinct : (Record.keys props).Nodup
  valid : ∀ entry ∈ props, isValidAttributeName entry.1 = true
  plain : ∀ entry ∈ props, entry.2 = .bool true ∨ ∃ s, entry.2 = .str s

mutual

/-- A node of the built-in vocabulary, a `style` apart, that binding keeps one. -/
def BindableNode (inSvg : Bool) : FragmentNode → Prop
  | .text _ _ => True
  | .element name props children selfClosing =>
    PrintingProps props ∧
      (name ∈ allowedElements ∧ (∀ entry ∈ props, QuietProp defaultUriSchemes entry.1 entry.2) ∧ name ≠ js "style" ∨
        name ∈ svgTextElements ∧ inSvg = true ∧ (∀ entry ∈ props, QuietSvgProp entry.1) ∧
          ∀ child ∈ children, child.isText = true) ∧
      (name ∈ voidElements → children = [] ∧ selfClosing = false) ∧
      Bindable (inSvg || name = js "svg") children

def Bindable (inSvg : Bool) : List FragmentNode → Prop
  | [] => True
  | node :: nodes => BindableNode inSvg node ∧ Bindable inSvg nodes

end

theorem Bindable.append {inSvg : Bool} {s t : List FragmentNode} (first : Bindable inSvg s) (second : Bindable inSvg t) :
    Bindable inSvg (s ++ t) := by
  induction s with
  | nil => exact second
  | cons node s ih => exact ⟨first.1, ih first.2⟩

mutual

/-- No text of the node holds a NUL, and no prop that is a text. -/
def UnnulledNode : FragmentNode → Prop
  | .text value _ => 0 ∉ value
  | .element _ props children _ => (∀ entry ∈ props, ∀ s, entry.2 = .str s → 0 ∉ s) ∧ Unnulled children

def Unnulled : List FragmentNode → Prop
  | [] => True
  | node :: nodes => UnnulledNode node ∧ Unnulled nodes

end

theorem isText_unsegmentNode (node : FragmentNode) : (unsegmentNode node).isText = node.isText := by
  cases node <;> rfl

theorem unsegment_eq_map (nodes : List FragmentNode) : unsegment nodes = nodes.map unsegmentNode := by
  induction nodes with
  | nil => rfl
  | cons node nodes ih => rw [unsegment, ih, List.map_cons]

theorem unhint_eq_map (nodes : List FragmentNode) : unhint nodes = nodes.map unhintNode := by
  induction nodes with
  | nil => rfl
  | cons node nodes ih => rw [unhint, ih, List.map_cons]

theorem textNode_unsegmented (ctx : WalkContext) (value : JSString) (segments : Option (List TextSegment)) (path : JSString) :
    unsegmentNode (textNode ctx value segments path).1 = .text value none := by
  unfold textNode segmentTextNode
  split_ifs
  · simp only
    split <;> rfl
  · rfl
  · rfl

/-- The walk of a profile with interpolation off. -/
def plainWalk (ctx : WalkContext) : WalkContext := { ctx with interpolate := false }

mutual

/-- Interpolation changes nothing in what a walk leaves but the sites of its texts. -/
theorem walkNode_unsegment (ctx : WalkContext) (inSvg : Bool) (path : JSString) (constraint : ChildrenConstraint)
    (node : FragmentNode) (plain : UnsegmentedNode node) :
    unsegment (walkNode ctx inSvg path constraint node).1 = (walkNode (plainWalk ctx) inSvg path constraint node).1 := by
  cases node with
  | text value segments =>
    obtain rfl : segments = none := plain
    rw [walkNode, walkNode]
    split
    · rw [unsegment, textNode_unsegmented]
      rfl
    · split <;> rfl
  | element name props children selfClosing =>
    rw [walkNode, walkNode]
    have same : (plainWalk ctx).profile = ctx.profile := rfl
    rw [same]
    cases resolved : resolveNode name ctx.profile inSvg with
    | unknown =>
      have severity : vocabularySeverity (plainWalk ctx) = vocabularySeverity ctx := rfl
      simp only [severity]
      split
      · exact walkNodes_unsegment ctx inSvg path constraint 0 children plain
      · rfl
    | stripped tag => rfl
    | unwrap => exact walkNodes_unsegment ctx inSvg path constraint 0 children plain
    | svgText tag =>
      dsimp only
      split
      · simp only [sanitizeSvgTextNode]
        split
        · rfl
        · simp only [unsegment, unsegmentNode, textNode_unsegmented]
          rfl
      · rfl
    | html tag =>
      dsimp only
      split
      · simp only [unsegment, unsegmentNode]
        rw [walkNodes_unsegment ctx (inSvg || tag = js "svg") path .any 0 children plain]
        rfl
      · rfl
    | declared definition =>
      dsimp only
      split
      · simp only [unsegment, unsegmentNode]
        rw [walkNodes_unsegment ctx inSvg path (definition.children.getD .any) 0 children plain]
        rfl
      · rfl

theorem walkNodes_unsegment (ctx : WalkContext) (inSvg : Bool) (path : JSString) (constraint : ChildrenConstraint)
    (index : Nat) (nodes : List FragmentNode) (plain : Unsegmented nodes) :
    unsegment (walkNodes ctx inSvg path constraint index nodes).1 =
      (walkNodes (plainWalk ctx) inSvg path constraint index nodes).1 := by
  cases nodes with
  | nil => rfl
  | cons node nodes =>
    rw [walkNodes, walkNodes, unsegment_eq_map, List.map_append, ← unsegment_eq_map, ← unsegment_eq_map,
      walkNode_unsegment ctx inSvg (childPath path index) constraint node plain.1,
      walkNodes_unsegment ctx inSvg path constraint (index + 1) nodes plain.2]

end

mutual

theorem bindableNode_of_unsegment {inSvg : Bool} (node : FragmentNode) (bindable : BindableNode inSvg (unsegmentNode node)) :
    BindableNode inSvg node := by
  cases node with
  | text value segments => trivial
  | element name props children selfClosing =>
    obtain ⟨prints, how, void, inner⟩ := bindable
    refine ⟨prints, how.imp_right fun svg => ⟨svg.1, svg.2.1, svg.2.2.1, fun child member => ?_⟩, fun isVoid => ?_,
      bindable_of_unsegment children inner⟩
    · rw [← isText_unsegmentNode]
      exact svg.2.2.2 _ (by rw [unsegment_eq_map]; exact List.mem_map_of_mem member)
    · obtain ⟨empty, unhinted⟩ := void isVoid
      rw [unsegment_eq_map, List.map_eq_nil_iff] at empty
      exact ⟨empty, unhinted⟩

theorem bindable_of_unsegment {inSvg : Bool} (nodes : List FragmentNode) (bindable : Bindable inSvg (unsegment nodes)) :
    Bindable inSvg nodes := by
  cases nodes with
  | nil => trivial
  | cons node nodes => exact ⟨bindableNode_of_unsegment node bindable.1, bindable_of_unsegment nodes bindable.2⟩

end

mutual

theorem bindableNode_of_tame {inSvg : Bool} (node : FragmentNode) (tame : TameNode inSvg node) (readable : ReadableNode node)
    (styleless : StylelessNode node) : BindableNode inSvg node := by
  cases node with
  | text value segments => trivial
  | element name props children selfClosing =>
    obtain ⟨sourced, how, inner⟩ := tame
    obtain ⟨⟨distinct, valid⟩, void, -, readableInner⟩ := readable
    obtain ⟨style, stylelessInner⟩ := styleless
    have lower : toLowerCase name = name := (knownElement_units (how.imp (·.1) (·.1))).2.2
    rw [lower] at style
    refine ⟨⟨distinct, valid, fun entry member => (sourced entry member).imp_right fun text => ⟨text.choose, text.choose_spec.1⟩⟩,
      how.imp_left fun html => ⟨html.1, html.2.1, style⟩, void, bindable_of_tame children inner readableInner stylelessInner⟩

theorem bindable_of_tame {inSvg : Bool} (nodes : List FragmentNode) (tame : Tame inSvg nodes) (readable : Readable nodes)
    (styleless : Styleless nodes) : Bindable inSvg nodes := by
  cases nodes with
  | nil => trivial
  | cons node nodes =>
    exact ⟨bindableNode_of_tame node tame.1 readable.1 styleless.1, bindable_of_tame nodes tame.2 readable.2 styleless.2⟩

end

theorem bindable_iff_forall {inSvg : Bool} (nodes : List FragmentNode) :
    Bindable inSvg nodes ↔ ∀ node ∈ nodes, BindableNode inSvg node := by
  induction nodes with
  | nil => exact ⟨fun _ node none => absurd none List.not_mem_nil, fun _ => trivial⟩
  | cons node nodes ih => rw [Bindable, List.forall_mem_cons, ih]

theorem unsegmented_iff_forall (nodes : List FragmentNode) : Unsegmented nodes ↔ ∀ node ∈ nodes, UnsegmentedNode node := by
  induction nodes with
  | nil => exact ⟨fun _ node none => absurd none List.not_mem_nil, fun _ => trivial⟩
  | cons node nodes ih => rw [Unsegmented, List.forall_mem_cons, ih]

theorem nodeDefinition_textHtml (name : JSString) : nodeDefinition textHtml name = none := rfl

theorem bindTarget_textHtml (name : JSString) :
    bindTarget textHtml name = if name ∈ voidElements then js "value" else js "children" := by
  rw [bindTarget, nodeDefinition_textHtml, isVoidNode, nodeDefinition_textHtml]
  simp

theorem routeValue_textHtml (name text : JSString) :
    routePropValueDetailed textHtml name (js "value") (.str text) = .accepted (.str text) := by
  have speaks : speaksHtml textHtml = true := by decide +kernel
  have allowed : isAllowedAttribute (toLowerCase (js "value")) = true := by decide +kernel
  have unlinked : ¬(toLowerCase (js "value") = js "href" ∨ toLowerCase (js "value") = js "src") := by decide +kernel
  have unstyled : toLowerCase (js "value") ≠ js "style" := by decide +kernel
  simp only [routePropValueDetailed, nodeDefinition_textHtml, speaks, allowed, unlinked, unstyled, Bool.not_true,
    Bool.false_eq_true, if_false]

theorem quietValue (text : JSString) : QuietProp defaultUriSchemes (js "value") (.str text) := by
  have unlinked : ¬(toLowerCase (js "value") = js "href" ∨ toLowerCase (js "value") = js "src") := by decide +kernel
  exact ⟨by decide +kernel, by decide +kernel, by decide +kernel, fun link => absurd link unlinked⟩

theorem PrintingProps.assign {props : Props} (prints : PrintingProps props) (text : JSString) :
    PrintingProps (Record.assign props (js "value") (.str text)) := by
  have valid : isValidAttributeName (js "value") = true := by decide +kernel
  refine ⟨Record.nodup_keys_assign prints.distinct _ _, fun entry member => ?_, fun entry member => ?_⟩
  · rcases Record.mem_assign member with rfl | before
    · exact valid
    · exact prints.valid entry before
  · rcases Record.mem_assign member with rfl | before
    · exact .inr ⟨text, rfl⟩
    · exact prints.plain entry before

/-- The bind pass makes bindable nodes of bindable ones, and resolves every site. -/
theorem bindMakes_bindable :
    BindMakes textHtml (fun inSvg name => inSvg || name = js "svg") BindableNode fun inSvg node =>
      BindableNode inSvg node ∧ UnsegmentedNode node where
  text inSvg value segments _ bindings := by
    unfold bindText
    split
    · exact ⟨trivial, rfl⟩
    · exact ⟨trivial, rfl⟩
  child inSvg name props children selfClosing bindable := (bindable_iff_forall children).mp bindable.2.2.2
  copy inSvg name props children selfClosing bindable := by
    obtain ⟨prints, how, void, inner⟩ := bindable
    have fewer : ∀ entry ∈ copyProps props, entry ∈ props := fun entry member => (List.mem_filter.mp member).1
    refine ⟨⟨prints.distinct.sublist (List.filter_sublist.map Prod.fst), fun entry member => prints.valid entry
      (fewer entry member), fun entry member => prints.plain entry (fewer entry member)⟩, ?_, void, inner⟩
    exact how.imp (fun html => ⟨html.1, fun entry member => html.2.1 entry (fewer entry member), html.2.2⟩)
      fun svg => ⟨svg.1, svg.2.1, fun entry member => svg.2.2.1 entry (fewer entry member), svg.2.2.2⟩
  bind inSvg name props children selfClosing bindable kids made kinds bindings path st := by
    obtain ⟨prints, how, void, -⟩ := bindable
    have inner : Bindable (inSvg || name = js "svg") kids := (bindable_iff_forall kids).mpr fun kid member => (made kid member).1
    have resolved : Unsegmented kids := (unsegmented_iff_forall kids).mpr fun kid member => (made kid member).2
    have closes : name ∈ voidElements → kids = [] ∧ selfClosing = false := by
      intro isVoid
      obtain ⟨rfl, unhinted⟩ := void isVoid
      refine ⟨List.eq_nil_iff_forall_not_mem.mpr fun kid member => ?_, unhinted⟩
      obtain ⟨child, impossible, -⟩ := kinds kid member
      exact absurd impossible List.not_mem_nil
    have texts : (∀ child ∈ children, child.isText = true) → ∀ kid ∈ kids, kid.isText = true := by
      intro all kid member
      obtain ⟨child, inside, same⟩ := kinds kid member
      exact kind_isText same ▸ all child inside
    have same : BindableNode inSvg (.element name props kids selfClosing) ∧
        UnsegmentedNode (.element name props kids selfClosing) :=
      ⟨⟨prints, how.imp_right fun svg => ⟨svg.1, svg.2.1, svg.2.2.1, texts svg.2.2.2⟩, closes, inner⟩, resolved⟩
    unfold writeBinding
    split
    · exact same
    · rename_i written _
      dsimp only
      rw [bindTarget_textHtml]
      by_cases isVoid : name ∈ voidElements
      · have other : js "value" ≠ js "children" := by decide +kernel
        simp only [if_pos isVoid, if_neg other, routeValue_textHtml]
        refine ⟨⟨prints.assign written, ?_, closes, inner⟩, resolved⟩
        rcases how with ⟨allowed, quiet, style⟩ | ⟨text, -⟩
        · refine .inl ⟨allowed, fun entry member => ?_, style⟩
          rcases Record.mem_assign member with rfl | before
          · exact quietValue written
          · exact quiet entry before
        · have apart : ∀ name ∈ svgTextElements, name ∉ voidElements := by decide +kernel
          exact absurd isVoid (apart name text)
      · simp only [if_neg isVoid, if_true]
        refine ⟨⟨prints, how.imp_right fun svg => ⟨svg.1, svg.2.1, svg.2.2.1, ?_⟩, fun impossible => absurd impossible isVoid,
          trivial, trivial⟩, rfl, trivial⟩
        exact List.forall_mem_singleton.mpr rfl

theorem isText_unhintNode (node : FragmentNode) : (unhintNode node).isText = node.isText := by
  cases node <;> rfl

mutual

theorem tameNode_unhint {inSvg : Bool} (node : FragmentNode) (bindable : BindableNode inSvg node)
    (unnulled : UnnulledNode node) : TameNode inSvg (unhintNode node) := by
  cases node with
  | text value segments => exact unnulled
  | element name props children selfClosing =>
    obtain ⟨prints, how, -, inner⟩ := bindable
    obtain ⟨clean, cleanInner⟩ := unnulled
    refine ⟨fun entry member => (prints.plain entry member).imp_right fun text => ?_, how.imp ?_ ?_,
      tame_unhint children inner cleanInner⟩
    · exact ⟨text.choose, text.choose_spec, clean entry member _ text.choose_spec⟩
    · exact fun html => ⟨html.1, html.2.1, fun style => absurd style html.2.2⟩
    · refine fun svg => ⟨svg.1, svg.2.1, svg.2.2.1, ?_⟩
      rw [unhint_eq_map, List.forall_mem_map]
      exact fun child member => (isText_unhintNode child).trans (svg.2.2.2 child member)

theorem tame_unhint {inSvg : Bool} (nodes : List FragmentNode) (bindable : Bindable inSvg nodes)
    (unnulled : Unnulled nodes) : Tame inSvg (unhint nodes) := by
  cases nodes with
  | nil => trivial
  | cons node nodes =>
    exact ⟨tameNode_unhint node bindable.1 unnulled.1, tame_unhint nodes bindable.2 unnulled.2⟩

end

mutual

theorem readableNode_unhint {inSvg : Bool} (node : FragmentNode) (bindable : BindableNode inSvg node)
    (resolved : UnsegmentedNode node) : ReadableNode (unhintNode node) := by
  cases node with
  | text value segments => exact resolved
  | element name props children selfClosing =>
    obtain ⟨prints, -, void, inner⟩ := bindable
    refine ⟨⟨prints.distinct, prints.valid⟩, fun isVoid => ?_, fun closes _ => ?_, readable_unhint children inner resolved⟩
    · obtain ⟨rfl, rfl⟩ := void isVoid
      exact ⟨rfl, rfl⟩
    · rw [Bool.and_eq_true, List.isEmpty_iff] at closes
      rw [closes.2]
      rfl

theorem readable_unhint {inSvg : Bool} (nodes : List FragmentNode) (bindable : Bindable inSvg nodes)
    (resolved : Unsegmented nodes) : Readable (unhint nodes) := by
  cases nodes with
  | nil => trivial
  | cons node nodes =>
    exact ⟨readableNode_unhint node bindable.1 resolved.1, readable_unhint nodes bindable.2 resolved.2⟩

end

mutual

theorem stylelessNode_unhint {inSvg : Bool} (node : FragmentNode) (bindable : BindableNode inSvg node) :
    StylelessNode (unhintNode node) := by
  cases node with
  | text value segments => trivial
  | element name props children selfClosing =>
    obtain ⟨-, how, -, inner⟩ := bindable
    have lower : toLowerCase name = name := (knownElement_units (how.imp (·.1) (·.1))).2.2
    refine ⟨?_, styleless_unhint children inner⟩
    rw [lower]
    rcases how with ⟨-, -, other⟩ | ⟨text, -⟩
    · exact other
    · have apart : ∀ name ∈ svgTextElements, name ≠ js "style" := by decide +kernel
      exact apart name text

theorem styleless_unhint {inSvg : Bool} (nodes : List FragmentNode) (bindable : Bindable inSvg nodes) :
    Styleless (unhint nodes) := by
  cases nodes with
  | nil => trivial
  | cons node nodes => exact ⟨stylelessNode_unhint node bindable.1, styleless_unhint nodes bindable.2⟩

end

section

variable {propType : PropTypeLookup}

mutual

/-- Only an element without children prints its closing hint. -/
theorem nodeToHtml_unhint (node : FragmentNode) : nodeToHtml propType (unhintNode node) = nodeToHtml propType node := by
  cases node with
  | text value segments => rfl
  | element name props children selfClosing =>
    have empty : (unhint children).isEmpty = children.isEmpty := by cases children <;> rfl
    have closed : printsClosed name (unhint children) (selfClosing && children.isEmpty) =
        printsClosed name children selfClosing := by
      unfold printsClosed
      simp only [empty, Bool.and_eq_true, and_assoc, and_self]
    rw [unhintNode, nodeToHtml_element, nodeToHtml_element, closed, nodesToHtml_unhint children]

theorem nodesToHtml_unhint (nodes : List FragmentNode) :
    nodesToHtml propType (unhint nodes) = nodesToHtml propType nodes := by
  cases nodes with
  | nil => rfl
  | cons node nodes => rw [unhint, nodesToHtml, nodesToHtml, nodeToHtml_unhint node, nodesToHtml_unhint nodes]

end

end

/-- What is read of a tree's print is its own read-back form. -/
theorem htmlToTree_tame (tree : FragmentTree) (tame : Tame false tree) (readable : Readable tree)
    (styleless : Styleless tree) : htmlToTree (treeToHtml tree) (some textHtml) = readBackNodes tree := by
  have printable : Printable (fun _ _ => none) (joinTexts tree) := joinTexts_printable tree tame
  have same : treeToHtml tree = treeToHtmlWith (fun _ _ => none) (joinTexts tree) := (nodesToHtml_joinTexts tree).symm
  rw [same, htmlToTree_printed printable (rebuildable_nodes _ (joinTexts_tame tree tame))]
  exact rereadNodes_joinTexts false tree [] tame readable styleless

/-- A text that is joined to the next is free of NUL where the joined one is. -/
theorem unnulled_of_attachNode {node : FragmentNode} {nodes : List FragmentNode} (clean : Unnulled (attachNode node nodes)) :
    UnnulledNode node ∧ Unnulled nodes := by
  unfold attachNode at clean
  split at clean
  · obtain ⟨both, rest⟩ := clean
    rw [UnnulledNode, List.mem_append, not_or] at both
    exact ⟨both.1, both.2, rest⟩
  · split at clean
    · rename_i empty
      subst empty
      exact ⟨List.not_mem_nil, clean⟩
    · exact clean
  · exact clean

mutual

theorem unnulledNode_of_sourced (node : FragmentNode) (sourced : SourcedNode node) : UnnulledNode node := by
  cases node with
  | text value segments => exact sourced
  | element name props children selfClosing =>
    refine ⟨fun entry member s text => ?_, unnulled_of_sourced children sourced.2.2⟩
    rcases sourced.1 entry member with bare | ⟨t, same, clean⟩
    · rw [bare] at text
      cases text
    · rw [text] at same
      cases same
      exact clean

theorem unnulled_of_sourced (nodes : List FragmentNode) (sourced : Sourced nodes) : Unnulled nodes := by
  cases nodes with
  | nil => trivial
  | cons node nodes => exact ⟨unnulledNode_of_sourced node sourced.1, unnulled_of_sourced nodes sourced.2⟩

end

mutual

theorem unnulledNode_unhint (node : FragmentNode) : UnnulledNode (unhintNode node) ↔ UnnulledNode node := by
  cases node with
  | text value segments => rfl
  | element name props children selfClosing => rw [unhintNode, UnnulledNode, UnnulledNode, unnulled_unhint children]

theorem unnulled_unhint (nodes : List FragmentNode) : Unnulled (unhint nodes) ↔ Unnulled nodes := by
  cases nodes with
  | nil => rfl
  | cons node nodes => rw [unhint, Unnulled, Unnulled, unnulledNode_unhint node, unnulled_unhint nodes]

end

mutual

theorem unnulledNode_of_readBack (node : FragmentNode) (clean : UnnulledNode (readBackNode node)) : UnnulledNode node := by
  cases node with
  | text value segments => exact clean
  | element name props children selfClosing =>
    refine ⟨fun entry member s text => ?_, unnulled_of_readBack children clean.2⟩
    cases s with
    | nil => exact List.not_mem_nil
    | cons c s =>
      refine clean.1 _ (List.mem_map_of_mem member) (c :: s) ?_
      rw [readProp, text]
      exact text

theorem unnulled_of_readBack (nodes : List FragmentNode) (clean : Unnulled (readBackNodes nodes)) : Unnulled nodes := by
  cases nodes with
  | nil => trivial
  | cons node nodes =>
    obtain ⟨first, rest⟩ := unnulled_of_attachNode clean
    exact ⟨unnulledNode_of_readBack node first, unnulled_of_readBack nodes rest⟩

end

mutual

theorem stylelessNode_unsegment (node : FragmentNode) (styleless : StylelessNode node) :
    StylelessNode (unsegmentNode node) := by
  cases node with
  | text value segments => trivial
  | element name props children selfClosing => exact ⟨styleless.1, styleless_unsegment children styleless.2⟩

theorem styleless_unsegment (nodes : List FragmentNode) (styleless : Styleless nodes) : Styleless (unsegment nodes) := by
  cases nodes with
  | nil => trivial
  | cons node nodes => exact ⟨stylelessNode_unsegment node styleless.1, styleless_unsegment nodes styleless.2⟩

end

/-- The sanitizer leaves bindable nodes of every source, whether or not it looks for interpolation sites. -/
theorem sanitizeTree_bindable (s : JSString) (options : VocabularyOptions)
    (styleless : Styleless (sanitizeTree (htmlToTree s (some textHtml)) textHtml options).tree) :
    Bindable false (sanitizeTree (htmlToTree s (some textHtml)) textHtml options).tree := by
  let ctx : WalkContext := ⟨textHtml, options.strictVocabulary, options.interpolate, sanitizeHTML⟩
  have builtin : BuiltinWalk (plainWalk ctx) := ⟨rfl, rfl, rfl⟩
  have same : unsegment (sanitizeTree (htmlToTree s (some textHtml)) textHtml options).tree =
      (walkNodes (plainWalk ctx) false [] .any 0 (htmlToTree s (some textHtml))).1 :=
    walkNodes_unsegment ctx false [] .any 0 _ (Shaped.unsegmented _ (htmlToTree_shaped s _))
  apply bindable_of_unsegment
  have plain := styleless_unsegment _ styleless
  rw [same] at plain ⊢
  exact bindable_of_tame _ (walkNodes_tame builtin false [] 0 _ (htmlToTree_sourced s))
    (walkNodes_readable builtin false [] 0 _ (htmlToTree_shaped s _)) plain

theorem boundHtml_textHtml (bound : FragmentTree) : boundHtml textHtml bound = treeToHtml bound := by
  have projects : projectsToHtml textHtml = true := rfl
  have untyped : propTypeLookup textHtml = fun _ _ => none := rfl
  rw [boundHtml, if_pos projects, untyped]
  rfl

end Xript
