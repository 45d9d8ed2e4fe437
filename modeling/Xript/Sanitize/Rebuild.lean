import Xript.Sanitize.Html
import Xript.Sanitize.Print

namespace Xript

theorem mem_addAttribute {props : Props} {attr : Attribute} {entry : JSString × PropValue}
    (member : entry ∈ addAttribute props attr) : entry ∈ props ∨ entry = attributeProp attr := by
  unfold addAttribute at member
  split at member
  · exact .inl member
  · exact (Record.mem_set member).symm

theorem mem_attributesToProps {attributes : List Attribute} {entry : JSString × PropValue}
    (member : entry ∈ attributesToProps attributes) : ∃ attr ∈ attributes, entry = attributeProp attr := by
  have loop : ∀ (attributes : List Attribute) (props : Props), entry ∈ attributes.foldl addAttribute props →
      entry ∈ props ∨ ∃ attr ∈ attributes, entry = attributeProp attr := by
    intro attributes
    induction attributes with
    | nil => exact fun _ inside => .inl inside
    | cons attr attributes ih =>
      intro props inside
      rcases ih _ inside with earlier | ⟨other, later, equal⟩
      · rcases mem_addAttribute earlier with old | new
        · exact .inl old
        · exact .inr ⟨attr, List.mem_cons_self .., new⟩
      · exact .inr ⟨other, List.mem_cons_of_mem _ later, equal⟩
  rcases loop attributes [] member with impossible | found
  · cases impossible
  · exact found

namespace TreeBuilder

/-- Appends children to the innermost open element. -/
def pushAll (b : TreeBuilder) (nodes : List FragmentNode) : TreeBuilder := nodes.foldl push b

theorem push_skipUntil (b : TreeBuilder) (node : FragmentNode) : (b.push node).skipUntil = b.skipUntil := by
  unfold push
  split <;> rfl

theorem push_names (b : TreeBuilder) (node : FragmentNode) :
    (b.push node).stack.map Frame.name = b.stack.map Frame.name ∧ (b.push node).root.name = b.root.name := by
  unfold push
  split
  · rename_i empty
    rw [empty]
    exact ⟨rfl, rfl⟩
  · rename_i frame stack some
    rw [some]
    exact ⟨rfl, rfl⟩

theorem push_insideSvg (b : TreeBuilder) (node : FragmentNode) : (b.push node).insideSvg = b.insideSvg := by
  obtain ⟨stack, root⟩ := push_names b node
  have any (frames : List Frame) :
      (frames.any fun frame => toLowerCase frame.name = js "svg") =
        (frames.map Frame.name).any fun name => toLowerCase name = js "svg" := by
    rw [List.any_map]
    rfl
  simp only [insideSvg, any, List.map_append, stack, List.map_cons, List.map_nil, root]

theorem pushAll_frame (b : TreeBuilder) (frame : Frame) (nodes : List FragmentNode) :
    { b with stack := frame :: b.stack }.pushAll nodes =
      { b with stack := { frame with children := frame.children ++ nodes } :: b.stack } := by
  induction nodes generalizing frame with
  | nil => simp [pushAll]
  | cons node nodes ih =>
    have next := ih (frame.push node)
    rw [pushAll, List.foldl_cons]
    simp only [push]
    rw [← pushAll, next]
    simp [Frame.push]

theorem pushAll_root (b : TreeBuilder) (empty : b.stack = []) (nodes : List FragmentNode) :
    (b.pushAll nodes).stack = [] ∧ (b.pushAll nodes).root.children = b.root.children ++ nodes := by
  induction nodes generalizing b with
  | nil => simp [pushAll, empty]
  | cons node nodes ih =>
    have pushed : b.push node = { b with root := b.root.push node } := by
      simp only [push, empty]
    obtain ⟨stack, root⟩ := ih (b.push node) (by rw [pushed]; exact empty)
    refine ⟨stack, ?_⟩
    rw [pushAll, List.foldl_cons, ← pushAll, root, pushed]
    simp [Frame.push]

/-- The end tag of the innermost open element closes it. -/
theorem closeElement_top (b : TreeBuilder) (frame : Frame) (stack : List Frame) (top : b.stack = frame :: stack) :
    b.closeElement (toLowerCase frame.name) = { b with stack := stack }.push frame.close := by
  have found : b.stack.findIdx? (fun other => toLowerCase other.name = toLowerCase frame.name) = some 0 := by
    rw [top, List.findIdx?_cons]
    simp
  rw [closeElement, found]
  simp only [popMany, pop, top]

theorem resume_idle {b : TreeBuilder} (idle : b.skipUntil = none) : { b with skipUntil := none } = b := by
  rw [← idle]

end TreeBuilder

mutual

/-- The node that a printed node is read back as, before the tokens `rest`. -/
def rereadNode (propType : PropTypeLookup) (rest : List Token) : FragmentNode → FragmentNode
  | .text value _ => .text value none
  | .element name props children selfClosing =>
    let props := attributesToProps (printedAttributes propType name props)
    if printsClosed name children selfClosing then
      .element name props (if name = js "style" then styleChildren rest else []) (name ∉ voidElements)
    else
      let rest := .closeTag name name :: rest
      .element name props
        (if name = js "style" then styleChildren (nodesTokens propType children ++ rest)
          else rereadNodes propType rest children) false

def rereadNodes (propType : PropTypeLookup) (rest : List Token) : List FragmentNode → List FragmentNode
  | [] => []
  | node :: nodes => rereadNode propType (nodesTokens propType nodes ++ rest) node :: rereadNodes propType rest nodes

end

mutual

/-- No `style` stands in the node. -/
def StylelessNode : FragmentNode → Prop
  | .text _ _ => True
  | .element name _ children _ => toLowerCase name ≠ js "style" ∧ Styleless children

def Styleless : List FragmentNode → Prop
  | [] => True
  | node :: nodes => StylelessNode node ∧ Styleless nodes

end

mutual

/-- The trees that the builder rebuilds from their tokens: names in lower case, no stripped element
but a `title` inside an `svg`, and no `style` inside a `style`. -/
def RebuildableNode (inSvg : Bool) : FragmentNode → Prop
  | .text _ _ => True
  | .element name _ children _ =>
    toLowerCase name = name ∧ (name ∈ strippedElements → name ∈ svgTextElements ∧ inSvg = true) ∧
      (name = js "style" → Styleless children) ∧ Rebuildable (inSvg || name = js "svg") children

def Rebuildable (inSvg : Bool) : List FragmentNode → Prop
  | [] => True
  | node :: nodes => RebuildableNode inSvg node ∧ Rebuildable inSvg nodes

end

theorem htmlRulesApply_textHtml (name : JSString) : htmlRulesApply (some textHtml) name = true := rfl

theorem styleless_of_texts {nodes : List FragmentNode} (texts : ∀ node ∈ nodes, node.isText = true) : Styleless nodes := by
  induction nodes with
  | nil => trivial
  | cons node nodes ih =>
    rw [List.forall_mem_cons] at texts
    cases node with
    | text value segments => exact ⟨trivial, ih texts.2⟩
    | element name props children selfClosing => exact absurd texts.1 (by simp [FragmentNode.isText])

section Skip

variable {propType : PropTypeLookup} {b : TreeBuilder}

theorem buildTree_skip_token (skipping : b.skipUntil = some (js "style", true)) {token : Token}
    (inside : ∀ rawTag, token ≠ .closeTag (js "style") rawTag) (rest : List Token) :
    buildTree (some textHtml) b (token :: rest) = buildTree (some textHtml) b rest := by
  rw [buildTree]
  congr 1
  unfold buildToken
  rw [skipping]
  cases token with
  | text value => rfl
  | comment value => rfl
  | openTag tag rawTag attributes selfClosing => rfl
  | closeTag tag rawTag =>
    have other : tag ≠ js "style" := by
      rintro rfl
      exact inside rawTag rfl
    simp [other, TreeBuilder.ancestorCloses]

mutual

theorem buildTree_skip_node (skipping : b.skipUntil = some (js "style", true)) (node : FragmentNode)
    (styleless : StylelessNode node) (rest : List Token) :
    buildTree (some textHtml) b (nodeTokens propType node ++ rest) = buildTree (some textHtml) b rest := by
  cases node with
  | text value segments => exact buildTree_skip_token skipping (fun rawTag impossible => by cases impossible) rest
  | element name props children selfClosing =>
    obtain ⟨other, inner⟩ := styleless
    unfold nodeTokens
    simp only
    split
    · exact buildTree_skip_token skipping (fun rawTag impossible => by cases impossible) rest
    · rw [List.cons_append, buildTree_skip_token skipping (fun rawTag impossible => by cases impossible),
        List.append_assoc, buildTree_skip_nodes skipping children inner, List.singleton_append,
        buildTree_skip_token skipping]
      intro rawTag equal
      exact other (Token.closeTag.inj equal).1

/-- Inside a `style`, everything up to its end tag is skipped. -/
theorem buildTree_skip_nodes (skipping : b.skipUntil = some (js "style", true)) (nodes : List FragmentNode)
    (styleless : Styleless nodes) (rest : List Token) :
    buildTree (some textHtml) b (nodesTokens propType nodes ++ rest) = buildTree (some textHtml) b rest := by
  cases nodes with
  | nil => rfl
  | cons node nodes =>
    rw [nodesTokens, List.append_assoc, buildTree_skip_node skipping node styleless.1,
      buildTree_skip_nodes skipping nodes styleless.2]

end

end Skip

theorem isRawText_style (b : TreeBuilder) : isRawText (some textHtml) b (js "style") (js "style") = true := by
  have plain : js "style" ∉ svgTextElements := by decide
  simp [isRawText, htmlRulesApply_textHtml, plain]

theorem isRawText_other {b : TreeBuilder} {inSvg : Bool} {name : JSString} (style : name ≠ js "style")
    (stripped : name ∈ strippedElements → name ∈ svgTextElements ∧ inSvg = true)
    (svg : inSvg = true → b.insideSvg = true) : isRawText (some textHtml) b name name = false := by
  by_cases member : name ∈ strippedElements
  · obtain ⟨text, inside⟩ := stripped member
    simp [isRawText, text, svg inside]
  · simp [isRawText, style, member]

variable {propType : PropTypeLookup}

mutual

theorem buildTree_node (node : FragmentNode) (rest : List Token) (b : TreeBuilder) (inSvg : Bool)
    (idle : b.skipUntil = none) (svg : inSvg = true → b.insideSvg = true) (ok : RebuildableNode inSvg node) :
    buildTree (some textHtml) b (nodeTokens propType node ++ rest) =
      buildTree (some textHtml) (b.push (rereadNode propType rest node)) rest := by
  cases node with
  | text value segments =>
    have pushed : buildToken (some textHtml) b (.text value) rest = b.push (.text value none) := by
      simp only [buildToken, idle, handleToken]
    rw [nodeTokens, List.singleton_append, buildTree, pushed, rereadNode]
  | element name props children selfClosing =>
    obtain ⟨lower, stripped, style, inner⟩ := ok
    unfold nodeTokens rereadNode
    rw [lower]
    by_cases closed : printsClosed name children selfClosing = true
    · -- The tag closes itself.
      simp only [if_pos closed, List.singleton_append, buildTree, buildToken, idle, handleToken]
      congr 1
      by_cases isStyle : name = js "style"
      · subst isStyle
        simp only [openElement, isRawText_style, Bool.true_or, if_true, Bool.true_and]
      · simp only [openElement, isRawText_other isStyle stripped svg, Bool.true_or, if_true, Bool.true_and, if_neg isStyle,
          Bool.false_eq_true, if_false]
    · have notVoid : name ∉ voidElements := fun member => closed (by simp [printsClosed, member])
      simp only [if_neg closed, List.cons_append, List.append_assoc, List.nil_append, buildTree, buildToken, idle, handleToken]
      by_cases isStyle : name = js "style"
      · -- The content of a `style` is skipped up to its end tag.
        subst isStyle
        simp only [openElement, isRawText_style, Bool.false_or, if_true, Bool.false_and, decide_eq_true_eq, if_neg notVoid]
        have raw : decide (js "style" ∈ rawtextElements) = true := by decide
        rw [raw, buildTree_skip_nodes rfl children (style rfl)]
        simp only [buildTree, buildToken, if_true]
        rw [TreeBuilder.resume_idle ((b.push_skipUntil _).trans idle)]
      · -- The element is opened, its children are rebuilt inside it, and its end tag closes it.
        simp only [openElement, isRawText_other isStyle stripped svg, Bool.false_or, decide_eq_true_eq, if_neg notVoid,
          Bool.false_eq_true, if_false, if_neg isStyle]
        have svg' : (inSvg || name = js "svg") = true → TreeBuilder.insideSvg
            { b with stack := ⟨name, attributesToProps (printedAttributes propType name props), []⟩ :: b.stack } = true := by
          intro inside
          rcases (Bool.or_eq_true _ _).mp inside with outer | this
          · have := svg outer
            simp only [TreeBuilder.insideSvg, List.cons_append, List.any_cons] at this ⊢
            rw [this, Bool.or_true]
          · simp only [TreeBuilder.insideSvg, List.cons_append, List.any_cons, lower]
            rw [this, Bool.true_or]
        have children_built := buildTree_nodes children (.closeTag name name :: rest)
          { b with stack := ⟨name, attributesToProps (printedAttributes propType name props), []⟩ :: b.stack }
          _ idle svg' inner
        rw [children_built, TreeBuilder.pushAll_frame, buildTree]
        congr 1
        simp only [buildToken, idle, handleToken, if_neg notVoid, List.nil_append]
        rw [← idle]
        have closing := TreeBuilder.closeElement_top { b with stack := ⟨name,
          attributesToProps (printedAttributes propType name props), rereadNodes propType (.closeTag name name :: rest) children⟩ :: b.stack } _ _ rfl
        simp only [lower] at closing
        exact closing

theorem buildTree_nodes (nodes : List FragmentNode) (rest : List Token) (b : TreeBuilder) (inSvg : Bool)
    (idle : b.skipUntil = none) (svg : inSvg = true → b.insideSvg = true) (ok : Rebuildable inSvg nodes) :
    buildTree (some textHtml) b (nodesTokens propType nodes ++ rest) =
      buildTree (some textHtml) (b.pushAll (rereadNodes propType rest nodes)) rest := by
  cases nodes with
  | nil => rfl
  | cons node nodes =>
    obtain ⟨first, others⟩ := ok
    rw [nodesTokens, List.append_assoc, buildTree_node node _ b inSvg idle svg first]
    have idle' := (b.push_skipUntil (rereadNode propType (nodesTokens propType nodes ++ rest) node)).trans idle
    have svg' := b.push_insideSvg (rereadNode propType (nodesTokens propType nodes ++ rest) node)
    rw [buildTree_nodes nodes rest _ inSvg idle' (fun inside => svg'.trans (svg inside)) others]
    rfl

end

/-- A printed tree is read back as its rebuilt form. -/
theorem htmlToTree_printed {tree : FragmentTree} (printable : Printable propType tree) (ok : Rebuildable false tree) :
    htmlToTree (treeToHtmlWith propType tree) (some textHtml) = rereadNodes propType [] tree := by
  have built : buildTree (some textHtml) .start (nodesTokens propType tree) =
      TreeBuilder.start.pushAll (rereadNodes propType [] tree) := by
    rw [← List.append_nil (nodesTokens propType tree),
      buildTree_nodes tree [] .start false rfl (fun impossible => absurd impossible Bool.false_ne_true) ok]
    rfl
  obtain ⟨stack, root⟩ := TreeBuilder.pushAll_root .start rfl (rereadNodes propType [] tree)
  rw [htmlToTree, tokenize_printed printable]
  simp only [built, stack, List.length_nil, TreeBuilder.popMany, root]
  rfl

/-- Appends a node to the front, text to text. -/
def attachNode (node : FragmentNode) (nodes : List FragmentNode) : List FragmentNode :=
  match node, nodes with
  | .text value _, .text next _ :: nodes => .text (value ++ next) none :: nodes
  | .text value segments, nodes => if value = [] then nodes else .text value segments :: nodes
  | node, nodes => node :: nodes

mutual

def joinNode : FragmentNode → FragmentNode
  | .text value segments => .text value segments
  | .element name props children selfClosing =>
    .element name props (joinTexts children) (selfClosing && children.isEmpty)

/-- The tree with adjacent texts joined and empty ones left out, which prints alike. -/
def joinTexts : List FragmentNode → List FragmentNode
  | [] => []
  | node :: nodes => attachNode (joinNode node) (joinTexts nodes)

end

theorem nodesToHtml_attachNode (node : FragmentNode) (nodes : List FragmentNode) :
    nodesToHtml propType (attachNode node nodes) = nodeToHtml propType node ++ nodesToHtml propType nodes := by
  unfold attachNode
  split
  · simp only [nodesToHtml, nodeToHtml, escapeHtml_append, List.append_assoc]
  · split
    · rename_i empty
      rw [empty, nodeToHtml]
      rfl
    · rfl
  · rfl

mutual

theorem nodeToHtml_joinNode (node : FragmentNode) : nodeToHtml propType (joinNode node) = nodeToHtml propType node := by
  cases node with
  | text value segments => rfl
  | element name props children selfClosing =>
    have closed : printsClosed name (joinTexts children) (selfClosing && children.isEmpty) =
        printsClosed name children selfClosing := by
      cases children with
      | nil => simp [printsClosed, joinTexts]
      | cons child children => simp [printsClosed]
    rw [joinNode, nodeToHtml_element, nodeToHtml_element, closed, nodesToHtml_joinTexts children]

theorem nodesToHtml_joinTexts (nodes : List FragmentNode) :
    nodesToHtml propType (joinTexts nodes) = nodesToHtml propType nodes := by
  cases nodes with
  | nil => rfl
  | cons node nodes =>
    rw [joinTexts, nodesToHtml_attachNode, nodeToHtml_joinNode node, nodesToHtml_joinTexts nodes, nodesToHtml]

end

end Xript
