import Xript.Sanitize.Jsml
import Xript.Sanitize.ReadBack

namespace Xript

mutual

/-- The J5ML form of a node: `[name, props, ...children]`, a text as a string. -/
def nodeToJsml : FragmentNode → Json
  | .text value _ => .str value
  | .element name props children _ => .arr (.str name :: .obj props :: nodesToJsml children)

def nodesToJsml : List FragmentNode → List Json
  | [] => []
  | node :: nodes => nodeToJsml node :: nodesToJsml nodes

end

/-- The `html` of `sanitizeJsml`, and of `sanitizeFragment` under `application/jsml+json`. -/
def sanitizeJsml (nodes : List Json) : JSString :=
  treeToHtml (sanitizeTree (jsmlToTree nodes) applicationJsml ⟨false, false⟩).tree

/-- A prop that both syntaxes spell: a text that is not empty under a valid name. -/
def SharedProp (entry : JSString × PropValue) : Prop :=
  isValidAttributeName entry.1 = true ∧ ∃ s, entry.2 = .str s ∧ s ≠ [] ∧ 0 ∉ s

mutual

/-- The nodes that both syntaxes spell. J5ML has neither the hint that an element was closed with
`/>` nor segments. -/
def SharedNode (inSvg : Bool) : FragmentNode → Prop
  | .text value segments => value ≠ [] ∧ 0 ∉ value ∧ segments = none
  | .element name props children selfClosing =>
    (name ∈ allowedElements ∨ name ∈ svgTextElements ∧ inSvg = true) ∧ (∀ entry ∈ props, SharedProp entry) ∧
      (props.map fun entry => toLowerCase entry.1).Nodup ∧ (name ∈ voidElements → children = []) ∧
      selfClosing = false ∧ Shared (inSvg || name = js "svg") children

/-- No two texts stand side by side. -/
def Shared (inSvg : Bool) : List FragmentNode → Prop
  | [] => True
  | node :: nodes => SharedNode inSvg node ∧ Apart node nodes ∧ Shared inSvg nodes

end

/-- Shared props are read back from print as they are. -/
theorem reread_props {propType : PropTypeLookup} {name : JSString} {props : Props} (shared : ∀ entry ∈ props, SharedProp entry)
    (distinct : (props.map fun entry => toLowerCase entry.1).Nodup) :
    attributesToProps (printedAttributes propType name props) = props := by
  have keys : (Record.keys props).Nodup := by
    refine List.Nodup.of_map toLowerCase ?_
    rw [Record.keys, List.map_map]
    exact distinct
  have sourced : ∀ entry ∈ props, SourcedValue entry.2 := by
    intro entry member
    obtain ⟨-, s, text, -, clean⟩ := shared entry member
    exact .inr ⟨s, text, clean⟩
  rw [attributesToProps_printed sourced keys fun entry member => (shared entry member).1]
  conv_rhs => rw [← List.map_id props]
  refine List.map_congr_left fun entry member => ?_
  obtain ⟨-, s, text, some, -⟩ := shared entry member
  rw [readProp, text]
  cases s with
  | nil => exact absurd rfl some
  | cons c s => rfl

mutual

/-- The names of the node are claimed by the built-in vocabulary, the text of a `title` apart. -/
def KnownNode (inSvg : Bool) : FragmentNode → Prop
  | .text _ _ => True
  | .element name _ children _ =>
    name ∈ allowedElements ∧ Known (inSvg || name = js "svg") children ∨ name ∈ svgTextElements ∧ inSvg = true

def Known (inSvg : Bool) : List FragmentNode → Prop
  | [] => True
  | node :: nodes => KnownNode inSvg node ∧ Known inSvg nodes

end

/-- An SVG `title` or `desc` as the walk leaves it. -/
def keptTitle (name path : JSString) (props : Props) (children : List FragmentNode) : FragmentNode :=
  let text := (collectSvgText name path 0 children).1
  .element name (collectProps (svgTextProp name path) props).1 (if text = [] then [] else [.text text none]) false

mutual

/-- What the walk leaves of a node whose names are known. -/
def keptNode (inSvg : Bool) (path : JSString) : FragmentNode → FragmentNode
  | .text value segments => .text value segments
  | .element name props children selfClosing =>
    if name ∈ svgTextElements ∧ inSvg then keptTitle name path props children
    else .element name (collectProps (htmlProp ⟨textHtml, false, false, id⟩ name path) props).1
      (keptNodes (inSvg || name = js "svg") path 0 children) selfClosing

def keptNodes (inSvg : Bool) (path : JSString) (index : Nat) : List FragmentNode → List FragmentNode
  | [] => []
  | node :: nodes => keptNode inSvg (childPath path index) node :: keptNodes inSvg path (index + 1) nodes

end

theorem htmlProp_builtin {ctx : WalkContext} (builtin : BuiltinWalk ctx) (tag path : JSString) :
    htmlProp ctx tag path = htmlProp ⟨textHtml, false, false, id⟩ tag path := by
  funext key value
  have schemes : ctx.profile.schemes = textHtml.schemes := builtin.schemes
  simp only [htmlProp, schemes]

mutual

theorem walkNode_known {ctx : WalkContext} (builtin : BuiltinWalk ctx) (inSvg : Bool) (path : JSString) (node : FragmentNode)
    (known : KnownNode inSvg node) : (walkNode ctx inSvg path .any node).1 = [keptNode inSvg path node] := by
  cases node with
  | text value segments => rw [walkNode_text builtin, keptNode]
  | element name props children selfClosing =>
    unfold walkNode keptNode
    rw [builtin.resolve]
    rcases known with ⟨allowed, inner⟩ | ⟨text, inside⟩
    · have notTitle : ¬(name ∈ svgTextElements ∧ inSvg = true) := fun title =>
        (allowedElement_disjoint name allowed).1 title.1
      rw [resolveHtml_allowed _ _ allowed, if_neg notTitle]
      simp only [Option.getD_some, childAllowed, if_true, htmlProp_builtin builtin, walkNodes_known builtin _ path 0 children inner]
    · subst inside
      have title : name ∈ svgTextElements ∧ true = true := ⟨text, rfl⟩
      rw [resolveHtml_svgText _ text, if_pos title]
      simp only [Option.getD_some, childAllowed, if_true, sanitizeSvgTextNode, keptTitle, textNode_plain builtin]
      split
      · rfl
      · rfl

/-- The walk keeps every node whose name is known. -/
theorem walkNodes_known {ctx : WalkContext} (builtin : BuiltinWalk ctx) (inSvg : Bool) (path : JSString) (index : Nat)
    (nodes : List FragmentNode) (known : Known inSvg nodes) :
    (walkNodes ctx inSvg path .any index nodes).1 = keptNodes inSvg path index nodes := by
  cases nodes with
  | nil => rfl
  | cons node nodes =>
    rw [walkNodes, keptNodes]
    simp only [walkNode_known builtin inSvg _ node known.1, walkNodes_known builtin inSvg path _ nodes known.2]
    rfl

end

theorem jsmlProps_shared {props : Props} (shared : ∀ entry ∈ props, SharedProp entry)
    (distinct : (props.map fun entry => toLowerCase entry.1).Nodup) : jsmlProps props = props := by
  have loop : ∀ (props found : Props), (∀ entry ∈ props, SharedProp entry ∧ entry.1 ∉ Record.keys found) →
      (props.map Prod.fst).Nodup →
      props.foldl (fun found entry => Record.set found entry.1 (toPropValue entry.2)) found = found ++ props := by
    intro props
    induction props with
    | nil => exact fun found _ _ => (List.append_nil found).symm
    | cons entry props ih =>
      intro found fresh distinct
      rw [List.forall_mem_cons] at fresh
      rw [List.map_cons, List.nodup_cons] at distinct
      obtain ⟨⟨⟨valid, s, text, -⟩, absent⟩, rest⟩ := fresh
      have same : toPropValue entry.2 = entry.2 := by
        rw [text]
        rfl
      rw [List.foldl_cons, same, Record.set_new absent (arrayIndex_of_valid valid), ih _ _ distinct.2]
      · simp
      · intro other member
        refine ⟨(rest other member).1, fun taken => ?_⟩
        rw [Record.keys, List.map_append, List.mem_append] at taken
        rcases taken with old | new
        · exact (rest other member).2 old
        · rw [List.map_singleton, List.mem_singleton] at new
          exact distinct.1 (new ▸ List.mem_map_of_mem member)
  refine loop props [] (fun entry member => ⟨shared entry member, List.not_mem_nil⟩) ?_
  refine List.Nodup.of_map toLowerCase ?_
  rw [List.map_map]
  exact distinct

mutual

theorem jsmlNodeToTree_shared (inSvg : Bool) (node : FragmentNode) (shared : SharedNode inSvg node) :
    jsmlNodeToTree (nodeToJsml node) = some node := by
  cases node with
  | text value segments =>
    obtain ⟨-, -, rfl⟩ := shared
    rfl
  | element name props children selfClosing =>
    obtain ⟨-, values, distinct, -, rfl, inner⟩ := shared
    rw [nodeToJsml, jsmlNodeToTree, jsmlProps_shared values distinct, jsmlToTree_shared _ children inner]

/-- The J5ML form of a tree is read back as that tree. -/
theorem jsmlToTree_shared (inSvg : Bool) (nodes : List FragmentNode) (shared : Shared inSvg nodes) :
    jsmlToTree (nodesToJsml nodes) = nodes := by
  cases nodes with
  | nil => rfl
  | cons node nodes =>
    rw [nodesToJsml, jsmlToTree, jsmlNodeToTree_shared inSvg node shared.1, jsmlToTree_shared inSvg nodes shared.2.2]

end

mutual

theorem printable_shared_node {propType : PropTypeLookup} (inSvg : Bool) (node : FragmentNode) (shared : SharedNode inSvg node) :
    PrintableNode propType node := by
  cases node with
  | text value segments => exact ⟨shared.1, shared.2.1⟩
  | element name props children selfClosing =>
    obtain ⟨known, values, -, -, -, inner⟩ := shared
    refine ⟨isTagName_of_tame (known.imp_right (·.1)), printedAttributes_clean ?_, printable_shared _ children inner⟩
    intro entry member
    obtain ⟨-, s, text, -, clean⟩ := values entry member
    exact .inr ⟨s, text, clean⟩

theorem printable_shared {propType : PropTypeLookup} (inSvg : Bool) (nodes : List FragmentNode) (shared : Shared inSvg nodes) :
    Printable propType nodes := by
  cases nodes with
  | nil => trivial
  | cons node nodes =>
    exact ⟨printable_shared_node inSvg node shared.1, shared.2.1, printable_shared inSvg nodes shared.2.2⟩

end

mutual

theorem known_shared_node (inSvg : Bool) (node : FragmentNode) (shared : SharedNode inSvg node) : KnownNode inSvg node := by
  cases node with
  | text value segments => trivial
  | element name props children selfClosing =>
    obtain ⟨known, -, -, -, -, inner⟩ := shared
    rcases known with allowed | title
    · exact .inl ⟨allowed, known_shared _ children inner⟩
    · exact .inr title

theorem known_shared (inSvg : Bool) (nodes : List FragmentNode) (shared : Shared inSvg nodes) : Known inSvg nodes := by
  cases nodes with
  | nil => trivial
  | cons node nodes => exact ⟨known_shared_node inSvg node shared.1, known_shared inSvg nodes shared.2.2⟩

end

/-- The J5ML side: the walk keeps the whole tree. -/
theorem sanitizeJsml_shared {tree : FragmentTree} (shared : Shared false tree) :
    sanitizeJsml (nodesToJsml tree) = treeToHtml (keptNodes false [] 0 tree) := by
  have builtin : BuiltinWalk ⟨applicationJsml, false, false, sanitizeHTML⟩ := ⟨rfl, rfl, rfl⟩
  rw [sanitizeJsml, jsmlToTree_shared false tree shared]
  simp only [sanitizeTree, sanitizeTreeWith]
  rw [walkNodes_known builtin false [] 0 tree (known_shared false tree shared)]

mutual

/-- No `style` stands inside a `style`. -/
def UnnestedNode : FragmentNode → Prop
  | .text _ _ => True
  | .element name _ children _ => (name = js "style" → Styleless children) ∧ Unnested children

def Unnested : List FragmentNode → Prop
  | [] => True
  | node :: nodes => UnnestedNode node ∧ Unnested nodes

end

mutual

/-- In an SVG `title` or `desc`, no `style` stands inside a `style`. -/
def PlainTitlesNode : FragmentNode → Prop
  | .text _ _ => True
  | .element name _ children _ => (name ∈ svgTextElements → Unnested children) ∧ PlainTitles children

def PlainTitles : List FragmentNode → Prop
  | [] => True
  | node :: nodes => PlainTitlesNode node ∧ PlainTitles nodes

end

mutual

/-- `P` holds of the children of every `style` that is not inside a `title` or `desc`. -/
def StylesNode (P : List FragmentNode → Prop) : FragmentNode → Prop
  | .text _ _ => True
  | .element name _ children _ =>
    if name = js "style" then P children
    else if name ∈ svgTextElements then True
    else Styles P children

def Styles (P : List FragmentNode → Prop) : List FragmentNode → Prop
  | [] => True
  | node :: nodes => StylesNode P node ∧ Styles P nodes

end

/-- Only text. -/
def TextOnly (nodes : List FragmentNode) : Prop := ∀ node ∈ nodes, node.isText = true

/-- Only text, which cleaning leaves as it is. -/
def CleanText (nodes : List FragmentNode) : Prop :=
  ∀ node ∈ nodes, ∃ value segments, node = .text value segments ∧ sanitizeStyleBlock value = value

mutual

theorem Styles.imp_node {P Q : List FragmentNode → Prop} (weaker : ∀ nodes, P nodes → Q nodes) (node : FragmentNode)
    (styles : StylesNode P node) : StylesNode Q node := by
  cases node with
  | text value segments => trivial
  | element name props children selfClosing =>
    unfold StylesNode at styles ⊢
    split at styles
    · rename_i style
      rw [if_pos style]
      exact weaker _ styles
    · rename_i other
      rw [if_neg other]
      split at styles
      · rename_i title
        rw [if_pos title]
        trivial
      · rename_i noTitle
        rw [if_neg noTitle]
        exact Styles.imp weaker children styles

theorem Styles.imp {P Q : List FragmentNode → Prop} (weaker : ∀ nodes, P nodes → Q nodes) (nodes : List FragmentNode)
    (styles : Styles P nodes) : Styles Q nodes := by
  cases nodes with
  | nil => trivial
  | cons node nodes => exact ⟨Styles.imp_node weaker node styles.1, Styles.imp weaker nodes styles.2⟩

end

mutual

theorem rebuildable_unnested_node {inSvg : Bool} (node : FragmentNode) (shared : SharedNode inSvg node)
    (unnested : UnnestedNode node) : RebuildableNode inSvg node := by
  cases node with
  | text value segments => trivial
  | element name props children selfClosing =>
    obtain ⟨known, -, -, -, -, inner⟩ := shared
    refine ⟨(knownElement_units (known.imp_right (·.1))).2.2, fun stripped => ?_, unnested.1,
      rebuildable_unnested children inner unnested.2⟩
    exact known.resolve_left fun allowed => (allowedElement_disjoint name allowed).2.1 stripped

theorem rebuildable_unnested {inSvg : Bool} (nodes : List FragmentNode) (shared : Shared inSvg nodes)
    (unnested : Unnested nodes) : Rebuildable inSvg nodes := by
  cases nodes with
  | nil => trivial
  | cons node nodes =>
    exact ⟨rebuildable_unnested_node node shared.1 unnested.1, rebuildable_unnested nodes shared.2.2 unnested.2⟩

end

theorem unnested_of_texts {nodes : List FragmentNode} (texts : TextOnly nodes) : Unnested nodes := by
  induction nodes with
  | nil => trivial
  | cons node nodes ih =>
    unfold TextOnly at texts ih
    rw [List.forall_mem_cons] at texts
    cases node with
    | text value segments => exact ⟨trivial, ih texts.2⟩
    | element name props children selfClosing => exact absurd texts.1 (by simp [FragmentNode.isText])

mutual

theorem unnested_of_styles_node (node : FragmentNode) (titles : PlainTitlesNode node)
    (styles : StylesNode TextOnly node) : UnnestedNode node := by
  cases node with
  | text value segments => trivial
  | element name props children selfClosing =>
    unfold StylesNode at styles
    split at styles
    · exact ⟨fun _ => styleless_of_texts styles, unnested_of_texts styles⟩
    · rename_i other
      refine ⟨fun style => absurd style other, ?_⟩
      split at styles
      · rename_i title
        exact titles.1 title
      · exact unnested_of_styles children titles.2 styles

theorem unnested_of_styles (nodes : List FragmentNode) (titles : PlainTitles nodes) (styles : Styles TextOnly nodes) :
    Unnested nodes := by
  cases nodes with
  | nil => trivial
  | cons node nodes => exact ⟨unnested_of_styles_node node titles.1 styles.1, unnested_of_styles nodes titles.2 styles.2⟩

end

/-- The value of a text. -/
def textValue : FragmentNode → JSString
  | .text value _ => value
  | .element .. => []

/-- The text child that a `style` is given for its texts. -/
def restyleTexts (nodes : List FragmentNode) : List FragmentNode :=
  let cleaned := sanitizeStyleBlock (nodes.flatMap textValue)
  if cleaned = [] then [] else [.text cleaned none]

mutual

/-- The node with the text of its styles cleaned. -/
def restyleNode : FragmentNode → FragmentNode
  | .text value segments => .text value segments
  | .element name props children selfClosing =>
    if name = js "style" then .element name props (restyleTexts children) selfClosing
    else if name ∈ svgTextElements then .element name props children selfClosing
    else .element name props (restyleNodes children) selfClosing

def restyleNodes : List FragmentNode → List FragmentNode
  | [] => []
  | node :: nodes => restyleNode node :: restyleNodes nodes

end

theorem styleChildren_texts {propType : PropTypeLookup} {nodes : List FragmentNode} (texts : TextOnly nodes) (rest : List Token) :
    styleChildren (nodesTokens propType nodes ++ .closeTag (js "style") (js "style") :: rest) = restyleTexts nodes := by
  have content : collectStyleContent (nodesTokens propType nodes ++ .closeTag (js "style") (js "style") :: rest) =
      nodes.flatMap textValue := by
    induction nodes with
    | nil => rfl
    | cons node nodes ih =>
      unfold TextOnly at texts ih
      rw [List.forall_mem_cons] at texts
      cases node with
      | text value segments =>
        rw [nodesTokens, nodeTokens, List.singleton_append, List.cons_append, collectStyleContent, ih texts.2,
          List.flatMap_cons, textValue]
      | element name props children selfClosing => exact absurd texts.1 (by simp [FragmentNode.isText])
  simp only [styleChildren, content]
  rfl

theorem keptNodes_texts {inSvg : Bool} {path : JSString} {index : Nat} {nodes : List FragmentNode} (texts : TextOnly nodes) :
    keptNodes inSvg path index nodes = nodes := by
  induction nodes generalizing index with
  | nil => rfl
  | cons node nodes ih =>
    unfold TextOnly at texts ih
    rw [List.forall_mem_cons] at texts
    cases node with
    | text value segments => rw [keptNodes, keptNode, ih texts.2]
    | element name props children selfClosing => exact absurd texts.1 (by simp [FragmentNode.isText])

theorem restyleTexts_textOnly (nodes : List FragmentNode) : TextOnly (restyleTexts nodes) := by
  unfold restyleTexts TextOnly
  simp only
  split
  · exact fun node impossible => absurd impossible List.not_mem_nil
  · exact List.forall_mem_singleton.mpr rfl

theorem rereadNode_shared (propType : PropTypeLookup) {inSvg : Bool} {name : JSString} {props : Props}
    {children : List FragmentNode} (rest : List Token) (shared : SharedNode inSvg (.element name props children false)) :
    ∃ children', rereadNode propType rest (.element name props children false) = .element name props children' false ∧
      (name = js "style" → children' = styleChildren (nodesTokens propType children ++ .closeTag name name :: rest)) ∧
      (name ≠ js "style" → ∃ rest', children' = rereadNodes propType rest' children) := by
  obtain ⟨-, values, distinct, void, -, -⟩ := shared
  have notVoid : js "style" ∉ voidElements := by decide
  unfold rereadNode
  simp only [reread_props values distinct]
  by_cases closed : printsClosed name children false = true
  · have isVoid : name ∈ voidElements := by simpa [printsClosed] using closed
    have notStyle : name ≠ js "style" := fun style => notVoid (style ▸ isVoid)
    refine ⟨[], ?_, fun style => absurd style notStyle, fun _ => ⟨[], ?_⟩⟩
    · simp [closed, notStyle, isVoid]
    · rw [void isVoid]
      rfl
  · refine ⟨_, by rw [if_neg closed], fun style => by rw [if_pos style], fun other => ⟨_, by rw [if_neg other]⟩⟩

mutual

theorem svgTextOf_reread {propType : PropTypeLookup} (owner path : JSString) (inSvg : Bool) (rest : List Token) (node : FragmentNode)
    (shared : SharedNode inSvg node) :
    (svgTextOf owner path (rereadNode propType rest node)).1 = (svgTextOf owner path node).1 := by
  cases node with
  | text value segments => rfl
  | element name props children selfClosing =>
    obtain rfl : selfClosing = false := shared.2.2.2.2.1
    have lower := (knownElement_units (shared.1.imp_right (·.1))).2.2
    obtain ⟨children', shape, -, other⟩ := rereadNode_shared propType rest shared
    rw [shape]
    simp only [svgTextOf, lower]
    split
    · rfl
    · split
      · rfl
      · rename_i notStyle
        obtain ⟨rest', rfl⟩ := other notStyle
        exact collectSvgText_reread owner path 0 _ rest' children shared.2.2.2.2.2

/-- The text of a `title` is read back from print. -/
theorem collectSvgText_reread {propType : PropTypeLookup} (owner path : JSString) (index : Nat) (inSvg : Bool) (rest : List Token)
    (nodes : List FragmentNode) (shared : Shared inSvg nodes) :
    (collectSvgText owner path index (rereadNodes propType rest nodes)).1 = (collectSvgText owner path index nodes).1 := by
  cases nodes with
  | nil => rfl
  | cons node nodes =>
    rw [rereadNodes, collectSvgText, collectSvgText]
    simp only [svgTextOf_reread owner _ inSvg _ node shared.1, collectSvgText_reread owner path _ inSvg rest nodes shared.2.2]

end

mutual

theorem keptNode_reread {propType : PropTypeLookup} (inSvg : Bool) (path : JSString) (rest : List Token) (node : FragmentNode)
    (shared : SharedNode inSvg node) (styles : StylesNode TextOnly node) :
    keptNode inSvg path (rereadNode propType rest node) = restyleNode (keptNode inSvg path node) := by
  cases node with
  | text value segments =>
    obtain ⟨-, -, rfl⟩ := shared
    rfl
  | element name props children selfClosing =>
    have notTitle : js "style" ∉ svgTextElements := by decide
    obtain rfl : selfClosing = false := shared.2.2.2.2.1
    obtain ⟨children', shape, style, other⟩ := rereadNode_shared propType rest shared
    rw [shape]
    unfold keptNode
    unfold StylesNode at styles
    by_cases isStyle : name = js "style"
    · subst isStyle
      rw [if_pos rfl] at styles
      have texts := restyleTexts_textOnly children
      simp only [notTitle, false_and, if_false]
      rw [style rfl, styleChildren_texts styles, keptNodes_texts texts, restyleNode, if_pos rfl, keptNodes_texts styles]
    · rw [if_neg isStyle] at styles
      obtain ⟨rest', rfl⟩ := other isStyle
      by_cases title : name ∈ svgTextElements
      · have inside : inSvg = true := by
          rcases shared.1 with allowed | ⟨-, inside⟩
          · exact absurd title (allowedElement_disjoint name allowed).1
          · exact inside
        simp only [title, inside, and_self, if_true, keptTitle, collectSvgText_reread name path 0 _ rest' children shared.2.2.2.2.2]
        rw [restyleNode, if_neg isStyle, if_pos title]
      · simp only [title, false_and, if_false] at styles ⊢
        rw [keptNodes_reread _ path 0 rest' children shared.2.2.2.2.2 styles, restyleNode, if_neg isStyle, if_neg title]

/-- The HTML side: read back from print and walked, the tree differs only in the text of its styles. -/
theorem keptNodes_reread {propType : PropTypeLookup} (inSvg : Bool) (path : JSString) (index : Nat) (rest : List Token)
    (nodes : List FragmentNode) (shared : Shared inSvg nodes) (styles : Styles TextOnly nodes) :
    keptNodes inSvg path index (rereadNodes propType rest nodes) = restyleNodes (keptNodes inSvg path index nodes) := by
  cases nodes with
  | nil => rfl
  | cons node nodes =>
    rw [rereadNodes, keptNodes, keptNodes, restyleNodes, keptNode_reread inSvg _ _ node shared.1 styles.1,
      keptNodes_reread inSvg path _ rest nodes shared.2.2 styles.2]

end

mutual

theorem known_reread_node {propType : PropTypeLookup} (inSvg : Bool) (rest : List Token) (node : FragmentNode)
    (shared : SharedNode inSvg node) : KnownNode inSvg (rereadNode propType rest node) := by
  cases node with
  | text value segments => trivial
  | element name props children selfClosing =>
    obtain rfl : selfClosing = false := shared.2.2.2.2.1
    obtain ⟨children', shape, style, other⟩ := rereadNode_shared propType rest shared
    rw [shape]
    rcases shared.1 with allowed | title
    · refine .inl ⟨allowed, ?_⟩
      by_cases isStyle : name = js "style"
      · rw [style isStyle]
        unfold styleChildren
        simp only
        split
        · trivial
        · exact ⟨trivial, trivial⟩
      · obtain ⟨rest', rfl⟩ := other isStyle
        exact known_reread _ rest' children shared.2.2.2.2.2
    · exact .inr title

theorem known_reread {propType : PropTypeLookup} (inSvg : Bool) (rest : List Token) (nodes : List FragmentNode)
    (shared : Shared inSvg nodes) : Known inSvg (rereadNodes propType rest nodes) := by
  cases nodes with
  | nil => trivial
  | cons node nodes => exact ⟨known_reread_node inSvg _ node shared.1, known_reread inSvg rest nodes shared.2.2⟩

end

/-- The HTML side of a tree whose styles hold only text. -/
theorem sanitizeHTML_shared {tree : FragmentTree} (shared : Shared false tree) (titles : PlainTitles tree)
    (styles : Styles TextOnly tree) :
    sanitizeHTML (treeToHtml tree) = treeToHtml (restyleNodes (keptNodes false [] 0 tree)) := by
  have rebuilt := rebuildable_unnested tree shared (unnested_of_styles tree titles styles)
  have printable : Printable (fun _ _ => none) tree := printable_shared false tree shared
  have read : htmlToTree (treeToHtml tree) (some textHtml) = rereadNodes (fun _ _ => none) [] tree :=
    htmlToTree_printed printable rebuilt
  simp only [sanitizeHTML, sanitizeHtmlString, sanitizeTreeWith, read]
  rw [walkNodes_known (builtinWalk_textHtml id) false [] 0 _ (known_reread false [] tree shared),
    keptNodes_reread false [] 0 [] tree shared styles]

/-- The texts of a `style` in a shared tree: none, or one that is not empty. -/
theorem texts_of_shared {inSvg : Bool} {nodes : List FragmentNode} (shared : Shared inSvg nodes) (texts : TextOnly nodes) :
    nodes = [] ∨ ∃ value, nodes = [.text value none] ∧ value ≠ [] := by
  cases nodes with
  | nil => exact .inl rfl
  | cons node nodes =>
    obtain ⟨first, apart, -⟩ := shared
    unfold TextOnly at texts
    rw [List.forall_mem_cons] at texts
    have alone : nodes = [] := by
      cases nodes with
      | nil => rfl
      | cons next nodes =>
        have notText := apart texts.1 next rfl
        rw [texts.2 next (List.mem_cons_self ..)] at notText
        cases notText
    cases node with
    | text value segments =>
      obtain ⟨some, -, rfl⟩ := first
      exact .inr ⟨value, by rw [alone], some⟩
    | element name props children selfClosing => exact absurd texts.1 (by simp [FragmentNode.isText])

theorem textOnly_of_cleanText (nodes : List FragmentNode) (clean : CleanText nodes) : TextOnly nodes := by
  intro node member
  obtain ⟨value, segments, rfl, -⟩ := clean node member
  rfl

theorem restyleTexts_clean {inSvg : Bool} {nodes : List FragmentNode} (shared : Shared inSvg nodes) (clean : CleanText nodes) :
    restyleTexts nodes = nodes := by
  have texts := textOnly_of_cleanText nodes clean
  rcases texts_of_shared shared texts with rfl | ⟨value, rfl, some⟩
  · rfl
  · obtain ⟨_, _, equal, same⟩ := clean _ (List.mem_singleton_self _)
    cases equal
    simp only [restyleTexts, List.flatMap_singleton, textValue, same, if_neg some]

mutual

theorem restyle_clean_node (inSvg : Bool) (path : JSString) (node : FragmentNode) (shared : SharedNode inSvg node)
    (styles : StylesNode CleanText node) : restyleNode (keptNode inSvg path node) = keptNode inSvg path node := by
  cases node with
  | text value segments => rfl
  | element name props children selfClosing =>
    have notTitle : js "style" ∉ svgTextElements := by decide
    unfold StylesNode at styles
    unfold keptNode
    by_cases isStyle : name = js "style"
    · subst isStyle
      rw [if_pos rfl] at styles
      have texts := textOnly_of_cleanText children styles
      simp only [notTitle, false_and, if_false]
      rw [restyleNode, if_pos rfl, keptNodes_texts texts, restyleTexts_clean shared.2.2.2.2.2 styles]
    · rw [if_neg isStyle] at styles
      by_cases title : name ∈ svgTextElements
      · have inside : inSvg = true := (shared.1.resolve_left fun allowed => (allowedElement_disjoint name allowed).1 title).2
        simp only [title, inside, and_self, if_true, keptTitle]
        rw [restyleNode, if_neg isStyle, if_pos title]
      · simp only [title, false_and, if_false] at styles ⊢
        rw [restyleNode, if_neg isStyle, if_neg title, restyle_clean _ path 0 children shared.2.2.2.2.2 styles]

theorem restyle_clean (inSvg : Bool) (path : JSString) (index : Nat) (nodes : List FragmentNode) (shared : Shared inSvg nodes)
    (styles : Styles CleanText nodes) :
    restyleNodes (keptNodes inSvg path index nodes) = keptNodes inSvg path index nodes := by
  cases nodes with
  | nil => rfl
  | cons node nodes =>
    rw [keptNodes, restyleNodes, restyle_clean_node inSvg _ node shared.1 styles.1,
      restyle_clean inSvg path _ nodes shared.2.2 styles.2]

end

/-- Where the styles hold clean text, the two syntaxes are sanitized alike. -/
theorem syntaxes_agree {tree : FragmentTree} (shared : Shared false tree) (titles : PlainTitles tree)
    (styles : Styles CleanText tree) : sanitizeJsml (nodesToJsml tree) = sanitizeHTML (treeToHtml tree) := by
  rw [sanitizeJsml_shared shared, sanitizeHTML_shared shared titles (Styles.imp textOnly_of_cleanText tree styles),
    restyle_clean false [] 0 tree shared styles]

mutual

theorem nullFree_shared_node (inSvg : Bool) (node : FragmentNode) (shared : SharedNode inSvg node) : NullFreeNode node := by
  cases node with
  | text value segments => exact shared.2.1
  | element name props children selfClosing => exact nullFree_shared _ children shared.2.2.2.2.2

theorem nullFree_shared (inSvg : Bool) (nodes : List FragmentNode) (shared : Shared inSvg nodes) : NullFree nodes := by
  cases nodes with
  | nil => trivial
  | cons node nodes => exact ⟨nullFree_shared_node inSvg node shared.1, nullFree_shared inSvg nodes shared.2.2⟩

end

theorem keptNode_isText (inSvg : Bool) (path : JSString) (node : FragmentNode) :
    (keptNode inSvg path node).isText = node.isText := by
  cases node with
  | text value segments => rfl
  | element name props children selfClosing =>
    unfold keptNode
    split
    · rfl
    · rfl

theorem apart_nil (node : FragmentNode) : Apart node [] := by
  intro _ next impossible
  cases impossible

theorem keptNodes_apart {inSvg : Bool} {path : JSString} {index : Nat} {node : FragmentNode} {nodes : List FragmentNode}
    (first : JSString) (apart : Apart node nodes) : Apart (keptNode inSvg first node) (keptNodes inSvg path index nodes) := by
  intro isText next member
  rw [keptNode_isText] at isText
  cases nodes with
  | nil => cases member
  | cons other nodes =>
    cases member
    rw [keptNode_isText]
    exact apart isText other rfl

theorem keptProps_sourced {check : JSString → PropValue → PropOutcome} {props : Props} (shared : ∀ entry ∈ props, SharedProp entry)
    (keeps : ∀ {key value kept after}, check key value = .keep kept after → SourcedValue value → SourcedValue after) :
    ∀ entry ∈ (collectProps check props).1, SourcedValue entry.2 := by
  intro entry member
  obtain ⟨old, before, kept⟩ := mem_collectProps member
  obtain ⟨-, s, text, -, clean⟩ := shared old before
  exact keeps kept (.inr ⟨s, text, clean⟩)

mutual

theorem printable_kept_node {propType : PropTypeLookup} (inSvg : Bool) (path : JSString) (node : FragmentNode)
    (shared : SharedNode inSvg node) : PrintableNode propType (keptNode inSvg path node) := by
  cases node with
  | text value segments => exact ⟨shared.1, shared.2.1⟩
  | element name props children selfClosing =>
    obtain ⟨known, values, -, -, -, inner⟩ := shared
    have tag := isTagName_of_tame (known.imp_right (·.1))
    unfold keptNode
    split
    · have clean := null_notMem_collectSvgText name path 0 children (nullFree_shared _ children inner)
      refine ⟨tag, printedAttributes_clean (keptProps_sourced values fun keeps sourced => ?_), ?_⟩
      · rw [(svgTextProp_keep keeps).2]
        exact sourced
      · split
        · trivial
        · rename_i some
          exact ⟨⟨some, clean⟩, apart_nil _, trivial⟩
    · exact ⟨tag, printedAttributes_clean (keptProps_sourced values htmlProp_sourced), printable_kept _ path 0 children inner⟩

theorem printable_kept {propType : PropTypeLookup} (inSvg : Bool) (path : JSString) (index : Nat) (nodes : List FragmentNode)
    (shared : Shared inSvg nodes) : Printable propType (keptNodes inSvg path index nodes) := by
  cases nodes with
  | nil => trivial
  | cons node nodes =>
    exact ⟨printable_kept_node inSvg _ node shared.1, keptNodes_apart _ shared.2.1, printable_kept inSvg path _ nodes shared.2.2⟩

end

/-- A `style` that is opened here is closed after at most one text. -/
def EndsStyle (tokens : List Token) : Prop :=
  ∃ text rest, tokens = text ++ .closeTag (js "style") (js "style") :: rest ∧ (text = [] ∨ ∃ value, text = [.text value])

/-- Every `style` holds at most one text. -/
def StyleClosed : List Token → Prop
  | [] => True
  | token :: rest => (∀ attributes, token = .openTag (js "style") (js "style") attributes false → EndsStyle rest) ∧ StyleClosed rest

theorem StyleClosed.cons {token : Token} {rest : List Token} (other : ∀ attributes, token ≠ .openTag (js "style") (js "style") attributes false)
    (closed : StyleClosed rest) : StyleClosed (token :: rest) :=
  ⟨fun attributes equal => absurd equal (other attributes), closed⟩

theorem texts_of_printable {propType : PropTypeLookup} {nodes : List FragmentNode} (printable : Printable propType nodes)
    (texts : TextOnly nodes) : nodes = [] ∨ ∃ value segments, nodes = [.text value segments] := by
  cases nodes with
  | nil => exact .inl rfl
  | cons node nodes =>
    unfold TextOnly at texts
    rw [List.forall_mem_cons] at texts
    have alone : nodes = [] := by
      cases nodes with
      | nil => rfl
      | cons next nodes =>
        have notText := printable.2.1 texts.1 next rfl
        rw [texts.2 next (List.mem_cons_self ..)] at notText
        cases notText
    cases node with
    | text value segments => exact .inr ⟨value, segments, by rw [alone]⟩
    | element name props children selfClosing => exact absurd texts.1 (by simp [FragmentNode.isText])

mutual

theorem styleClosed_tame_node {propType : PropTypeLookup} (inSvg : Bool) (node : FragmentNode) (tame : TameNode inSvg node)
    (printable : PrintableNode propType node) {rest : List Token} (closed : StyleClosed rest) :
    StyleClosed (nodeTokens propType node ++ rest) := by
  cases node with
  | text value segments => exact .cons (fun _ impossible => by cases impossible) closed
  | element name props children selfClosing =>
    have notTitle : js "style" ∉ svgTextElements := by decide
    obtain ⟨-, how, inner⟩ := tame
    have lower := (knownElement_units (how.imp (·.1) (·.1))).2.2
    unfold nodeTokens
    rw [lower]
    simp only
    split
    · exact .cons (fun _ impossible => by cases impossible) closed
    · have after : StyleClosed (.closeTag name name :: rest) := .cons (fun _ impossible => by cases impossible) closed
      have inside := styleClosed_tame_nodes _ children inner printable.2.2 after
      rw [List.cons_append, List.append_assoc]
      refine ⟨fun attributes equal => ?_, inside⟩
      obtain rfl : name = js "style" := (Token.openTag.inj equal).1
      have texts : TextOnly children := by
        rcases how with ⟨-, -, style⟩ | ⟨title, -⟩
        · exact style rfl
        · exact absurd title notTitle
      rcases texts_of_printable printable.2.2 texts with rfl | ⟨value, segments, rfl⟩
      · exact ⟨[], rest, rfl, .inl rfl⟩
      · exact ⟨[.text value], rest, rfl, .inr ⟨value, rfl⟩⟩

/-- What the HTML side prints keeps every `style` to one text. -/
theorem styleClosed_tame_nodes {propType : PropTypeLookup} (inSvg : Bool) (nodes : List FragmentNode) (tame : Tame inSvg nodes)
    (printable : Printable propType nodes) {rest : List Token} (closed : StyleClosed rest) :
    StyleClosed (nodesTokens propType nodes ++ rest) := by
  cases nodes with
  | nil => exact closed
  | cons node nodes =>
    rw [nodesTokens, List.append_assoc]
    exact styleClosed_tame_node inSvg node tame.1 printable.1 (styleClosed_tame_nodes inSvg nodes tame.2 printable.2.2 closed)

end

/-- An element starts with an open tag. -/
theorem keptNode_opens (propType : PropTypeLookup) (inSvg : Bool) (path : JSString) {node : FragmentNode}
    (element : node.isText = false) :
    ∃ tag rawTag attributes closed rest,
      nodeTokens propType (keptNode inSvg path node) = .openTag tag rawTag attributes closed :: rest := by
  rw [← keptNode_isText inSvg path node] at element
  cases shape : keptNode inSvg path node with
  | text value segments =>
    rw [shape] at element
    cases element
  | element name props children selfClosing =>
    unfold nodeTokens
    simp only
    split
    · exact ⟨_, _, _, _, _, rfl⟩
    · exact ⟨_, _, _, _, _, rfl⟩

section Aligned

variable {propType : PropTypeLookup} {inSvg : Bool} {path : JSString}

theorem nil_of_closes {index : Nat} {nodes : List FragmentNode} {rest after : List Token} {tag rawTag : JSString}
    (closes : nodesTokens propType (keptNodes inSvg path index nodes) ++ rest = .closeTag tag rawTag :: after) : nodes = [] := by
  cases nodes with
  | nil => rfl
  | cons node nodes =>
    rw [keptNodes, nodesTokens] at closes
    cases isText : node.isText with
    | true =>
      cases node with
      | text value segments => cases closes
      | element name props children selfClosing => cases isText
    | false =>
      obtain ⟨_, _, _, _, _, opens⟩ := keptNode_opens propType inSvg (childPath path index) isText
      rw [opens] at closes
      cases closes

theorem textOnly_of_endsStyle {index : Nat} {nodes : List FragmentNode} {rest : List Token}
    (ends : EndsStyle (nodesTokens propType (keptNodes inSvg path index nodes) ++ rest)) : TextOnly nodes := by
  obtain ⟨text, after, shape, one⟩ := ends
  cases nodes with
  | nil => exact fun node impossible => absurd impossible List.not_mem_nil
  | cons node nodes =>
    rcases one with rfl | ⟨value, rfl⟩
    · cases nil_of_closes shape
    · rw [keptNodes, nodesTokens] at shape
      cases isText : node.isText with
      | true =>
        cases node with
        | element name props children selfClosing => cases isText
        | text value' segments =>
          have later := (List.cons.inj shape).2
          rw [nil_of_closes later]
          exact List.forall_mem_singleton.mpr rfl
      | false =>
        obtain ⟨_, _, _, _, _, opens⟩ := keptNode_opens propType inSvg (childPath path index) isText
        rw [opens] at shape
        cases shape

theorem StyleClosed.append {tokens rest : List Token} (closed : StyleClosed (tokens ++ rest)) : StyleClosed rest := by
  induction tokens with
  | nil => exact closed
  | cons token tokens ih => exact ih closed.2

mutual

theorem styles_of_closed_node (inSvg : Bool) (path : JSString) (node : FragmentNode) (shared : SharedNode inSvg node) {rest : List Token}
    (closed : StyleClosed (nodeTokens propType (keptNode inSvg path node) ++ rest)) : StylesNode TextOnly node := by
  cases node with
  | text value segments => trivial
  | element name props children selfClosing =>
    obtain ⟨known, -, -, void, rfl, inner⟩ := shared
    have lower := (knownElement_units (known.imp_right (·.1))).2.2
    have notTitle : js "style" ∉ svgTextElements := by decide
    have notVoid : js "style" ∉ voidElements := by decide
    unfold StylesNode
    unfold keptNode nodeTokens at closed
    split
    · rename_i isStyle
      subst isStyle
      simp only [notTitle, false_and, if_false, printsClosed, notVoid, false_or, Bool.false_eq_true, decide_false, lower,
        List.cons_append, List.append_assoc] at closed
      exact textOnly_of_endsStyle (closed.1 _ rfl)
    · split
      · trivial
      · rename_i notTitle
        simp only [notTitle, false_and, if_false] at closed
        split at closed
        · rename_i isClosed
          have isVoid : name ∈ voidElements := by simpa [printsClosed] using isClosed
          rw [void isVoid]
          trivial
        · rw [List.cons_append, List.append_assoc] at closed
          exact styles_of_closed _ path 0 children inner closed.2

/-- Where what the J5ML side prints keeps every `style` to one text, the tree does. -/
theorem styles_of_closed (inSvg : Bool) (path : JSString) (index : Nat) (nodes : List FragmentNode) (shared : Shared inSvg nodes)
    {rest : List Token} (closed : StyleClosed (nodesTokens propType (keptNodes inSvg path index nodes) ++ rest)) :
    Styles TextOnly nodes := by
  cases nodes with
  | nil => trivial
  | cons node nodes =>
    rw [keptNodes, nodesTokens, List.append_assoc] at closed
    exact ⟨styles_of_closed_node inSvg _ node shared.1 closed, styles_of_closed inSvg path _ nodes shared.2.2 closed.append⟩

end

mutual

theorem aligned_node (inSvg : Bool) (path : JSString) (node : FragmentNode) (shared : SharedNode inSvg node)
    (styles : StylesNode TextOnly node) {rest rest' : List Token}
    (same : nodeTokens propType (restyleNode (keptNode inSvg path node)) ++ rest =
      nodeTokens propType (keptNode inSvg path node) ++ rest') : StylesNode CleanText node ∧ rest = rest' := by
  cases node with
  | text value segments => exact ⟨trivial, List.append_cancel_left same⟩
  | element name props children selfClosing =>
    obtain ⟨known, -, -, void, rfl, inner⟩ := shared
    have notTitle : js "style" ∉ svgTextElements := by decide
    have notVoid : js "style" ∉ voidElements := by decide
    unfold StylesNode at styles ⊢
    unfold keptNode at same
    by_cases isStyle : name = js "style"
    · subst isStyle
      rw [if_pos rfl] at styles ⊢
      simp only [notTitle, false_and, if_false, keptNodes_texts styles, restyleNode, if_true, nodeTokens, printsClosed, notVoid,
        false_or, Bool.false_eq_true, decide_false, List.cons_append, List.append_assoc, List.cons.injEq, true_and] at same
      rcases texts_of_shared inner styles with rfl | ⟨value, rfl, some⟩
      · exact ⟨fun node impossible => absurd impossible List.not_mem_nil, (List.cons.inj same).2⟩
      · -- The text of the style is the next token on both sides.
        simp only [restyleTexts, List.flatMap_singleton, textValue] at same
        split at same
        · cases same
        · simp only [nodesTokens, nodeTokens, List.cons_append, List.nil_append, List.cons.injEq, Token.text.injEq, true_and] at same
          exact ⟨List.forall_mem_singleton.mpr ⟨value, none, rfl, same.1⟩, same.2⟩
    · rw [if_neg isStyle] at styles ⊢
      by_cases title : name ∈ svgTextElements
      · have inside : inSvg = true := (known.resolve_left fun allowed => (allowedElement_disjoint name allowed).1 title).2
        simp only [title, inside, and_self, if_true, keptTitle, restyleNode, if_neg isStyle] at same ⊢
        exact ⟨trivial, List.append_cancel_left same⟩
      · simp only [title, false_and, if_false, restyleNode, if_neg isStyle] at same styles ⊢
        by_cases isVoid : name ∈ voidElements
        · simp only [nodeTokens, printsClosed, isVoid, true_or, decide_true, if_true, List.cons_append, List.nil_append,
            List.cons.injEq, true_and] at same
          rw [void isVoid]
          exact ⟨trivial, same⟩
        · simp only [nodeTokens, printsClosed, isVoid, false_or, Bool.false_eq_true, false_and, decide_false, if_false, List.cons_append,
            List.append_assoc, List.cons.injEq, true_and] at same
          obtain ⟨clean, after⟩ := aligned_nodes _ path 0 children inner styles same
          exact ⟨clean, (List.cons.inj after).2⟩

/-- Where the two sides print alike, every text of a style is clean. -/
theorem aligned_nodes (inSvg : Bool) (path : JSString) (index : Nat) (nodes : List FragmentNode) (shared : Shared inSvg nodes)
    (styles : Styles TextOnly nodes) {rest rest' : List Token}
    (same : nodesTokens propType (restyleNodes (keptNodes inSvg path index nodes)) ++ rest =
      nodesTokens propType (keptNodes inSvg path index nodes) ++ rest') : Styles CleanText nodes ∧ rest = rest' := by
  cases nodes with
  | nil => exact ⟨trivial, same⟩
  | cons node nodes =>
    rw [keptNodes, restyleNodes, nodesTokens, nodesTokens, List.append_assoc, List.append_assoc] at same
    obtain ⟨first, later⟩ := aligned_node inSvg _ node shared.1 styles.1 same
    obtain ⟨others, after⟩ := aligned_nodes inSvg path _ nodes shared.2.2 styles.2 later
    exact ⟨⟨first, others⟩, after⟩

end

end Aligned

theorem restyleNode_isText (node : FragmentNode) : (restyleNode node).isText = node.isText := by
  cases node with
  | text value segments => rfl
  | element name props children selfClosing =>
    unfold restyleNode
    split
    · rfl
    · split
      · rfl
      · rfl

theorem null_notMem_textValues {propType : PropTypeLookup} {nodes : List FragmentNode} (printable : Printable propType nodes) :
    0 ∉ nodes.flatMap textValue := by
  induction nodes with
  | nil => exact List.not_mem_nil
  | cons node nodes ih =>
    rw [List.flatMap_cons, List.mem_append, not_or]
    refine ⟨?_, ih printable.2.2⟩
    cases node with
    | text value segments => exact printable.1.2
    | element name props children selfClosing => exact List.not_mem_nil

mutual

theorem printable_restyle_node {propType : PropTypeLookup} (node : FragmentNode) (printable : PrintableNode propType node) :
    PrintableNode propType (restyleNode node) := by
  cases node with
  | text value segments => exact printable
  | element name props children selfClosing =>
    obtain ⟨tag, clean, inner⟩ := printable
    unfold restyleNode
    split
    · refine ⟨tag, clean, ?_⟩
      unfold restyleTexts
      simp only
      split
      · trivial
      · rename_i some
        exact ⟨⟨some, null_notMem_sanitizeStyleBlock (null_notMem_textValues inner)⟩, apart_nil _, trivial⟩
    · split
      · exact ⟨tag, clean, inner⟩
      · exact ⟨tag, clean, printable_restyle children inner⟩

theorem printable_restyle {propType : PropTypeLookup} (nodes : List FragmentNode) (printable : Printable propType nodes) :
    Printable propType (restyleNodes nodes) := by
  cases nodes with
  | nil => trivial
  | cons node nodes =>
    refine ⟨printable_restyle_node node printable.1, fun isText next member => ?_, printable_restyle nodes printable.2.2⟩
    rw [restyleNode_isText] at isText
    cases nodes with
    | nil => cases member
    | cons other nodes =>
      cases member
      rw [restyleNode_isText]
      exact printable.2.1 isText other rfl

end

/-- Where the two syntaxes are sanitized alike, every style outside a `title` holds clean text. -/
theorem styles_of_agree {tree : FragmentTree} (shared : Shared false tree) (titles : PlainTitles tree)
    (agree : sanitizeJsml (nodesToJsml tree) = sanitizeHTML (treeToHtml tree)) : Styles CleanText tree := by
  have kept : Printable (fun _ _ => none) (keptNodes false [] 0 tree) := printable_kept false [] 0 tree shared
  have jsml : tokenize (sanitizeJsml (nodesToJsml tree)) =
      nodesTokens (fun _ _ => none) (keptNodes false [] 0 tree) := by
    rw [sanitizeJsml_shared shared]
    exact tokenize_printed kept
  obtain ⟨walked, tame, printed⟩ : ∃ walked, Tame false walked ∧
      sanitizeHTML (treeToHtml tree) = nodesToHtml (fun _ _ => none) walked :=
    ⟨_, walkNodes_tame (builtinWalk_textHtml id) false [] 0 _ (htmlToTree_sourced _), rfl⟩
  have texts : Styles TextOnly tree := by
    have printable : Printable (fun _ _ => none) (joinTexts walked) := joinTexts_printable _ tame
    have html : tokenize (sanitizeHTML (treeToHtml tree)) = nodesTokens (fun _ _ => none) (joinTexts walked) := by
      rw [printed, ← nodesToHtml_joinTexts]
      exact tokenize_printed printable
    have closed : StyleClosed (nodesTokens (fun _ _ => none) (joinTexts walked) ++ []) :=
      styleClosed_tame_nodes false _ (joinTexts_tame _ tame) printable trivial
    rw [List.append_nil, ← html, ← agree, jsml, ← List.append_nil (nodesTokens _ _)] at closed
    exact styles_of_closed false [] 0 tree shared closed
  have restyled : tokenize (sanitizeHTML (treeToHtml tree)) =
      nodesTokens (fun _ _ => none) (restyleNodes (keptNodes false [] 0 tree)) := by
    rw [sanitizeHTML_shared shared titles texts]
    exact tokenize_printed (printable_restyle _ kept)
  have same : nodesTokens (fun _ _ => none) (restyleNodes (keptNodes false [] 0 tree)) ++ [] =
      nodesTokens (fun _ _ => none) (keptNodes false [] 0 tree) ++ [] := by
    rw [← restyled, ← agree, jsml]
  exact (aligned_nodes false [] 0 tree shared texts same).1

/-- The two syntaxes are sanitized alike where every `style` holds clean text, and only there. A `style`
inside a `style` in an SVG `title` is left out of the second half: there the HTML side may still agree. -/
theorem syntaxes_agree_iff {tree : FragmentTree} (shared : Shared false tree) :
    (PlainTitles tree ∧ Styles CleanText tree →
      sanitizeJsml (nodesToJsml tree) = sanitizeHTML (treeToHtml tree)) ∧
    (PlainTitles tree → sanitizeJsml (nodesToJsml tree) = sanitizeHTML (treeToHtml tree) → Styles CleanText tree) :=
  ⟨fun clean => syntaxes_agree shared clean.1 clean.2, fun titles agree => styles_of_agree shared titles agree⟩

/-- A link, a style sheet with nothing to clean and a titled drawing. -/
def sharedSample : FragmentTree :=
  [.element (js "a") [(js "href", .str (js "/x"))] [.text (js "go") none] false,
    .element (js "style") [] [.text (js "p\x7b color:red; \x7d") none] false,
    .element (js "svg") [] [.element (js "title") [] [.text (js "disc") none] false] false]

theorem syntaxes_agree_sample : sanitizeJsml (nodesToJsml sharedSample) = sanitizeHTML (treeToHtml sharedSample) := by
  have names : js "a" ∈ allowedElements ∧ js "style" ∈ allowedElements ∧ js "svg" ∈ allowedElements ∧
      js "title" ∈ svgTextElements := by decide +kernel
  have filled : js "a" ∉ voidElements ∧ js "style" ∉ voidElements ∧ js "svg" ∉ voidElements ∧
      js "title" ∉ voidElements := by decide +kernel
  have href : SharedProp (js "href", .str (js "/x")) := ⟨by decide +kernel, js "/x", rfl, by decide, by decide⟩
  have shared : Shared false sharedSample := by
    simp [sharedSample, Shared, SharedNode, Apart, FragmentNode.isText, names, filled, href]
    decide +kernel
  have titles : PlainTitles sharedSample := by
    simp [sharedSample, PlainTitles, PlainTitlesNode, Unnested, UnnestedNode, Styleless, StylelessNode]
  have styles : Styles CleanText sharedSample := by
    simp [sharedSample, Styles, StylesNode, CleanText]
    decide +kernel
  exact (syntaxes_agree_iff shared).1 ⟨titles, styles⟩

/-- A style sheet that loads a picture: J5ML leaves its text as it is, HTML cleans it. -/
theorem syntaxes_disagree :
    Shared false [.element (js "style") [] [.text (js "a\x7bbackground:url(x)\x7d") none] false] ∧
    sanitizeJsml (nodesToJsml [.element (js "style") [] [.text (js "a\x7bbackground:url(x)\x7d") none] false]) ≠
      sanitizeHTML (treeToHtml [.element (js "style") [] [.text (js "a\x7bbackground:url(x)\x7d") none] false]) := by
  refine ⟨?_, by decide +kernel⟩
  have name : js "style" ∈ allowedElements ∧ js "style" ∉ voidElements := by decide +kernel
  simp [Shared, SharedNode, Apart, FragmentNode.isText, name]
  decide +kernel

end Xript
