import Xript.Sanitize.Stable

namespace Xript

mutual

/-- The nodes that the tree builder makes: texts without pieces, and no children where the tag has no end tag. -/
def ShapedNode : FragmentNode → Prop
  | .text _ segments => segments = none
  | .element name _ children selfClosing =>
    (toLowerCase name ∈ voidElements → children = [] ∧ selfClosing = false) ∧
      (selfClosing = true → toLowerCase name ≠ js "style" → children = []) ∧ Shaped children

def Shaped : List FragmentNode → Prop
  | [] => True
  | node :: nodes => ShapedNode node ∧ Shaped nodes

end

theorem Shaped.append {s t : List FragmentNode} (first : Shaped s) (second : Shaped t) : Shaped (s ++ t) := by
  induction s with
  | nil => exact second
  | cons node s ih => exact ⟨first.1, ih first.2⟩

/-- What holds of an open element. -/
structure ShapedFrame (frame : Frame) : Prop where
  opened : toLowerCase frame.name ∉ voidElements
  children : Shaped frame.children

/-- The tree builder's invariant. -/
structure ShapedBuilder (b : TreeBuilder) : Prop where
  stack : ∀ frame ∈ b.stack, ShapedFrame frame
  root : ShapedFrame b.root

theorem ShapedFrame.push {frame : Frame} {node : FragmentNode} (shaped : ShapedFrame frame) (ok : ShapedNode node) :
    ShapedFrame (frame.push node) :=
  ⟨shaped.opened, shaped.children.append ⟨ok, trivial⟩⟩

theorem ShapedFrame.close {frame : Frame} (shaped : ShapedFrame frame) : ShapedNode frame.close :=
  ⟨fun void => absurd void shaped.opened, nofun, shaped.children⟩

namespace ShapedBuilder

variable {b : TreeBuilder}

theorem push {node : FragmentNode} (shaped : ShapedBuilder b) (ok : ShapedNode node) : ShapedBuilder (b.push node) := by
  unfold TreeBuilder.push
  split
  · exact ⟨shaped.stack, shaped.root.push ok⟩
  · rename_i frame stack top
    have frames := shaped.stack
    rw [top, List.forall_mem_cons] at frames
    exact ⟨List.forall_mem_cons.mpr ⟨frames.1.push ok, frames.2⟩, shaped.root⟩

theorem pop (shaped : ShapedBuilder b) : ShapedBuilder b.pop := by
  unfold TreeBuilder.pop
  split
  · exact shaped
  · rename_i frame stack top
    have frames := shaped.stack
    rw [top, List.forall_mem_cons] at frames
    exact push ⟨frames.2, shaped.root⟩ frames.1.close

theorem popMany (n : Nat) (shaped : ShapedBuilder b) : ShapedBuilder (b.popMany n) := by
  induction n generalizing b with
  | zero => exact shaped
  | succ n ih => exact ih shaped.pop

theorem closeElement (tag : JSString) (shaped : ShapedBuilder b) : ShapedBuilder (b.closeElement tag) := by
  unfold TreeBuilder.closeElement
  split
  · exact shaped.popMany _
  · exact shaped

end ShapedBuilder

/-- The tag of a token is its name in lower case. -/
def LowerTag : Token → Prop
  | .openTag tag rawTag _ _ => toLowerCase rawTag = tag
  | _ => True

theorem CleanToken.lower {token : Token} (clean : CleanToken token) : LowerTag token := by
  cases token with
  | openTag tag rawTag attributes selfClosing => exact clean.1
  | text | comment | closeTag => trivial

theorem openElement_shaped {profile : Option FormatProfile} {b : TreeBuilder} {tag rawTag : JSString}
    {attributes : List Attribute} {selfClosing : Bool} {rest : List Token} (shaped : ShapedBuilder b)
    (lower : toLowerCase rawTag = tag) :
    ShapedBuilder (openElement profile b tag rawTag attributes selfClosing rest) := by
  have hint : ∀ children : List FragmentNode, (tag ∈ voidElements → children = []) →
      (selfClosing = true → tag ≠ js "style" → children = []) → Shaped children →
      ShapedNode (.element rawTag (attributesToProps attributes) children (selfClosing && tag ∉ voidElements)) := by
    intro children void closed inner
    refine ⟨fun isVoid => ?_, fun isClosed style => ?_, inner⟩
    · rw [lower] at isVoid
      exact ⟨void isVoid, by simp [isVoid]⟩
    · rw [lower] at style
      exact closed (Bool.and_eq_true_iff.mp isClosed).1 style
  unfold openElement
  simp only
  split
  · have raw : ∀ children, (children = if tag = js "style" then styleChildren rest else []) →
        ShapedBuilder (b.push (.element rawTag (attributesToProps attributes) children (selfClosing && tag ∉ voidElements))) := by
      rintro children rfl
      refine shaped.push (hint _ (fun isVoid => ?_) (fun _ style => if_neg style) ?_)
      · refine if_neg ?_
        rintro rfl
        exact absurd isVoid (by decide)
      · split
        · unfold styleChildren
          simp only
          split
          · trivial
          · exact ⟨rfl, trivial⟩
        · trivial
    split
    · exact raw _ rfl
    · exact ⟨(raw _ rfl).stack, (raw _ rfl).root⟩
  · split
    · exact shaped.push (hint [] (fun _ => rfl) (fun _ _ => rfl) trivial)
    · rename_i childless
      have nonvoid : tag ∉ voidElements := fun isVoid => childless (by simp [isVoid])
      exact ⟨List.forall_mem_cons.mpr ⟨⟨by rwa [lower], trivial⟩, shaped.stack⟩, shaped.root⟩

theorem handleToken_shaped {profile : Option FormatProfile} {b : TreeBuilder} {token : Token} {rest : List Token}
    (shaped : ShapedBuilder b) (lower : LowerTag token) : ShapedBuilder (handleToken profile b token rest) := by
  cases token with
  | text value => exact shaped.push rfl
  | comment value => exact shaped
  | openTag tag rawTag attributes selfClosing => exact openElement_shaped shaped lower
  | closeTag tag rawTag =>
    simp only [handleToken]
    split
    · exact shaped
    · exact shaped.closeElement tag

theorem buildToken_shaped {profile : Option FormatProfile} {b : TreeBuilder} {token : Token} {rest : List Token}
    (shaped : ShapedBuilder b) (lower : LowerTag token) : ShapedBuilder (buildToken profile b token rest) := by
  unfold buildToken
  split
  · exact handleToken_shaped shaped lower
  · split
    · split
      · exact ⟨shaped.stack, shaped.root⟩
      · split
        · exact handleToken_shaped ⟨shaped.stack, shaped.root⟩ trivial
        · exact shaped
    · exact shaped

theorem buildTree_shaped {profile : Option FormatProfile} {b : TreeBuilder} {tokens : List Token}
    (shaped : ShapedBuilder b) (lower : ∀ token ∈ tokens, LowerTag token) : ShapedBuilder (buildTree profile b tokens) := by
  induction tokens generalizing b with
  | nil => exact shaped
  | cons token tokens ih =>
    rw [List.forall_mem_cons] at lower
    exact ih (buildToken_shaped shaped lower.1) lower.2

theorem htmlToTree_shaped (input : JSString) (profile : Option FormatProfile) : Shaped (htmlToTree input profile) := by
  have start : ShapedBuilder .start := ⟨nofun, ⟨by decide +kernel, trivial⟩⟩
  have lower : ∀ token ∈ tokenize input, LowerTag token := fun token member => (tokenize_clean input token member).lower
  exact ((buildTree_shaped start lower).popMany _).root.children

/-- Without a vocabulary the HTML rules apply as under the built-in one. -/
theorem htmlToTree_none (input : JSString) : htmlToTree input none = htmlToTree input (some textHtml) := by
  have same : ∀ (b : TreeBuilder) (tokens : List Token), buildTree none b tokens = buildTree (some textHtml) b tokens := by
    intro b tokens
    induction tokens generalizing b with
    | nil => rfl
    | cons token tokens ih => exact ih _
  rw [htmlToTree, htmlToTree, same]

mutual

/-- The nodes that the sanitizer leaves: each attribute once, under a name that prints. -/
def ReadableNode : FragmentNode → Prop
  | .text _ segments => segments = none
  | .element name props children selfClosing =>
    ((Record.keys props).Nodup ∧ ∀ entry ∈ props, isValidAttributeName entry.1 = true) ∧
      (name ∈ voidElements → children = [] ∧ selfClosing = false) ∧
      (selfClosing = true → name ≠ js "style" → children = []) ∧ Readable children

def Readable : List FragmentNode → Prop
  | [] => True
  | node :: nodes => ReadableNode node ∧ Readable nodes

end

theorem Readable.append {s t : List FragmentNode} (first : Readable s) (second : Readable t) : Readable (s ++ t) := by
  induction s with
  | nil => exact second
  | cons node s ih => exact ⟨first.1, ih first.2⟩

theorem nodup_keys_collectProps (check : JSString → PropValue → PropOutcome) (props : Props) :
    (Record.keys (collectProps check props).1).Nodup := by
  unfold collectProps
  refine List.foldlRecOn (motive := fun found : Props × Report => (Record.keys found.1).Nodup) props _ List.nodup_nil
    fun found distinct entry _ => ?_
  split
  · exact Record.nodup_keys_set distinct _ _
  · exact distinct

theorem canonicalAttributeName_valid {lower : JSString} (valid : isValidAttributeName lower = true) :
    isValidAttributeName (canonicalAttributeName lower) = true := by
  have table : ∀ entry ∈ caseSensitiveAttributes, isValidAttributeName entry.2 = true := by decide +kernel
  unfold canonicalAttributeName
  cases found : caseSensitiveAttributes.lookup lower with
  | none => exact valid
  | some spelled =>
    obtain ⟨before, after, split, -⟩ := List.lookup_eq_some_iff.mp found
    exact table (lower, spelled) (by rw [split]; simp)

theorem htmlProp_valid {ctx : WalkContext} {tag path key kept : JSString} {value after : PropValue}
    (keeps : htmlProp ctx tag path key value = .keep kept after) : isValidAttributeName kept = true := by
  obtain ⟨⟨-, valid, -⟩, ⟨rfl, -⟩ | ⟨rfl, -⟩ | ⟨rfl, -⟩⟩ := htmlProp_keep keeps
  · exact valid
  · exact valid
  · exact canonicalAttributeName_valid valid

theorem svgTextProp_valid {tag path key kept : JSString} {value after : PropValue}
    (keeps : svgTextProp tag path key value = .keep kept after) : isValidAttributeName kept = true := by
  unfold svgTextProp at keeps
  simp only at keeps
  split at keeps
  · rename_i allowed
    cases keeps
    exact allowed.2.1
  · unfold dropAttribute at keeps
    cases keeps

theorem sanitizeSvgTextNode_readable {ctx : WalkContext} (builtin : BuiltinWalk ctx) {tag path : JSString} {props : Props}
    {children : List FragmentNode} (text : tag ∈ svgTextElements) :
    ReadableNode (sanitizeSvgTextNode ctx tag path props children).1 := by
  have table : ∀ name ∈ svgTextElements, name ∉ voidElements := by decide
  have valid : ∀ entry ∈ (collectProps (svgTextProp tag path) props).1, isValidAttributeName entry.1 = true := by
    intro entry member
    obtain ⟨old, -, keeps⟩ := mem_collectProps member
    exact svgTextProp_valid keeps
  have own := And.intro (nodup_keys_collectProps (svgTextProp tag path) props) valid
  unfold sanitizeSvgTextNode
  simp only
  split
  · exact ⟨own, fun void => absurd void (table tag text), nofun, trivial⟩
  · rw [textNode_plain builtin]
    exact ⟨own, fun void => absurd void (table tag text), nofun, rfl, trivial⟩

mutual

theorem walkNode_readable {ctx : WalkContext} (builtin : BuiltinWalk ctx) (inSvg : Bool) (path : JSString)
    (node : FragmentNode) (shaped : ShapedNode node) : Readable (walkNode ctx inSvg path .any node).1 := by
  cases node with
  | text value segments =>
    rw [walkNode_text builtin]
    exact ⟨shaped, trivial⟩
  | element name props children selfClosing =>
    obtain ⟨void, hint, inner⟩ := shaped
    unfold walkNode
    rw [builtin.resolve]
    rcases resolveHtml_cases name ctx.profile inSvg with ⟨-, text, claim⟩ | claim | claim | ⟨-, claim⟩ | claim
    · rw [claim]
      exact ⟨sanitizeSvgTextNode_readable builtin text, trivial⟩
    · rw [claim]
      trivial
    · rw [claim]
      exact walkNodes_readable builtin inSvg path 0 children inner
    · rw [claim]
      have empty : ∀ inside, children = [] → (walkNodes ctx inside path .any 0 children).1 = [] := by
        rintro inside rfl
        rfl
      refine ⟨⟨⟨nodup_keys_collectProps _ _, ?_⟩, fun isVoid => ?_, fun isClosed style => ?_, ?_⟩, trivial⟩
      · intro entry member
        obtain ⟨old, -, keeps⟩ := mem_collectProps member
        exact htmlProp_valid keeps
      · exact ⟨empty _ (void isVoid).1, (void isVoid).2⟩
      · exact empty _ (hint isClosed style)
      · exact walkNodes_readable builtin _ path 0 children inner
    · rw [claim]
      simp only [Option.getD_none]
      split
      · exact walkNodes_readable builtin inSvg path 0 children inner
      · trivial

/-- What a walk over the built-in vocabulary leaves is readable. -/
theorem walkNodes_readable {ctx : WalkContext} (builtin : BuiltinWalk ctx) (inSvg : Bool) (path : JSString) (index : Nat)
    (nodes : List FragmentNode) (shaped : Shaped nodes) : Readable (walkNodes ctx inSvg path .any index nodes).1 := by
  cases nodes with
  | nil => trivial
  | cons node nodes =>
    rw [walkNodes]
    exact (walkNode_readable builtin inSvg _ node shaped.1).append (walkNodes_readable builtin inSvg path _ nodes shaped.2)

end

theorem arrayIndex_of_valid {key : JSString} (valid : isValidAttributeName key = true) : arrayIndex key = none := by
  cases key with
  | nil => cases valid
  | cons c s =>
    rw [isValidAttributeName, Bool.and_eq_true] at valid
    have letter := valid.1
    have nondigit : isDigit c = false := by
      simp only [isLetter, isUpper, isLower, isDigit, Bool.or_eq_true, Bool.and_eq_true, decide_eq_true_eq,
        Bool.and_eq_false_iff, decide_eq_false_iff_not] at letter ⊢
      omega
    exact if_neg fun index => by simp [nondigit] at index

/-- Attributes of different names become one prop each, in order. -/
theorem attributesToProps_distinct {attributes : List Attribute} (distinct : (attributes.map Attribute.name).Nodup)
    (names : ∀ a ∈ attributes, arrayIndex a.name = none) : attributesToProps attributes = attributes.map attributeProp := by
  have loop : ∀ (attributes : List Attribute) (props : Props), (props.keys ++ attributes.map Attribute.name).Nodup →
      (∀ a ∈ attributes, arrayIndex a.name = none) →
      attributes.foldl addAttribute props = props ++ attributes.map attributeProp := by
    intro attributes
    induction attributes with
    | nil => exact fun props _ _ => (List.append_nil props).symm
    | cons a attributes ih =>
      intro props distinct names
      rw [List.forall_mem_cons] at names
      have absent : a.name ∉ props.keys := by
        rw [List.map_cons, List.nodup_append] at distinct
        exact fun inside => distinct.2.2 _ inside _ (List.mem_cons_self ..) rfl
      have added : addAttribute props a = props ++ [attributeProp a] := by
        rw [addAttribute, if_neg absent, Record.set_new absent names.1]
        rfl
      rw [List.foldl_cons, added, ih _ ?_ names.2, List.append_assoc]
      · rfl
      · have keys : Record.keys (props ++ [attributeProp a]) = props.keys ++ [a.name] := by
          rw [Record.keys, List.map_append]
          rfl
        rwa [keys, List.append_assoc]
  exact loop attributes [] distinct names

mutual

def decideStylelessNode : (node : FragmentNode) → Decidable (StylelessNode node)
  | .text _ _ => .isTrue trivial
  | .element name _ children _ =>
    have := decideStyleless children
    inferInstanceAs (Decidable (toLowerCase name ≠ js "style" ∧ Styleless children))

def decideStyleless : (nodes : List FragmentNode) → Decidable (Styleless nodes)
  | [] => .isTrue trivial
  | node :: nodes =>
    have := decideStylelessNode node
    have := decideStyleless nodes
    inferInstanceAs (Decidable (StylelessNode node ∧ Styleless nodes))

end

instance : DecidablePred Styleless := decideStyleless

/-- A prop as it reads in print: an empty text is a bare attribute. -/
def readProp (entry : JSString × PropValue) : JSString × PropValue :=
  match entry.2 with
  | .str [] => (entry.1, .bool true)
  | _ => entry

theorem attributesToProps_printed {propType : PropTypeLookup} {name : JSString} {props : Props}
    (sourced : ∀ entry ∈ props, SourcedValue entry.2) (distinct : (Record.keys props).Nodup)
    (valid : ∀ entry ∈ props, isValidAttributeName entry.1 = true) :
    attributesToProps (printedAttributes propType name props) = props.map readProp := by
  have each : ∀ entry ∈ props, ∃ a, printedAttribute (propType name entry.1) entry.1 entry.2 = some a ∧
      a.name = entry.1 ∧ attributeProp a = readProp entry := by
    intro entry member
    obtain ⟨key, value⟩ := entry
    have prints := valid _ member
    rcases sourced _ member with bare | ⟨s, text, -⟩
    · dsimp only at bare prints
      subst bare
      exact ⟨⟨key, []⟩, if_pos prints, rfl, rfl⟩
    · dsimp only at text prints
      subst text
      refine ⟨⟨key, s⟩, if_pos prints, rfl, ?_⟩
      cases s with
      | nil => rfl
      | cons c s => rfl
  have shape : ∀ props : Props, (∀ entry ∈ props, ∃ a, printedAttribute (propType name entry.1) entry.1 entry.2 = some a ∧
      a.name = entry.1 ∧ attributeProp a = readProp entry) →
      (printedAttributes propType name props).map Attribute.name = props.keys ∧
        (printedAttributes propType name props).map attributeProp = props.map readProp := by
    intro props each
    induction props with
    | nil => exact ⟨rfl, rfl⟩
    | cons entry props ih =>
      rw [List.forall_mem_cons] at each
      obtain ⟨a, printed, named, read⟩ := each.1
      obtain ⟨names, reads⟩ := ih each.2
      have cons : printedAttributes propType name (entry :: props) = a :: printedAttributes propType name props :=
        List.filterMap_cons_some printed
      rw [cons, List.map_cons, List.map_cons, names, reads, named, read]
      exact ⟨rfl, rfl⟩
  obtain ⟨names, reads⟩ := shape props each
  rw [attributesToProps_distinct (by rwa [names]) ?_, reads]
  intro a member
  have inside : a.name ∈ props.keys := names ▸ List.mem_map_of_mem member
  obtain ⟨entry, old, same⟩ := List.mem_map.mp inside
  rw [← same]
  exact arrayIndex_of_valid (valid entry old)

mutual

/-- A node as it reads in print. -/
def readBackNode : FragmentNode → FragmentNode
  | .text value segments => .text value segments
  | .element name props children selfClosing => .element name (props.map readProp) (readBackNodes children) selfClosing

/-- Sibling nodes as they read in print: adjacent texts are one, and empty texts are gone. -/
def readBackNodes : List FragmentNode → List FragmentNode
  | [] => []
  | node :: nodes => attachNode (readBackNode node) (readBackNodes nodes)

end

section

variable {propType : PropTypeLookup}

theorem rereadNodes_attachNode (rest : List Token) (value : JSString) (nodes : List FragmentNode) :
    rereadNodes propType rest (attachNode (.text value none) nodes) =
      attachNode (.text value none) (rereadNodes propType rest nodes) := by
  cases nodes with
  | nil =>
    show rereadNodes propType rest (if value = [] then [] else [.text value none]) =
      if value = [] then [] else [.text value none]
    split <;> rfl
  | cons node nodes =>
    cases node with
    | text next segments => rfl
    | element name props children selfClosing =>
      have element : ∀ rest, ∃ n p c h, rereadNode propType rest (.element name props children selfClosing) =
          .element n p c h := by
        intro rest
        rw [rereadNode]
        split
        · exact ⟨_, _, _, _, rfl⟩
        · exact ⟨_, _, _, _, rfl⟩
      obtain ⟨n, p, c, h, shape⟩ := element (nodesTokens propType nodes ++ rest)
      rw [rereadNodes, shape]
      unfold attachNode
      simp only
      split
      · rw [rereadNodes, shape]
      · rw [rereadNodes, rereadNode, rereadNodes, shape]

mutual

theorem rereadNode_joinNode (inSvg : Bool) (node : FragmentNode) (rest : List Token) (tame : TameNode inSvg node)
    (readable : ReadableNode node) (styleless : StylelessNode node) :
    rereadNode propType rest (joinNode node) = readBackNode node := by
  cases node with
  | text value segments =>
    have plain : segments = none := readable
    rw [plain]
    rfl
  | element name props children selfClosing =>
    obtain ⟨sourced, how, inner⟩ := tame
    obtain ⟨⟨distinct, valid⟩, void, hint, readableInner⟩ := readable
    obtain ⟨style, stylelessInner⟩ := styleless
    have lower : toLowerCase name = name := (knownElement_units (how.imp (·.1) (·.1))).2.2
    rw [lower] at style
    have childless : selfClosing = true → children = [] := fun isClosed => hint isClosed style
    rw [joinNode, rereadNode, readBackNode, attributesToProps_printed sourced distinct valid]
    simp only [if_neg style]
    split
    · rename_i closed
      have shape : children = [] ∧ decide (name ∉ voidElements) = selfClosing := by
        rw [← lower] at void
        by_cases isVoid : name ∈ voidElements
        · obtain ⟨empty, unhinted⟩ := void (lower.symm ▸ isVoid)
          exact ⟨empty, by rw [unhinted]; simp [isVoid]⟩
        · simp only [printsClosed, isVoid, false_or, Bool.and_eq_true, decide_eq_true_eq] at closed
          exact ⟨childless closed.1.1, by rw [closed.1.1]; simp [isVoid]⟩
      rw [shape.1, shape.2]
      rfl
    · rename_i opened
      have unhinted : selfClosing = false := by
        by_contra hinted
        rw [Bool.not_eq_false] at hinted
        have empty := childless hinted
        subst empty
        exact opened (by simp [printsClosed, hinted, joinTexts])
      rw [rereadNodes_joinTexts (inSvg || name = js "svg") children _ inner readableInner stylelessInner, unhinted]

theorem rereadNodes_joinTexts (inSvg : Bool) (nodes : List FragmentNode) (rest : List Token) (tame : Tame inSvg nodes)
    (readable : Readable nodes) (styleless : Styleless nodes) :
    rereadNodes propType rest (joinTexts nodes) = readBackNodes nodes := by
  cases nodes with
  | nil => rfl
  | cons node nodes =>
    have others := rereadNodes_joinTexts inSvg nodes rest tame.2 readable.2 styleless.2
    rw [joinTexts, readBackNodes, ← others]
    cases node with
    | text value segments =>
      have plain : segments = none := readable.1
      subst plain
      exact rereadNodes_attachNode rest value _
    | element name props children selfClosing =>
      have own := rereadNode_joinNode inSvg (.element name props children selfClosing)
        (nodesTokens propType (joinTexts nodes) ++ rest) tame.1 readable.1 styleless.1
      have kept : attachNode (joinNode (.element name props children selfClosing)) (joinTexts nodes) =
          joinNode (.element name props children selfClosing) :: joinTexts nodes := by
        rw [joinNode]
        rfl
      rw [kept, rereadNodes, own, readBackNode]
      rfl

end

end

/-- The tree that the sanitizer leaves of a source is read back from its print: adjacent texts joined, empty ones left
out, and an empty attribute value read as a bare attribute. -/
theorem htmlToTree_treeToHtml (s : JSString) (strict : Bool)
    (styleless : Styleless (sanitizeTree (htmlToTree s none) textHtml ⟨strict, false⟩).tree) :
    htmlToTree (treeToHtml (sanitizeTree (htmlToTree s none) textHtml ⟨strict, false⟩).tree) none =
      readBackNodes (sanitizeTree (htmlToTree s none) textHtml ⟨strict, false⟩).tree := by
  have builtin : BuiltinWalk ⟨textHtml, strict, false, sanitizeHTML⟩ := ⟨rfl, rfl, rfl⟩
  have sourced : Sourced (htmlToTree s none) := by
    rw [htmlToTree_none]
    exact htmlToTree_sourced s
  have tame : Tame false (sanitizeTree (htmlToTree s none) textHtml ⟨strict, false⟩).tree :=
    walkNodes_tame builtin false [] 0 _ sourced
  have readable : Readable (sanitizeTree (htmlToTree s none) textHtml ⟨strict, false⟩).tree :=
    walkNodes_readable builtin false [] 0 _ (htmlToTree_shaped s none)
  generalize (sanitizeTree (htmlToTree s none) textHtml ⟨strict, false⟩).tree = tree at styleless tame readable ⊢
  have printable : Printable (fun _ _ => none) (joinTexts tree) := joinTexts_printable tree tame
  have same : treeToHtml tree = treeToHtmlWith (fun _ _ => none) (joinTexts tree) := (nodesToHtml_joinTexts tree).symm
  rw [same, htmlToTree_none, htmlToTree_printed printable (rebuildable_nodes _ (joinTexts_tame tree tame))]
  exact rereadNodes_joinTexts false tree [] tame readable styleless

theorem htmlToTree_treeToHtml_bare :
    htmlToTree (treeToHtml (sanitizeTree (htmlToTree (js "<p id='' >a<br>b</p>") none) textHtml ⟨false, false⟩).tree) none =
      readBackNodes (sanitizeTree (htmlToTree (js "<p id='' >a<br>b</p>") none) textHtml ⟨false, false⟩).tree :=
  htmlToTree_treeToHtml (js "<p id='' >a<br>b</p>") false (by decide +kernel)

end Xript
