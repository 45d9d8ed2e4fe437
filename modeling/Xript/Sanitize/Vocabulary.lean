import Xript.Sanitize.Html
import Xript.Sanitize.Interpolate

namespace Xript

inductive DiagnosticCode where
  | unknownNode
  | strippedNode
  | unknownProp
  | invalidProp
  | unsafeProp
  | illegalChild
  | invalidExpression
  | duplicateKey
  | invalidKey
  | repeatLimit
  deriving DecidableEq, Repr

inductive DiagnosticSeverity where
  | error
  | warning
  deriving DecidableEq, Repr

structure FragmentDiagnostic where
  code : DiagnosticCode
  severity : DiagnosticSeverity
  path : JSString
  node : JSString
  prop : Option JSString
  message : JSString
  deriving DecidableEq, Repr

structure StrippedAttribute where
  element : JSString
  name : JSString
  deriving DecidableEq, Repr

/-- What a walk reports beside the tree. -/
structure Report where
  diagnostics : List FragmentDiagnostic
  strippedElements : List JSString
  strippedAttributes : List StrippedAttribute
  deriving DecidableEq, Repr

namespace Report

def empty : Report := ⟨[], [], []⟩

def append (r s : Report) : Report :=
  ⟨r.diagnostics ++ s.diagnostics, r.strippedElements ++ s.strippedElements,
    r.strippedAttributes ++ s.strippedAttributes⟩

instance : Append Report := ⟨append⟩

def diagnostic (d : FragmentDiagnostic) : Report := ⟨[d], [], []⟩

def strippedElement (name : JSString) : Report := ⟨[], [name], []⟩

def strippedAttribute (element name : JSString) : Report := ⟨[], [], [⟨element, name⟩]⟩

end Report

structure VocabularyOptions where
  strictVocabulary : Bool
  interpolate : Bool

/-- What stays fixed during a walk. `html` cleans the value of an `html` sink. -/
structure WalkContext where
  profile : FormatProfile
  strict : Bool
  interpolate : Bool
  html : JSString → JSString

inductive Resolution where
  | declared (definition : NodeDefinition)
  | html (name : JSString)
  | svgText (name : JSString)
  | stripped (name : JSString)
  | unwrap
  | unknown
  deriving DecidableEq, Repr

def isMetadataPropName (name : JSString) : Bool :=
  js "data-" <+: toLowerCase name || js "aria-" <+: toLowerCase name

def vocabularySeverity (ctx : WalkContext) : DiagnosticSeverity :=
  if !ctx.profile.builtin then .error else if ctx.strict then .error else .warning

/-- The claim of the built-in vocabulary on a name; `none` when it declines. -/
def resolveHtml (name : JSString) (profile : FormatProfile) (inSvg : Bool) : Option Resolution :=
  let lower := toLowerCase name
  if inSvg ∧ lower ∈ svgTextElements then some (.svgText lower)
  else if lower ∈ strippedElements then some (.stripped lower)
  else if lower ∈ unwrappedElements ∧ profile.syn = .html then some .unwrap
  else if lower ∈ allowedElements then some (.html lower)
  else none

def resolveIn (name : JSString) (profile : FormatProfile) (inSvg : Bool) : List ResolvedVocabulary → Resolution
  | [] => .unknown
  | .declared _ nodes :: scope =>
    match nodes.get name with
    | some definition => .declared definition
    | none => resolveIn name profile inSvg scope
  | .builtinHtml :: scope => (resolveHtml name profile inSvg).getD (resolveIn name profile inSvg scope)

/-- The first vocabulary's claim on a name, in the order of the scope. -/
def resolveNode (name : JSString) (profile : FormatProfile) (inSvg : Bool) : Resolution :=
  resolveIn name profile inSvg profile.scope

def projectsToMarkup : PropValue → Bool
  | .null => false
  | .bool _ => false
  | _ => true

def sinkOf (declared : PropDefinition) : Sink := declared.sink.getD .text

def matchesSingleType (value : PropValue) (type : JSString) : Bool :=
  if type = js "string" then match value with | .str _ => true | _ => false
  else if type = js "number" then match value with | .num _ => true | _ => false
  else if type = js "integer" then match value with | .num x => x.isInteger | _ => false
  else if type = js "boolean" then match value with | .bool _ => true | _ => false
  else if type = js "null" then match value with | .null => true | _ => false
  else if type = js "array" then match value with | .arr _ => true | _ => false
  else if type = js "object" then match value with | .obj _ => true | _ => false
  else true

def matchesJsonType (value : PropValue) (type : PropType) : Bool := type.names.any (matchesSingleType value)

def textAllowed : ChildrenConstraint → Bool
  | .any => true
  | .text => true
  | _ => false

def childAllowed (constraint : ChildrenConstraint) (name : JSString) : Bool :=
  match constraint with
  | .any => true
  | .none => false
  | .text => false
  | .names allowed => allowed.contains name

def describeConstraint : ChildrenConstraint → JSString
  | .any => js "any"
  | .none => js "none"
  | .text => js "text"
  | .names allowed => (js ", ").intercalate allowed

def illegalChild (ctx : WalkContext) (path : JSString) (constraint : ChildrenConstraint) (name : JSString) : Report :=
  .diagnostic ⟨.illegalChild, vocabularySeverity ctx, path, name, none,
    js "node " ++ quote name ++ js " is not permitted here (children: " ++ describeConstraint constraint ++ js ")"⟩

/-- `JSON.stringify` of a declared type. -/
def PropType.text : PropType → JSString
  | .single name => jsonString name
  | .union names => 91 :: [44].intercalate (names.map jsonString) ++ [93]

/-- What becomes of one prop: it is kept under a name, or dropped with a report. -/
inductive PropOutcome where
  | keep (key : JSString) (value : PropValue)
  | drop (report : Report)

/-- The loop over a node's props. -/
def collectProps (check : JSString → PropValue → PropOutcome) (props : Props) : Props × Report :=
  props.foldl (fun found entry =>
    match check entry.1 entry.2 with
    | .keep key value => (found.1.set key value, found.2)
    | .drop report => (found.1, found.2 ++ report)) ([], .empty)

/-- A warning about a prop. -/
def propWarning (code : DiagnosticCode) (path node prop message : JSString) : Report :=
  .diagnostic ⟨code, .warning, path, node, some prop, message⟩

def strippedMessage (name tag : JSString) : JSString :=
  js "stripped attribute " ++ quote name ++ js " on <" ++ tag ++ js ">"

def reservedMessage (key : JSString) : JSString := js "prop " ++ quote key ++ js " is reserved and was dropped"

/-- A name the attribute allowlist refuses. -/
def dropAttribute (tag path lowerKey : JSString) : PropOutcome :=
  .drop (.strippedAttribute tag lowerKey ++
    propWarning (if js "on" <+: lowerKey then .unsafeProp else .unknownProp) path tag lowerKey
      (strippedMessage lowerKey tag))

/-- One attribute of an SVG `title` or `desc`. -/
def svgTextProp (tag path key : JSString) (value : PropValue) : PropOutcome :=
  let lowerKey := toLowerCase key
  if lowerKey ∉ forbiddenPropNames ∧ isValidAttributeName lowerKey ∧
      (lowerKey ∈ svgTextAttributes ∨ isMetadataPropName lowerKey) then
    .keep lowerKey value
  else dropAttribute tag path lowerKey

/-- One attribute of a built-in HTML element. -/
def htmlProp (ctx : WalkContext) (tag path key : JSString) (value : PropValue) : PropOutcome :=
  let lowerKey := toLowerCase key
  if lowerKey ∈ forbiddenPropNames then
    .drop (.strippedAttribute tag lowerKey ++ propWarning .unsafeProp path tag key (reservedMessage key))
  else if !isValidAttributeName lowerKey then
    .drop (.strippedAttribute tag lowerKey ++
      propWarning .unsafeProp path tag key (js "stripped attribute with a malformed name on <" ++ tag ++ js ">"))
  else if !isAllowedAttribute lowerKey then dropAttribute tag path lowerKey
  else if (lowerKey = js "href" ∨ lowerKey = js "src") ∧ projectsToMarkup value then
    match sanitizeUri (jsString value) lowerKey ctx.profile.schemes with
    | some cleaned => .keep lowerKey (.str cleaned)
    | none =>
      .drop (.strippedAttribute tag lowerKey ++
        propWarning .unsafeProp path tag lowerKey (strippedMessage lowerKey tag ++ js ": unsafe URI"))
  else if lowerKey = js "style" ∧ projectsToMarkup value then
    let cleaned := sanitizeStyleValue (jsString value)
    if cleaned = [] then .drop .empty else .keep lowerKey (.str cleaned)
  else .keep (canonicalAttributeName lowerKey) value

/-- The value a sink lets through; `none` refuses it. -/
def applySink (ctx : WalkContext) (sink : Sink) (value : JSString) : Option JSString :=
  match sink with
  | .text => some value
  | .uri => sanitizeUri value (js "href") ctx.profile.schemes
  | .imageUri => sanitizeUri value (js "src") ctx.profile.schemes
  | .css =>
    let cleaned := sanitizeStyleValue value
    if cleaned = [] ∧ trim value ≠ [] then none else some cleaned
  | .html => some (ctx.html value)

/-- A prop a declared node may carry: its type first, then its sink. -/
def declaredValue (ctx : WalkContext) (declared : PropDefinition) (path node key : JSString) (value : PropValue) :
    PropOutcome :=
  let invalid (message : JSString) : PropOutcome := .drop (propWarning .invalidProp path node key message)
  match declared.type with
  | some type =>
    if matchesJsonType value type then checkSink invalid
    else invalid (js "prop " ++ quote key ++ js " expects type " ++ type.text)
  | none => checkSink invalid
where
  checkSink (invalid : JSString → PropOutcome) : PropOutcome :=
    let sink := sinkOf declared
    if sink = .text then .keep key value
    else
      match value with
      | .str text =>
        match applySink ctx sink text with
        | some cleaned => .keep key (.str cleaned)
        | none =>
          .drop (propWarning .unsafeProp path node key
            (js "prop " ++ quote key ++ js " was rejected by sink " ++ quote sink.name))
      | _ => invalid (js "prop " ++ quote key ++ js " declares sink " ++ quote sink.name ++ js " and must be a string")

/-- `/^on/i.test(key)`. -/
def startsWithOn (key : JSString) : Bool := (stripWord (js "on") key).isSome

/-- One prop of a declared node. -/
def declaredProp (ctx : WalkContext) (definition : NodeDefinition) (node path key : JSString) (value : PropValue) :
    PropOutcome :=
  if toLowerCase key ∈ forbiddenPropNames ∨ startsWithOn key then
    .drop (propWarning .unsafeProp path node key (reservedMessage key))
  else if key ∈ protocolProps then
    match value with
    | .str text => .keep key (.str text)
    | _ => .drop (propWarning .invalidProp path node key (js "prop " ++ quote key ++ js " must be a string"))
  else if isMetadataPropName key then .keep key value
  else
    match propDefinition definition key with
    | none =>
      .drop (propWarning .unknownProp path node key
        (js "prop " ++ quote key ++ js " is not declared on node " ++ quote node))
    | some declared => declaredValue ctx declared path node key value

/-- The path of the child of that index. -/
def childPath (path : JSString) (index : Nat) : JSString := path ++ 47 :: decimal index

/-- Segments a text node's interpolation sites. -/
def segmentTextNode (value : JSString) (segments : Option (List TextSegment)) (path : JSString) :
    FragmentNode × Report :=
  if containsInterpolation value then
    let (found, issues) := segmentText value
    let diagnostics := issues.map fun issue =>
      ⟨.invalidExpression, .error, path, js "#text", none, js "invalid interpolation: " ++ issue.message⟩
    match found with
    | some pieces => (.text value (some pieces), ⟨diagnostics, [], []⟩)
    | none => (.text value segments, ⟨diagnostics, [], []⟩)
  else (.text value segments, .empty)

def strippedNode (path name : JSString) : Report :=
  .strippedElement name ++
    .diagnostic ⟨.strippedNode, .warning, path, name, none, js "stripped dangerous element: <" ++ name ++ js ">"⟩

mutual

/-- `collectSvgText` on one child: its text, element children reduced to theirs. -/
def svgTextOf (owner path : JSString) : FragmentNode → JSString × Report
  | .text value _ => (value, .empty)
  | .element name _ children _ =>
    let lower := toLowerCase name
    if lower ∈ strippedElements then ([], strippedNode path lower)
    else if lower = js "style" then
      ([], .diagnostic ⟨.illegalChild, .warning, path, name, none,
        js "node " ++ quote name ++ js " is not permitted inside svg <" ++ owner ++ js "> and was dropped"⟩)
    else
      let kept := collectSvgText owner path 0 children
      (kept.1, .diagnostic ⟨.illegalChild, .warning, path, name, none,
        js "node " ++ quote name ++ js " is not permitted inside svg <" ++ owner ++ js ">; its text was kept"⟩ ++ kept.2)

def collectSvgText (owner path : JSString) (index : Nat) : List FragmentNode → JSString × Report
  | [] => ([], .empty)
  | child :: nodes =>
    let first := svgTextOf owner (childPath path index) child
    let rest := collectSvgText owner path (index + 1) nodes
    (first.1 ++ rest.1, first.2 ++ rest.2)

end

def textNode (ctx : WalkContext) (value : JSString) (segments : Option (List TextSegment)) (path : JSString) :
    FragmentNode × Report :=
  if ctx.interpolate then segmentTextNode value segments path else (.text value segments, .empty)

/-- An SVG `title` or `desc`, reduced to its text. -/
def sanitizeSvgTextNode (ctx : WalkContext) (tag path : JSString) (props : Props) (children : List FragmentNode) :
    FragmentNode × Report :=
  let kept := collectProps (svgTextProp tag path) props
  let text := collectSvgText tag path 0 children
  if text.1 = [] then (.element tag kept.1 [] false, kept.2 ++ text.2)
  else
    let child := textNode ctx text.1 none (childPath path 0)
    (.element tag kept.1 [child.1] false, kept.2 ++ text.2 ++ child.2)

mutual

/-- One node of `walkNodes`: what it leaves in its parent's children, and the report. -/
def walkNode (ctx : WalkContext) (inSvg : Bool) (path : JSString) (constraint : ChildrenConstraint) :
    FragmentNode → List FragmentNode × Report
  | .text value segments =>
    if textAllowed constraint then
      let node := textNode ctx value segments path
      ([node.1], node.2)
    else if trim value = [] then ([], .empty)
    else
      ([], .diagnostic ⟨.illegalChild, vocabularySeverity ctx, path, js "#text", none,
        js "text is not permitted here (children: " ++ describeConstraint constraint ++ js ")"⟩)
  | .element name props children selfClosing =>
    match resolveNode name ctx.profile inSvg with
    | .unknown =>
      let severity := vocabularySeverity ctx
      let report := Report.diagnostic ⟨.unknownNode, severity, path, name, none,
        js "node " ++ quote name ++ js " is not declared by format " ++ quote ctx.profile.id⟩
      if severity = .warning ∧ ctx.profile.syn = .html then
        let inner := walkNodes ctx inSvg path constraint 0 children
        (inner.1, report ++ inner.2)
      else ([], report)
    | .stripped tag => ([], strippedNode path tag)
    | .unwrap => walkNodes ctx inSvg path constraint 0 children
    | .svgText tag =>
      if childAllowed constraint tag then
        let node := sanitizeSvgTextNode ctx tag path props children
        ([node.1], node.2)
      else ([], illegalChild ctx path constraint tag)
    | .html tag =>
      if childAllowed constraint tag then
        let kept := collectProps (htmlProp ctx tag path) props
        let inner := walkNodes ctx (inSvg || tag = js "svg") path .any 0 children
        ([.element tag kept.1 inner.1 selfClosing], kept.2 ++ inner.2)
      else ([], illegalChild ctx path constraint tag)
    | .declared definition =>
      if childAllowed constraint name then
        let kept := collectProps (declaredProp ctx definition name path) props
        let inner := walkNodes ctx inSvg path (definition.children.getD .any) 0 children
        ([.element name kept.1 inner.1 selfClosing], kept.2 ++ inner.2)
      else ([], illegalChild ctx path constraint name)

def walkNodes (ctx : WalkContext) (inSvg : Bool) (path : JSString) (constraint : ChildrenConstraint) (index : Nat) :
    List FragmentNode → List FragmentNode × Report
  | [] => ([], .empty)
  | node :: nodes =>
    let first := walkNode ctx inSvg (childPath path index) constraint node
    let rest := walkNodes ctx inSvg path constraint (index + 1) nodes
    (first.1 ++ rest.1, first.2 ++ rest.2)

end

structure TreeSanitizeResult where
  tree : FragmentTree
  report : Report

def sanitizeTreeWith (html : JSString → JSString) (tree : FragmentTree) (profile : FormatProfile)
    (options : VocabularyOptions) : TreeSanitizeResult :=
  let walked := walkNodes ⟨profile, options.strictVocabulary, options.interpolate, html⟩ false [] .any 0 tree
  ⟨walked.1, walked.2⟩

/-- `sanitizeHtmlString`. The built-in profile declares no sinks, so the walk never cleans the value
of an `html` sink; that is what bounds the recursion in the source. -/
def sanitizeHtmlString (input : JSString) : JSString × Report :=
  let parsed := sanitizeTreeWith id (htmlToTree input (some textHtml)) textHtml ⟨false, false⟩
  (treeToHtml parsed.tree, parsed.report)

def sanitizeHTMLDetailed (input : JSString) : JSString × Report := sanitizeHtmlString input

def sanitizeHTML (input : JSString) : JSString := (sanitizeHtmlString input).1

def sanitizeTree (tree : FragmentTree) (profile : FormatProfile) (options : VocabularyOptions) : TreeSanitizeResult :=
  sanitizeTreeWith sanitizeHTML tree profile options

end Xript
