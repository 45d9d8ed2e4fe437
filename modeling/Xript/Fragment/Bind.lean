import Xript.Repeat.Diff
import Xript.Repeat.Header
import Xript.Sanitize.Vocabulary

namespace Xript

/-- The runtime's `applySink`: `null` refuses the value. -/
def routeSink (sink : Sink) (value : PropValue) (schemes : List JSString) : PropValue :=
  match sink, value with
  | .text, value => value
  | .uri, .str text => ((sanitizeUri text (js "href") schemes).map Json.str).getD .null
  | .imageUri, .str text => ((sanitizeUri text (js "src") schemes).map Json.str).getD .null
  | .css, .str text =>
    let cleaned := sanitizeStyleValue text
    if cleaned = [] ∧ trim text ≠ [] then .null else .str cleaned
  | .html, .str text => .str (sanitizeHTML text)
  | _, _ => .null

inductive PropRouteResult where
  | accepted (value : PropValue)
  | undeclared
  | rejected

def settleRoute : PropValue → PropRouteResult
  | .null => .rejected
  | routed => .accepted routed

/-- Routes a value written into a prop through the sanitizer its vocabulary names, or says why not. -/
def routePropValueDetailed (profile : FormatProfile) (nodeName prop : JSString) (value : PropValue) : PropRouteResult :=
  match nodeDefinition profile nodeName with
  | some definition =>
    if prop ∈ protocolProps then
      match value with
      | .str text => .accepted (.str text)
      | _ => .rejected
    else
      match propDefinition definition prop with
      | none => .undeclared
      | some declared => settleRoute (routeSink (sinkOf declared) value profile.schemes)
  | none =>
    if !speaksHtml profile then .undeclared
    else
      let lower := toLowerCase prop
      if !isAllowedAttribute lower then .undeclared
      else
        match value with
        | .str text =>
          if lower = js "href" ∨ lower = js "src" then
            settleRoute (((sanitizeUri text lower profile.schemes).map Json.str).getD .null)
          else if lower = js "style" then .accepted (.str (sanitizeStyleValue text))
          else .accepted (.str text)
        | _ => settleRoute value

def isVoidNode (profile : FormatProfile) (name : JSString) : Bool :=
  match nodeDefinition profile name with
  | some definition => definition.children = some .none
  | none => name ∈ voidElements

/-- What a `data-bind` on a node of that name writes: a prop, or `children`. -/
def bindTarget (profile : FormatProfile) (name : JSString) : JSString :=
  match (nodeDefinition profile name).bind (·.bindTo) with
  | some (c :: s) => c :: s
  | _ => if isVoidNode profile name then js "value" else js "children"

/-- A segmented text node's content, each site resolved and joined as plain text. -/
def resolveSegments (segments : List TextSegment) (bindings : Bindings) : JSString :=
  segments.flatMap fun segment =>
    match segment with
    | .literal value => value
    | .expr source => renderValue (evaluateExpression bindings source)

/-- `bindNode` on a text node. -/
def bindText (value : JSString) (segments : Option (List TextSegment)) (bindings : Bindings) : FragmentNode :=
  match segments with
  | none => .text value none
  | some segments => .text (resolveSegments segments bindings) none

/-- The own property of a bare name; one that is absent or `undefined` writes nothing. -/
def ownText (bindings : Bindings) (name : JSString) : Option JSString :=
  match Record.get bindings.own name with
  | none | some .undefined => none
  | some value => some (renderValue (toExprValue value))

/-- What a `data-bind` writes. An expression always writes; a bare name only where its binding is there. -/
def bindValue (source : JSString) (bindings : Bindings) : Option JSString :=
  match parseExpression defaultMaxExpressionNodes source with
  | .error _ => ownText bindings source
  | .ok parsed =>
    match parsed.ast with
    | .name x => ownText bindings x
    | ast => some (renderValue (evaluateAst bindings ast))

/-- Identifies a repeat across renders: its template's path in the source and the keys of the copies
enclosing it. -/
structure RepeatSite where
  template : List Nat
  within : List RepeatKey
  deriving DecidableEq

/-- One `data-each` expansion of a bound tree. -/
structure FragmentRepeat where
  site : RepeatSite
  path : List Nat
  start : Nat
  count : Nat
  expression : JSString
  key : Option JSString
  mode : RepeatMode
  keys : List RepeatKey
  patch : List RepeatPatchOp
  deriving DecidableEq

structure FragmentCondition where
  path : List Nat
  expression : JSString
  visible : Bool
  deriving DecidableEq

/-- A stable string for a site: `JSON.stringify([template, within.map(keyToken)])`, an index being its
decimal digits. -/
def repeatSiteId (site : RepeatSite) : JSString :=
  js "[[" ++ [44].intercalate (site.template.map decimal) ++ js "]," ++
    stringifyJson (.arr (site.within.map fun key => .str (keyToken key))) ++ js "]"

/-- What each repeat site looked like on a render, the latest entry of an id first. -/
abbrev RepeatState := List (JSString × RepeatRender)

/-- What the bind pass collects while it walks. -/
structure BindState where
  visibility : Record Bool
  conditions : List FragmentCondition
  repeats : List FragmentRepeat
  diagnostics : List FragmentDiagnostic
  next : RepeatState
  remainingCopies : Nat

def sourcePointer (path : List Nat) : JSString := path.flatMap fun index => 47 :: decimal index

def repeatLimitMessage (remaining count : Nat) : JSString :=
  js "repeat truncated to " ++ decimal remaining ++ js " of " ++ decimal count ++
    js " copies; a render produces at most " ++ decimal maxRepeatCopies

def keyProblemCode : RepeatKeyProblem → DiagnosticCode
  | .invalidKey => .invalidKey
  | .duplicateKey => .duplicateKey

def keyProblemMessage (keySource : JSString) : RepeatKeyProblem → JSString
  | .duplicateKey => js "data-key " ++ quote keySource ++ js " produced a duplicate key; copies are keyed by index"
  | .invalidKey =>
    js "data-key " ++ quote keySource ++
      js " produced a key that is not a string or a number; copies are keyed by index"

/-- A bound value the target prop cannot take. -/
def bindRefusal (node prop : JSString) (undeclared : Bool) (path : List Nat) : FragmentDiagnostic where
  code := if undeclared then .unknownProp else .unsafeProp
  severity := .warning
  path := 47 :: [47].intercalate (path.map decimal)
  node := node
  prop := some prop
  message :=
    if undeclared then
      js "data-bind target " ++ quote prop ++ js " is not declared on node " ++ quote node ++
        js "; the bound value was dropped"
    else js "data-bind value for prop " ++ quote prop ++ js " on node " ++ quote node ++
      js " was rejected by its sink"

/-- The string a prop holds, if it holds one. -/
def stringProp (props : Props) (name : String) : Option JSString :=
  match Record.get props (js name) with
  | some (.str text) => some text
  | _ => none

section

variable (profile : FormatProfile) (previous : Option RepeatState)

/-- `data-if`: the node stays, and its expression's truth is reported. -/
def reportCondition (props : Props) (bindings : Bindings) (path : List Nat) (st : BindState) : BindState :=
  match stringProp props "data-if" with
  | none => st
  | some condition =>
    let visible := evaluateCondition bindings condition
    { st with
      visibility := Record.assign st.visibility condition visible
      conditions := st.conditions ++ [⟨path, condition, visible⟩] }

/-- `data-bind`: what is written replaces the children, or goes into a prop through its sink. -/
def writeBinding (name : JSString) (props : Props) (children : List FragmentNode) (selfClosing : Bool)
    (bindings : Bindings) (path : List Nat) (st : BindState) : FragmentNode × BindState :=
  match (stringProp props "data-bind").bind fun source => bindValue source bindings with
  | none => (.element name props children selfClosing, st)
  | some written =>
    let target := bindTarget profile name
    if target = js "children" then (.element name props [.text written none] selfClosing, st)
    else
      let refuse (undeclared : Bool) : FragmentNode × BindState :=
        (.element name props children selfClosing,
          { st with diagnostics := st.diagnostics ++ [bindRefusal name target undeclared path] })
      match routePropValueDetailed profile name target (.str written) with
      | .accepted value => (.element name (Record.assign props target value) children selfClosing, st)
      | .undeclared => refuse true
      | .rejected => refuse false

/-- `bindNode` on an element: its children first, then its own `data-if` and `data-bind`. -/
def bindElement (bindKids : BindState → List FragmentNode × BindState) (name : JSString) (props : Props)
    (selfClosing : Bool) (bindings : Bindings) (path : List Nat) (st : BindState) : FragmentNode × BindState :=
  let (children, st) := bindKids st
  writeBinding profile name props children selfClosing bindings path (reportCondition props bindings path st)

/-- The items a repeat expands, cut to the copies the render has left. -/
def takeItems (name : JSString) (source : List Nat) (items : List ExprValue) (st : BindState) :
    List ExprValue × BindState :=
  let limited : BindState :=
    if st.remainingCopies < items.length then
      { st with diagnostics := st.diagnostics ++ [⟨.repeatLimit, .warning, sourcePointer source, name,
          some (js "data-each"), repeatLimitMessage st.remainingCopies items.length⟩] }
    else st
  let items := items.take st.remainingCopies
  (items, { limited with remainingCopies := st.remainingCopies - items.length })

/-- The mode and the keys of a repeat's copies, one copy a scope. -/
def resolveCopies (keySource : Option JSString) (scopes : List Bindings) : RepeatKeyResolution :=
  match keySource with
  | none => ⟨.replace, replaceKeys scopes.length, none⟩
  | some keySource => resolveRepeatKeys (some (scopes.map fun scope => evaluateExpression scope keySource))

def reportKeyProblem (name : JSString) (source : List Nat) (keySource : Option JSString)
    (problem : Option RepeatKeyProblem) (st : BindState) : BindState :=
  match problem with
  | none => st
  | some problem =>
    { st with diagnostics := st.diagnostics ++ [⟨keyProblemCode problem, .warning, sourcePointer source, name,
        some (js "data-key"), keyProblemMessage (keySource.getD []) problem⟩] }

/-- Binds the copies in turn, the first at position `out` of the parent's children. -/
def bindCopies (bindCopy : Bindings → RepeatKey → Nat → BindState → FragmentNode × BindState) :
    List (Bindings × RepeatKey) → Nat → BindState → List FragmentNode × BindState
  | [], _, st => ([], st)
  | (scope, key) :: copies, out, st =>
    let (node, st) := bindCopy scope key out st
    let (nodes, st) := bindCopies bindCopy copies (out + 1) st
    (node :: nodes, st)

/-- Replaces a `data-each` template by its copies. -/
def expandRepeat (bindKids : Bindings → List Nat → List RepeatKey → BindState → List FragmentNode × BindState)
    (each name : JSString) (props : Props) (selfClosing : Bool) (bindings : Bindings) (parentPath source : List Nat)
    (within : List RepeatKey) (out : Nat) (st : BindState) : List FragmentNode × BindState :=
  let keySource := stringProp props "data-key"
  let header := (parseRepeatHeader each).toOption
  let (items, st) := takeItems name source (header.elim [] fun header => evaluateRepeatItems header bindings) st
  let scopes := header.elim [] fun header =>
    items.zipIdx.map fun entry => repeatScope bindings header entry.1 entry.2
  let resolution := resolveCopies keySource scopes
  let st := reportKeyProblem name source keySource resolution.problem st
  let site : RepeatSite := ⟨source, within⟩
  let siteId := repeatSiteId site
  let render : RepeatRender := ⟨resolution.mode, resolution.keys⟩
  let before := previous.bind fun state => state.lookup siteId
  let st := { st with
    next := (siteId, render) :: st.next
    repeats := st.repeats ++ [⟨site, parentPath, out, scopes.length, each, keySource, resolution.mode,
      resolution.keys, diffRepeat before render⟩] }
  let copyProps := props.filter fun entry => entry.1 ≠ js "data-each" ∧ entry.1 ≠ js "data-key"
  let bindCopy (scope : Bindings) (key : RepeatKey) (position : Nat) : BindState → FragmentNode × BindState :=
    bindElement profile (bindKids scope (parentPath ++ [position]) (within ++ [key])) name copyProps selfClosing scope
      (parentPath ++ [position])
  bindCopies bindCopy (scopes.zip resolution.keys) out st

/-- One node among its siblings: a template gives its copies, any other node itself. -/
def bindSibling (bindKids : Bindings → List Nat → List RepeatKey → BindState → List FragmentNode × BindState)
    (node : FragmentNode) (bindings : Bindings) (parentPath source : List Nat) (within : List RepeatKey) (out : Nat)
    (st : BindState) : List FragmentNode × BindState :=
  match node with
  | .text value segments => ([bindText value segments bindings], st)
  | .element name props _ selfClosing =>
    match stringProp props "data-each" with
    | some each =>
      expandRepeat profile previous bindKids each name props selfClosing bindings parentPath source within out st
    | none =>
      let path := parentPath ++ [out]
      let (node, st) := bindElement profile (bindKids bindings path within) name props selfClosing bindings path st
      ([node], st)

mutual

/-- Binds the children of a node. -/
def bindInside : FragmentNode → List Nat → Bindings → List Nat → List RepeatKey → BindState →
    List FragmentNode × BindState
  | .text _ _, _, _, _, _, st => ([], st)
  | .element _ _ children _, source, bindings, path, within, st =>
    bindChildren children bindings path source 0 0 within st

/-- Binds a list of siblings. `index` is the place of the first in the source, `out` in the bound tree. -/
def bindChildren : List FragmentNode → Bindings → List Nat → List Nat → Nat → Nat → List RepeatKey → BindState →
    List FragmentNode × BindState
  | [], _, _, _, _, _, _, st => ([], st)
  | node :: nodes, bindings, parentPath, parentSource, index, out, within, st =>
    let source := parentSource ++ [index]
    let (made, st) :=
      bindSibling profile previous (bindInside node source) node bindings parentPath source within out st
    let (rest, st) := bindChildren nodes bindings parentPath parentSource (index + 1) (out + made.length) within st
    (made ++ rest, st)

end

end

structure BoundTree where
  tree : FragmentTree
  visibility : Record Bool
  conditions : List FragmentCondition
  repeats : List FragmentRepeat
  diagnostics : List FragmentDiagnostic
  repeatState : RepeatState

def BindState.start : BindState := ⟨[], [], [], [], [], maxRepeatCopies⟩

/-- Resolves `data-each`, `data-bind` and `data-if` against a sanitized tree. -/
def processTree (tree : FragmentTree) (bindings : Bindings) (profile : FormatProfile) (previous : Option RepeatState) :
    BoundTree :=
  let (bound, st) := bindChildren profile previous tree bindings [] [] 0 0 [] .start
  ⟨bound, st.visibility, st.conditions, st.repeats, st.diagnostics, st.next⟩

end Xript
