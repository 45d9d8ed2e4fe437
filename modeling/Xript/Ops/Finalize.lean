import Xript.Fragment.Bind
import Xript.Fragment.Harmless
import Xript.Ops.NodeRef
import Xript.Sanitize.Jsml

namespace Xript

inductive FragmentOpName where
  | toggle
  | setText
  | replaceChildren
  | setProp
  | setAttr
  | removeAttr
  | addClass
  | removeClass
  deriving DecidableEq, Repr

def FragmentOpName.name : FragmentOpName → JSString
  | .toggle => js "toggle"
  | .setText => js "setText"
  | .replaceChildren => js "replaceChildren"
  | .setProp => js "setProp"
  | .setAttr => js "setAttr"
  | .removeAttr => js "removeAttr"
  | .addClass => js "addClass"
  | .removeClass => js "removeClass"

inductive RuntimeDiagnosticCode where
  | found (code : DiagnosticCode)
  | unsupportedOp
  | unsupportedTarget
  | opUnknownProp
  | opInvalidValue
  | propSinkConflict
  deriving DecidableEq, Repr

structure RuntimeDiagnostic where
  code : RuntimeDiagnosticCode
  severity : DiagnosticSeverity
  path : JSString
  node : JSString
  prop : Option JSString
  message : JSString
  deriving DecidableEq, Repr

/-- An op as it leaves the sandbox; a member that is `none` is absent or `undefined`. -/
structure RawFragmentOp where
  op : FragmentOpName
  selector : JSString
  prop : Option Json
  attr : Option Json
  value : Option Json

structure FragmentOp where
  op : FragmentOpName
  selector : JSString
  target : NodeRef
  prop : Option JSString
  attr : Option JSString
  value : Option Json

def htmlSugarOps : List FragmentOpName := [.addClass, .removeClass]

/-- `value ?? other`. -/
def nullish (value other : Option Json) : Option Json :=
  match value with
  | none | some .null => other
  | some value => some value

/-- Whether the format's scope is the built-in HTML vocabulary and nothing else. -/
def speaksOnlyHtml (profile : FormatProfile) : Bool := profile.scope = [.builtinHtml]

/-- The declarations of a prop, by any node of any vocabulary in scope. -/
def propDeclarations (profile : FormatProfile) (prop : JSString) : List PropDefinition :=
  profile.scope.flatMap fun vocabulary =>
    match vocabulary with
    | .declared _ nodes => nodes.filterMap fun node => propDefinition node.2 prop
    | .builtinHtml => []

def declaredByScope (profile : FormatProfile) (prop : JSString) : Bool := !(propDeclarations profile prop).isEmpty

/-- Whether a prop write resolves to an HTML attribute rather than to a prop a declared vocabulary owns. -/
def landsOnHtmlAttribute (profile : FormatProfile) (prop : JSString) : Bool :=
  speaksOnlyHtml profile || speaksHtml profile && !declaredByScope profile prop

def htmlSinkFor (lowerProp : JSString) : Sink :=
  if lowerProp = js "href" then .uri
  else if lowerProp = js "src" then .imageUri
  else if lowerProp = js "style" then .css
  else .text

/-- `applySink` on the value of an op, `null` where it refuses; a value that is `undefined` is no string. -/
def applyOpSink (sink : Sink) (value : Option Json) (schemes : List JSString) : Option Json :=
  match value with
  | some value => some (routeSink sink value schemes)
  | none => if sink = .text then none else some .null

inductive RouteResult where
  | routed (value : Option Json)
  | rejected (code : RuntimeDiagnosticCode) (message : JSString)

def notSettable (prop : JSString) : JSString := js "prop " ++ quote prop ++ js " is not settable on an HTML node"

def undeclaredProp (profile : FormatProfile) (prop : JSString) : JSString :=
  js "prop " ++ quote prop ++ js " is not declared by any node of format " ++ quote profile.id

/-- Settles what a sink made of a value. -/
def settleSink (cleaned : Option Json) (message : JSString) : RouteResult :=
  match cleaned with
  | some .null => .rejected (.found .unsafeProp) message
  | cleaned => .routed cleaned

/-- The sinks other than text that a prop is declared with, in the order of their names. -/
def dangerousSinks (profile : FormatProfile) (prop : JSString) : List Sink :=
  [.css, .html, .imageUri, .uri].filter fun sink => (propDeclarations profile prop).any fun d => sinkOf d = sink

/-- Routes the value of an op through the sink its prop has in every vocabulary of the scope. -/
def routeOpValue (profile : FormatProfile) (prop : JSString) (value : Option Json) : RouteResult :=
  let lower := toLowerCase prop
  let bySink := js "prop " ++ quote prop ++ js " was rejected by its sink"
  if speaksOnlyHtml profile then
    if !isAllowedAttribute lower then .rejected (.found .unsafeProp) (notSettable prop)
    else settleSink (applyOpSink (htmlSinkFor lower) value profile.schemes) bySink
  else if !declaredByScope profile prop then
    if speaksHtml profile && isAllowedAttribute lower then
      settleSink (applyOpSink (htmlSinkFor lower) value profile.schemes) bySink
    else .rejected .opUnknownProp (undeclaredProp profile prop)
  else
    match dangerousSinks profile prop with
    | [] =>
      settleSink (applyOpSink .text value profile.schemes)
        (js "prop " ++ quote prop ++ js " was rejected by sink " ++ quote (js "undefined"))
    | [sink] =>
      settleSink (applyOpSink sink value profile.schemes)
        (js "prop " ++ quote prop ++ js " was rejected by sink " ++ quote sink.name)
    | dangerous =>
      .rejected .propSinkConflict (js "prop " ++ quote prop ++ js " is declared with conflicting sinks (" ++
        (js ", ").intercalate (dangerous.map Sink.name) ++ js ") in format " ++ quote profile.id)

/-- The name half of `routeOpValue`: why an op may not address a prop, if it may not. -/
def checkPropName (profile : FormatProfile) (prop : JSString) : Option (RuntimeDiagnosticCode × JSString) :=
  if speaksOnlyHtml profile then
    if isAllowedAttribute (toLowerCase prop) then none else some (.found .unsafeProp, notSettable prop)
  else if declaredByScope profile prop then none
  else if speaksHtml profile && isAllowedAttribute (toLowerCase prop) then none
  else some (.opUnknownProp, undeclaredProp profile prop)

/-- A nested pass's findings, their paths behind the op's. -/
def forwardDiagnostics (diagnostics : List FragmentDiagnostic) (pathPrefix : JSString) : List RuntimeDiagnostic :=
  diagnostics.map fun d => ⟨.found d.code, d.severity, pathPrefix ++ d.path, d.node, d.prop, d.message⟩

/-- The profile a markup string is read under. -/
def markupProfile (profile : FormatProfile) : FormatProfile := if profile.builtin then textHtml else profile

/-- The sanitized tree of a markup string. -/
def sanitizedMarkup (value : JSString) (profile : FormatProfile) : TreeSanitizeResult :=
  sanitizeTree (htmlToTree value (some (markupProfile profile))) (markupProfile profile) ⟨false, false⟩

def sanitizeOpMarkup (value : JSString) (profile : FormatProfile) (pathPrefix : JSString) :
    JSString × List RuntimeDiagnostic :=
  if speaksHtml profile then
    let sanitized := sanitizedMarkup value profile
    (treeToHtmlWith (propTypeLookup (markupProfile profile)) sanitized.tree,
      forwardDiagnostics sanitized.report.diagnostics pathPrefix)
  else (value, [])

/-- The strings of a list that holds nothing else. -/
def markupList (items : List Json) : Option (List JSString) :=
  items.mapM fun item =>
    match item with
    | .str text => some text
    | _ => none

/-- `sanitizeOpChildren` on a list of markup strings, the first at that index. -/
def sanitizeOpList (profile : FormatProfile) (path : JSString) (index : Nat) :
    List JSString → List Json × List RuntimeDiagnostic
  | [] => ([], [])
  | item :: items =>
    let first := sanitizeOpMarkup item profile (childPath path index)
    let rest := sanitizeOpList profile path (index + 1) items
    (.str first.1 :: rest.1, first.2 ++ rest.2)

section

-- `treeToJsml` prints through the `@nxis/j5ml` package.
variable (treeToJsml : FragmentTree → List Json)

/-- The children a `replaceChildren` writes, if its value is a string or a list. -/
def sanitizeOpChildren (value : Option Json) (profile : FormatProfile) (path : JSString) :
    Option (Json × List RuntimeDiagnostic) :=
  match value with
  | some (.str text) =>
    let sanitized := sanitizeOpMarkup text profile path
    some (.str sanitized.1, sanitized.2)
  | some (.arr items) =>
    match if speaksHtml profile then markupList items else none with
    | some markup =>
      let sanitized := sanitizeOpList profile path 0 markup
      some (.arr sanitized.1, sanitized.2)
    | none =>
      let sanitized := sanitizeTree (jsmlToTree items) profile ⟨false, false⟩
      some (.arr (treeToJsml sanitized.tree), forwardDiagnostics sanitized.report.diagnostics path)
  | _ => none

/-- `jsString(raw.value ?? "")`. -/
def opText (value : Option Json) : Json := .str (((nullish value (some (.str []))).map jsString).getD [])

/-- A value that takes an attribute away: `false`, `null` or none. -/
def clearsAttribute : Option Json → Bool
  | none => true
  | some .null => true
  | some (.bool b) => !b
  | some _ => false

def isStructured : Option Json → Bool
  | some (.arr _) => true
  | some (.obj _) => true
  | _ => false

/-- An op that writes or removes a prop. -/
def finalizeProp (profile : FormatProfile) (raw : RawFragmentOp) (path : JSString) :
    Option FragmentOp × List RuntimeDiagnostic :=
  let warn (code : RuntimeDiagnosticCode) (prop : Option JSString) (message : JSString) :
      Option FragmentOp × List RuntimeDiagnostic := (none, [⟨code, .warning, path, raw.selector, prop, message⟩])
  let target := parseNodeRef raw.selector
  match nullish raw.prop raw.attr with
  | some (.str (c :: s)) =>
    let prop := c :: s
    let isAttribute : Bool := raw.op ≠ .setProp || landsOnHtmlAttribute profile prop
    if raw.op = .removeAttr || isAttribute && clearsAttribute raw.value then
      match checkPropName profile prop with
      | some refusal => warn refusal.1 (some prop) refusal.2
      | none => (some ⟨.removeAttr, raw.selector, target, some prop, some prop, none⟩, [])
    else if isAttribute && isStructured raw.value then
      warn .opInvalidValue (some prop) (js "op " ++ quote raw.op.name ++ js " on " ++ quote raw.selector ++
        js " cannot write a non-primitive value to attribute " ++ quote prop)
    else
      match routeOpValue profile prop raw.value with
      | .rejected code message => warn code (some prop) message
      | .routed value =>
        (some ⟨raw.op, raw.selector, target, some prop, if raw.op = .setAttr then some prop else none, value⟩, [])
  | _ => warn .opUnknownProp none (js "op " ++ quote raw.op.name ++ js " needs a prop name")

/-- One op of the buffer, at its path: what is emitted for it, and what is reported. -/
def finalizeOp (profile : FormatProfile) (raw : RawFragmentOp) (path : JSString) :
    Option FragmentOp × List RuntimeDiagnostic :=
  let warn (code : RuntimeDiagnosticCode) (message : JSString) : Option FragmentOp × List RuntimeDiagnostic :=
    (none, [⟨code, .warning, path, raw.selector, none, message⟩])
  let target := parseNodeRef raw.selector
  let emit (value : Json) : FragmentOp := ⟨raw.op, raw.selector, target, none, none, some value⟩
  if !speaksHtml profile && raw.op ∈ htmlSugarOps then
    warn .unsupportedOp (js "op " ++ quote raw.op.name ++ js " is HTML-vocabulary sugar and has no meaning in format " ++
      quote profile.id)
  else if !speaksHtml profile && target = .selector raw.selector then
    warn .unsupportedTarget (js "format " ++ quote profile.id ++
      js " has no CSS selectors — target a node by id (\"#name\")")
  else
    match raw.op with
    | .toggle => (some (emit (.bool (match raw.value with | some (.bool b) => b | _ => false))), [])
    | .setText => (some (emit (opText raw.value)), [])
    | .addClass => (some (emit (opText raw.value)), [])
    | .removeClass => (some (emit (opText raw.value)), [])
    | .setProp => finalizeProp profile raw path
    | .setAttr => finalizeProp profile raw path
    | .removeAttr => finalizeProp profile raw path
    | .replaceChildren =>
      match sanitizeOpChildren treeToJsml raw.value profile path with
      | some (value, diagnostics) => (some (emit value), diagnostics)
      | none => warn .opInvalidValue (js "op " ++ quote (js "replaceChildren") ++ js " on " ++ quote raw.selector ++
          js " needs a string or a list of children")

/-- The loop of `finalizeOps`, its first op at that index. -/
def finalizeFrom (profile : FormatProfile) (index : Nat) : List RawFragmentOp → List FragmentOp × List RuntimeDiagnostic
  | [] => ([], [])
  | raw :: ops =>
    let first := finalizeOp treeToJsml profile raw (childPath [] index)
    let rest := finalizeFrom profile (index + 1) ops
    (first.1.toList ++ rest.1, first.2 ++ rest.2)

/-- The host-side pass over a command buffer. -/
def finalizeOps (profile : FormatProfile) (ops : List RawFragmentOp) : List FragmentOp × List RuntimeDiagnostic :=
  finalizeFrom treeToJsml profile 0 ops

end

/-- The walk that cleans what an op writes under a profile. -/
def opWalk (profile : FormatProfile) : WalkContext := ⟨profile, false, false, sanitizeHTML⟩

/-- A markup string that was printed from a tree the format admits, where the format speaks HTML. -/
def SafeMarkup (profile : FormatProfile) (markup : JSString) : Prop :=
  speaksHtml profile = true → ∃ names tree, Conforms (opWalk (markupProfile profile)) names false .any tree ∧
    markup = treeToHtmlWith (propTypeLookup (markupProfile profile)) tree

/-- Children an op may write: safe markup, a list of it, or what a tree the format admits prints as. -/
def SafeChildren (treeToJsml : FragmentTree → List Json) (profile : FormatProfile) (value : Json) : Prop :=
  (∃ markup, value = .str markup ∧ SafeMarkup profile markup) ∨
    (∃ list : List JSString, value = .arr (list.map Json.str) ∧ ∀ markup ∈ list, SafeMarkup profile markup) ∨
    ∃ names tree, Conforms (opWalk profile) names false .any tree ∧ value = .arr (treeToJsml tree)

/-- What a prop of an op holds: a value each declaration of the prop would take in its sink, or, where none
declares it, a value of an HTML attribute. -/
structure SafeWrite (profile : FormatProfile) (prop : JSString) (value : Json) : Prop where
  present : value ≠ .null
  unambiguous : (dangerousSinks profile prop).length ≤ 1
  sunk : ∀ declared ∈ propDeclarations profile prop, Sunk (opWalk profile) (sinkOf declared) value
  onHtml : declaredByScope profile prop = false → Sunk (opWalk profile) (htmlSinkFor (toLowerCase prop)) value ∧
    isStructured (some value) = false ∧ clearsAttribute (some value) = false

/-- An op a host may apply: it addresses what the format has, names a prop the format knows, and holds what
that prop, or those children, may hold. -/
structure SafeOp (treeToJsml : FragmentTree → List Json) (profile : FormatProfile) (op : FragmentOp) : Prop where
  target : op.target = parseNodeRef op.selector
  tree : speaksHtml profile = false → op.op ∉ htmlSugarOps ∧ op.target ≠ .selector op.selector
  named : ∀ prop, op.prop = some prop → prop ≠ [] ∧ checkPropName profile prop = none
  written : ∀ prop value, op.prop = some prop → op.value = some value → SafeWrite profile prop value
  children : op.op = .replaceChildren → ∃ value, op.value = some value ∧ SafeChildren treeToJsml profile value

theorem settleSink_routed {cleaned value : Option Json} {message : JSString}
    (routed : settleSink cleaned message = .routed value) : value = cleaned ∧ value ≠ some .null := by
  unfold settleSink at routed
  split at routed
  · cases routed
  · rename_i other
    cases routed
    exact ⟨rfl, fun null => other null⟩

/-- A value that comes through a sink is one the sink may hold. -/
theorem applyOpSink_sunk {profile : FormatProfile} {sink : Sink} {value : Option Json} {routed : Json} {message : JSString}
    (through : settleSink (applyOpSink sink value profile.schemes) message = .routed (some routed)) :
    Sunk (opWalk profile) sink routed ∧ routed ≠ .null ∧ ∃ given, value = some given ∧ routeSink sink given profile.schemes = routed := by
  obtain ⟨same, accepted⟩ := settleSink_routed through
  have present : routed ≠ .null := fun null => accepted (by rw [null])
  cases value with
  | none =>
    unfold applyOpSink at same
    dsimp only at same
    split at same
    · cases same
    · exact absurd same accepted
  | some given =>
    have routes := (Option.some.inj same).symm
    exact ⟨routeSink_sunk rfl routes present, present, given, rfl, routes⟩

theorem propDeclarations_onlyHtml {profile : FormatProfile} (only : speaksOnlyHtml profile = true) (prop : JSString) :
    propDeclarations profile prop = [] := by
  rw [speaksOnlyHtml, decide_eq_true_iff] at only
  rw [propDeclarations, only]
  rfl

theorem dangerousSinks_none {profile : FormatProfile} {prop : JSString} (empty : propDeclarations profile prop = []) :
    (dangerousSinks profile prop).length = 0 := by
  rw [dangerousSinks, empty]
  rfl

theorem mem_dangerousSinks {profile : FormatProfile} {prop : JSString} {declared : PropDefinition}
    (member : declared ∈ propDeclarations profile prop) :
    sinkOf declared = .text ∨ sinkOf declared ∈ dangerousSinks profile prop := by
  by_cases text : sinkOf declared = .text
  · exact .inl text
  · refine .inr (List.mem_filter.mpr ⟨?_, List.any_eq_true.mpr ⟨declared, member, decide_eq_true rfl⟩⟩)
    cases sink : sinkOf declared with
    | text => exact absurd sink text
    | uri => decide
    | imageUri => decide
    | css => decide
    | html => decide

/-- What `routeOpValue` lets through, its prop may be addressed, and every declaration of the prop may hold. -/
theorem routeOpValue_routed {profile : FormatProfile} {prop : JSString} {value routed : Option Json}
    (through : routeOpValue profile prop value = .routed routed) :
    checkPropName profile prop = none ∧ (dangerousSinks profile prop).length ≤ 1 ∧
      (∀ written, routed = some written → written ≠ .null ∧
        ∀ declared ∈ propDeclarations profile prop, Sunk (opWalk profile) (sinkOf declared) written) ∧
      (declaredByScope profile prop = false → speaksHtml profile = true ∧ ∀ written, routed = some written →
        Sunk (opWalk profile) (htmlSinkFor (toLowerCase prop)) written ∧
          ∃ given, value = some given ∧ routeSink (htmlSinkFor (toLowerCase prop)) given profile.schemes = written) := by
  unfold routeOpValue at through
  simp only at through
  split at through
  · rename_i only
    have empty := propDeclarations_onlyHtml only prop
    have speaks : speaksHtml profile = true := by
      rw [speaksOnlyHtml, decide_eq_true_iff] at only
      rw [speaksHtml, only]
      decide
    split at through
    · cases through
    · rename_i allowed
      rw [Bool.not_eq_true, Bool.not_eq_false'] at allowed
      refine ⟨by rw [checkPropName, if_pos only, if_pos allowed], dangerousSinks_none empty ▸ Nat.zero_le 1, ?_,
        fun _ => ⟨speaks, ?_⟩⟩
      · rintro written rfl
        refine ⟨(applyOpSink_sunk through).2.1, fun declared member => ?_⟩
        rw [empty] at member
        cases member
      · rintro written rfl
        exact ⟨(applyOpSink_sunk through).1, (applyOpSink_sunk through).2.2⟩
  · rename_i mixed
    split at through
    · rename_i undeclared
      rw [Bool.not_eq_true'] at undeclared
      have empty : propDeclarations profile prop = [] := by simpa [declaredByScope] using undeclared
      split at through
      · rename_i onHtml
        have speaks := (Bool.and_eq_true_iff.mp onHtml).1
        refine ⟨by rw [checkPropName, if_neg mixed, if_neg (by simp [undeclared]), if_pos onHtml],
          dangerousSinks_none empty ▸ Nat.zero_le 1, ?_, fun _ => ⟨speaks, ?_⟩⟩
        · rintro written rfl
          refine ⟨(applyOpSink_sunk through).2.1, fun declared member => ?_⟩
          rw [empty] at member
          cases member
        · rintro written rfl
          exact ⟨(applyOpSink_sunk through).1, (applyOpSink_sunk through).2.2⟩
      · cases through
    · rename_i declares
      rw [Bool.not_eq_true, Bool.not_eq_false'] at declares
      have named : checkPropName profile prop = none := by rw [checkPropName, if_neg mixed, if_pos declares]
      refine ⟨named, ?_, ?_, fun undeclared => absurd (undeclared.symm.trans declares) Bool.false_ne_true⟩
      · split at through
        · rename_i harmless
          exact harmless ▸ Nat.zero_le 1
        · rename_i sink single
          exact single ▸ Nat.le_refl 1
        · cases through
      rintro written rfl
      split at through
      · rename_i harmless
        refine ⟨(applyOpSink_sunk through).2.1, fun declared member => ?_⟩
        rcases mem_dangerousSinks member with text | listed
        · rw [text]
          trivial
        · rw [harmless] at listed
          cases listed
      · rename_i sink single
        refine ⟨(applyOpSink_sunk through).2.1, fun declared member => ?_⟩
        rcases mem_dangerousSinks member with text | listed
        · rw [text]
          trivial
        · rw [single, List.mem_singleton] at listed
          rw [listed]
          exact (applyOpSink_sunk through).1
      · cases through

theorem routeSink_primitive {sink : Sink} {value routed : Json} {schemes : List JSString}
    (same : routeSink sink value schemes = routed) (present : routed ≠ .null) (plain : isStructured (some value) = false)
    (kept : clearsAttribute (some value) = false) :
    isStructured (some routed) = false ∧ clearsAttribute (some routed) = false := by
  subst same
  cases value with
  | str text =>
    cases sink with
    | text => exact ⟨rfl, rfl⟩
    | html => exact ⟨rfl, rfl⟩
    | css =>
      simp only [routeSink] at present ⊢
      split
      · rename_i emptied
        rw [if_pos emptied] at present
        exact absurd rfl present
      · exact ⟨rfl, rfl⟩
    | uri =>
      simp only [routeSink] at present ⊢
      cases cleaned : sanitizeUri text (js "href") schemes with
      | none => simp [cleaned] at present
      | some t => exact ⟨rfl, rfl⟩
    | imageUri =>
      simp only [routeSink] at present ⊢
      cases cleaned : sanitizeUri text (js "src") schemes with
      | none => simp [cleaned] at present
      | some t => exact ⟨rfl, rfl⟩
  | _ =>
    cases sink with
    | text => exact ⟨plain, kept⟩
    | _ => exact absurd rfl present

theorem sanitizeOpMarkup_safe (value : JSString) (profile : FormatProfile) (pathPrefix : JSString) :
    SafeMarkup profile (sanitizeOpMarkup value profile pathPrefix).1 := by
  intro speaks
  unfold sanitizeOpMarkup
  rw [if_pos speaks]
  exact ⟨_, _, sanitizeTree_conforms _ (markupProfile profile) ⟨false, false⟩, rfl⟩

theorem sanitizeOpList_safe (profile : FormatProfile) (path : JSString) (index : Nat) (items : List JSString) :
    ∃ list : List JSString, (sanitizeOpList profile path index items).1 = list.map Json.str ∧
      ∀ markup ∈ list, SafeMarkup profile markup := by
  induction items generalizing index with
  | nil => exact ⟨[], rfl, fun markup none => absurd none List.not_mem_nil⟩
  | cons item items ih =>
    obtain ⟨list, same, safe⟩ := ih (index + 1)
    refine ⟨(sanitizeOpMarkup item profile (childPath path index)).1 :: list, ?_, ?_⟩
    · rw [sanitizeOpList, same, List.map_cons]
    · exact List.forall_mem_cons.mpr ⟨sanitizeOpMarkup_safe item profile _, safe⟩

theorem sanitizeOpChildren_safe {treeToJsml : FragmentTree → List Json} {profile : FormatProfile} {path : JSString}
    {value : Option Json} {written : Json} {diagnostics : List RuntimeDiagnostic}
    (made : sanitizeOpChildren treeToJsml value profile path = some (written, diagnostics)) :
    SafeChildren treeToJsml profile written := by
  unfold sanitizeOpChildren at made
  split at made
  · rename_i text
    cases made
    exact .inl ⟨_, rfl, sanitizeOpMarkup_safe text profile path⟩
  · rename_i items
    split at made
    · rename_i markup _
      cases made
      obtain ⟨list, same, safe⟩ := sanitizeOpList_safe profile path 0 markup
      exact .inr (.inl ⟨list, by rw [same], safe⟩)
    · cases made
      exact .inr (.inr ⟨_, _, sanitizeTree_conforms _ profile ⟨false, false⟩, rfl⟩)
  · cases made

/-- What becomes of one op: it is emitted, safe and at its target, or it is reported under its path. -/
def Answered (treeToJsml : FragmentTree → List Json) (profile : FormatProfile) (raw : RawFragmentOp) (path : JSString)
    (made : Option FragmentOp × List RuntimeDiagnostic) : Prop :=
  (∃ op, made.1 = some op ∧ op.selector = raw.selector ∧ SafeOp treeToJsml profile op) ∨
    (made.1 = none ∧ ∃ d, made.2 = [d] ∧ d.path = path ∧ d.node = raw.selector)

section

variable {treeToJsml : FragmentTree → List Json} {profile : FormatProfile} {raw : RawFragmentOp} {path : JSString}

theorem finalizeProp_answered (addressed : speaksHtml profile = false → parseNodeRef raw.selector ≠ .selector raw.selector)
    (writes : raw.op ∈ [FragmentOpName.setProp, .setAttr, .removeAttr]) :
    Answered treeToJsml profile raw path (finalizeProp profile raw path) := by
  have unsugared : ∀ op ∈ [FragmentOpName.setProp, .setAttr, .removeAttr], op ∉ htmlSugarOps ∧ op ≠ .replaceChildren := by decide
  unfold finalizeProp
  simp only
  split
  · rename_i c s _
    split
    · cases refusal : checkPropName profile (c :: s) with
      | some refusal => exact .inr ⟨rfl, _, rfl, rfl, rfl⟩
      | none =>
        refine .inl ⟨_, rfl, rfl, rfl, fun tree => ⟨by simp [htmlSugarOps], addressed tree⟩, ?_, ?_, ?_⟩
        · rintro prop ⟨⟩
          exact ⟨List.cons_ne_nil c s, refusal⟩
        · rintro prop value - ⟨⟩
        · rintro ⟨⟩
    · rename_i writes'
      split
      · exact .inr ⟨rfl, _, rfl, rfl, rfl⟩
      · rename_i primitive
        cases through : routeOpValue profile (c :: s) raw.value with
        | rejected code message => exact .inr ⟨rfl, _, rfl, rfl, rfl⟩
        | routed value =>
          obtain ⟨named, unambiguous, declared, attribute'⟩ := routeOpValue_routed through
          refine .inl ⟨_, rfl, rfl, rfl, fun tree => ⟨(unsugared _ writes).1, addressed tree⟩, ?_, ?_, ?_⟩
          · rintro prop ⟨⟩
            exact ⟨List.cons_ne_nil c s, named⟩
          · rintro prop written ⟨⟩ rfl
            obtain ⟨present, sunk⟩ := declared written rfl
            refine ⟨present, unambiguous, sunk, fun undeclared => ?_⟩
            obtain ⟨speaks, lands⟩ := attribute' undeclared
            obtain ⟨sunkHtml, given, from', routes⟩ := lands written rfl
            have lands' : landsOnHtmlAttribute profile (c :: s) = true := by
              rw [landsOnHtmlAttribute, speaks, undeclared]
              simp
            rw [from'] at writes' primitive
            simp only [lands', Bool.or_true, decide_eq_true_eq, Bool.or_eq_true, not_or, Bool.true_and,
              Bool.not_eq_true] at writes' primitive
            exact ⟨sunkHtml, routeSink_primitive routes present primitive writes'.2⟩
          · intro replaces
            exact absurd replaces (unsugared _ writes).2
  · exact .inr ⟨rfl, _, rfl, rfl, rfl⟩

/-- An op is emitted safe and for its own target, or not at all and reported. -/
theorem finalizeOp_answered (raw : RawFragmentOp) :
    Answered treeToJsml profile raw path (finalizeOp treeToJsml profile raw path) := by
  unfold finalizeOp
  simp only
  split
  · exact .inr ⟨rfl, _, rfl, rfl, rfl⟩
  · rename_i sugar
    split
    · exact .inr ⟨rfl, _, rfl, rfl, rfl⟩
    · rename_i selects
      have tree : speaksHtml profile = false → raw.op ∉ htmlSugarOps ∧
          parseNodeRef raw.selector ≠ .selector raw.selector := by
        intro silent
        rw [silent] at sugar selects
        exact ⟨by simpa using sugar, by simpa using selects⟩
      have plain : ∀ value, raw.op ≠ .replaceChildren → SafeOp treeToJsml profile
          ⟨raw.op, raw.selector, parseNodeRef raw.selector, none, none, some value⟩ := by
        intro value other
        exact ⟨rfl, tree, by rintro prop ⟨⟩, by rintro prop written ⟨⟩, fun replaces => absurd replaces other⟩
      cases name : raw.op with
      | toggle => exact .inl ⟨_, rfl, rfl, name ▸ plain _ (by rw [name]; decide)⟩
      | setText => exact .inl ⟨_, rfl, rfl, name ▸ plain _ (by rw [name]; decide)⟩
      | addClass => exact .inl ⟨_, rfl, rfl, name ▸ plain _ (by rw [name]; decide)⟩
      | removeClass => exact .inl ⟨_, rfl, rfl, name ▸ plain _ (by rw [name]; decide)⟩
      | setProp => exact finalizeProp_answered (fun silent => (tree silent).2) (by rw [name]; decide)
      | setAttr => exact finalizeProp_answered (fun silent => (tree silent).2) (by rw [name]; decide)
      | removeAttr => exact finalizeProp_answered (fun silent => (tree silent).2) (by rw [name]; decide)
      | replaceChildren =>
        cases made : sanitizeOpChildren treeToJsml raw.value profile path with
        | none => exact .inr ⟨rfl, _, rfl, rfl, rfl⟩
        | some made' =>
          refine .inl ⟨_, rfl, rfl, rfl, fun silent => ?_, by rintro prop ⟨⟩, by rintro prop written ⟨⟩, fun _ => ?_⟩
          · exact name ▸ tree silent
          · exact ⟨made'.1, rfl, sanitizeOpChildren_safe made⟩

theorem finalizeFrom_safe (index : Nat) (ops : List RawFragmentOp) :
    (∀ op ∈ (finalizeFrom treeToJsml profile index ops).1, SafeOp treeToJsml profile op) ∧
      ((finalizeFrom treeToJsml profile index ops).1.map FragmentOp.selector).Sublist (ops.map RawFragmentOp.selector) ∧
      ∀ i raw, ops[i]? = some raw →
        (∃ op ∈ (finalizeFrom treeToJsml profile index ops).1,
          (finalizeOp treeToJsml profile raw (childPath [] (index + i))).1 = some op ∧ op.selector = raw.selector) ∨
        ∃ d ∈ (finalizeFrom treeToJsml profile index ops).2, d.path = childPath [] (index + i) ∧ d.node = raw.selector := by
  induction ops generalizing index with
  | nil => exact ⟨fun op none => absurd none List.not_mem_nil, List.Sublist.refl _, by simp⟩
  | cons first ops ih =>
    obtain ⟨safe, order, answered⟩ := ih (index + 1)
    have here : Answered treeToJsml profile first (childPath [] index)
        (finalizeOp treeToJsml profile first (childPath [] index)) := finalizeOp_answered first
    simp only [finalizeFrom]
    have later : ∀ i raw, ops[i]? = some raw →
        (∃ op ∈ (finalizeOp treeToJsml profile first (childPath [] index)).1.toList ++
            (finalizeFrom treeToJsml profile (index + 1) ops).1,
          (finalizeOp treeToJsml profile raw (childPath [] (index + (i + 1)))).1 = some op ∧ op.selector = raw.selector) ∨
        ∃ d ∈ (finalizeOp treeToJsml profile first (childPath [] index)).2 ++
            (finalizeFrom treeToJsml profile (index + 1) ops).2,
          d.path = childPath [] (index + (i + 1)) ∧ d.node = raw.selector := by
      intro i raw at'
      rw [show index + (i + 1) = index + 1 + i by omega]
      rcases answered i raw at' with ⟨op, member, emitted⟩ | ⟨d, member, reported⟩
      · exact .inl ⟨op, List.mem_append_right _ member, emitted⟩
      · exact .inr ⟨d, List.mem_append_right _ member, reported⟩
    rcases here with ⟨op, emitted, same, fits⟩ | ⟨dropped, d, reported, at', about⟩
    · refine ⟨?_, ?_, fun i raw at' => ?_⟩
      · rw [emitted]
        exact List.forall_mem_cons.mpr ⟨fits, safe⟩
      · rw [emitted, Option.toList_some, List.singleton_append, List.map_cons, List.map_cons, same]
        exact order.cons_cons _
      · cases i with
        | zero =>
          obtain rfl : first = raw := Option.some.inj at'
          refine .inl ⟨op, List.mem_append_left _ (by rw [emitted]; exact List.mem_singleton_self op), emitted, same⟩
        | succ i => exact later i raw at'
    · refine ⟨?_, ?_, fun i raw found => ?_⟩
      · rw [dropped]
        exact safe
      · rw [dropped]
        exact order.cons _
      · cases i with
        | zero =>
          obtain rfl : first = raw := Option.some.inj found
          refine .inr ⟨d, List.mem_append_left _ (by rw [reported]; exact List.mem_singleton_self d), at', about⟩
        | succ i => exact later i raw found

end

/-- Whatever ops a script puts into its buffer, each one the host is handed is safe under the format, they keep
their order and their targets, and every other one is reported under its place. -/
theorem finalizeOps_safe (treeToJsml : FragmentTree → List Json) (profile : FormatProfile) (ops : List RawFragmentOp) :
    (∀ op ∈ (finalizeOps treeToJsml profile ops).1, SafeOp treeToJsml profile op) ∧
      ((finalizeOps treeToJsml profile ops).1.map FragmentOp.selector).Sublist (ops.map RawFragmentOp.selector) ∧
      ∀ index raw, ops[index]? = some raw →
        (∃ op ∈ (finalizeOps treeToJsml profile ops).1,
          (finalizeOp treeToJsml profile raw (childPath [] index)).1 = some op ∧ op.selector = raw.selector) ∨
        ∃ d ∈ (finalizeOps treeToJsml profile ops).2, d.path = childPath [] index ∧ d.node = raw.selector := by
  have run := @finalizeFrom_safe treeToJsml profile 0 ops
  simp only [Nat.zero_add] at run
  exact run

/-- The names an element of the format may have: a declared node's, or an allowed element's beside them. -/
def Admits (profile : FormatProfile) (name : JSString) : Prop :=
  anyVocabularyDeclares profile name = true ∨ speaksHtml profile = true ∧ name ∈ allowedElements

/-- A declared link passes the sink that every format has for a link of its name. -/
structure LinksPlainly (profile : FormatProfile) (prop : JSString) : Prop where
  href : toLowerCase prop = js "href" → dangerousSinks profile prop = [.uri] ∨
    dangerousSinks profile prop = [.imageUri] ∧ js "data" ∉ profile.schemes
  src : toLowerCase prop = js "src" → dangerousSinks profile prop = [.uri] ∨ dangerousSinks profile prop = [.imageUri]

/-- No prop that is declared with one sink at most is one that sanitizing refuses, or a link of an element of
HTML that its own sink would not check. -/
def OpsPlainly (profile : FormatProfile) : Prop :=
  ∀ prop, declaredByScope profile prop = true → (dangerousSinks profile prop).length ≤ 1 →
    (toLowerCase prop ∉ forbiddenPropNames ∧ startsWithOn prop = false) ∧
      ∀ name ∈ allowedElements, speaksHtml profile = true → nodeDefinition profile name = none → LinksPlainly profile prop

theorem unreserved_of_allowed {lower : JSString} (allowed : isAllowedAttribute lower = true) : lower ∉ forbiddenPropNames := by
  intro reserved
  have refused : ∀ name ∈ forbiddenPropNames, isAllowedAttribute name = false := by decide +kernel
  rw [refused lower reserved] at allowed
  cases allowed

theorem SafeLink.src {schemes : List JSString} {value : JSString} (safe : SafeLink (js "href") schemes value) :
    SafeLink (js "src") schemes value := by
  intro scheme schemed
  obtain ⟨listed, allowed, image⟩ := safe scheme schemed
  exact ⟨listed, allowed, fun data => absurd (image data).1 (by decide)⟩

theorem SafeLink.href {schemes : List JSString} {value : JSString} (safe : SafeLink (js "src") schemes value)
    (dataless : js "data" ∉ schemes) : SafeLink (js "href") schemes value := by
  intro scheme schemed
  obtain ⟨listed, allowed, -⟩ := safe scheme schemed
  exact ⟨listed, allowed, fun data => absurd (data ▸ listed) dataless⟩

theorem safeLink_of_sunk {profile : FormatProfile} {s : JSString} :
    (Sunk (opWalk profile) .uri (.str s) → SafeLink (js "href") profile.schemes s) ∧
      (Sunk (opWalk profile) .imageUri (.str s) → SafeLink (js "src") profile.schemes s) := by
  constructor
  · rintro ⟨t, same, passed⟩
    cases same
    exact safeLink_of_sanitizeUri passed
  · rintro ⟨t, same, passed⟩
    cases same
    exact safeLink_of_sanitizeUri passed

theorem mem_propDeclarations {profile : FormatProfile} {name prop : JSString} {definition : NodeDefinition}
    {declared : PropDefinition} (found : nodeDefinition profile name = some definition)
    (defined : propDefinition definition prop = some declared) : declared ∈ propDeclarations profile prop := by
  obtain ⟨id, nodes, inside, gives⟩ := scopeDefinition_declares found
  refine List.mem_flatMap.mpr ⟨_, inside, ?_⟩
  exact List.mem_filterMap.mpr ⟨(name, definition), Record.mem_of_get gives, defined⟩

theorem sunk_of_single {profile : FormatProfile} {prop : JSString} {value : Json} {sink : Sink}
    (written : SafeWrite profile prop value) (single : dangerousSinks profile prop = [sink]) :
    Sunk (opWalk profile) sink value := by
  have member : sink ∈ dangerousSinks profile prop := by
    rw [single]
    exact List.mem_singleton_self sink
  obtain ⟨declared, listed, same⟩ := List.any_eq_true.mp (List.mem_filter.mp member).2
  rw [← of_decide_eq_true same]
  exact written.sunk declared listed

/-- What a safe op writes does no harm on any element the format may hold. -/
theorem SafeOp.harmless {treeToJsml : FragmentTree → List Json} {profile : FormatProfile} (plainly : OpsPlainly profile)
    {op : FragmentOp} (safe : SafeOp treeToJsml profile op) {prop : JSString} {value : Json} (writes : op.prop = some prop)
    (holds : op.value = some value) {name : JSString} (admits : Admits profile name) :
    HarmlessProp profile name prop value := by
  have written := safe.written prop value writes holds
  obtain ⟨-, named⟩ := safe.named prop writes
  have reserved : toLowerCase prop ∉ forbiddenPropNames ∧ startsWithOn prop = false := by
    cases declares : declaredByScope profile prop with
    | true => exact (plainly prop declares written.unambiguous).1
    | false =>
      have allowed : isAllowedAttribute (toLowerCase prop) = true := by
        unfold checkPropName at named
        split_ifs at named with only attribute' owned lands
        · exact attribute'
        · rw [owned] at declares
          cases declares
        · exact (Bool.and_eq_true_iff.mp lands).2
      exact ⟨unreserved_of_allowed allowed, handlerless_of_allowed allowed⟩
  refine ⟨reserved.1, reserved.2, ?_⟩
  rintro attrName links s rfl
  unfold linkAttribute at links
  cases found : nodeDefinition profile name with
  | some definition =>
    simp only [found] at links
    split at links
    · cases links
    · split at links
      · rename_i sink
        cases links
        obtain ⟨declared, defined, same⟩ := Option.map_eq_some_iff.mp sink
        exact safeLink_of_sunk.1 (same ▸ written.sunk declared (mem_propDeclarations found defined))
      · rename_i sink
        cases links
        obtain ⟨declared, defined, same⟩ := Option.map_eq_some_iff.mp sink
        exact safeLink_of_sunk.2 (same ▸ written.sunk declared (mem_propDeclarations found defined))
      · cases links
  | none =>
    simp only [found] at links
    split at links
    · rename_i link
      cases links
      cases declares : declaredByScope profile prop with
      | false =>
        have sunk := (written.onHtml declares).1
        rcases link with href | src
        · rw [href] at sunk ⊢
          exact safeLink_of_sunk.1 sunk
        · rw [src] at sunk ⊢
          exact safeLink_of_sunk.2 sunk
      | true =>
        obtain declared | ⟨speaks, allowed⟩ := admits
        · rw [anyVocabularyDeclares, found] at declared
          cases declared
        · obtain ⟨href, src⟩ := (plainly prop declares written.unambiguous).2 name allowed speaks found
          rcases link with same | same
          · rw [same]
            rcases href same with single | ⟨single, dataless⟩
            · exact safeLink_of_sunk.1 (sunk_of_single written single)
            · exact (safeLink_of_sunk.2 (sunk_of_single written single)).href dataless
          · rw [same]
            rcases src same with single | single
            · exact (safeLink_of_sunk.1 (sunk_of_single written single)).src
            · exact safeLink_of_sunk.2 (sunk_of_single written single)
    · cases links

/-- A `setProp` of a text. -/
def setTextOp (prop value : JSString) : RawFragmentOp := ⟨.setProp, js "#x", some (.str prop), none, some (.str value)⟩

theorem speaksOnlyHtml_of_declared {profile : FormatProfile} {prop : JSString} (declares : declaredByScope profile prop = true) :
    speaksOnlyHtml profile = false := by
  by_contra only
  rw [Bool.not_eq_false] at only
  rw [declaredByScope, propDeclarations_onlyHtml only] at declares
  cases declares

/-- A text that the sinks of a declared prop let through is written by the op that holds it. -/
theorem setTextOp_emitted {profile : FormatProfile} {c : Nat} {s value written : JSString}
    (declares : declaredByScope profile (c :: s) = true)
    (through : routeOpValue profile (c :: s) (some (.str value)) = .routed (some (.str written))) :
    (finalizeOps (fun _ => []) profile [setTextOp (c :: s) value]).1 =
      [⟨.setProp, js "#x", .id (js "x"), some (c :: s), none, some (.str written)⟩] := by
  have only := speaksOnlyHtml_of_declared declares
  have target : parseNodeRef (js "#x") = .id (js "x") := by decide +kernel
  have lands : landsOnHtmlAttribute profile (c :: s) = false := by
    rw [landsOnHtmlAttribute, only, declares]
    simp
  simp only [finalizeOps, finalizeFrom, finalizeOp, setTextOp, target, htmlSugarOps, finalizeProp, nullish, lands, through]
  simp

theorem routeOpValue_declared {profile : FormatProfile} {prop value written : JSString}
    (declares : declaredByScope profile prop = true)
    (how : dangerousSinks profile prop = [] ∧ written = value ∨ ∃ sink, dangerousSinks profile prop = [sink] ∧
      routeSink sink (.str value) profile.schemes = .str written) :
    routeOpValue profile prop (some (.str value)) = .routed (some (.str written)) := by
  have only := speaksOnlyHtml_of_declared declares
  rcases how with ⟨none, rfl⟩ | ⟨sink, single, routes⟩
  · simp [routeOpValue, only, declares, none, applyOpSink, routeSink, settleSink]
  · simp [routeOpValue, only, declares, single, applyOpSink, routes, settleSink]

/-- Every emitted op of every buffer is harmless on every element the format admits. -/
def HarmlessOps (profile : FormatProfile) : Prop :=
  ∀ treeToJsml ops, ∀ op ∈ (finalizeOps treeToJsml profile ops).1, ∀ prop value, op.prop = some prop →
    op.value = some value → ∀ name, Admits profile name → HarmlessProp profile name prop value

theorem HarmlessOps.written {profile : FormatProfile} (harmless : HarmlessOps profile) {prop value written name : JSString}
    (declares : declaredByScope profile prop = true) (nonempty : prop ≠ [])
    (how : dangerousSinks profile prop = [] ∧ written = value ∨ ∃ sink, dangerousSinks profile prop = [sink] ∧
      routeSink sink (.str value) profile.schemes = .str written)
    (admits : Admits profile name) : HarmlessProp profile name prop (.str written) := by
  obtain ⟨c, s, rfl⟩ := List.exists_cons_of_ne_nil nonempty
  refine harmless (fun _ => []) [setTextOp (c :: s) value]
    ⟨.setProp, js "#x", .id (js "x"), some (c :: s), none, some (.str written)⟩ ?_ (c :: s) (.str written) rfl rfl name admits
  rw [setTextOp_emitted declares (routeOpValue_declared declares how)]
  exact List.mem_singleton_self _

theorem admits_declaring {profile : FormatProfile} {prop : JSString} (declares : declaredByScope profile prop = true) :
    ∃ name, Admits profile name := by
  have inhabited : propDeclarations profile prop ≠ [] := by simpa [declaredByScope] using declares
  obtain ⟨declared, member⟩ := List.exists_mem_of_ne_nil _ inhabited
  obtain ⟨vocabulary, inside, among⟩ := List.mem_flatMap.mp member
  cases vocabulary with
  | builtinHtml => cases among
  | declared id nodes =>
    obtain ⟨node, listed, -⟩ := List.mem_filterMap.mp among
    refine ⟨node.1, .inl ?_⟩
    have known : (Record.get nodes node.1).isSome = true := Record.get_isSome.mpr (List.mem_map_of_mem listed)
    rw [anyVocabularyDeclares, nodeDefinition]
    generalize profile.scope = scope at inside
    induction scope with
    | nil => cases inside
    | cons first scope ih =>
      rcases List.mem_cons.mp inside with rfl | later
      · rw [scopeDefinition, Option.isSome_or, known, Bool.true_or]
      · cases first with
        | builtinHtml => exact ih later
        | declared other others => rw [scopeDefinition, Option.isSome_or, ih later, Bool.or_true]

theorem sinks_cases {profile : FormatProfile} {prop : JSString} (few : (dangerousSinks profile prop).length ≤ 1) :
    dangerousSinks profile prop = [] ∨ ∃ sink, dangerousSinks profile prop = [sink] ∧ sink ≠ .text := by
  cases sinks : dangerousSinks profile prop with
  | nil => exact .inl rfl
  | cons sink rest =>
    rw [sinks] at few
    obtain rfl : rest = [] := List.eq_nil_of_length_eq_zero (by simpa using few)
    refine .inr ⟨sink, rfl, ?_⟩
    rintro rfl
    have member : Sink.text ∈ dangerousSinks profile prop := by
      rw [sinks]
      exact List.mem_singleton_self _
    exact absurd (List.mem_filter.mp member).1 (by decide)

/-- A script that runs, as a link. -/
theorem not_safe_scriptLink (attrName : JSString) (schemes : List JSString) : ¬SafeLink attrName schemes (js "javascript:x") := by
  intro safe
  have schemed : Schemed (js "javascript:x") (js "javascript") :=
    ⟨by decide +kernel, js "javascript", js "x", by decide +kernel, by decide +kernel⟩
  exact absurd (safe _ schemed).2.1 (by decide)

/-- What `css` and `html` sinks make of a script link: they leave it as it is. -/
theorem scriptLink_routed {sink : Sink} (unlinked : sink = .css ∨ sink = .html) (schemes : List JSString) :
    routeSink sink (.str (js "javascript:x")) schemes = .str (js "javascript:x") := by
  rcases unlinked with rfl | rfl
  · have cleaned : sanitizeStyleValue (js "javascript:x") = js "javascript:x" := by decide +kernel
    simp only [routeSink, cleaned]
    exact if_neg (by decide)
  · have cleaned : sanitizeHTML (js "javascript:x") = js "javascript:x" := by decide +kernel
    simp only [routeSink, cleaned]

/-- Each op the host is handed is harmless on each element of its format, whatever buffer a script fills, exactly
where no prop with one sink at most is declared under a name sanitizing refuses, or beside HTML as a link that
its sink does not check. -/
theorem finalizeOps_harmless_iff (profile : FormatProfile) : HarmlessOps profile ↔ OpsPlainly profile := by
  constructor
  · intro harmless prop declares few
    have how : ∀ value written, (∀ sink, dangerousSinks profile prop = [sink] →
        routeSink sink (.str value) profile.schemes = .str written) → value = written →
        dangerousSinks profile prop = [] ∧ written = value ∨ ∃ sink, dangerousSinks profile prop = [sink] ∧
          routeSink sink (.str value) profile.schemes = .str written := by
      rintro value written routes rfl
      rcases sinks_cases few with none | ⟨sink, single, -⟩
      · exact .inl ⟨none, rfl⟩
      · exact .inr ⟨sink, single, routes sink single⟩
    by_cases empty : prop = []
    · subst empty
      have plain : toLowerCase [] ∉ forbiddenPropNames ∧ startsWithOn [] = false ∧ toLowerCase [] ≠ js "href" ∧
          toLowerCase [] ≠ js "src" := by decide +kernel
      exact ⟨⟨plain.1, plain.2.1⟩, fun name _ _ _ =>
        ⟨fun same => absurd same plain.2.2.1, fun same => absurd same plain.2.2.2⟩⟩
    constructor
    · obtain ⟨name, admits⟩ := admits_declaring declares
      have written := harmless.written declares empty (how [] [] (fun sink _ => routeSink_empty sink _) rfl) admits
      exact ⟨written.unreserved, written.handlerless⟩
    · intro name allowed speaks undeclared
      have admits : Admits profile name := .inr ⟨speaks, allowed⟩
      have link : ∀ attrName, toLowerCase prop = attrName → attrName = js "href" ∨ attrName = js "src" →
          ∀ value written, (dangerousSinks profile prop = [] ∧ written = value ∨ ∃ sink,
            dangerousSinks profile prop = [sink] ∧ routeSink sink (.str value) profile.schemes = .str written) →
          SafeLink attrName profile.schemes written := by
        rintro attrName rfl names value written how
        refine (harmless.written declares empty how admits).link _ ?_ written rfl
        simp only [linkAttribute, undeclared, if_pos names]
      have checked : toLowerCase prop = js "href" ∨ toLowerCase prop = js "src" →
          dangerousSinks profile prop = [.uri] ∨ dangerousSinks profile prop = [.imageUri] := by
        intro names
        rcases sinks_cases few with none | ⟨sink, single, other⟩
        · exact absurd (link _ rfl names (js "javascript:x") _ (.inl ⟨none, rfl⟩)) (not_safe_scriptLink _ _)
        · cases sink with
          | text => exact absurd rfl other
          | uri => exact .inl single
          | imageUri => exact .inr single
          | css =>
            exact absurd (link _ rfl names (js "javascript:x") _
              (.inr ⟨_, single, scriptLink_routed (.inl rfl) _⟩)) (not_safe_scriptLink _ _)
          | html =>
            exact absurd (link _ rfl names (js "javascript:x") _
              (.inr ⟨_, single, scriptLink_routed (.inr rfl) _⟩)) (not_safe_scriptLink _ _)
      refine ⟨fun href => ?_, fun src => checked (.inr src)⟩
      rcases checked (.inl href) with uri | image
      · exact .inl uri
      · refine .inr ⟨image, fun listed => ?_⟩
        have passes : sanitizeUri (js "data:image/png,x") (js "src") profile.schemes = some (js "data:image/png,x") := by
          have parts : normalizeUri (js "data:image/png,x") = js "data:image/png,x" ∧
              uriScheme (toLowerCase (js "data:image/png,x")) = some (js "data") ∧
              isSafeDataImage (toLowerCase (js "data:image/png,x")) = true := by decide +kernel
          simp only [sanitizeUri, parts.1, parts.2.1]
          rw [if_neg (by decide), if_neg (not_not.mpr listed), if_pos trivial, if_pos ⟨trivial, parts.2.2⟩]
        have routes : routeSink .imageUri (.str (js "data:image/png,x")) profile.schemes = .str (js "data:image/png,x") := by
          simp only [routeSink, passes]
          rfl
        have safe := link _ href (.inl rfl) _ _ (.inr ⟨_, image, routes⟩)
        have schemed : Schemed (js "data:image/png,x") (js "data") :=
          ⟨by decide +kernel, js "data", js "image/png,x", by decide +kernel, by decide +kernel⟩
        exact absurd ((safe _ schemed).2.2 rfl).1 (by decide)
  · intro plainly treeToJsml ops op member prop value writes holds name admits
    exact ((finalizeFrom_safe 0 ops).1 op member).harmless plainly writes holds admits

end Xript
