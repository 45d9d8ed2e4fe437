import Xript.Fragment.Harmless

namespace Xript

/-- What a pass over one prop keeps, or drops without a word. -/
def PassesQuietly (outcome : PropOutcome) : Prop := ∀ report, outcome = .drop report → report = .empty

theorem PassesQuietly.keep (key : JSString) (value : PropValue) : PassesQuietly (.keep key value) := by
  rintro report ⟨⟩

/-- What a constraint admits: a text, or an element of a name. -/
def takesKind (constraint : ChildrenConstraint) : Option JSString → Bool
  | none => textAllowed constraint
  | some name => childAllowed constraint name

theorem takesKind_any (kind : Option JSString) : takesKind .any kind = true := by
  cases kind <;> rfl

/-- Whether the children of an element stand in an `svg`: no declared node is one. -/
def innerSvg (profile : FormatProfile) (inSvg : Bool) (name : JSString) : Bool :=
  if (nodeDefinition profile name).isSome then inSvg else inSvg || name = js "svg"

mutual

/-- A node that its vocabulary claims by its own name, with props and children it says nothing against. -/
def WithinNode (ctx : WalkContext) (inSvg : Bool) : FragmentNode → Prop
  | .text _ _ => True
  | .element name props children _ =>
    ((∃ definition, nodeDefinition ctx.profile name = some definition ∧
        resolveNode name ctx.profile inSvg = .declared definition ∧
        (∀ entry ∈ props, ∀ path, PassesQuietly (declaredProp ctx definition name path entry.1 entry.2)) ∧
        ∀ child ∈ children, takesKind (definition.children.getD .any) child.kind = true) ∨
      (nodeDefinition ctx.profile name = none ∧ resolveNode name ctx.profile inSvg = .html name ∧
        ∀ entry ∈ props, ∀ path, PassesQuietly (htmlProp ctx name path entry.1 entry.2)) ∨
      (nodeDefinition ctx.profile name = none ∧ resolveNode name ctx.profile inSvg = .svgText name ∧
        (∀ entry ∈ props, QuietSvgProp entry.1) ∧ ∀ child ∈ children, child.isText = true)) ∧
    Within ctx (innerSvg ctx.profile inSvg name) children

def Within (ctx : WalkContext) (inSvg : Bool) : List FragmentNode → Prop
  | [] => True
  | node :: nodes => WithinNode ctx inSvg node ∧ Within ctx inSvg nodes

end

theorem within_iff_forall {ctx : WalkContext} {inSvg : Bool} (nodes : List FragmentNode) :
    Within ctx inSvg nodes ↔ ∀ node ∈ nodes, WithinNode ctx inSvg node := by
  induction nodes with
  | nil => exact ⟨fun _ node none => absurd none List.not_mem_nil, fun _ => trivial⟩
  | cons node nodes ih => rw [Within, List.forall_mem_cons, ih]

mutual

/-- A walk over a node within the vocabulary finds nothing but interpolation sites that do not parse. -/
theorem walkNode_within {ctx : WalkContext} {inSvg : Bool} {constraint : ChildrenConstraint} (path : JSString)
    (node : FragmentNode) (within : WithinNode ctx inSvg node) (admitted : takesKind constraint node.kind = true) :
    OnlySites ctx (walkNode ctx inSvg path constraint node).2 := by
  cases node with
  | text value segments =>
    rw [walkNode, if_pos (show textAllowed constraint = true from admitted)]
    exact (textNode_sites ctx value segments path path).2
  | element name props children selfClosing =>
    have allowed : childAllowed constraint name = true := admitted
    obtain ⟨⟨definition, found, resolved, quiet, fits⟩ | ⟨undeclared, resolved, quiet⟩ |
      ⟨undeclared, resolved, quiet, texts⟩, inner⟩ :=
      within
    · have same : innerSvg ctx.profile inSvg name = inSvg := by rw [innerSvg, found]; rfl
      rw [same] at inner
      simp only [walkNode, resolved, if_pos allowed, collectProps_quiet fun entry member => quiet entry member path]
      exact (OnlySites.empty ctx).append (walkNodes_within path 0 children inner fits)
    · have same : innerSvg ctx.profile inSvg name = (inSvg || name = js "svg") := by rw [innerSvg, undeclared]; rfl
      rw [same] at inner
      simp only [walkNode, resolved, if_pos allowed, collectProps_quiet fun entry member => quiet entry member path]
      exact (OnlySites.empty ctx).append (walkNodes_within path 0 children inner fun child _ => takesKind_any child.kind)
    · have kept : (collectProps (svgTextProp name path) props).2 = .empty := by
        refine collectProps_quiet fun entry member => ?_
        rw [(quiet entry member).kept]
        exact PassesQuietly.keep _ _
      simp only [walkNode, resolved, if_pos allowed, sanitizeSvgTextNode, kept, collectSvgText_texts texts]
      split
      · exact (OnlySites.empty ctx).append (.empty ctx)
      · exact ((OnlySites.empty ctx).append (.empty ctx)).append (textNode_sites ctx _ none _ path).2

theorem walkNodes_within {ctx : WalkContext} {inSvg : Bool} {constraint : ChildrenConstraint} (path : JSString)
    (index : Nat) (nodes : List FragmentNode) (within : Within ctx inSvg nodes)
    (admitted : ∀ node ∈ nodes, takesKind constraint node.kind = true) :
    OnlySites ctx (walkNodes ctx inSvg path constraint index nodes).2 := by
  cases nodes with
  | nil => exact .empty ctx
  | cons node nodes =>
    rw [List.forall_mem_cons] at admitted
    rw [walkNodes]
    exact (walkNode_within (childPath path index) node within.1 admitted.1).append
      (walkNodes_within path (index + 1) nodes within.2 admitted.2)

end

/-- A declared prop whose declaration decides what it may hold. -/
structure GovernedProp (definition : NodeDefinition) (key : JSString) (declared : PropDefinition) : Prop where
  defined : propDefinition definition key = some declared
  unreserved : toLowerCase key ∉ forbiddenPropNames ∧ startsWithOn key = false
  plain : key ∉ protocolProps ∧ isMetadataPropName key = false

/-- A declaration that takes texts. -/
def TakesText (declared : PropDefinition) : Prop := ∀ type, declared.type = some type → matchesJsonType (.str []) type = true

/-- No declared style can be spelled that cleaning makes unclean; a `data-bind` writes children only where text may stand,
and a declared prop only where the sanitizer lets its texts through. -/
structure BindsWithin (profile : FormatProfile) : Prop where
  unstyled : ∀ name definition key declared, nodeDefinition profile name = some definition →
    GovernedProp definition key declared → TakesText declared → sinkOf declared ≠ .css
  texts : ∀ name definition, nodeDefinition profile name = some definition → bindTarget profile name = js "children" →
    textAllowed (definition.children.getD .any) = true
  props : ∀ name definition declared, nodeDefinition profile name = some definition →
    bindTarget profile name ≠ js "children" → bindTarget profile name ≠ js "__proto__" →
    bindTarget profile name ∉ protocolProps → propDefinition definition (bindTarget profile name) = some declared →
      (toLowerCase (bindTarget profile name) ∉ forbiddenPropNames ∧ startsWithOn (bindTarget profile name) = false) ∧
        (isMetadataPropName (bindTarget profile name) = true ∨ TakesText declared)

/-- A text in a sink other than a style is let through. -/
theorem checkSink_sunk {ctx : WalkContext} {declared : PropDefinition} {value : PropValue}
    (sunk : Sunk ctx (sinkOf declared) value) (other : sinkOf declared ≠ .css) (path node key : JSString)
    (invalid : JSString → PropOutcome) : PassesQuietly (declaredValue.checkSink ctx declared path node key value invalid) := by
  unfold declaredValue.checkSink
  simp only
  split
  · exact PassesQuietly.keep _ _
  · rename_i cleaned
    generalize sinkOf declared = sink at sunk other cleaned
    cases sink with
    | text => exact absurd rfl cleaned
    | css => exact absurd rfl other
    | uri =>
      obtain ⟨s, rfl, passed⟩ := sunk
      simp only [applySink, passed]
      exact PassesQuietly.keep _ _
    | imageUri =>
      obtain ⟨s, rfl, passed⟩ := sunk
      simp only [applySink, passed]
      exact PassesQuietly.keep _ _
    | html =>
      obtain ⟨s, rfl⟩ := sunk
      simp only [applySink]
      exact PassesQuietly.keep _ _

theorem declaredValue_quiet {ctx : WalkContext} {declared : PropDefinition} {value : PropValue}
    (fits : DeclaredAs ctx declared value) (other : sinkOf declared ≠ .css) (path node key : JSString) :
    PassesQuietly (declaredValue ctx declared path node key value) := by
  unfold declaredValue
  simp only
  split
  · rename_i type typed
    rw [if_pos (fits.typed type typed)]
    exact checkSink_sunk fits.sunk other path node key _
  · exact checkSink_sunk fits.sunk other path node key _

theorem takesText_of_declaredAs {ctx : WalkContext} {declared : PropDefinition} {value : PropValue}
    (fits : DeclaredAs ctx declared value) (style : sinkOf declared = .css) : TakesText declared := by
  obtain ⟨s, rfl⟩ : ∃ s, value = .str (sanitizeStyleValue s) := by
    have sunk := fits.sunk
    rw [style] at sunk
    exact sunk
  exact fun type typed => (matchesJsonType_str [] _ type).trans (fits.typed type typed)

theorem declaredProp_quiet {ctx : WalkContext} (within : BindsWithin ctx.profile) {name : JSString}
    {definition : NodeDefinition} (found : nodeDefinition ctx.profile name = some definition) {key : JSString}
    {value : PropValue} (fits : DeclaredPropFits ctx definition key value) (path : JSString) :
    PassesQuietly (declaredProp ctx definition name path key value) := by
  have free : ¬(toLowerCase key ∈ forbiddenPropNames ∨ startsWithOn key = true) := by
    rw [fits.handlerless]
    simpa using fits.unreserved
  unfold declaredProp
  rw [if_neg free]
  rcases fits.known with ⟨protocol, s, rfl⟩ | ⟨plain, metadata⟩ | ⟨plain, declared, defined, as⟩
  · rw [if_pos protocol]
    exact PassesQuietly.keep _ _
  · rw [if_neg plain, if_pos metadata]
    exact PassesQuietly.keep _ _
  · rw [if_neg plain]
    split
    · exact PassesQuietly.keep _ _
    · rename_i governed
      rw [Bool.not_eq_true] at governed
      simp only [defined]
      refine declaredValue_quiet as (fun style => ?_) path name key
      exact within.unstyled name definition key declared found ⟨defined, ⟨fits.unreserved, fits.handlerless⟩, plain, governed⟩
        (takesText_of_declaredAs as style) style

theorem htmlProp_quietly {ctx : WalkContext} {key : JSString} {value : PropValue} (fits : HtmlPropFits ctx key value)
    (tag path : JSString) : PassesQuietly (htmlProp ctx tag path key value) := by
  unfold htmlProp
  simp only [if_neg fits.unreserved, fits.valid, fits.allowed, Bool.not_true, Bool.false_eq_true, if_false]
  split
  · rename_i link
    obtain ⟨s, rfl, passed⟩ := fits.link link.1 link.2
    simp only [jsString, passed]
    exact PassesQuietly.keep _ _
  · split
    · split
      · rintro report ⟨⟩
        rfl
      · exact PassesQuietly.keep _ _
    · exact PassesQuietly.keep _ _

theorem undeclared_of_html {profile : FormatProfile} {names : List JSString} (sound : SoundProfile profile)
    (unmasked : Unmasked profile names) {inSvg : Bool} {spelling tag : JSString} (member : spelling ∈ names)
    (resolved : resolveNode spelling profile inSvg = .html tag ∨ resolveNode spelling profile inSvg = .svgText tag) :
    nodeDefinition profile tag = none := by
  have spelled : toLowerCase spelling = tag := by
    rcases resolved with html | text
    · exact (html_of_resolveNode html).1
    · exact (svgText_of_resolveNode text).2.1
  have undeclared := unmasked.undeclared sound member (by rcases resolved with h | h <;> rw [h] <;> exact Resolution.noConfusion)
    fun definition => by rcases resolved with h | h <;> rw [h] <;> exact Resolution.noConfusion
  rwa [spelled] at undeclared

theorem ConformsNode.admitted {ctx : WalkContext} {names : List JSString} {inSvg : Bool} {constraint : ChildrenConstraint}
    {node : FragmentNode} (conforms : ConformsNode ctx names inSvg constraint node) : takesKind constraint node.kind = true := by
  cases node with
  | text value segments => exact conforms.1
  | element name props children selfClosing => exact conforms.1

theorem Conforms.admitted {ctx : WalkContext} {names : List JSString} {inSvg : Bool} {constraint : ChildrenConstraint}
    {nodes : List FragmentNode} (conforms : Conforms ctx names inSvg constraint nodes) :
    ∀ node ∈ nodes, takesKind constraint node.kind = true := by
  induction nodes with
  | nil => exact fun node none => absurd none List.not_mem_nil
  | cons node nodes ih => exact List.forall_mem_cons.mpr ⟨conforms.1.admitted, ih conforms.2⟩

section

variable {ctx : WalkContext} {strict interpolate : Bool}

theorem Sunk.anyMode {sink : Sink} {value : PropValue} (sunk : Sunk ⟨ctx.profile, strict, interpolate, ctx.html⟩ sink value) :
    Sunk ctx sink value := by
  cases sink <;> exact sunk

/-- What a declared prop may hold does not depend on the mode of the walk. -/
theorem DeclaredPropFits.anyMode {definition : NodeDefinition} {key : JSString} {value : PropValue}
    (fits : DeclaredPropFits ⟨ctx.profile, strict, interpolate, ctx.html⟩ definition key value) :
    DeclaredPropFits ctx definition key value := by
  refine ⟨fits.unreserved, fits.handlerless, fits.known.imp_right (Or.imp_right fun declares => ?_)⟩
  obtain ⟨plain, declared, defined, as⟩ := declares
  exact ⟨plain, declared, defined, as.typed, as.sunk.anyMode⟩

theorem HtmlPropFits.anyMode {key : JSString} {value : PropValue}
    (fits : HtmlPropFits ⟨ctx.profile, strict, interpolate, ctx.html⟩ key value) : HtmlPropFits ctx key value :=
  ⟨fits.spelled, fits.unreserved, fits.valid, fits.allowed, fits.link, fits.style⟩

end

mutual

theorem ConformsNode.within {ctx : WalkContext} {strict interpolate : Bool} {names : List JSString}
    (sound : SoundProfile ctx.profile) (unmasked : Unmasked ctx.profile names) (binds : BindsWithin ctx.profile) {inSvg : Bool} {constraint : ChildrenConstraint}
    (node : FragmentNode) (conforms : ConformsNode ⟨ctx.profile, strict, interpolate, ctx.html⟩ names inSvg constraint node) : WithinNode ctx inSvg node := by
  cases node with
  | text value segments => trivial
  | element name props children selfClosing =>
    obtain ⟨-, -, ⟨definition, -, found, fits, inner⟩ | ⟨-, ⟨spelling, member, -, html⟩, fits, inner⟩ |
      ⟨inside, -, ⟨spelling, member, -, text⟩, fits, inner⟩⟩ := conforms
    · have same : innerSvg ctx.profile inSvg name = inSvg := by rw [innerSvg, found]; rfl
      refine ⟨.inl ⟨definition, found, resolveIn_declared sound.htmlLast found, fun entry here path =>
        declaredProp_quiet binds found (fits entry here).anyMode path, inner.admitted⟩, ?_⟩
      rw [same]
      exact Conforms.within sound unmasked binds children inner
    · have undeclared := undeclared_of_html sound unmasked member (.inl html)
      have same : innerSvg ctx.profile inSvg name = (inSvg || name = js "svg") := by rw [innerSvg, undeclared]; rfl
      refine ⟨.inr (.inl ⟨undeclared, (resolveNode_again sound unmasked member).1 html, fun entry here path =>
        htmlProp_quietly (fits entry here).anyMode name path⟩), ?_⟩
      rw [same]
      exact Conforms.within sound unmasked binds children inner
    · refine ⟨.inr (.inr ⟨undeclared_of_html sound unmasked member (.inr text), (resolveNode_again sound unmasked member).2
        text, fun entry here => (fits entry here).2, ?_⟩), ?_⟩
      · rcases inner with rfl | ⟨value, segments, rfl, -⟩
        · exact fun child none => absurd none List.not_mem_nil
        · exact List.forall_mem_singleton.mpr rfl
      · rcases inner with rfl | ⟨value, segments, rfl, -⟩
        · trivial
        · exact ⟨trivial, trivial⟩

theorem Conforms.within {ctx : WalkContext} {strict interpolate : Bool} {names : List JSString}
    (sound : SoundProfile ctx.profile) (unmasked : Unmasked ctx.profile names) (binds : BindsWithin ctx.profile) {inSvg : Bool} {constraint : ChildrenConstraint}
    (nodes : List FragmentNode) (conforms : Conforms ⟨ctx.profile, strict, interpolate, ctx.html⟩ names inSvg constraint nodes) : Within ctx inSvg nodes := by
  cases nodes with
  | nil => trivial
  | cons node nodes =>
    exact ⟨ConformsNode.within sound unmasked binds node conforms.1, Conforms.within sound unmasked binds nodes conforms.2⟩

end

theorem routeSink_text (sink : Sink) (text : JSString) (schemes : List JSString) :
    routeSink sink (.str text) schemes = .null ∨ ∃ s, routeSink sink (.str text) schemes = .str s := by
  have uri : ∀ cleaned : Option JSString, (cleaned.map Json.str).getD .null = .null ∨
      ∃ s, (cleaned.map Json.str).getD .null = .str s := by
    intro cleaned
    cases cleaned with
    | none => exact .inl rfl
    | some s => exact .inr ⟨s, rfl⟩
  cases sink with
  | text => exact .inr ⟨text, rfl⟩
  | html => exact .inr ⟨sanitizeHTML text, rfl⟩
  | uri => exact uri _
  | imageUri => exact uri _
  | css =>
    simp only [routeSink]
    split
    · exact .inl rfl
    · exact .inr ⟨_, rfl⟩

/-- What the bind pass accepts for a governed prop that takes texts, the sanitizer keeps. -/
theorem accepted_declaredAs {ctx : WalkContext} (html : ctx.html = sanitizeHTML) {declared : PropDefinition}
    (takes : TakesText declared) {text : JSString} {value : PropValue}
    (accepted : settleRoute (routeSink (sinkOf declared) (.str text) ctx.profile.schemes) = .accepted value) :
    DeclaredAs ctx declared value := by
  have routed := settleRoute_accepted accepted
  rcases routeSink_text (sinkOf declared) text ctx.profile.schemes with refused | ⟨s, passed⟩
  · rw [refused] at accepted
    cases accepted
  · refine ⟨fun type typed => ?_, routeSink_sunk html routed fun none => ?_⟩
    · rw [← routed, passed]
      exact (matchesJsonType_str s [] type).trans (takes type typed)
    · rw [← routed, passed] at none
      cases none

theorem bindTarget_undeclared {profile : FormatProfile} {name : JSString} (undeclared : nodeDefinition profile name = none) :
    bindTarget profile name = if name ∈ voidElements then js "value" else js "children" := by
  rw [bindTarget, undeclared, isVoidNode, undeclared]
  simp

theorem htmlProp_value (ctx : WalkContext) (tag path : JSString) (value : PropValue) :
    htmlProp ctx tag path (js "value") value = .keep (canonicalAttributeName (toLowerCase (js "value"))) value := by
  have unreserved : toLowerCase (js "value") ∉ forbiddenPropNames := by decide +kernel
  have valid : isValidAttributeName (toLowerCase (js "value")) = true := by decide +kernel
  have allowed : isAllowedAttribute (toLowerCase (js "value")) = true := by decide +kernel
  have unlinked : ¬(toLowerCase (js "value") = js "href" ∨ toLowerCase (js "value") = js "src") := by decide +kernel
  have unstyled : toLowerCase (js "value") ≠ js "style" := by decide +kernel
  simp only [htmlProp, if_neg unreserved, valid, allowed, unlinked, unstyled, Bool.not_true, Bool.false_eq_true, false_and,
    if_false]

/-- A prop that the pass over a declared node keeps is none of the reserved ones. -/
theorem unreserved_of_quiet {ctx : WalkContext} {definition : NodeDefinition} {name path key : JSString} {value : PropValue}
    (quiet : PassesQuietly (declaredProp ctx definition name path key value)) : toLowerCase key ∉ forbiddenPropNames := by
  intro reserved
  unfold declaredProp at quiet
  rw [if_pos (.inl reserved)] at quiet
  have spoken := congrArg Report.diagnostics (quiet _ rfl)
  cases spoken

/-- The bind pass keeps every node within the vocabulary. -/
theorem bindMakes_within {ctx : WalkContext} (html : ctx.html = sanitizeHTML) (binds : BindsWithin ctx.profile) :
    BindMakes ctx.profile (innerSvg ctx.profile) (WithinNode ctx) (WithinNode ctx) where
  text inSvg value segments _ bindings := by
    unfold bindText
    split <;> trivial
  child inSvg name props children selfClosing within := (within_iff_forall children).mp within.2
  copy inSvg name props children selfClosing within := by
    obtain ⟨how, inner⟩ := within
    have fewer : ∀ entry ∈ copyProps props, entry ∈ props := fun entry member => (List.mem_filter.mp member).1
    refine ⟨?_, inner⟩
    rcases how with ⟨definition, found, resolved, quiet, fits⟩ | ⟨undeclared, resolved, quiet⟩ |
      ⟨undeclared, resolved, quiet, texts⟩
    · exact .inl ⟨definition, found, resolved, fun entry member => quiet entry (fewer entry member), fits⟩
    · exact .inr (.inl ⟨undeclared, resolved, fun entry member => quiet entry (fewer entry member)⟩)
    · exact .inr (.inr ⟨undeclared, resolved, fun entry member => quiet entry (fewer entry member), texts⟩)
  bind inSvg name props children selfClosing within kids made kinds bindings path st := by
    obtain ⟨how, -⟩ := within
    have inner : Within ctx (innerSvg ctx.profile inSvg name) kids := (within_iff_forall kids).mpr made
    have alike : ∀ {P : Option JSString → Prop}, (∀ child ∈ children, P child.kind) → ∀ kid ∈ kids, P kid.kind := by
      intro P all kid member
      obtain ⟨child, inside, same⟩ := kinds kid member
      exact same ▸ all child inside
    have lone : ∀ written, Within ctx (innerSvg ctx.profile inSvg name) [.text written none] := fun _ => ⟨trivial, trivial⟩
    unfold writeBinding
    rcases how with ⟨definition, found, resolved, quiet, fits⟩ | ⟨undeclared, resolved, quiet⟩ |
      ⟨undeclared, resolved, quiet, texts⟩
    · have same : WithinNode ctx inSvg (.element name props kids selfClosing) :=
        ⟨.inl ⟨definition, found, resolved, quiet, alike (P := fun kind => takesKind _ kind = true) fits⟩, inner⟩
      split
      · exact same
      · rename_i written _
        dsimp only
        split
        · rename_i intoChildren
          refine ⟨.inl ⟨definition, found, resolved, quiet, List.forall_mem_singleton.mpr ?_⟩, lone written⟩
          exact binds.texts name definition found intoChildren
        · rename_i prop
          split
          · rename_i value accepted
            refine ⟨.inl ⟨definition, found, resolved, fun entry member path => ?_,
              alike (P := fun kind => takesKind _ kind = true) fits⟩, inner⟩
            by_cases owned : bindTarget ctx.profile name = js "__proto__"
            · have absent : js "__proto__" ∉ Record.keys props := by
                intro inside
                obtain ⟨old, here, named⟩ := List.mem_map.mp inside
                exact unreserved_of_quiet (quiet old here path) (by rw [named]; decide +kernel)
              rw [owned, Record.assign, if_pos ⟨rfl, absent⟩] at member
              exact quiet entry member path
            · rcases Record.mem_assign member with rfl | before
              · simp only [routePropValueDetailed, found] at accepted
                by_cases protocol : bindTarget ctx.profile name ∈ protocolProps
                · obtain ⟨unreserved, handlerless⟩ := protocolProps_plain _ protocol
                  rw [if_pos protocol] at accepted
                  cases accepted
                  exact declaredProp_quiet binds found ⟨unreserved, handlerless, .inl ⟨protocol, written, rfl⟩⟩ path
                · rw [if_neg protocol] at accepted
                  cases defined : propDefinition definition (bindTarget ctx.profile name) with
                  | none =>
                    rw [defined] at accepted
                    cases accepted
                  | some declared =>
                    rw [defined] at accepted
                    obtain ⟨⟨unreserved, handlerless⟩, takes⟩ :=
                      binds.props name definition declared found prop owned protocol defined
                    refine declaredProp_quiet binds found ⟨unreserved, handlerless, .inr ?_⟩ path
                    rcases takes with metadata | takes
                    · exact .inl ⟨protocol, metadata⟩
                    · exact .inr ⟨protocol, declared, defined, accepted_declaredAs html takes accepted⟩
              · exact quiet entry before path
          · exact same
          · exact same
    · have same : WithinNode ctx inSvg (.element name props kids selfClosing) :=
        ⟨.inr (.inl ⟨undeclared, resolved, quiet⟩), inner⟩
      split
      · exact same
      · rename_i written _
        dsimp only
        split
        · exact ⟨.inr (.inl ⟨undeclared, resolved, quiet⟩), lone written⟩
        · rename_i prop
          have target : bindTarget ctx.profile name = js "value" := by
            rw [bindTarget_undeclared undeclared] at prop ⊢
            split at prop
            · rename_i isVoid
              rw [if_pos isVoid]
            · exact absurd rfl prop
          split
          · refine ⟨.inr (.inl ⟨undeclared, resolved, fun entry member path => ?_⟩), inner⟩
            rcases Record.mem_assign member with rfl | before
            · rw [target, htmlProp_value]
              exact PassesQuietly.keep _ _
            · exact quiet entry before path
          · exact same
          · exact same
    · have same : WithinNode ctx inSvg (.element name props kids selfClosing) := by
        refine ⟨.inr (.inr ⟨undeclared, resolved, quiet, fun kid member => ?_⟩), inner⟩
        obtain ⟨child, inside, alike⟩ := kinds kid member
        exact kind_isText alike ▸ texts child inside
      have known : name ∈ svgTextElements := by
        obtain ⟨-, lower, known⟩ := svgText_of_resolveNode resolved
        exact known
      have unvoid : ∀ name ∈ svgTextElements, name ∉ voidElements := by decide +kernel
      split
      · exact same
      · rename_i written _
        dsimp only
        rw [bindTarget_undeclared undeclared, if_neg (unvoid name known), if_pos rfl]
        exact ⟨.inr (.inr ⟨undeclared, resolved, quiet, List.forall_mem_singleton.mpr rfl⟩), lone written⟩

theorem diagnostics_append (r s : Report) : (r ++ s).diagnostics = r.diagnostics ++ s.diagnostics := rfl

/-- What one step of a fold makes and every step keeps is there at its end. -/
theorem foldl_reaches {α β : Type} {step : β → α → β} {P : β → Prop} {l : List α} {a : α} (member : a ∈ l)
    (makes : ∀ b, P (step b a)) (keeps : ∀ b x, P b → P (step b x)) (b : β) : P (l.foldl step b) := by
  obtain ⟨early, late, rfl⟩ := List.append_of_mem member
  rw [List.foldl_append, List.foldl_cons]
  exact List.foldlRecOn late step (makes _) fun b reached x _ => keeps b x reached

/-- What is said of a prop stays in the report of all of them. -/
theorem mem_collectProps_report {check : JSString → PropValue → PropOutcome} {props : Props} {entry : JSString × PropValue}
    {report : Report} {d : FragmentDiagnostic} (member : entry ∈ props) (dropped : check entry.1 entry.2 = .drop report)
    (said : d ∈ report.diagnostics) : d ∈ (collectProps check props).2.diagnostics := by
  unfold collectProps
  refine foldl_reaches (P := fun found : Props × Report => d ∈ found.2.diagnostics) member (fun found => ?_) (fun found other before => ?_) _
  · rw [dropped]
    exact List.mem_append_right _ said
  · split
    · exact before
    · exact List.mem_append_left _ before

/-- The findings of a walk about what a node may be, may hold and may carry. -/
def vocabularyFindings : List DiagnosticCode := [.unknownNode, .illegalChild, .unknownProp, .invalidProp, .unsafeProp]

def FindsNothing (report : Report) : Prop := ∀ d ∈ report.diagnostics, d.code ∉ vocabularyFindings

theorem found_unsafeProp : DiagnosticCode.unsafeProp ∈ vocabularyFindings := by decide

theorem found_invalidProp : DiagnosticCode.invalidProp ∈ vocabularyFindings := by decide

theorem found_illegalChild : DiagnosticCode.illegalChild ∈ vocabularyFindings := by decide

theorem OnlySites.findsNothing {ctx : WalkContext} {report : Report} (sites : OnlySites ctx report) : FindsNothing report := by
  intro d member
  rw [(sites.sites d member).2]
  decide

/-- What a walk finds in a prop of a lone declared node. -/
theorem finds_prop {profile : FormatProfile} (sound : SoundProfile profile) {name : JSString} {definition : NodeDefinition}
    (found : nodeDefinition profile name = some definition) {props : Props} {entry : JSString × PropValue}
    {d : FragmentDiagnostic} {children : List FragmentNode} (member : entry ∈ props)
    (dropped : declaredProp ⟨profile, false, false, sanitizeHTML⟩ definition name (childPath [] 0) entry.1 entry.2 =
      .drop (.diagnostic d)) :
    d ∈ (sanitizeTree [.element name props children false] profile ⟨false, false⟩).report.diagnostics := by
  have resolved : resolveNode name profile false = .declared definition := resolveIn_declared sound.htmlLast found
  have allowed : childAllowed .any name = true := rfl
  simp only [sanitizeTree, sanitizeTreeWith, walkNodes, walkNode, resolved, if_pos allowed]
  exact List.mem_append_left _ (List.mem_append_left _ (mem_collectProps_report member dropped (List.mem_singleton.mpr rfl)))

/-- A governed prop that takes texts is checked by its sink alone. -/
theorem GovernedProp.text {ctx : WalkContext} {definition : NodeDefinition} {key : JSString} {declared : PropDefinition}
    (governed : GovernedProp definition key declared) (takes : TakesText declared) (name path s : JSString) :
    declaredProp ctx definition name path key (.str s) = declaredValue.checkSink ctx declared path name key (.str s)
      fun message => .drop (propWarning .invalidProp path name key message) := by
  have free : ¬(toLowerCase key ∈ forbiddenPropNames ∨ startsWithOn key = true) := by
    rw [governed.unreserved.2]
    simpa using governed.unreserved.1
  have metadata : ¬isMetadataPropName key = true := by
    rw [governed.plain.2]
    exact Bool.false_ne_true
  rw [declaredProp, if_neg free, if_neg governed.plain.1, if_neg metadata, governed.defined]
  unfold declaredValue
  simp only
  split
  · rename_i type typed
    rw [if_pos ((matchesJsonType_str s [] type).trans (takes type typed))]
  · rfl

/-- A node that carries no prop of the protocol is bound as it is. -/
theorem governed_bound {profile : FormatProfile} {name key : JSString} (plain : key ∉ protocolProps) (value : PropValue) :
    (processTree [.element name [(key, value)] [] false] emptyBinding profile none).tree =
      [.element name [(key, value)] [] false] := by
  have absent : ∀ other : String, js other ∈ protocolProps → stringProp [(key, value)] other = none := by
    intro other protocol
    have apart : (js other == key) = false := beq_false_of_ne fun same => plain (same ▸ protocol)
    simp only [stringProp, Record.get, List.lookup_cons, apart, List.lookup_nil]
  have each := absent "data-each" (by decide +kernel)
  have shown := absent "data-if" (by decide +kernel)
  have source := absent "data-bind" (by decide +kernel)
  simp only [processTree, bindChildren, bindSibling, each, bindElement, bindInside, reportCondition, shown, writeBinding,
    source, Option.bind_none, List.append_nil]

/-- A style whose cleaning is unclean. -/
def splicedStyle : JSString := js "uurl()rl(x)"

theorem splicedStyle_cleaned : sanitizeStyleValue splicedStyle = js "url(x)" ∧ sanitizeStyleValue (js "url(x)") = [] ∧
    trim (js "url(x)") ≠ [] := by
  decide +kernel

section

variable {profile : FormatProfile} (sound : SoundProfile profile)
  (always : ∀ tree, Unmasked profile (elementNames tree) → ∀ options bindings previous again,
    FindsNothing (sanitizeTree (processTree (sanitizeTree tree profile options).tree bindings profile previous).tree
      profile again).report)

include sound always

/-- A declared style that takes texts can be spelled so that the next sanitizing refuses what the first left. -/
theorem unstyled_of_always {name key : JSString} {definition : NodeDefinition} {declared : PropDefinition}
    (found : nodeDefinition profile name = some definition) (governed : GovernedProp definition key declared)
    (takes : TakesText declared) : sinkOf declared ≠ .css := by
  intro style
  obtain ⟨cleans, empties, shown⟩ := splicedStyle_cleaned
  have sunk : Sink.css ≠ Sink.text := Sink.noConfusion
  have inhabited : js "url(x)" ≠ [] := by decide
  have keeps : ∀ path, declaredProp ⟨profile, false, false, sanitizeHTML⟩ definition name path key (.str splicedStyle) =
      .keep key (.str (js "url(x)")) := by
    intro path
    rw [governed.text takes]
    simp only [declaredValue.checkSink, style, if_neg sunk, applySink, cleans, inhabited, false_and, if_false]
  have refused : declaredProp ⟨profile, false, false, sanitizeHTML⟩ definition name (childPath [] 0) key
      (.str (js "url(x)")) = .drop (propWarning .unsafeProp (childPath [] 0) name key
        (js "prop " ++ quote key ++ js " was rejected by sink " ++ quote Sink.css.name)) := by
    rw [governed.text takes]
    simp only [declaredValue.checkSink, style, if_neg sunk, applySink, empties, shown, ne_eq, not_false_eq_true, and_self,
      if_true]
  have kept : ∀ path, collectProps (declaredProp ⟨profile, false, false, sanitizeHTML⟩ definition name path)
      [(key, .str splicedStyle)] = ([(key, .str (js "url(x)"))], .empty) := by
    intro path
    simp only [collectProps, List.foldl_cons, List.foldl_nil, keeps]
    rfl
  have resolved : resolveNode name profile false = .declared definition := resolveIn_declared sound.htmlLast found
  have allowed : childAllowed .any name = true := rfl
  have sanitized : (sanitizeTree [.element name [(key, .str splicedStyle)] [] false] profile ⟨false, false⟩).tree =
      [.element name [(key, .str (js "url(x)"))] [] false] := by
    simp only [sanitizeTree, sanitizeTreeWith, walkNodes, walkNode, resolved, if_pos allowed, kept, List.append_nil]
  have quiet := always [.element name [(key, .str splicedStyle)] [] false] (unmasked_declared found) ⟨false, false⟩
    emptyBinding none ⟨false, false⟩
  rw [sanitized, governed_bound governed.plain.1] at quiet
  exact quiet _ (finds_prop sound found (List.mem_singleton.mpr rfl) refused) found_unsafeProp

/-- Text that is bound into a node that takes none is found there. -/
theorem texts_of_always {name : JSString} {definition : NodeDefinition}
    (found : nodeDefinition profile name = some definition) (target : bindTarget profile name = js "children") :
    textAllowed (definition.children.getD .any) = true := by
  by_contra refused
  rw [Bool.not_eq_true] at refused
  have quiet := always [boundNode name] (unmasked_declared found) ⟨false, false⟩ ⟨[(js "x", .str (js "a"))], []⟩ none
    ⟨false, false⟩
  have each : stringProp [(js "data-bind", .str (js "x"))] "data-each" = none := by decide +kernel
  have shown : stringProp [(js "data-bind", .str (js "x"))] "data-if" = none := by decide +kernel
  have source : stringProp [(js "data-bind", .str (js "x"))] "data-bind" = some (js "x") := by decide +kernel
  have value : bindValue (js "x") ⟨[(js "x", .str (js "a"))], []⟩ = some (js "a") := by decide +kernel
  have bound : (processTree [boundNode name] ⟨[(js "x", .str (js "a"))], []⟩ profile none).tree =
      [.element name [(js "data-bind", .str (js "x"))] [.text (js "a") none] false] := by
    simp only [processTree, boundNode, bindChildren, bindSibling, each, bindElement, bindInside, reportCondition, shown,
      writeBinding, source, Option.bind_some, value, target, if_true, List.append_nil]
  rw [boundNode_sanitized sound found, bound] at quiet
  have resolved : resolveNode name profile false = .declared definition := resolveIn_declared sound.htmlLast found
  have allowed : childAllowed .any name = true := rfl
  have blank : trim (js "a") ≠ [] := by decide +kernel
  refine quiet ⟨.illegalChild, vocabularySeverity ⟨profile, false, false, sanitizeHTML⟩, childPath (childPath [] 0) 0, js "#text", none,
    js "text is not permitted here (children: " ++ describeConstraint (definition.children.getD .any) ++ js ")"⟩ ?_ found_illegalChild
  simp only [sanitizeTree, sanitizeTreeWith, walkNodes, walkNode, resolved, if_pos allowed, refused, Bool.false_eq_true,
    if_false, if_neg blank]
  exact List.mem_append_left _ (List.mem_append_right _ (List.mem_append_left _ (List.mem_singleton.mpr rfl)))

/-- A prop that is bound to and that the node declares is found where it is reserved or takes no text. -/
theorem props_of_always {name : JSString} {definition : NodeDefinition} {declared : PropDefinition}
    (found : nodeDefinition profile name = some definition) (other : bindTarget profile name ≠ js "children")
    (owned : bindTarget profile name ≠ js "__proto__") (protocol : bindTarget profile name ∉ protocolProps)
    (defined : propDefinition definition (bindTarget profile name) = some declared) :
    (toLowerCase (bindTarget profile name) ∉ forbiddenPropNames ∧ startsWithOn (bindTarget profile name) = false) ∧
      (isMetadataPropName (bindTarget profile name) = true ∨ TakesText declared) := by
  have quiet := always [boundNode name] (unmasked_declared found) ⟨false, false⟩ emptyBinding none ⟨false, false⟩
  rw [boundNode_sanitized sound found, boundNode_bound found other protocol defined] at quiet
  have member : (bindTarget profile name, Json.str []) ∈
      Record.assign [(js "data-bind", Json.str (js "x"))] (bindTarget profile name) (.str []) :=
    Record.mem_of_get (Record.get_assign_self owned _ _)
  have unreserved : toLowerCase (bindTarget profile name) ∉ forbiddenPropNames ∧
      startsWithOn (bindTarget profile name) = false := by
    by_contra reserves
    have reserved : toLowerCase (bindTarget profile name) ∈ forbiddenPropNames ∨
        startsWithOn (bindTarget profile name) = true := by
      rwa [not_and_or, not_not, Bool.not_eq_false] at reserves
    exact quiet _ (finds_prop sound found member (by rw [declaredProp, if_pos reserved]; rfl)) found_unsafeProp
  have free : ¬(toLowerCase (bindTarget profile name) ∈ forbiddenPropNames ∨
      startsWithOn (bindTarget profile name) = true) := by
    rw [unreserved.2]
    simpa using unreserved.1
  refine ⟨unreserved, or_iff_not_imp_left.mpr fun metadata type typed => ?_⟩
  by_contra mistyped
  have dropped : declaredProp ⟨profile, false, false, sanitizeHTML⟩ definition name (childPath [] 0)
      (bindTarget profile name) (.str []) = .drop (propWarning .invalidProp (childPath [] 0) name (bindTarget profile name)
        (js "prop " ++ quote (bindTarget profile name) ++ js " expects type " ++ type.text)) := by
    rw [declaredProp, if_neg free, if_neg protocol, if_neg metadata, defined]
    simp only [declaredValue, typed, if_neg mistyped]
  exact quiet _ (finds_prop sound found member dropped) found_invalidProp

end

end Xript
