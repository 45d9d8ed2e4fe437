import Xript.Fragment.Ceiling
import Xript.Sanitize.Again
import Xript.Sanitize.Print

namespace Xript

/-- What a node is to its parent: a text, or an element of a name. -/
def FragmentNode.kind : FragmentNode → Option JSString
  | .text _ _ => none
  | .element name _ _ _ => some name

/-- Binding one node makes an `N` of an `M`, at its place, once it made one of every child. `inner` is the place of the
children of an element of a name. -/
structure BindMakes {ι : Type} (profile : FormatProfile) (inner : ι → JSString → ι) (M N : ι → FragmentNode → Prop) :
    Prop where
  text : ∀ place value segments, M place (.text value segments) → ∀ bindings, N place (bindText value segments bindings)
  child : ∀ place name props children selfClosing, M place (.element name props children selfClosing) →
    ∀ child ∈ children, M (inner place name) child
  copy : ∀ place name props children selfClosing, M place (.element name props children selfClosing) →
    M place (.element name (copyProps props) children selfClosing)
  bind : ∀ place name props children selfClosing, M place (.element name props children selfClosing) →
    ∀ kids, (∀ kid ∈ kids, N (inner place name) kid) → (∀ kid ∈ kids, ∃ child ∈ children, child.kind = kid.kind) →
      ∀ bindings path st, N place (writeBinding profile name props kids selfClosing bindings path st).1

section

variable {ι : Type} {profile : FormatProfile} {previous : Option RepeatState} {inner : ι → JSString → ι}
  {M N : ι → FragmentNode → Prop}

theorem bindCopies_all {P : FragmentNode → Prop}
    {bindCopy : Bindings → RepeatKey → Nat → BindState → FragmentNode × BindState}
    (each : ∀ scope key out st, P (bindCopy scope key out st).1) (copies : List (Bindings × RepeatKey)) (out : Nat)
    (st : BindState) : ∀ node ∈ (bindCopies bindCopy copies out st).1, P node := by
  induction copies generalizing out st with
  | nil => exact fun node none => absurd none List.not_mem_nil
  | cons copy copies ih => exact List.forall_mem_cons.mpr ⟨each copy.1 copy.2 out st, ih (out + 1) _⟩

/-- What holds of a node however it is bound in place holds of every node a sibling becomes. -/
theorem bindSibling_all {P : FragmentNode → Prop}
    {bindKids : Bindings → List Nat → List RepeatKey → BindState → List FragmentNode × BindState} {name : JSString}
    {props : Props} {children : List FragmentNode} {selfClosing : Bool}
    (each : ∀ kept, kept = props ∨ kept = copyProps props → ∀ bindings path within st,
      P (bindElement profile (bindKids bindings path within) name kept selfClosing bindings path st).1)
    (bindings : Bindings) (parentPath source : List Nat) (within : List RepeatKey) (out : Nat) (st : BindState) :
    ∀ node ∈ (bindSibling profile previous bindKids (.element name props children selfClosing) bindings parentPath source
      within out st).1, P node := by
  rw [bindSibling]
  split
  · exact bindCopies_all (fun scope key position st => each (copyProps props) (.inr rfl) scope _ _ st) _ _ _
  · exact List.forall_mem_singleton.mpr (each props (.inl rfl) bindings _ within st)

theorem kind_isText {node other : FragmentNode} (same : node.kind = other.kind) : node.isText = other.isText := by
  cases node <;> cases other <;> first | rfl | cases same

theorem bindText_kind (value : JSString) (segments : Option (List TextSegment)) (bindings : Bindings) :
    (bindText value segments bindings).kind = none := by
  unfold bindText
  split <;> rfl

theorem writeBinding_kind (name : JSString) (props : Props) (children : List FragmentNode) (selfClosing : Bool)
    (bindings : Bindings) (path : List Nat) (st : BindState) :
    (writeBinding profile name props children selfClosing bindings path st).1.kind = some name := by
  unfold writeBinding
  split
  · rfl
  · dsimp only
    split
    · rfl
    · split <;> rfl

/-- Every node the pass leaves is of the kind of one it was given. -/
theorem bindChildren_kind (nodes : List FragmentNode) (bindings : Bindings) (parentPath parentSource : List Nat)
    (index out : Nat) (within : List RepeatKey) (st : BindState) :
    ∀ kid ∈ (bindChildren profile previous nodes bindings parentPath parentSource index out within st).1,
      ∃ child ∈ nodes, child.kind = kid.kind := by
  induction nodes generalizing index out st with
  | nil => exact fun kid none => absurd none List.not_mem_nil
  | cons node nodes ih =>
    rw [bindChildren]
    intro kid member
    rcases List.mem_append.mp member with first | later
    · refine ⟨node, List.mem_cons_self, ?_⟩
      cases node with
      | text value segments =>
        rw [bindSibling, List.mem_singleton] at first
        rw [first, bindText_kind]
        rfl
      | element name props children selfClosing =>
        refine bindSibling_all (P := fun kid => FragmentNode.kind (.element name props children selfClosing) = kid.kind)
          (fun kept _ bindings path within st => ?_) bindings parentPath _ within out st kid first
        exact (writeBinding_kind name kept _ selfClosing bindings path _).symm
    · obtain ⟨child, inside, same⟩ := ih _ _ _ kid later
      exact ⟨child, List.mem_cons_of_mem _ inside, same⟩

/-- What binding makes of one node, the bind pass makes of every node. -/
theorem BindMakes.children (makes : BindMakes profile inner M N) {place : ι} (nodes : List FragmentNode)
    (hold : ∀ node ∈ nodes, M place node) (bindings : Bindings) (parentPath parentSource : List Nat) (index out : Nat)
    (within : List RepeatKey) (st : BindState) :
    ∀ node ∈ (bindChildren profile previous nodes bindings parentPath parentSource index out within st).1,
      N place node := by
  cases nodes with
  | nil => exact fun node none => absurd none List.not_mem_nil
  | cons node nodes =>
    obtain ⟨first, rest⟩ := List.forall_mem_cons.mp hold
    rw [bindChildren]
    refine List.forall_mem_append.mpr ⟨?_, BindMakes.children makes nodes rest bindings parentPath parentSource
      (index + 1) _ within _⟩
    cases node with
    | text value segments =>
      rw [bindSibling]
      exact List.forall_mem_singleton.mpr (makes.text _ _ _ first bindings)
    | element name props children selfClosing =>
      refine bindSibling_all (fun kept which bindings path within st => ?_) bindings parentPath _ within out st
      have own : M place (.element name kept children selfClosing) := by
        rcases which with rfl | rfl
        · exact first
        · exact makes.copy _ _ _ _ _ first
      simp only [bindElement, bindInside]
      exact makes.bind _ _ _ _ _ own _ (BindMakes.children makes children (makes.child _ _ _ _ _ first) bindings path
        (parentSource ++ [index]) 0 0 within st) (bindChildren_kind children bindings path (parentSource ++ [index]) 0 0
        within st) bindings path _
  termination_by nodes

end

/-- No declared node binds to a prop that it declares and that the sanitizer refuses on every node. What is written
under `__proto__` becomes no prop. -/
def BindsPlainly (profile : FormatProfile) : Prop :=
  ∀ name definition target, nodeDefinition profile name = some definition → definition.bindTo = some target →
    (propDefinition definition target).isSome = true → target ≠ js "__proto__" →
      toLowerCase target ∉ forbiddenPropNames ∧ startsWithOn target = false

theorem settleRoute_accepted {routed value : PropValue} (accepted : settleRoute routed = .accepted value) :
    routed = value := by
  cases routed <;> cases accepted <;> rfl

/-- A link that a sink lets through is one its format allows. -/
theorem routeSink_link {sink : Sink} {attrName text s : JSString} {schemes : List JSString}
    (links : sink = .uri ∧ attrName = js "href" ∨ sink = .imageUri ∧ attrName = js "src")
    (routed : routeSink sink (.str text) schemes = .str s) : SafeLink attrName schemes s := by
  have passed : sanitizeUri text attrName schemes = some s := by
    rcases links with ⟨rfl, rfl⟩ | ⟨rfl, rfl⟩
    · unfold routeSink at routed
      cases cleaned : sanitizeUri text (js "href") schemes with
      | none => simp [cleaned] at routed
      | some t => simpa [cleaned] using routed
    · unfold routeSink at routed
      cases cleaned : sanitizeUri text (js "src") schemes with
      | none => simp [cleaned] at routed
      | some t => simpa [cleaned] using routed
  exact safeLink_of_sanitizeUri (sanitizeUri_idem passed)

/-- What a sink lets through is in the sink. -/
theorem routeSink_sunk {ctx : WalkContext} (html : ctx.html = sanitizeHTML) {sink : Sink} {value routed : Json}
    (same : routeSink sink value ctx.profile.schemes = routed) (accepted : routed ≠ .null) : Sunk ctx sink routed := by
  subst same
  cases sink with
  | text => trivial
  | uri =>
    cases value with
    | str text =>
      simp only [routeSink] at accepted ⊢
      cases cleaned : sanitizeUri text (js "href") ctx.profile.schemes with
      | none => simp [cleaned] at accepted
      | some t => exact ⟨t, rfl, sanitizeUri_idem cleaned⟩
    | _ => exact absurd rfl accepted
  | imageUri =>
    cases value with
    | str text =>
      simp only [routeSink] at accepted ⊢
      cases cleaned : sanitizeUri text (js "src") ctx.profile.schemes with
      | none => simp [cleaned] at accepted
      | some t => exact ⟨t, rfl, sanitizeUri_idem cleaned⟩
    | _ => exact absurd rfl accepted
  | css =>
    cases value with
    | str text =>
      simp only [routeSink] at accepted ⊢
      split
      · rename_i emptied
        rw [if_pos emptied] at accepted
        exact absurd rfl accepted
      · exact ⟨text, rfl⟩
    | _ => exact absurd rfl accepted
  | html =>
    cases value with
    | str text => exact ⟨text, by rw [html]; rfl⟩
    | _ => exact absurd rfl accepted

/-- The prop a `data-bind` writes: the one its node's declaration names, or an element's `value`. -/
theorem bindTarget_cases {profile : FormatProfile} {name : JSString} (prop : bindTarget profile name ≠ js "children") :
    (∃ definition, nodeDefinition profile name = some definition ∧ definition.bindTo = some (bindTarget profile name)) ∨
      bindTarget profile name = js "value" := by
  unfold bindTarget at prop ⊢
  split at prop
  · rename_i c s found
    obtain ⟨definition, declares, binds⟩ := Option.bind_eq_some_iff.mp found
    exact .inl ⟨definition, declares, binds⟩
  · split at prop
    · rename_i void
      exact .inr (if_pos void)
    · exact absurd rfl prop

theorem protocolProps_plain : ∀ key ∈ protocolProps, toLowerCase key ∉ forbiddenPropNames ∧ startsWithOn key = false := by
  decide +kernel

/-- What the bind pass accepts for a prop does no harm there. -/
theorem routeProp_harmless {profile : FormatProfile} (plainly : BindsPlainly profile) {name text : JSString}
    {value : PropValue} (prop : bindTarget profile name ≠ js "children") (owned : bindTarget profile name ≠ js "__proto__")
    (accepted : routePropValueDetailed profile name (bindTarget profile name) (.str text) = .accepted value) :
    HarmlessProp profile name (bindTarget profile name) value := by
  unfold routePropValueDetailed at accepted
  cases found : nodeDefinition profile name with
  | none =>
    have same : bindTarget profile name = js "value" := by
      rcases bindTarget_cases prop with ⟨definition, declares, -⟩ | same
      · rw [found] at declares
        cases declares
      · exact same
    have plain : toLowerCase (js "value") ∉ forbiddenPropNames ∧ startsWithOn (js "value") = false := by decide +kernel
    rw [same]
    refine ⟨plain.1, plain.2, ?_⟩
    rintro attrName links s -
    have unlinked : ¬(toLowerCase (js "value") = js "href" ∨ toLowerCase (js "value") = js "src") := by decide +kernel
    simp only [linkAttribute, found, if_neg unlinked] at links
    cases links
  | some definition =>
    simp only [found] at accepted
    by_cases protocol : bindTarget profile name ∈ protocolProps
    · obtain ⟨unreserved, handlerless⟩ := protocolProps_plain _ protocol
      refine ⟨unreserved, handlerless, ?_⟩
      rintro attrName links s -
      simp only [linkAttribute, found, if_pos (Or.inl protocol : _ ∨ isMetadataPropName (bindTarget profile name) = true)]
        at links
      cases links
    · rw [if_neg protocol] at accepted
      cases defined : propDefinition definition (bindTarget profile name) with
      | none =>
        rw [defined] at accepted
        cases accepted
      | some declared =>
        have reserved : toLowerCase (bindTarget profile name) ∉ forbiddenPropNames ∧
            startsWithOn (bindTarget profile name) = false := by
          rcases bindTarget_cases prop with ⟨other, declares, binds⟩ | same
          · cases found.symm.trans declares
            exact plainly name definition _ found binds (by rw [defined]; rfl) owned
          · rw [same]
            decide +kernel
        refine ⟨reserved.1, reserved.2, ?_⟩
        rintro attrName links s rfl
        simp only [defined] at accepted
        have sunk := settleRoute_accepted accepted
        simp only [linkAttribute, found, defined, Option.map_some] at links
        split at links
        · cases links
        · split at links
          · rename_i sink
            cases links
            exact routeSink_link (.inl ⟨Option.some.inj sink, rfl⟩) sunk
          · rename_i sink
            cases links
            exact routeSink_link (.inr ⟨Option.some.inj sink, rfl⟩) sunk
          · cases links

theorem harmless_iff_forall {profile : FormatProfile} {inSvg : Bool} (nodes : List FragmentNode) :
    Harmless profile inSvg nodes ↔ ∀ node ∈ nodes, HarmlessNode profile inSvg node := by
  induction nodes with
  | nil => exact ⟨fun _ node none => absurd none List.not_mem_nil, fun _ => trivial⟩
  | cons node nodes ih => rw [Harmless, List.forall_mem_cons, ih]

/-- Whatever the bindings hold, binding makes a harmless node of a harmless one. -/
theorem bindMakes_harmless {profile : FormatProfile} (plainly : BindsPlainly profile) :
    BindMakes profile (fun inSvg name => inSvg || name = js "svg") (HarmlessNode profile) (HarmlessNode profile) where
  text inSvg value segments _ bindings := by
    unfold bindText
    split <;> trivial
  child inSvg name props children selfClosing harmless := (harmless_iff_forall children).mp harmless.2.2
  copy inSvg name props children selfClosing harmless :=
    ⟨harmless.1, fun entry member => harmless.2.1 entry (List.mem_filter.mp member).1, harmless.2.2⟩
  bind inSvg name props children selfClosing harmless kids made _ bindings path st := by
    obtain ⟨unstripped, fits, -⟩ := harmless
    have inner : Harmless profile (inSvg || name = js "svg") kids := (harmless_iff_forall kids).mpr made
    unfold writeBinding
    split
    · exact ⟨unstripped, fits, inner⟩
    · dsimp only
      split
      · exact ⟨unstripped, fits, trivial, trivial⟩
      · rename_i prop
        split
        · rename_i value accepted
          refine ⟨unstripped, fun entry member => ?_, inner⟩
          by_cases owned : bindTarget profile name = js "__proto__"
          · have absent : js "__proto__" ∉ Record.keys props := by
              intro inside
              obtain ⟨old, here, named⟩ := List.mem_map.mp inside
              exact (fits old here).unreserved (by rw [named]; decide +kernel)
            rw [owned, Record.assign, if_pos ⟨rfl, absent⟩] at member
            exact fits entry member
          · rcases Record.mem_assign member with rfl | before
            · exact routeProp_harmless plainly prop owned accepted
            · exact fits entry before
        · exact ⟨unstripped, fits, inner⟩
        · exact ⟨unstripped, fits, inner⟩

theorem resolveIn_declared {name : JSString} {profile : FormatProfile} {inSvg : Bool} {scope : List ResolvedVocabulary}
    {definition : NodeDefinition} (last : ResolvedVocabulary.builtinHtml ∉ scope.dropLast)
    (found : scopeDefinition name scope = some definition) : resolveIn name profile inSvg scope = .declared definition := by
  induction scope with
  | nil => cases found
  | cons entry scope ih =>
    cases entry with
    | declared id nodes =>
      rw [resolveIn]
      rw [scopeDefinition] at found
      cases here : Record.get nodes name with
      | some other =>
        rw [here, Option.some_or] at found
        rw [Option.some.inj found]
      | none =>
        rw [here, Option.none_or] at found
        cases scope with
        | nil => cases found
        | cons second scope =>
          rw [List.dropLast_cons_cons, List.mem_cons, not_or] at last
          exact ih last.2 found
    | builtinHtml =>
      cases scope with
      | nil => cases found
      | cons second scope =>
        rw [List.dropLast_cons_cons] at last
        exact absurd List.mem_cons_self last

/-- The empty text passes every sink. -/
theorem routeSink_empty (sink : Sink) (schemes : List JSString) : routeSink sink (.str []) schemes = .str [] := by
  cases sink <;> rfl

/-- A node whose only prop binds it to `x`. -/
def boundNode (name : JSString) : FragmentNode := .element name [(js "data-bind", .str (js "x"))] [] false

def emptyBinding : Bindings := ⟨[(js "x", .str [])], []⟩

theorem boundNode_sanitized {profile : FormatProfile} (sound : SoundProfile profile) {name : JSString}
    {definition : NodeDefinition} (found : nodeDefinition profile name = some definition) (options : VocabularyOptions) :
    (sanitizeTree [boundNode name] profile options).tree = [boundNode name] := by
  have resolved : ∀ inSvg, resolveNode name profile inSvg = .declared definition :=
    fun inSvg => resolveIn_declared sound.htmlLast found
  have kept : ∀ path ctx, collectProps (declaredProp ctx definition name path) [(js "data-bind", .str (js "x"))] =
      ([(js "data-bind", .str (js "x"))], .empty) := by
    intro path ctx
    refine collectProps_fixed ⟨List.nodup_singleton _, List.pairwise_singleton _ _⟩ fun entry only => ?_
    obtain rfl := List.mem_singleton.mp only
    have plain : ¬(toLowerCase (js "data-bind") ∈ forbiddenPropNames ∨ startsWithOn (js "data-bind") = true) ∧
        js "data-bind" ∈ protocolProps := by decide +kernel
    rw [declaredProp, if_neg plain.1, if_pos plain.2]
  simp only [sanitizeTree, sanitizeTreeWith, boundNode, walkNodes, walkNode, resolved, childAllowed, if_true, kept,
    List.append_nil]

theorem boundNode_value : bindValue (js "x") emptyBinding = some [] := by decide +kernel

/-- What binding the empty text to a node writes, where the node declares the prop it binds to. -/
theorem boundNode_bound {profile : FormatProfile} {name : JSString} {definition : NodeDefinition}
    {declared : PropDefinition} (found : nodeDefinition profile name = some definition)
    (other : bindTarget profile name ≠ js "children") (protocol : bindTarget profile name ∉ protocolProps)
    (defined : propDefinition definition (bindTarget profile name) = some declared) :
    (processTree [boundNode name] emptyBinding profile none).tree =
      [.element name (Record.assign [(js "data-bind", .str (js "x"))] (bindTarget profile name) (.str [])) [] false] := by
  have accepted : routePropValueDetailed profile name (bindTarget profile name) (.str []) = .accepted (.str []) := by
    simp only [routePropValueDetailed, found, if_neg protocol, defined, routeSink_empty, settleRoute]
  have each : stringProp [(js "data-bind", .str (js "x"))] "data-each" = none := by decide +kernel
  have shown : stringProp [(js "data-bind", .str (js "x"))] "data-if" = none := by decide +kernel
  have source : stringProp [(js "data-bind", .str (js "x"))] "data-bind" = some (js "x") := by decide +kernel
  simp only [processTree, boundNode, bindChildren, bindSibling, each, bindElement, bindInside, reportCondition, shown,
    writeBinding, source, Option.bind_some, boundNode_value, if_neg other, accepted, List.append_nil]

theorem bindTarget_declared {profile : FormatProfile} {name : JSString} {definition : NodeDefinition} {target : JSString}
    (found : nodeDefinition profile name = some definition) (binds : definition.bindTo = some target)
    (named : target ≠ []) : bindTarget profile name = target := by
  unfold bindTarget
  rw [found, Option.bind_some, binds]
  cases target with
  | nil => exact absurd rfl named
  | cons c s => rfl

theorem unmasked_declared {profile : FormatProfile} {name : JSString} {definition : NodeDefinition}
    (found : nodeDefinition profile name = some definition) : Unmasked profile [name] := by
  intro other member _
  obtain rfl := List.mem_singleton.mp member
  rw [anyVocabularyDeclares, found]
  rfl

end Xript
