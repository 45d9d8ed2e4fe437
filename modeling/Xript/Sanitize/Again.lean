import Xript.Sanitize.Harmless

namespace Xript

/-- A text that comes out of a second cleaning for its sink as out of the first. -/
structure Settled (ctx : WalkContext) (sink : Sink) (s : JSString) : Prop where
  style : sink = .css → sanitizeStyleValue (sanitizeStyleValue s) = sanitizeStyleValue s
  html : sink = .html → ctx.html (ctx.html s) = ctx.html s

/-- A prop that settles: in the sink its node declares for it, and as a style where it is one. -/
structure SettlesProp (ctx : WalkContext) (name key : JSString) (value : PropValue) : Prop where
  sink : ∀ definition declared, nodeDefinition ctx.profile name = some definition →
    propDefinition definition key = some declared → Settled ctx (sinkOf declared) (jsString value)
  style : toLowerCase key = js "style" → Settled ctx .css (jsString value)

mutual

def SettlesNode (ctx : WalkContext) : FragmentNode → Prop
  | .text _ _ => True
  | .element name props children _ =>
    (∀ entry ∈ props, SettlesProp ctx name entry.1 entry.2) ∧ SettlesAll ctx children

/-- Every prop in the nodes settles. -/
def SettlesAll (ctx : WalkContext) : List FragmentNode → Prop
  | [] => True
  | node :: nodes => SettlesNode ctx node ∧ SettlesAll ctx nodes

end

/-- A report of interpolation sites that do not parse, and of nothing else. -/
structure OnlySites (ctx : WalkContext) (report : Report) : Prop where
  elements : report.strippedElements = []
  attributes : report.strippedAttributes = []
  sites : ∀ d ∈ report.diagnostics, ctx.interpolate = true ∧ d.code = .invalidExpression

theorem OnlySites.empty (ctx : WalkContext) : OnlySites ctx .empty := ⟨rfl, rfl, fun _ member => absurd member List.not_mem_nil⟩

theorem OnlySites.append {ctx : WalkContext} {r s : Report} (first : OnlySites ctx r) (second : OnlySites ctx s) :
    OnlySites ctx (r ++ s) := by
  constructor
  · change r.strippedElements ++ s.strippedElements = []
    rw [first.elements, second.elements, List.append_nil]
  · change r.strippedAttributes ++ s.strippedAttributes = []
    rw [first.attributes, second.attributes, List.append_nil]
  · intro d member
    rcases List.mem_append.mp member with before | after
    · exact first.sites d before
    · exact second.sites d after

/-- A pass that keeps every prop as it is keeps them all, in their order. -/
theorem collectProps_fixed {check : JSString → PropValue → PropOutcome} {props : Props} (ordered : Record.Ordered props)
    (fixed : ∀ entry ∈ props, check entry.1 entry.2 = .keep entry.1 entry.2) :
    collectProps check props = (props, .empty) := by
  have pairs : ∀ (rest : Props) (made : Props × Report),
      rest.foldl (fun made entry => (Record.set made.1 entry.1 entry.2, made.2)) made =
        (rest.foldl (fun made entry => Record.set made entry.1 entry.2) made.1, made.2) := by
    intro rest
    induction rest with
    | nil => exact fun made => rfl
    | cons entry rest ih => exact fun made => ih _
  have kept : collectProps check props =
      props.foldl (fun made entry => (Record.set made.1 entry.1 entry.2, made.2)) ([], .empty) := by
    refine List.foldl_ext _ _ _ fun made entry member => ?_
    rw [fixed entry member]
  rw [kept, pairs]
  exact congrArg (·, Report.empty) (Record.Ordered.rebuilt (r := []) ordered)

theorem collectProps_again {check again : JSString → PropValue → PropOutcome} {props : Props}
    (steady : ∀ entry ∈ props, ∀ key value, check entry.1 entry.2 = .keep key value → again key value = .keep key value) :
    collectProps again (collectProps check props).1 = ((collectProps check props).1, .empty) := by
  refine collectProps_fixed (collectProps_ordered check props) fun entry member => ?_
  obtain ⟨old, inside, keeps⟩ := mem_collectProps member
  exact steady old inside entry.1 entry.2 keeps

theorem applySink_again {ctx : WalkContext} {sink : Sink} {value cleaned : JSString} (settled : Settled ctx sink value)
    (applied : applySink ctx sink value = some cleaned) : applySink ctx sink cleaned = some cleaned := by
  cases sink with
  | text => rfl
  | uri => exact sanitizeUri_idem applied
  | imageUri => exact sanitizeUri_idem applied
  | css =>
    simp only [applySink] at applied
    split at applied
    · cases applied
    · cases applied
      simp only [applySink, settled.style rfl]
      refine if_neg fun refused => refused.2 ?_
      rw [refused.1]
      rfl
  | html =>
    cases applied
    exact congrArg some (settled.html rfl)

theorem checkSink_again {ctx : WalkContext} {declared : PropDefinition} {path later node key kept : JSString}
    {value after : PropValue} {invalid : JSString → PropOutcome} (refuses : ∀ message k v, invalid message ≠ .keep k v)
    (settled : Settled ctx (sinkOf declared) (jsString value)) (other : JSString → PropOutcome)
    (keeps : declaredValue.checkSink ctx declared path node key value invalid = .keep kept after) :
    declaredValue.checkSink ctx declared later node kept after other = .keep kept after := by
  unfold declaredValue.checkSink at keeps
  simp only at keeps
  split at keeps
  · rename_i plain
    cases keeps
    unfold declaredValue.checkSink
    simp only [if_pos plain]
  · rename_i sunk
    split at keeps
    · split at keeps
      · rename_i cleaned applied
        cases keeps
        unfold declaredValue.checkSink
        simp only [if_neg sunk, applySink_again settled applied]
      · cases keeps
    · exact absurd keeps (refuses _ _ _)

theorem declaredValue_again {ctx : WalkContext} {declared : PropDefinition} {path later node key kept : JSString}
    {value after : PropValue} (settled : Settled ctx (sinkOf declared) (jsString value))
    (keeps : declaredValue ctx declared path node key value = .keep kept after) :
    declaredValue ctx declared later node kept after = .keep kept after := by
  have refuses : ∀ message k v,
      PropOutcome.drop (propWarning .invalidProp path node key message) ≠ .keep k v := by
    rintro message k v ⟨⟩
  have typed := (declaredValue_keep keeps).2.typed
  unfold declaredValue at keeps ⊢
  simp only at keeps ⊢
  split at keeps
  · rename_i type same
    split at keeps
    · simp only [if_pos (typed type same)]
      exact checkSink_again refuses settled _ keeps
    · exact absurd keeps (refuses _ _ _)
  · exact checkSink_again refuses settled _ keeps

theorem declaredProp_again {ctx : WalkContext} {definition : NodeDefinition} {node path later key kept : JSString}
    {value after : PropValue} (settled : ∀ declared, propDefinition definition key = some declared →
      Settled ctx (sinkOf declared) (jsString value))
    (keeps : declaredProp ctx definition node path key value = .keep kept after) :
    declaredProp ctx definition node later kept after = .keep kept after := by
  obtain ⟨rfl, -⟩ := declaredProp_fits keeps
  unfold declaredProp at keeps ⊢
  split at keeps
  · cases keeps
  · rename_i free
    rw [if_neg free]
    split at keeps
    · rename_i protocol
      rw [if_pos protocol]
      split at keeps
      · cases keeps
        rfl
      · cases keeps
    · rename_i other
      rw [if_neg other]
      split at keeps
      · rename_i metadata
        rw [if_pos metadata]
      · rename_i plain
        rw [if_neg plain]
        split at keeps
        · cases keeps
        · rename_i declared found
          exact declaredValue_again (settled declared found) keeps

theorem htmlProp_lower {ctx : WalkContext} {tag path key kept : JSString} {value after : PropValue}
    (keeps : htmlProp ctx tag path key value = .keep kept after) : toLowerCase kept = toLowerCase key := by
  obtain ⟨⟨-, valid, -⟩, how⟩ := htmlProp_keep keeps
  have fixed := toLowerCase_of_valid rfl valid
  rcases how with ⟨rfl, -⟩ | ⟨rfl, -, -⟩ | ⟨rfl, -, -⟩
  · exact fixed
  · exact fixed
  · exact toLowerCase_canonical fixed

theorem htmlProp_style {ctx : WalkContext} {tag path key kept : JSString} {value after : PropValue}
    (keeps : htmlProp ctx tag path key value = .keep kept after) (style : toLowerCase kept = js "style")
    (projects : projectsToMarkup after = true) : after = .str (sanitizeStyleValue (jsString value)) := by
  have lower : toLowerCase key = js "style" := htmlProp_lower keeps ▸ style
  unfold htmlProp at keeps
  simp only [lower] at keeps
  split_ifs at keeps with unreserved malformed refused link inline empty
  · cases keeps
  · exact absurd link.1 (by decide)
  · cases keeps
    rfl
  · injection keeps with _ same
    exact absurd ⟨trivial, same ▸ projects⟩ inline

theorem htmlProp_again {ctx : WalkContext} {tag path later key kept : JSString} {value after : PropValue}
    (settled : toLowerCase key = js "style" → Settled ctx .css (jsString value))
    (keeps : htmlProp ctx tag path key value = .keep kept after) :
    htmlProp ctx tag later kept after = .keep kept after := by
  have fits := htmlProp_fits keeps
  unfold htmlProp
  simp only [if_neg fits.unreserved, fits.valid, fits.allowed, Bool.not_true, Bool.false_eq_true, if_false]
  split
  · rename_i link
    obtain ⟨s, rfl, passed⟩ := fits.link link.1 link.2
    have plain : toLowerCase kept ∈ ["href", "src", "style"].map js := by
      rcases link.1 with same | same <;> rw [same] <;> decide
    have spelled := fits.spelled
    rw [canonicalAttributeName_plain plain] at spelled
    simp only [jsString, passed]
    rw [← spelled]
  · split
    · rename_i style
      have spelled := fits.spelled
      rw [canonicalAttributeName_plain (by rw [style.1]; decide)] at spelled
      obtain rfl := htmlProp_style keeps style.1 style.2
      obtain ⟨t, same, inhabited⟩ := fits.style style.1 style.2
      have nonempty : sanitizeStyleValue (jsString value) ≠ [] := by
        rw [Json.str.inj same]
        exact inhabited
      have again := (settled (htmlProp_lower keeps ▸ style.1)).style rfl
      simp only [jsString, again, if_neg nonempty]
      rw [← spelled]
    · rw [← fits.spelled]

theorem svgTextProp_again {tag path later key kept : JSString} {value after : PropValue}
    (keeps : svgTextProp tag path key value = .keep kept after) : svgTextProp tag later kept after = .keep kept after := by
  obtain ⟨lower, quiet⟩ := svgTextProp_fits keeps
  rw [quiet.kept, ← lower]

/-- What the built-in vocabulary claims of a name that no vocabulary of the scope declares. -/
theorem resolveIn_undeclared {name : JSString} {profile : FormatProfile} {inSvg : Bool} {scope : List ResolvedVocabulary}
    (undeclared : scopeDefinition name scope = none) :
    resolveIn name profile inSvg scope =
      if ResolvedVocabulary.builtinHtml ∈ scope then (resolveHtml name profile inSvg).getD .unknown else .unknown := by
  induction scope with
  | nil => rfl
  | cons entry scope ih =>
    cases entry with
    | declared id nodes =>
      rw [scopeDefinition, Option.or_eq_none_iff] at undeclared
      rw [resolveIn, undeclared.1, ih undeclared.2]
      simp only [List.mem_cons, reduceCtorEq, false_or]
    | builtinHtml =>
      rw [resolveIn, ih undeclared, if_pos List.mem_cons_self]
      cases resolveHtml name profile inSvg with
      | some claim => rfl
      | none => rw [Option.getD_none, Option.getD_none, ite_self]

/-- What the built-in vocabulary claims, it claims again by the name it gives. -/
theorem resolveNode_again {profile : FormatProfile} {names : List JSString} (sound : SoundProfile profile)
    (unmasked : Unmasked profile names) {inSvg : Bool} {spelling tag : JSString} (member : spelling ∈ names) :
    (resolveNode spelling profile inSvg = .html tag → resolveNode tag profile inSvg = .html tag) ∧
      (resolveNode spelling profile inSvg = .svgText tag → resolveNode tag profile inSvg = .svgText tag) := by
  have speaks : ∀ resolution, resolveNode spelling profile inSvg = resolution → resolution ≠ .unknown →
      (∀ definition, resolution ≠ .declared definition) → ResolvedVocabulary.builtinHtml ∈ profile.scope := by
    intro resolution resolved known claimed
    rcases resolveIn_cases resolved with unknown | ⟨definition, same, -⟩ | html
    · exact absurd unknown known
    · exact absurd same (claimed definition)
    · exact html.1
  constructor
  · intro resolved
    obtain ⟨spelled, allowed⟩ := html_of_resolveNode resolved
    have undeclared := unmasked.undeclared sound member (by rw [resolved]; exact Resolution.noConfusion)
      fun definition => by rw [resolved]; exact Resolution.noConfusion
    rw [spelled] at undeclared
    rw [resolveNode, resolveIn_undeclared undeclared,
      if_pos (speaks _ resolved Resolution.noConfusion fun _ => Resolution.noConfusion),
      resolveHtml_allowed profile inSvg allowed, Option.getD_some]
  · intro resolved
    obtain ⟨rfl, spelled, text⟩ := svgText_of_resolveNode resolved
    have undeclared := unmasked.undeclared sound member (by rw [resolved]; exact Resolution.noConfusion)
      fun definition => by rw [resolved]; exact Resolution.noConfusion
    rw [spelled] at undeclared
    rw [resolveNode, resolveIn_undeclared undeclared,
      if_pos (speaks _ resolved Resolution.noConfusion fun _ => Resolution.noConfusion),
      resolveHtml_svgText profile text, Option.getD_some]

/-- A text node is the same wherever it stands, and only its interpolation sites are reported. -/
theorem textNode_sites (ctx : WalkContext) (value : JSString) (segments : Option (List TextSegment)) (path later : JSString) :
    (textNode ctx value segments path).1 = (textNode ctx value segments later).1 ∧
      OnlySites ctx (textNode ctx value segments path).2 := by
  unfold textNode
  split
  · rename_i on
    unfold segmentTextNode
    split
    · have listed : OnlySites ctx ⟨(segmentText value).2.map fun issue => ⟨.invalidExpression, .error, path, js "#text", none,
          js "invalid interpolation: " ++ issue.message⟩, [], []⟩ := by
        refine ⟨rfl, rfl, fun d member => ?_⟩
        obtain ⟨issue, -, rfl⟩ := List.mem_map.mp member
        exact ⟨on, rfl⟩
      cases found : (segmentText value).1 with
      | some pieces => simpa only [found, true_and] using listed
      | none => simpa only [found, true_and] using listed
    · exact ⟨rfl, .empty ctx⟩
  · exact ⟨rfl, .empty ctx⟩

/-- A text that was segmented is segmented the same way again. -/
theorem textNode_again {ctx : WalkContext} {value : JSString} {segments : Option (List TextSegment)} (path : JSString)
    (carries : CarriesSites ctx value segments) : (textNode ctx value segments path).1 = .text value segments := by
  unfold textNode
  split
  · rename_i on
    unfold segmentTextNode
    split
    · rename_i contains
      cases found : (segmentText value).1 with
      | some pieces => simp only [found, carries on contains pieces found]
      | none => simp only [found]
    · rfl
  · rfl

/-- A walk leaves the nodes as they are, and finds nothing in them but sites that do not parse. -/
def Unchanged (ctx : WalkContext) (inSvg : Bool) (constraint : ChildrenConstraint) (nodes : List FragmentNode) : Prop :=
  ∀ path index, (walkNodes ctx inSvg path constraint index nodes).1 = nodes ∧
    OnlySites ctx (walkNodes ctx inSvg path constraint index nodes).2

theorem Unchanged.nil (ctx : WalkContext) (inSvg : Bool) (constraint : ChildrenConstraint) :
    Unchanged ctx inSvg constraint [] := fun _ _ => ⟨rfl, .empty ctx⟩

theorem Unchanged.cons {ctx : WalkContext} {inSvg : Bool} {constraint : ChildrenConstraint} {node : FragmentNode}
    {nodes : List FragmentNode}
    (first : ∀ path, (walkNode ctx inSvg path constraint node).1 = [node] ∧
      OnlySites ctx (walkNode ctx inSvg path constraint node).2)
    (rest : Unchanged ctx inSvg constraint nodes) : Unchanged ctx inSvg constraint (node :: nodes) := by
  intro path index
  obtain ⟨same, sites⟩ := first (childPath path index)
  obtain ⟨others, more⟩ := rest path (index + 1)
  rw [walkNodes]
  exact ⟨by simp only [same, others, List.singleton_append], sites.append more⟩

theorem Unchanged.single {ctx : WalkContext} {inSvg : Bool} {constraint : ChildrenConstraint} {node : FragmentNode}
    (first : ∀ path, (walkNode ctx inSvg path constraint node).1 = [node] ∧
      OnlySites ctx (walkNode ctx inSvg path constraint node).2) : Unchanged ctx inSvg constraint [node] :=
  .cons first (.nil ctx inSvg constraint)

theorem Report.empty_append (r : Report) : Report.empty ++ r = r := rfl

theorem Report.append_assoc (r s t : Report) : r ++ s ++ t = r ++ (s ++ t) := by
  change Report.mk _ _ _ = Report.mk _ _ _
  exact Report.mk.injEq .. ▸ ⟨List.append_assoc .., List.append_assoc .., List.append_assoc ..⟩

theorem walkNodes_append (ctx : WalkContext) (inSvg : Bool) (path : JSString) (constraint : ChildrenConstraint) (index : Nat)
    (s t : List FragmentNode) :
    walkNodes ctx inSvg path constraint index (s ++ t) =
      ((walkNodes ctx inSvg path constraint index s).1 ++ (walkNodes ctx inSvg path constraint (index + s.length) t).1,
        (walkNodes ctx inSvg path constraint index s).2 ++
          (walkNodes ctx inSvg path constraint (index + s.length) t).2) := by
  induction s generalizing index with
  | nil =>
    rw [walkNodes, Report.empty_append]
    rfl
  | cons node s ih =>
    rw [List.cons_append, walkNodes, walkNodes, ih, List.length_cons, Nat.add_right_comm, Nat.add_assoc,
      List.append_assoc, Report.append_assoc]

theorem Unchanged.append {ctx : WalkContext} {inSvg : Bool} {constraint : ChildrenConstraint} {s t : List FragmentNode}
    (first : Unchanged ctx inSvg constraint s) (second : Unchanged ctx inSvg constraint t) :
    Unchanged ctx inSvg constraint (s ++ t) := by
  intro path index
  rw [walkNodes_append]
  obtain ⟨same, sites⟩ := first path index
  obtain ⟨others, more⟩ := second path (index + s.length)
  exact ⟨by rw [same, others], sites.append more⟩

theorem sanitizeSvgTextNode_again {ctx : WalkContext} {constraint : ChildrenConstraint} {tag path : JSString}
    {props : Props} {children : List FragmentNode} (resolved : resolveNode tag ctx.profile true = .svgText tag)
    (allowed : childAllowed constraint tag = true) :
    Unchanged ctx true constraint [(sanitizeSvgTextNode ctx tag path props children).1] := by
  refine Unchanged.single fun later => ?_
  have kept : collectProps (svgTextProp tag later) (collectProps (svgTextProp tag path) props).1 =
      ((collectProps (svgTextProp tag path) props).1, .empty) :=
    collectProps_again fun _ _ _ _ keeps => svgTextProp_again keeps
  unfold sanitizeSvgTextNode
  simp only
  split
  · simp only [walkNode, resolved, if_pos allowed, sanitizeSvgTextNode, kept]
    exact ⟨rfl, .empty ctx⟩
  · rename_i inhabited
    generalize (collectSvgText tag path 0 children).1 = value at inhabited
    obtain ⟨segments, shape, -⟩ := textNode_carries ctx value none (childPath path 0)
    have collected : collectSvgText tag later 0 [.text value segments] = (value, .empty) := by
      rw [collectSvgText, collectSvgText, svgTextOf, List.append_nil]
      rfl
    obtain ⟨same, sites⟩ := textNode_sites ctx value none (childPath later 0) (childPath path 0)
    simp only [shape, walkNode, resolved, if_pos allowed, sanitizeSvgTextNode, kept, collected, if_neg inhabited, same,
      true_and]
    exact sites

mutual

/-- What a walk leaves of a node, a second walk leaves as it is. -/
theorem walkNode_again {ctx : WalkContext} {names : List JSString} (sound : SoundProfile ctx.profile)
    (unmasked : Unmasked ctx.profile names) (inSvg : Bool) (path : JSString) (constraint : ChildrenConstraint)
    (node : FragmentNode) (named : elementNamesOf node ⊆ names) (settles : SettlesNode ctx node) :
    Unchanged ctx inSvg constraint (walkNode ctx inSvg path constraint node).1 := by
  cases node with
  | text value segments =>
    rw [walkNode]
    split
    · rename_i allowed
      obtain ⟨kept, shape, carries⟩ := textNode_carries ctx value segments path
      simp only [shape]
      refine Unchanged.single fun later => ?_
      rw [walkNode, if_pos allowed]
      exact ⟨congrArg ([·]) (textNode_again later carries), (textNode_sites ctx value kept later later).2⟩
    · split <;> exact .nil ctx inSvg constraint
  | element name props children selfClosing =>
    obtain ⟨here, inner⟩ := List.cons_subset.mp named
    obtain ⟨clean, within⟩ := settles
    rw [walkNode]
    cases resolved : resolveNode name ctx.profile inSvg with
    | unknown =>
      dsimp only
      split
      · exact walkNodes_again sound unmasked inSvg path constraint 0 children inner within
      · exact .nil ctx inSvg constraint
    | stripped tag => exact .nil ctx inSvg constraint
    | unwrap => exact walkNodes_again sound unmasked inSvg path constraint 0 children inner within
    | svgText tag =>
      obtain ⟨rfl, -⟩ := svgText_of_resolveNode resolved
      dsimp only
      split
      · rename_i allowed
        exact sanitizeSvgTextNode_again ((resolveNode_again sound unmasked here).2 resolved) allowed
      · exact .nil ctx true constraint
    | html tag =>
      dsimp only
      split
      · rename_i allowed
        refine Unchanged.single fun later => ?_
        have kept : collectProps (htmlProp ctx tag later) (collectProps (htmlProp ctx tag path) props).1 =
            ((collectProps (htmlProp ctx tag path) props).1, .empty) :=
          collectProps_again fun entry member _ _ keeps => htmlProp_again (clean entry member).style keeps
        obtain ⟨same, sites⟩ :=
          walkNodes_again sound unmasked (inSvg || tag = js "svg") path .any 0 children inner within later 0
        simp only [walkNode, (resolveNode_again sound unmasked here).1 resolved, if_pos allowed, kept, same, true_and]
        exact sites
      · exact .nil ctx inSvg constraint
    | declared definition =>
      dsimp only
      split
      · rename_i allowed
        refine Unchanged.single fun later => ?_
        have kept : collectProps (declaredProp ctx definition name later)
            (collectProps (declaredProp ctx definition name path) props).1 =
            ((collectProps (declaredProp ctx definition name path) props).1, .empty) :=
          collectProps_again fun entry member _ _ keeps => declaredProp_again
            (fun declared found => (clean entry member).sink definition declared (declared_of_resolveNode resolved) found)
            keeps
        obtain ⟨same, sites⟩ :=
          walkNodes_again sound unmasked inSvg path (definition.children.getD .any) 0 children inner within later 0
        simp only [walkNode, resolved, if_pos allowed, kept, same, true_and]
        exact sites
      · exact .nil ctx inSvg constraint

theorem walkNodes_again {ctx : WalkContext} {names : List JSString} (sound : SoundProfile ctx.profile)
    (unmasked : Unmasked ctx.profile names) (inSvg : Bool) (path : JSString) (constraint : ChildrenConstraint)
    (index : Nat) (nodes : List FragmentNode) (named : elementNames nodes ⊆ names) (settles : SettlesAll ctx nodes) :
    Unchanged ctx inSvg constraint (walkNodes ctx inSvg path constraint index nodes).1 := by
  cases nodes with
  | nil => exact .nil ctx inSvg constraint
  | cons node nodes =>
    obtain ⟨first, rest⟩ := List.append_subset.mp named
    rw [walkNodes]
    exact (walkNode_again sound unmasked inSvg (childPath path index) constraint node first settles.1).append
      (walkNodes_again sound unmasked inSvg path constraint (index + 1) nodes rest settles.2)

end

theorem cardTree_settles : SettlesAll ⟨cardProfile, false, false, sanitizeHTML⟩ cardTree := by
  have uri : ∀ definition declared key, nodeDefinition cardProfile (js "card") = some definition →
      propDefinition definition key = some declared → sinkOf declared = .uri := by
    rintro definition declared key found defined
    obtain rfl : ⟨some [(js "to", ⟨some .uri, none⟩)], none, none⟩ = definition := Option.some.inj found
    have only := Record.mem_of_get (r := [(js "to", (⟨some .uri, none⟩ : PropDefinition))]) defined
    obtain ⟨-, rfl⟩ := Prod.mk.inj (List.mem_singleton.mp only)
    rfl
  have link : ∀ key value, toLowerCase key ≠ js "style" →
      SettlesProp ⟨cardProfile, false, false, sanitizeHTML⟩ (js "card") key value := by
    intro key value other
    refine ⟨fun definition declared found defined => ?_, fun style => absurd style other⟩
    rw [uri definition declared key found defined]
    exact ⟨Sink.noConfusion, Sink.noConfusion⟩
  have undeclared : ∀ key value, (toLowerCase key = js "style" → sanitizeStyleValue (sanitizeStyleValue (jsString value)) =
      sanitizeStyleValue (jsString value)) → SettlesProp ⟨cardProfile, false, false, sanitizeHTML⟩ (js "A") key value := by
    intro key value settled
    refine ⟨fun definition declared found _ => ?_, fun style => ⟨fun _ => settled style, Sink.noConfusion⟩⟩
    have none : nodeDefinition cardProfile (js "A") = none := by decide
    rw [none] at found
    cases found
  refine ⟨⟨?_, ⟨?_, trivial, trivial⟩, ⟨fun entry none => absurd none List.not_mem_nil, trivial, trivial⟩, trivial⟩, trivial⟩
  · simp only [List.forall_mem_cons, List.not_mem_nil, false_implies, implies_true, and_true]
    exact ⟨link _ _ (by decide +kernel), link _ _ (by decide +kernel)⟩
  · simp only [List.forall_mem_cons, List.not_mem_nil, false_implies, implies_true, and_true]
    exact ⟨undeclared _ _ fun style => absurd style (by decide +kernel), undeclared _ _ fun _ => by decide +kernel⟩

end Xript
