import Xript.Json.RoundTrip
import Xript.Sanitize.Fragment
import Xript.Sanitize.Uri

namespace Xript

/-- What every profile a fragment is read under keeps, whatever its host declared. -/
structure SoundProfile (profile : FormatProfile) : Prop where
  inhabited : profile.scope ≠ []
  htmlLast : ResolvedVocabulary.builtinHtml ∉ profile.scope.dropLast
  schemes : ∀ scheme ∈ profile.schemes, isSchemeName scheme = true ∧ scheme ∉ prohibitedUriSchemes
  unshadowed : speaksHtml profile = true → ∀ name, anyVocabularyDeclares profile name = true →
    toLowerCase name ∉ strippedElements

theorem builtinProfiles_sound : ∀ profile ∈ builtinProfiles, SoundProfile profile := by
  intro profile member
  have scope : profile.scope = [.builtinHtml] := by
    revert profile
    decide
  have schemes : profile.schemes = defaultUriSchemes := by
    revert profile
    decide
  refine ⟨by rw [scope]; decide, by rw [scope]; decide, by rw [schemes]; decide, fun _ name declares => ?_⟩
  rw [anyVocabularyDeclares, nodeDefinition, scope] at declares
  cases declares

/-- What a `mapM` that succeeds gives, it gives for one of the items. -/
theorem mapM_origin {α β ε : Type} {f : α → Except ε β} {items : List α} {results : List β}
    (ok : items.mapM f = .ok results) {result : β} (member : result ∈ results) : ∃ item ∈ items, f item = .ok result := by
  induction items generalizing results with
  | nil =>
    cases ok
    cases member
  | cons first items ih =>
    rw [List.mapM_cons] at ok
    cases one : f first with
    | error e =>
      rw [one] at ok
      cases ok
    | ok made =>
      cases rest : items.mapM f with
      | error e =>
        rw [one, rest] at ok
        cases ok
      | ok others =>
        rw [one, rest] at ok
        cases ok
        rcases List.mem_cons.mp member with rfl | later
        · exact ⟨first, List.mem_cons_self, one⟩
        · obtain ⟨item, inside, gives⟩ := ih rest later
          exact ⟨item, List.mem_cons_of_mem first inside, gives⟩

theorem parseScheme_sound {format scheme : JSString} {entry : Json} (ok : parseScheme format entry = .ok scheme) :
    isSchemeName scheme = true ∧ scheme ∉ prohibitedUriSchemes := by
  unfold parseScheme at ok
  split at ok
  · simp only at ok
    split at ok
    · cases ok
    · rename_i allowed
      split at ok
      · rename_i named
        cases ok
        exact ⟨named, allowed⟩
      · cases ok
  · cases ok

theorem parseSchemes_sound {format : JSString} {raw : Option Json} {schemes : List JSString}
    (ok : parseSchemes format raw = .ok schemes) :
    ∀ scheme ∈ schemes, isSchemeName scheme = true ∧ scheme ∉ prohibitedUriSchemes := by
  intro scheme member
  unfold parseSchemes at ok
  split at ok
  · cases ok
    revert scheme
    decide
  · obtain ⟨entry, -, gives⟩ := mapM_origin ok member
    exact parseScheme_sound gives
  · cases ok

theorem scopeDefinition_declares {name : JSString} {definition : NodeDefinition} {scope : List ResolvedVocabulary}
    (found : scopeDefinition name scope = some definition) :
    ∃ id nodes, ResolvedVocabulary.declared id nodes ∈ scope ∧ Record.get nodes name = some definition := by
  induction scope with
  | nil => cases found
  | cons entry scope ih =>
    cases entry with
    | builtinHtml =>
      obtain ⟨id, nodes, inside, gives⟩ := ih found
      exact ⟨id, nodes, List.mem_cons_of_mem _ inside, gives⟩
    | declared id nodes =>
      rw [scopeDefinition, Option.or_eq_some_iff] at found
      rcases found with here | ⟨-, later⟩
      · exact ⟨id, nodes, List.mem_cons_self, here⟩
      · obtain ⟨id, nodes, inside, gives⟩ := ih later
        exact ⟨id, nodes, List.mem_cons_of_mem _ inside, gives⟩

theorem shadowedName_none {scope : List ResolvedVocabulary} (clear : shadowedName scope = none) {name : JSString}
    (declares : (scopeDefinition name scope).isSome = true) : toLowerCase name ∉ strippedElements := by
  obtain ⟨definition, found⟩ := Option.isSome_iff_exists.mp declares
  obtain ⟨id, nodes, inside, gives⟩ := scopeDefinition_declares found
  have visited := List.find?_eq_none.mp clear name
    (List.mem_flatMap.mpr ⟨_, inside, Record.mem_keys_of_get gives⟩)
  simpa using visited

theorem checkScope_sound {format : JSString} {scope checked : List ResolvedVocabulary}
    (ok : checkScope format scope = .ok checked) :
    checked = scope ∧ scope ≠ [] ∧ ResolvedVocabulary.builtinHtml ∉ scope.dropLast ∧
      (ResolvedVocabulary.builtinHtml ∈ scope → shadowedName scope = none) := by
  unfold checkScope at ok
  split at ok
  · cases ok
  · rename_i last
    split at ok
    · cases ok
    · rename_i inhabited
      split at ok
      · cases ok
      · rename_i clear
        cases ok
        exact ⟨rfl, inhabited, last, fun html => by rwa [if_pos html] at clear⟩

/-- However a host declares its formats, a profile that resolves names the format asked for, and is
sound; only a format of the list is a built-in one. -/
theorem resolveFormatProfile_sound {format : JSString} {formats : Option (Record (Option RawFormat))}
    {vocabularies : Option (Record (Option (Option RawNodes)))} {profile : FormatProfile}
    (resolved : resolveFormatProfile format formats vocabularies = .ok (some profile)) :
    profile.id = format ∧ (profile.builtin = true → profile ∈ builtinProfiles) ∧ SoundProfile profile := by
  unfold resolveFormatProfile at resolved
  split at resolved
  · rename_i builtin found
    cases resolved
    have member := List.mem_of_find?_eq_some found
    exact ⟨by simpa using List.find?_some found, fun _ => member, builtinProfiles_sound profile member⟩
  · split at resolved
    · cases resolved
    · cases resolved
    · rename_i declaration _
      split at resolved
      · split at resolved
        · rename_i syn _
          cases parsed : parseSchemes format declaration.schemes with
          | error e =>
            rw [parsed] at resolved
            cases resolved
          | ok schemes =>
            cases gathered : resolveScope format declaration vocabularies with
            | error e =>
              rw [parsed, gathered] at resolved
              cases resolved
            | ok scope =>
              cases checked : checkScope format scope with
              | error e =>
                simp only [parsed, gathered, bind, Except.bind, checked] at resolved
                cases resolved
              | ok final =>
                simp only [parsed, gathered, bind, Except.bind, checked] at resolved
                cases resolved
                obtain ⟨rfl, inhabited, last, clear⟩ := checkScope_sound checked
                refine ⟨rfl, fun builtin => (by cases builtin), inhabited, last, parseSchemes_sound parsed, ?_⟩
                intro html name declares
                exact shadowedName_none (clear (by simpa [speaksHtml] using html)) declares
        · cases resolved
      · cases resolved
      · cases resolved

/-- What a sink may hold: a value its cleaner lets through as it is, or one its cleaner gives. -/
def Sunk (ctx : WalkContext) (sink : Sink) (value : PropValue) : Prop :=
  match sink with
  | .text => True
  | .uri => ∃ s, value = .str s ∧ sanitizeUri s (js "href") ctx.profile.schemes = some s
  | .imageUri => ∃ s, value = .str s ∧ sanitizeUri s (js "src") ctx.profile.schemes = some s
  | .css => ∃ s, value = .str (sanitizeStyleValue s)
  | .html => ∃ s, value = .str (ctx.html s)

/-- A prop that is no protocol prop and no metadata, and that the node declares: of the declared type, in its sink. -/
structure DeclaredAs (ctx : WalkContext) (declared : PropDefinition) (value : PropValue) : Prop where
  typed : ∀ type, declared.type = some type → matchesJsonType value type = true
  sunk : Sunk ctx (sinkOf declared) value

/-- A prop a declared node may carry. -/
structure DeclaredPropFits (ctx : WalkContext) (definition : NodeDefinition) (key : JSString) (value : PropValue) :
    Prop where
  unreserved : toLowerCase key ∉ forbiddenPropNames
  handlerless : startsWithOn key = false
  known : (key ∈ protocolProps ∧ ∃ s, value = .str s) ∨ (key ∉ protocolProps ∧ isMetadataPropName key = true) ∨
    (key ∉ protocolProps ∧ ∃ declared, propDefinition definition key = some declared ∧ DeclaredAs ctx declared value)

/-- An attribute a built-in element may carry, under its canonical name. -/
structure HtmlPropFits (ctx : WalkContext) (key : JSString) (value : PropValue) : Prop where
  spelled : key = canonicalAttributeName (toLowerCase key)
  unreserved : toLowerCase key ∉ forbiddenPropNames
  valid : isValidAttributeName (toLowerCase key) = true
  allowed : isAllowedAttribute (toLowerCase key) = true
  link : toLowerCase key = js "href" ∨ toLowerCase key = js "src" → projectsToMarkup value = true →
    ∃ s, value = .str s ∧ sanitizeUri s (toLowerCase key) ctx.profile.schemes = some s
  style : toLowerCase key = js "style" → projectsToMarkup value = true →
    ∃ s, value = .str (sanitizeStyleValue s) ∧ sanitizeStyleValue s ≠ []

/-- A text carries its interpolation sites wherever the walk segments it. -/
def CarriesSites (ctx : WalkContext) (value : JSString) (segments : Option (List TextSegment)) : Prop :=
  ctx.interpolate = true → containsInterpolation value = true →
    ∀ pieces, (segmentText value).1 = some pieces → segments = some pieces

mutual

/-- The names the elements of a tree have. -/
def elementNamesOf : FragmentNode → List JSString
  | .text _ _ => []
  | .element name _ children _ => name :: elementNames children

def elementNames : List FragmentNode → List JSString
  | [] => []
  | node :: nodes => elementNamesOf node ++ elementNames nodes

end

mutual

/-- A node the format admits where it stands, in a tree made from elements of these names. An element is one of
three: a node the first vocabulary to name it declares; an allowed element the built-in vocabulary claims by a
spelling of its name; or, inside an `svg`, a `title` or `desc` that holds text alone. -/
def ConformsNode (ctx : WalkContext) (names : List JSString) (inSvg : Bool) (constraint : ChildrenConstraint) :
    FragmentNode → Prop
  | .text value segments => textAllowed constraint = true ∧ CarriesSites ctx value segments
  | .element name props children _ =>
    childAllowed constraint name = true ∧ Record.Ordered props ∧
      ((∃ definition, name ∈ names ∧ nodeDefinition ctx.profile name = some definition ∧
          (∀ entry ∈ props, DeclaredPropFits ctx definition entry.1 entry.2) ∧
          Conforms ctx names inSvg (definition.children.getD .any) children) ∨
        (name ∈ allowedElements ∧
          (∃ spelling ∈ names, toLowerCase spelling = name ∧ resolveNode spelling ctx.profile inSvg = .html name) ∧
          (∀ entry ∈ props, HtmlPropFits ctx entry.1 entry.2) ∧
          Conforms ctx names (inSvg || name = js "svg") .any children) ∨
        (inSvg = true ∧ name ∈ svgTextElements ∧
          (∃ spelling ∈ names, toLowerCase spelling = name ∧ resolveNode spelling ctx.profile inSvg = .svgText name) ∧
          (∀ entry ∈ props, entry.1 = toLowerCase entry.1 ∧ QuietSvgProp entry.1) ∧
          (children = [] ∨ ∃ value segments, children = [.text value segments] ∧ value ≠ [] ∧
            CarriesSites ctx value segments)))

/-- Nodes the format admits as children under a constraint. -/
def Conforms (ctx : WalkContext) (names : List JSString) (inSvg : Bool) (constraint : ChildrenConstraint) :
    List FragmentNode → Prop
  | [] => True
  | node :: nodes => ConformsNode ctx names inSvg constraint node ∧ Conforms ctx names inSvg constraint nodes

end

theorem Conforms.append {ctx : WalkContext} {names : List JSString} {inSvg : Bool} {constraint : ChildrenConstraint}
    {s t : List FragmentNode} (first : Conforms ctx names inSvg constraint s)
    (second : Conforms ctx names inSvg constraint t) : Conforms ctx names inSvg constraint (s ++ t) := by
  induction s with
  | nil => exact second
  | cons node s ih => exact ⟨first.1, ih first.2⟩

/-- The claims on a name, in the order of the scope. -/
theorem resolveIn_cases {name : JSString} {profile : FormatProfile} {inSvg : Bool} {scope : List ResolvedVocabulary}
    {resolution : Resolution} (resolved : resolveIn name profile inSvg scope = resolution) :
    resolution = .unknown ∨ (∃ definition, resolution = .declared definition ∧ scopeDefinition name scope = some definition) ∨
      (ResolvedVocabulary.builtinHtml ∈ scope ∧ resolveHtml name profile inSvg = some resolution) := by
  induction scope with
  | nil => exact .inl resolved.symm
  | cons entry scope ih =>
    cases entry with
    | declared id nodes =>
      rw [resolveIn] at resolved
      cases found : Record.get nodes name with
      | some definition =>
        rw [found] at resolved
        exact .inr (.inl ⟨definition, resolved.symm, by rw [scopeDefinition, found, Option.some_or]⟩)
      | none =>
        rw [found] at resolved
        rw [scopeDefinition, found, Option.none_or]
        refine (ih resolved).imp_right (Or.imp_right fun html => ⟨List.mem_cons_of_mem _ html.1, html.2⟩)
    | builtinHtml =>
      rw [resolveIn] at resolved
      cases claimed : resolveHtml name profile inSvg with
      | some claim =>
        rw [claimed, Option.getD_some] at resolved
        exact .inr (.inr ⟨List.mem_cons_self, congrArg some resolved⟩)
      | none =>
        rw [claimed, Option.getD_none] at resolved
        rw [scopeDefinition]
        refine (ih resolved).imp_right (Or.imp_right fun html => ?_)
        rw [claimed] at html
        cases html.2

theorem declared_of_resolveNode {name : JSString} {profile : FormatProfile} {inSvg : Bool} {definition : NodeDefinition}
    (resolved : resolveNode name profile inSvg = .declared definition) : nodeDefinition profile name = some definition := by
  obtain unknown | ⟨found, same, gives⟩ | ⟨-, claimed⟩ := resolveIn_cases resolved
  · cases unknown
  · cases same
    exact gives
  · rcases resolveHtml_cases name profile inSvg with ⟨-, -, other⟩ | other | other | ⟨-, other⟩ | other <;>
      · rw [claimed] at other
        cases other

theorem html_of_resolveNode {name tag : JSString} {profile : FormatProfile} {inSvg : Bool}
    (resolved : resolveNode name profile inSvg = .html tag) : toLowerCase name = tag ∧ tag ∈ allowedElements := by
  obtain unknown | ⟨found, same, -⟩ | ⟨-, claimed⟩ := resolveIn_cases resolved
  · cases unknown
  · cases same
  · rcases resolveHtml_cases name profile inSvg with ⟨-, -, other⟩ | other | other | ⟨allowed, other⟩ | other
    all_goals
      rw [claimed] at other
      cases other
    exact ⟨rfl, allowed⟩

theorem svgText_of_resolveNode {name tag : JSString} {profile : FormatProfile} {inSvg : Bool}
    (resolved : resolveNode name profile inSvg = .svgText tag) :
    inSvg = true ∧ toLowerCase name = tag ∧ tag ∈ svgTextElements := by
  obtain unknown | ⟨found, same, -⟩ | ⟨-, claimed⟩ := resolveIn_cases resolved
  · cases unknown
  · cases same
  · rcases resolveHtml_cases name profile inSvg with ⟨inside, text, other⟩ | other | other | ⟨-, other⟩ | other
    all_goals
      rw [claimed] at other
      cases other
    exact ⟨inside, rfl, text⟩

theorem matchesJsonType_str (s t : JSString) (type : PropType) : matchesJsonType (.str s) type = matchesJsonType (.str t) type := by
  rfl

theorem applySink_sunk {ctx : WalkContext} {sink : Sink} {value cleaned : JSString}
    (applied : applySink ctx sink value = some cleaned) : Sunk ctx sink (.str cleaned) := by
  cases sink with
  | text => trivial
  | uri => exact ⟨cleaned, rfl, sanitizeUri_idem applied⟩
  | imageUri => exact ⟨cleaned, rfl, sanitizeUri_idem applied⟩
  | css =>
    simp only [applySink] at applied
    split at applied
    · cases applied
    · cases applied
      exact ⟨value, rfl⟩
  | html =>
    cases applied
    exact ⟨value, rfl⟩

theorem checkSink_keep {ctx : WalkContext} {declared : PropDefinition} {path node key kept : JSString}
    {value after : PropValue} {invalid : JSString → PropOutcome} (refuses : ∀ message k v, invalid message ≠ .keep k v)
    (keeps : declaredValue.checkSink ctx declared path node key value invalid = .keep kept after) :
    kept = key ∧ Sunk ctx (sinkOf declared) after ∧
      (after = value ∨ ∃ s cleaned, value = .str s ∧ after = .str cleaned) := by
  unfold declaredValue.checkSink at keeps
  simp only at keeps
  split at keeps
  · rename_i plain
    cases keeps
    exact ⟨rfl, plain ▸ trivial, .inl rfl⟩
  · split at keeps
    · rename_i text
      split at keeps
      · rename_i cleaned applied
        cases keeps
        exact ⟨rfl, applySink_sunk applied, .inr ⟨text, cleaned, rfl, rfl⟩⟩
      · cases keeps
    · exact absurd keeps (refuses _ _ _)

theorem declaredValue_keep {ctx : WalkContext} {declared : PropDefinition} {path node key kept : JSString}
    {value after : PropValue} (keeps : declaredValue ctx declared path node key value = .keep kept after) :
    kept = key ∧ DeclaredAs ctx declared after := by
  have refuses : ∀ message k v,
      PropOutcome.drop (propWarning .invalidProp path node key message) ≠ .keep k v := by
    rintro message k v ⟨⟩
  unfold declaredValue at keeps
  simp only at keeps
  split at keeps
  · rename_i type typed
    split at keeps
    · rename_i fits
      obtain ⟨same, sunk, how⟩ := checkSink_keep refuses keeps
      refine ⟨same, fun other declares => ?_, sunk⟩
      obtain rfl := Option.some.inj (typed.symm.trans declares)
      rcases how with rfl | ⟨s, cleaned, rfl, rfl⟩
      · exact fits
      · exact (matchesJsonType_str cleaned s type).trans fits
    · exact absurd keeps (refuses _ _ _)
  · rename_i untyped
    obtain ⟨same, sunk, -⟩ := checkSink_keep refuses keeps
    refine ⟨same, fun other declares => ?_, sunk⟩
    rw [untyped] at declares
    cases declares

theorem declaredProp_fits {ctx : WalkContext} {definition : NodeDefinition} {node path key kept : JSString}
    {value after : PropValue} (keeps : declaredProp ctx definition node path key value = .keep kept after) :
    kept = key ∧ DeclaredPropFits ctx definition kept after := by
  unfold declaredProp at keeps
  split at keeps
  · cases keeps
  · rename_i free
    obtain ⟨unreserved, handlerless⟩ := not_or.mp free
    rw [Bool.not_eq_true] at handlerless
    split at keeps
    · rename_i protocol
      split at keeps
      · cases keeps
        exact ⟨rfl, unreserved, handlerless, .inl ⟨protocol, _, rfl⟩⟩
      · cases keeps
    · rename_i other
      split at keeps
      · rename_i metadata
        cases keeps
        exact ⟨rfl, unreserved, handlerless, .inr (.inl ⟨other, metadata⟩)⟩
      · split at keeps
        · cases keeps
        · rename_i declared found
          obtain ⟨rfl, fits⟩ := declaredValue_keep keeps
          exact ⟨rfl, unreserved, handlerless, .inr (.inr ⟨other, declared, found, fits⟩)⟩

theorem canonicalAttributeName_plain {lower : JSString} (plain : lower ∈ ["href", "src", "style"].map js) :
    canonicalAttributeName lower = lower := by
  revert lower
  decide +kernel

theorem htmlProp_fits {ctx : WalkContext} {tag path key kept : JSString} {value after : PropValue}
    (keeps : htmlProp ctx tag path key value = .keep kept after) : HtmlPropFits ctx kept after := by
  unfold htmlProp at keeps
  simp only at keeps
  split at keeps
  · cases keeps
  · rename_i unreserved
    split at keeps
    · cases keeps
    · rename_i valid
      rw [Bool.not_eq_true, Bool.not_eq_false'] at valid
      have fixed := toLowerCase_of_valid rfl valid
      split at keeps
      · unfold dropAttribute at keeps
        cases keeps
      · rename_i allowed
        rw [Bool.not_eq_true, Bool.not_eq_false'] at allowed
        split at keeps
        · rename_i link
          split at keeps
          · rename_i cleaned passed
            cases keeps
            refine ⟨?_, fixed.symm ▸ unreserved, fixed.symm ▸ valid, fixed.symm ▸ allowed, fun _ _ => ⟨cleaned, rfl, ?_⟩,
              fun style => ?_⟩
            · rw [fixed]
              exact (canonicalAttributeName_plain (by rcases link.1 with same | same <;> rw [same] <;> decide)).symm
            · rw [fixed]
              exact sanitizeUri_idem passed
            · rw [fixed] at style
              exact absurd (style ▸ link.1) (by decide)
          · cases keeps
        · rename_i unlinked
          split at keeps
          · rename_i style
            split at keeps
            · cases keeps
            · rename_i some
              cases keeps
              refine ⟨?_, fixed.symm ▸ unreserved, fixed.symm ▸ valid, fixed.symm ▸ allowed, fun link => ?_,
                fun _ _ => ⟨_, rfl, some⟩⟩
              · rw [fixed]
                exact (canonicalAttributeName_plain (by rw [style.1]; decide)).symm
              · rw [fixed, style.1] at link
                exact absurd link (by decide)
          · rename_i unstyled
            cases keeps
            have same := toLowerCase_canonical fixed
            refine ⟨by rw [same], same.symm ▸ unreserved, same.symm ▸ valid, same.symm ▸ allowed, ?_, ?_⟩
            · intro link projects
              rw [same] at link
              exact absurd ⟨link, projects⟩ unlinked
            · intro style projects
              rw [same] at style
              exact absurd ⟨style, projects⟩ unstyled

theorem svgTextProp_fits {tag path key kept : JSString} {value after : PropValue}
    (keeps : svgTextProp tag path key value = .keep kept after) : kept = toLowerCase kept ∧ QuietSvgProp kept := by
  refine ⟨?_, (svgTextProp_keep keeps).1⟩
  unfold svgTextProp at keeps
  simp only at keeps
  split at keeps
  · rename_i allowed
    cases keeps
    exact (toLowerCase_of_valid rfl allowed.2.1).symm
  · unfold dropAttribute at keeps
    cases keeps

/-- The props a pass keeps are in enumeration order, and none stands twice. -/
theorem collectProps_ordered (check : JSString → PropValue → PropOutcome) (props : Props) :
    Record.Ordered (collectProps check props).1 := by
  unfold collectProps
  refine List.foldlRecOn (motive := fun found : Props × Report => Record.Ordered found.1) props _ ⟨.nil, .nil⟩
    fun found ordered entry _ => ?_
  split
  · exact ordered.set _ _
  · exact ordered

theorem textNode_carries (ctx : WalkContext) (value : JSString) (segments : Option (List TextSegment)) (path : JSString) :
    ∃ kept, (textNode ctx value segments path).1 = .text value kept ∧ CarriesSites ctx value kept := by
  unfold textNode
  split
  · unfold segmentTextNode
    split
    · cases found : (segmentText value).1 with
      | some pieces =>
        refine ⟨some pieces, by simp only [found], fun _ _ others same => ?_⟩
        rw [← same, found]
      | none =>
        refine ⟨segments, by simp only [found], fun _ _ others same => ?_⟩
        rw [found] at same
        cases same
    · rename_i none
      exact ⟨segments, rfl, fun _ contains => absurd contains none⟩
  · rename_i off
    exact ⟨segments, rfl, fun on => absurd on off⟩

theorem sanitizeSvgTextNode_conforms {ctx : WalkContext} {names : List JSString} {constraint : ChildrenConstraint}
    {tag path : JSString} {props : Props} {children : List FragmentNode} (allowed : childAllowed constraint tag = true)
    (text : tag ∈ svgTextElements) (claimed : ∃ spelling ∈ names, toLowerCase spelling = tag ∧
      resolveNode spelling ctx.profile true = .svgText tag) :
    ConformsNode ctx names true constraint (sanitizeSvgTextNode ctx tag path props children).1 := by
  have fits : ∀ entry ∈ (collectProps (svgTextProp tag path) props).1,
      entry.1 = toLowerCase entry.1 ∧ QuietSvgProp entry.1 := by
    intro entry member
    obtain ⟨old, -, keeps⟩ := mem_collectProps member
    exact svgTextProp_fits keeps
  have ordered := collectProps_ordered (svgTextProp tag path) props
  unfold sanitizeSvgTextNode
  simp only
  split
  · exact ⟨allowed, ordered, .inr (.inr ⟨rfl, text, claimed, fits, .inl rfl⟩)⟩
  · rename_i some
    obtain ⟨segments, shape, segmented⟩ := textNode_carries ctx (collectSvgText tag path 0 children).1 none (childPath path 0)
    refine ⟨allowed, ordered, .inr (.inr ⟨rfl, text, claimed, fits, .inr ⟨_, segments, ?_, some, segmented⟩⟩)⟩
    rw [shape]

mutual

/-- What a walk leaves of a node conforms to the format, under the constraint the walk was under. -/
theorem walkNode_conforms (ctx : WalkContext) {names : List JSString} (inSvg : Bool) (path : JSString)
    (constraint : ChildrenConstraint) (node : FragmentNode) (named : elementNamesOf node ⊆ names) :
    Conforms ctx names inSvg constraint (walkNode ctx inSvg path constraint node).1 := by
  cases node with
  | text value segments =>
    rw [walkNode]
    split
    · rename_i allowed
      obtain ⟨kept, shape, segmented⟩ := textNode_carries ctx value segments path
      simp only [shape]
      exact ⟨⟨allowed, segmented⟩, trivial⟩
    · split <;> trivial
  | element name props children selfClosing =>
    obtain ⟨here, inner⟩ := List.cons_subset.mp named
    rw [walkNode]
    cases resolved : resolveNode name ctx.profile inSvg with
    | unknown =>
      dsimp only
      split
      · exact walkNodes_conforms ctx inSvg path constraint 0 children inner
      · trivial
    | stripped tag => trivial
    | unwrap => exact walkNodes_conforms ctx inSvg path constraint 0 children inner
    | svgText tag =>
      obtain ⟨rfl, spelling, text⟩ := svgText_of_resolveNode resolved
      dsimp only
      split
      · rename_i allowed
        exact ⟨sanitizeSvgTextNode_conforms allowed text ⟨name, here, spelling, resolved⟩, trivial⟩
      · trivial
    | html tag =>
      obtain ⟨spelling, known⟩ := html_of_resolveNode resolved
      dsimp only
      split
      · rename_i allowed
        refine ⟨⟨allowed, collectProps_ordered _ _, .inr (.inl ⟨known, ⟨name, here, spelling, resolved⟩, ?_,
          walkNodes_conforms ctx (inSvg || tag = js "svg") path .any 0 children inner⟩)⟩, trivial⟩
        intro entry member
        obtain ⟨old, -, keeps⟩ := mem_collectProps member
        exact htmlProp_fits keeps
      · trivial
    | declared definition =>
      have found := declared_of_resolveNode resolved
      dsimp only
      split
      · rename_i allowed
        refine ⟨⟨allowed, collectProps_ordered _ _, .inl ⟨definition, here, found, ?_,
          walkNodes_conforms ctx inSvg path (definition.children.getD .any) 0 children inner⟩⟩, trivial⟩
        intro entry member
        obtain ⟨old, -, keeps⟩ := mem_collectProps member
        exact (declaredProp_fits keeps).2
      · trivial

theorem walkNodes_conforms (ctx : WalkContext) {names : List JSString} (inSvg : Bool) (path : JSString)
    (constraint : ChildrenConstraint) (index : Nat) (nodes : List FragmentNode) (named : elementNames nodes ⊆ names) :
    Conforms ctx names inSvg constraint (walkNodes ctx inSvg path constraint index nodes).1 := by
  cases nodes with
  | nil => trivial
  | cons node nodes =>
    obtain ⟨first, rest⟩ := List.append_subset.mp named
    rw [walkNodes]
    exact (walkNode_conforms ctx inSvg (childPath path index) constraint node first).append
      (walkNodes_conforms ctx inSvg path constraint (index + 1) nodes rest)

end

/-- Whatever tree is sanitized, under whatever profile, what is left of it conforms to the format. -/
theorem sanitizeTree_conforms (tree : FragmentTree) (profile : FormatProfile) (options : VocabularyOptions) :
    Conforms ⟨profile, options.strictVocabulary, options.interpolate, sanitizeHTML⟩ (elementNames tree) false .any
      (sanitizeTree tree profile options).tree :=
  walkNodes_conforms _ false [] .any 0 tree (List.Subset.refl _)

/-- Whatever a source holds, in either syntax, the tree a fragment gets from it conforms to its format. -/
theorem sanitizeFragment_conforms {source : JSString} {profile : FormatProfile} {options : VocabularyOptions}
    {fragment : SanitizedFragment} (sanitized : sanitizeFragment source profile options = .ok fragment) :
    ∃ parsed, fragment.tree = (sanitizeTree parsed profile options).tree ∧
      (profile.syn = .j5ml → ∃ nodes, parseJsmlSource source profile.id = .ok nodes ∧ parsed = jsmlToTree nodes) ∧
      (profile.syn ≠ .j5ml → parsed = htmlToTree source (some profile)) ∧
      Conforms ⟨profile, options.strictVocabulary, options.interpolate, sanitizeHTML⟩ (elementNames parsed) false .any
        fragment.tree := by
  unfold sanitizeFragment at sanitized
  simp only at sanitized
  split at sanitized
  · rename_i j5ml
    cases read : parseJsmlSource source profile.id with
    | error e =>
      rw [read] at sanitized
      cases sanitized
    | ok nodes =>
      rw [read] at sanitized
      cases sanitized
      exact ⟨jsmlToTree nodes, rfl, fun _ => ⟨nodes, rfl, rfl⟩, fun other => absurd j5ml other,
        sanitizeTree_conforms _ profile options⟩
  · rename_i html
    have same : fragment.tree = (sanitizeTree (htmlToTree source (some profile)) profile options).tree := by
      split at sanitized <;>
      · cases sanitized
        rfl
    refine ⟨_, same, fun j5ml => absurd j5ml html, fun _ => rfl, ?_⟩
    rw [same]
    exact sanitizeTree_conforms _ profile options

theorem sanitizeFragment_conforms_link :
    ∃ parsed, (sanitizeTree (htmlToTree (js "<a onclick=x href=y>go</a>") (some textHtml)) textHtml ⟨false, true⟩).tree =
        (sanitizeTree parsed textHtml ⟨false, true⟩).tree ∧
      (textHtml.syn = .j5ml → ∃ nodes, parseJsmlSource (js "<a onclick=x href=y>go</a>") textHtml.id = .ok nodes ∧
        parsed = jsmlToTree nodes) ∧
      (textHtml.syn ≠ .j5ml → parsed = htmlToTree (js "<a onclick=x href=y>go</a>") (some textHtml)) ∧
      Conforms ⟨textHtml, false, true, sanitizeHTML⟩ (elementNames parsed) false .any
        (sanitizeTree (htmlToTree (js "<a onclick=x href=y>go</a>") (some textHtml)) textHtml ⟨false, true⟩).tree :=
  @sanitizeFragment_conforms (js "<a onclick=x href=y>go</a>") textHtml ⟨false, true⟩ ⟨_, _, _, _⟩ rfl

end Xript
