import Xript.Sanitize.Conform
import Xript.Sanitize.StyleClean

namespace Xript

/-- A link of a scheme, if of any, that the format lists and that runs no script; an image may hold its data. -/
def SafeLink (attrName : JSString) (schemes : List JSString) (value : JSString) : Prop :=
  ∀ scheme, Schemed value scheme → scheme ∈ schemes ∧ scheme ∉ prohibitedUriSchemes ∧
    (scheme = js "data" → attrName = js "src" ∧ DataImage value)

/-- The attribute a prop is a link of: on a declared node by its sink, on any other by its name. -/
def linkAttribute (profile : FormatProfile) (name key : JSString) : Option JSString :=
  match nodeDefinition profile name with
  | none => if toLowerCase key = js "href" ∨ toLowerCase key = js "src" then some (toLowerCase key) else none
  | some definition =>
    if key ∈ protocolProps ∨ isMetadataPropName key then none
    else
      match (propDefinition definition key).map sinkOf with
      | some .uri => some (js "href")
      | some .imageUri => some (js "src")
      | _ => none

/-- A prop that installs no handler, reaches no prototype and links to nothing its format does not list. -/
structure HarmlessProp (profile : FormatProfile) (name key : JSString) (value : PropValue) : Prop where
  unreserved : toLowerCase key ∉ forbiddenPropNames
  handlerless : startsWithOn key = false
  link : ∀ attrName, linkAttribute profile name key = some attrName →
    ∀ s, value = .str s → SafeLink attrName profile.schemes s

mutual

/-- A node that holds nothing the built-in vocabulary strips, an `svg`'s `title` apart, and only harmless props. -/
def HarmlessNode (profile : FormatProfile) (inSvg : Bool) : FragmentNode → Prop
  | .text _ _ => True
  | .element name props children _ =>
    (speaksHtml profile = true → toLowerCase name ∈ strippedElements → inSvg = true ∧ name = js "title") ∧
      (∀ entry ∈ props, HarmlessProp profile name entry.1 entry.2) ∧
      Harmless profile (inSvg || name = js "svg") children

def Harmless (profile : FormatProfile) (inSvg : Bool) : List FragmentNode → Prop
  | [] => True
  | node :: nodes => HarmlessNode profile inSvg node ∧ Harmless profile inSvg nodes

end

theorem safeLink_of_sanitizeUri {attrName s : JSString} {schemes : List JSString}
    (passed : sanitizeUri s attrName schemes = some s) : SafeLink attrName schemes s := by
  intro scheme schemed
  have found := uriScheme_of_schemed schemed
  rw [sanitizeUri_shape passed] at found
  have whole := sanitizeUri_shape passed
  simp only [sanitizeUri, found] at passed
  split_ifs at passed with prohibited unlisted data image
  · refine ⟨by simpa using unlisted, prohibited, fun _ => ⟨image.1, ?_⟩⟩
    rw [whole]
    exact dataImage_of_safe image.2
  · exact ⟨by simpa using unlisted, prohibited, fun same => absurd same data⟩

theorem on_prefix_of_handler {key : JSString} (handler : startsWithOn key = true) : js "on" <+: toLowerCase key := by
  obtain ⟨rest, stripped⟩ := Option.isSome_iff_exists.mp handler
  obtain ⟨head, rfl, same⟩ := stripWord_eq_some.mp stripped
  have ascii : ∀ u ∈ head, u < 128 := by
    intro u member
    have lower : asciiLower u ∈ js "on" := same ▸ List.mem_map_of_mem member
    have bound : ∀ c ∈ js "on", c < 128 := by decide
    have least : u ≤ asciiLower u := by unfold asciiLower; split <;> omega
    have := bound _ lower
    omega
  obtain ⟨r, lowered⟩ := toLowerCase_append ascii rest
  rw [lowered, same]
  exact List.prefix_append _ _

theorem handlerless_of_prefix {key p : JSString} (starts : p <+: toLowerCase key) (apart : ¬js "on" <+: p ∧ ¬p <+: js "on") :
    startsWithOn key = false := by
  by_contra handler
  have on := on_prefix_of_handler (Bool.not_eq_false _ ▸ handler)
  rcases List.prefix_or_prefix_of_prefix on starts with first | second
  · exact apart.1 first
  · exact apart.2 second

theorem handlerless_of_metadata {key : JSString} (metadata : isMetadataPropName (toLowerCase key) = true)
    (fixed : toLowerCase (toLowerCase key) = toLowerCase key) : startsWithOn key = false := by
  rw [isMetadataPropName, fixed, Bool.or_eq_true, decide_eq_true_iff, decide_eq_true_iff] at metadata
  rcases metadata with starts | starts
  · exact handlerless_of_prefix starts (by decide +kernel)
  · exact handlerless_of_prefix starts (by decide +kernel)

theorem handlerless_of_allowed {key : JSString} (allowed : isAllowedAttribute (toLowerCase key) = true) :
    startsWithOn key = false := by
  unfold isAllowedAttribute at allowed
  split_ifs at allowed with data aria on
  · exact handlerless_of_prefix data (by decide +kernel)
  · exact handlerless_of_prefix aria (by decide +kernel)
  · by_contra handler
    exact on (on_prefix_of_handler (Bool.not_eq_false _ ▸ handler))

/-- Where the built-in vocabulary comes last, it claims no name that a vocabulary declares. -/
theorem undeclared_of_resolveIn {name : JSString} {profile : FormatProfile} {inSvg : Bool} {scope : List ResolvedVocabulary}
    (last : ResolvedVocabulary.builtinHtml ∉ scope.dropLast) (known : resolveIn name profile inSvg scope ≠ .unknown)
    (claimed : ∀ definition, resolveIn name profile inSvg scope ≠ .declared definition) :
    scopeDefinition name scope = none := by
  induction scope with
  | nil => rfl
  | cons entry scope ih =>
    cases scope with
    | nil =>
      cases entry with
      | builtinHtml => rfl
      | declared id nodes =>
        cases found : Record.get nodes name with
        | none => exact absurd (by rw [resolveIn, found]; rfl) known
        | some definition => exact absurd (by rw [resolveIn, found]) (claimed definition)
    | cons second scope =>
      rw [List.dropLast_cons_cons, List.mem_cons, not_or] at last
      cases entry with
      | builtinHtml => exact absurd rfl last.1
      | declared id nodes =>
        cases found : Record.get nodes name with
        | some definition => exact absurd (by rw [resolveIn, found]) (claimed definition)
        | none =>
          have step : resolveIn name profile inSvg (.declared id nodes :: second :: scope) =
              resolveIn name profile inSvg (second :: scope) := by rw [resolveIn, found]
          rw [scopeDefinition, found, Option.none_or]
          exact ih last.2 (step ▸ known) (fun definition => step ▸ claimed definition)

/-- No element of the source hides, by capitals in its name, a node that a vocabulary declares. -/
def Unmasked (profile : FormatProfile) (names : List JSString) : Prop :=
  ∀ name ∈ names, anyVocabularyDeclares profile (toLowerCase name) = true → anyVocabularyDeclares profile name = true

theorem Unmasked.undeclared {profile : FormatProfile} {names : List JSString} (unmasked : Unmasked profile names)
    (sound : SoundProfile profile) {inSvg : Bool} {spelling : JSString} (member : spelling ∈ names)
    (known : resolveNode spelling profile inSvg ≠ .unknown)
    (claimed : ∀ definition, resolveNode spelling profile inSvg ≠ .declared definition) :
    nodeDefinition profile (toLowerCase spelling) = none := by
  have absent : nodeDefinition profile spelling = none := undeclared_of_resolveIn sound.htmlLast known claimed
  by_contra present
  have declares := unmasked spelling member (Option.isSome_iff_ne_none.mpr present)
  rw [anyVocabularyDeclares, absent] at declares
  cases declares

theorem declaredProp_harmless {ctx : WalkContext} {definition : NodeDefinition} {name key : JSString} {value : PropValue}
    (found : nodeDefinition ctx.profile name = some definition) (fits : DeclaredPropFits ctx definition key value) :
    HarmlessProp ctx.profile name key value := by
  refine ⟨fits.unreserved, fits.handlerless, ?_⟩
  rintro attrName links s rfl
  simp only [linkAttribute, found] at links
  split at links
  · cases links
  · rename_i routed
    rw [not_or] at routed
    obtain ⟨protocol, -⟩ | ⟨-, metadata⟩ | ⟨-, declared, defined, as⟩ := fits.known
    · exact absurd protocol routed.1
    · exact absurd metadata routed.2
    · have sunk := as.sunk
      rw [defined, Option.map_some] at links
      split at links
      · rename_i sink
        cases links
        rw [Option.some.inj sink] at sunk
        obtain ⟨t, same, passed⟩ := sunk
        cases same
        exact safeLink_of_sanitizeUri passed
      · rename_i sink
        cases links
        rw [Option.some.inj sink] at sunk
        obtain ⟨t, same, passed⟩ := sunk
        cases same
        exact safeLink_of_sanitizeUri passed
      · cases links

theorem htmlProp_harmless {ctx : WalkContext} {name key : JSString} {value : PropValue}
    (undeclared : nodeDefinition ctx.profile name = none) (fits : HtmlPropFits ctx key value) :
    HarmlessProp ctx.profile name key value := by
  refine ⟨fits.unreserved, handlerless_of_allowed fits.allowed, ?_⟩
  rintro attrName links s rfl
  simp only [linkAttribute, undeclared] at links
  split at links
  · rename_i link
    cases links
    obtain ⟨t, same, passed⟩ := fits.link link rfl
    cases same
    exact safeLink_of_sanitizeUri passed
  · cases links

theorem svgTextProp_harmless {profile : FormatProfile} {name key : JSString} {value : PropValue}
    (undeclared : nodeDefinition profile name = none) (quiet : QuietSvgProp key) : HarmlessProp profile name key value := by
  have fixed := toLowerCase_of_valid rfl quiet.valid
  have handlerless : startsWithOn key = false := by
    rcases quiet.allowed with listed | metadata
    · by_contra handler
      have on := on_prefix_of_handler (Bool.not_eq_false _ ▸ handler)
      exact absurd on (by revert listed; generalize toLowerCase key = lower; revert lower; decide +kernel)
    · exact handlerless_of_metadata metadata fixed
  refine ⟨quiet.unreserved, handlerless, ?_⟩
  rintro attrName links s -
  simp only [linkAttribute, undeclared] at links
  split at links
  · rename_i link
    have none : toLowerCase key ∉ svgTextAttributes ∧ isMetadataPropName (toLowerCase key) = false := by
      rcases link with same | same <;> rw [same] <;> decide +kernel
    rcases quiet.allowed with listed | metadata
    · exact absurd listed none.1
    · rw [none.2] at metadata
      cases metadata
  · cases links

theorem unstripped_of_allowed : ∀ name ∈ allowedElements, toLowerCase name ∉ strippedElements := by decide +kernel

theorem stripped_svgText : ∀ name ∈ svgTextElements, toLowerCase name ∈ strippedElements → name = js "title" := by
  decide +kernel

mutual

theorem ConformsNode.harmless {ctx : WalkContext} {names : List JSString} (sound : SoundProfile ctx.profile)
    (unmasked : Unmasked ctx.profile names) {inSvg within : Bool} (wider : inSvg = true → within = true)
    {constraint : ChildrenConstraint} (node : FragmentNode) (conforms : ConformsNode ctx names inSvg constraint node) :
    HarmlessNode ctx.profile within node := by
  cases node with
  | text value segments => trivial
  | element name props children selfClosing =>
    obtain ⟨-, -, ⟨definition, -, found, fits, inner⟩ | ⟨allowed, ⟨spelling, member, spelled, resolved⟩, fits, inner⟩ |
      ⟨inside, text, ⟨spelling, member, spelled, resolved⟩, fits, inner⟩⟩ := conforms
    · refine ⟨fun speaks stripped => ?_, fun entry here => declaredProp_harmless found (fits entry here),
        Conforms.harmless sound unmasked (fun on => by simp [wider on]) children inner⟩
      exact absurd stripped (sound.unshadowed speaks name (by rw [anyVocabularyDeclares, found]; rfl))
    · have undeclared : nodeDefinition ctx.profile name = none := by
        rw [← spelled]
        exact unmasked.undeclared sound member (by rw [resolved]; exact Resolution.noConfusion)
          fun definition => by rw [resolved]; exact Resolution.noConfusion
      refine ⟨fun _ stripped => absurd stripped (unstripped_of_allowed name allowed),
        fun entry here => htmlProp_harmless undeclared (fits entry here),
        Conforms.harmless sound unmasked (fun on => ?_) children inner⟩
      rw [Bool.or_eq_true] at on ⊢
      exact on.imp_left wider
    · have undeclared : nodeDefinition ctx.profile name = none := by
        rw [← spelled]
        exact unmasked.undeclared sound member (by rw [resolved]; exact Resolution.noConfusion)
          fun definition => by rw [resolved]; exact Resolution.noConfusion
      refine ⟨fun _ stripped => ⟨wider inside, stripped_svgText name text stripped⟩,
        fun entry here => svgTextProp_harmless undeclared (fits entry here).2, ?_⟩
      rcases inner with rfl | ⟨value, segments, rfl, -, -⟩
      · trivial
      · exact ⟨trivial, trivial⟩

theorem Conforms.harmless {ctx : WalkContext} {names : List JSString} (sound : SoundProfile ctx.profile)
    (unmasked : Unmasked ctx.profile names) {inSvg within : Bool} (wider : inSvg = true → within = true)
    {constraint : ChildrenConstraint} (nodes : List FragmentNode) (conforms : Conforms ctx names inSvg constraint nodes) :
    Harmless ctx.profile within nodes := by
  cases nodes with
  | nil => trivial
  | cons node nodes =>
    exact ⟨ConformsNode.harmless sound unmasked wider node conforms.1,
      Conforms.harmless sound unmasked wider nodes conforms.2⟩

end

/-- However a host declares its format, sanitizing a tree whose names hide no declared node leaves nothing in it
that the built-in vocabulary strips, that handles an event, that reaches a prototype, or that links where the
format does not allow. -/
theorem sanitizeTree_harmless {format : JSString} {formats : Option (Record (Option RawFormat))}
    {vocabularies : Option (Record (Option (Option RawNodes)))} {profile : FormatProfile}
    (resolved : resolveFormatProfile format formats vocabularies = .ok (some profile)) {tree : FragmentTree}
    (unmasked : Unmasked profile (elementNames tree)) (options : VocabularyOptions) :
    SoundProfile profile ∧ Harmless profile false (sanitizeTree tree profile options).tree := by
  have sound := (resolveFormatProfile_sound resolved).2.2
  have conforms := sanitizeTree_conforms tree profile options
  exact ⟨sound, conforms.harmless sound unmasked id⟩

/-- A format of one `card` node beside the built-in elements, whose links are `https` or none. -/
def cardFormats : Record (Option RawFormat) := [(js "application/card", some {
  syn := some (.str (js "html"))
  schemes := some (.arr [.str (js "https")])
  nodes := some (.object [(js "card", some ⟨some [(js "to", ⟨some .uri, none⟩)], none, none⟩)])
  vocabularies := some (.arr [.str (js "html")]) })]

def cardProfile : FormatProfile where
  id := js "application/card"
  syn := .html
  scope := [.declared none [(js "card", ⟨some [(js "to", ⟨some .uri, none⟩)], none, none⟩)], .builtinHtml]
  schemes := [js "https"]
  builtin := false

def cardTree : FragmentTree := [
  .element (js "card") [(js "to", .str (js "javascript:x")), (js "onclick", .str (js "x"))] [
    .element (js "A") [(js "HREF", .str (js "https:x")), (js "style", .str (js "color:red"))] [.text (js "go") none] false,
    .element (js "script") [] [.text (js "x") none] false] false]

theorem cardProfile_resolved :
    resolveFormatProfile (js "application/card") (some cardFormats) none = .ok (some cardProfile) := by rfl

theorem cardTree_unmasked : Unmasked cardProfile (elementNames cardTree) := by
  unfold Unmasked
  decide +kernel

theorem sanitizeTree_harmless_card :
    SoundProfile cardProfile ∧ Harmless cardProfile false (sanitizeTree cardTree cardProfile ⟨false, false⟩).tree :=
  sanitizeTree_harmless cardProfile_resolved cardTree_unmasked ⟨false, false⟩

end Xript
