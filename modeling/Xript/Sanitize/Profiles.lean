import Xript.Sanitize.Tree

namespace Xript

/-- A format's syntax. The lookup in `SYNTAX_ALIASES` also finds what an object inherits; such a
value is `inherited`, and equals neither name. -/
inductive FragmentSyntax where
  | html
  | j5ml
  | inherited
  deriving DecidableEq, Repr

/-- The names every object literal inherits from `Object.prototype`. -/
def objectPrototypeNames : List JSString := [
  "constructor", "__defineGetter__", "__defineSetter__", "hasOwnProperty", "__lookupGetter__", "__lookupSetter__",
  "isPrototypeOf", "propertyIsEnumerable", "toString", "valueOf", "__proto__", "toLocaleString"].map js

/-- `SYNTAX_ALIASES[name]`; `jsml` is the deprecated spelling. -/
def syntaxAlias (name : JSString) : Option FragmentSyntax :=
  match [(js "html", FragmentSyntax.html), (js "j5ml", .j5ml), (js "jsml", .j5ml)].lookup name with
  | some syn => some syn
  | none => if name ∈ objectPrototypeNames then some .inherited else none

/-- Where a prop's value lands. -/
inductive Sink where
  | text
  | uri
  | imageUri
  | css
  | html
  deriving DecidableEq, Repr

def Sink.name : Sink → JSString
  | .text => js "text"
  | .uri => js "uri"
  | .imageUri => js "image-uri"
  | .css => js "css"
  | .html => js "html"

/-- The JSON Schema `type` of a prop: one name or a list of alternatives. -/
inductive PropType where
  | single (name : JSString)
  | union (names : List JSString)
  deriving DecidableEq, Repr

def PropType.names : PropType → List JSString
  | .single name => [name]
  | .union names => names

structure PropDefinition where
  sink : Option Sink
  type : Option PropType
  deriving DecidableEq, Repr

inductive ChildrenConstraint where
  | any
  | none
  | text
  | names (allowed : List JSString)
  deriving DecidableEq, Repr

structure NodeDefinition where
  props : Option (Record PropDefinition)
  children : Option ChildrenConstraint
  bindTo : Option JSString
  deriving DecidableEq, Repr

inductive ResolvedVocabulary where
  | declared (id : Option JSString) (nodes : Record NodeDefinition)
  | builtinHtml
  deriving DecidableEq, Repr

structure FormatProfile where
  id : JSString
  syn : FragmentSyntax
  scope : List ResolvedVocabulary
  schemes : List JSString
  builtin : Bool
  deriving DecidableEq, Repr

def protocolProps : List JSString := ["id", "data-bind", "data-if", "data-each", "data-key"].map js

def builtinProfile (id : String) (syn : FragmentSyntax) : FormatProfile where
  id := js id
  syn := syn
  scope := [.builtinHtml]
  schemes := defaultUriSchemes
  builtin := true

def textHtml : FormatProfile := builtinProfile "text/html" .html

def textHtmlJsml : FormatProfile := builtinProfile "text/html+jsml" .html

def applicationJ5ml : FormatProfile := builtinProfile "application/j5ml+json" .j5ml

def applicationJsml : FormatProfile := builtinProfile "application/jsml+json" .j5ml

def builtinProfiles : List FormatProfile := [textHtml, textHtmlJsml, applicationJ5ml, applicationJsml]

inductive FormatProfileErrorCode where
  | malformed
  | unknownSyntax
  | unknownVocabulary
  | htmlNotLast
  | emptyScope
  | strippedNameShadowed
  | invalidSchemes
  | prohibitedScheme
  deriving DecidableEq, Repr

structure FormatProfileError where
  format : JSString
  message : JSString
  code : FormatProfileErrorCode
  deriving DecidableEq, Repr

/-- A `nodes` member as the manifest spells it: a node that is not an object is `none`. -/
inductive RawNodes where
  | notObject
  | object (nodes : Record (Option NodeDefinition))

/-- The members of a format declaration that `resolveFormatProfile` reads. -/
structure RawFormat where
  syn : Option Json
  schemes : Option Json
  nodes : Option RawNodes
  vocabularies : Option Json

def quote (text : JSString) : JSString := 34 :: text ++ [34]

/-- How an error message opens: the format it is about. -/
def aboutFormat (format : JSString) : JSString := js "fragment format " ++ quote format

def parseNodes (format origin : JSString) (raw : Option RawNodes) :
    Except FormatProfileError (Record NodeDefinition) :=
  match raw with
  | some (.object nodes) =>
    nodes.foldlM (fun parsed entry =>
      match entry.2 with
      | some definition => .ok (Record.set parsed entry.1 definition)
      | none => .error ⟨format, origin ++ js " declares a non-object node: " ++ entry.1, .malformed⟩) []
  | _ => .error ⟨format, origin ++ js " declares a non-object 'nodes'", .malformed⟩

/-- `URI_SCHEME_NAME_PATTERN`. -/
def isSchemeName : JSString → Bool
  | [] => false
  | c :: s => isLower c && s.all isSchemeUnit

def parseScheme (format : JSString) (entry : Json) : Except FormatProfileError JSString :=
  match entry with
  | .str text =>
    let scheme := toLowerCase text
    if scheme ∈ prohibitedUriSchemes then
      .error ⟨format, aboutFormat format ++ js " declares the prohibited scheme " ++ quote scheme ++
        js "; it is refused in every fragment and cannot be allow-listed", .prohibitedScheme⟩
    else if isSchemeName scheme then .ok scheme
    else .error ⟨format, aboutFormat format ++ js " declares a malformed scheme: " ++ stringifyJson entry ++
        js "; a scheme is a lowercase name with no colon", .invalidSchemes⟩
  | _ => .error ⟨format, aboutFormat format ++ js " declares a non-string scheme: " ++ stringifyJson entry, .invalidSchemes⟩

def parseSchemes (format : JSString) (raw : Option Json) : Except FormatProfileError (List JSString) :=
  match raw with
  | none => .ok defaultUriSchemes
  | some (.arr entries) => entries.mapM (parseScheme format)
  | some _ => .error ⟨format, aboutFormat format ++ js " declares a non-array 'schemes'", .invalidSchemes⟩

def builtinVocabularyIds : List JSString := [js "html"]

/-- One entry of a format's `vocabularies`. A referenced vocabulary is given by its `nodes` member;
`none` is one that is not an object. -/
def resolveReference (format : JSString) (vocabularies : Option (Record (Option (Option RawNodes)))) (ref : Json) :
    Except FormatProfileError ResolvedVocabulary :=
  match ref with
  | .str id =>
    if id ∈ builtinVocabularyIds then .ok .builtinHtml
    else
      match (vocabularies.getD []).get id with
      | some none => .error ⟨format, js "vocabulary " ++ quote id ++ js " is not an object", .malformed⟩
      | some (some nodes) => do
        let nodes ← parseNodes format (js "vocabulary " ++ quote id) nodes
        return .declared (some id) nodes
      | none =>
        if [46] <:+: id then
          .error ⟨format, aboutFormat format ++ js " references an undeclared vocabulary: " ++ quote id, .unknownVocabulary⟩
        else
          .error ⟨format, aboutFormat format ++ js " references " ++ quote id ++
            js ", which is not a built-in vocabulary (built-ins: " ++ (js ", ").intercalate builtinVocabularyIds ++
            js "); a host-declared vocabulary id needs two or more dot-separated segments", .unknownVocabulary⟩
  | _ => .error ⟨format, aboutFormat format ++ js " references a non-string vocabulary: " ++ stringifyJson ref, .malformed⟩

/-- The vocabularies in scope: the format's inline nodes, then the references in order. -/
def resolveScope (format : JSString) (declaration : RawFormat)
    (vocabularies : Option (Record (Option (Option RawNodes)))) :
    Except FormatProfileError (List ResolvedVocabulary) := do
  let inline ← match declaration.nodes with
    | none => pure []
    | some nodes => do
      let nodes ← parseNodes format (aboutFormat format) (some nodes)
      pure [ResolvedVocabulary.declared none nodes]
  let referenced ← match declaration.vocabularies with
    | none => pure []
    | some (.arr refs) => refs.mapM (resolveReference format vocabularies)
    | some _ => .error ⟨format, aboutFormat format ++ js " declares a non-array 'vocabularies'", .malformed⟩
  return inline ++ referenced

/-- The name a declared vocabulary may not bring into scope beside the built-in one. -/
def shadowedName (scope : List ResolvedVocabulary) : Option JSString :=
  (scope.flatMap fun entry =>
    match entry with
    | .declared _ nodes => nodes.keys
    | .builtinHtml => []).find? fun name => toLowerCase name ∈ strippedElements

def checkScope (format : JSString) (scope : List ResolvedVocabulary) :
    Except FormatProfileError (List ResolvedVocabulary) :=
  if .builtinHtml ∈ scope.dropLast then
    .error ⟨format, aboutFormat format ++ js " lists the built-in html vocabulary before a declared vocabulary; " ++
      js "html must be last so declared nodes always win", .htmlNotLast⟩
  else if scope = [] then
    .error ⟨format, aboutFormat format ++ js " declares no vocabulary and admits no nodes", .emptyScope⟩
  else
    match if .builtinHtml ∈ scope then shadowedName scope else none with
    | some name =>
      .error ⟨format, aboutFormat format ++ js " brings a vocabulary declaring " ++ quote name ++
        js " into scope alongside the built-in html vocabulary; " ++ quote name ++
        js " is an element the sanitizer always strips and may not be shadowed", .strippedNameShadowed⟩
    | none => .ok scope

/-- `resolveFormatProfile`: `none` for a format that is not known. -/
def resolveFormatProfile (format : JSString) (formats : Option (Record (Option RawFormat)))
    (vocabularies : Option (Record (Option (Option RawNodes)))) :
    Except FormatProfileError (Option FormatProfile) :=
  match builtinProfiles.find? fun profile => profile.id = format with
  | some profile => .ok (some profile)
  | none =>
    match (formats.getD []).get format with
    | none => .ok none
    | some none => .error ⟨format, aboutFormat format ++ js " is not an object", .malformed⟩
    | some (some declaration) =>
      match declaration.syn with
      | some (.str name) =>
        match syntaxAlias name with
        | some syn => do
          let schemes ← parseSchemes format declaration.schemes
          let scope ← resolveScope format declaration vocabularies
          let scope ← checkScope format scope
          return some ⟨format, syn, scope, schemes, false⟩
        | none => .error ⟨format, unknownSyntax format (stringifyJson (.str name)), .unknownSyntax⟩
      | some value => .error ⟨format, unknownSyntax format (stringifyJson value), .unknownSyntax⟩
      | none => .error ⟨format, unknownSyntax format (js "undefined"), .unknownSyntax⟩
where
  unknownSyntax (format spelled : JSString) : JSString :=
    aboutFormat format ++ js " declares an unknown syntax: " ++ spelled

def speaksHtml (profile : FormatProfile) : Bool := ResolvedVocabulary.builtinHtml ∈ profile.scope

/-- The definition a scope's first vocabulary with a node of that name gives it. -/
def scopeDefinition (name : JSString) : List ResolvedVocabulary → Option NodeDefinition
  | [] => none
  | .declared _ nodes :: scope => (nodes.get name).or (scopeDefinition name scope)
  | .builtinHtml :: scope => scopeDefinition name scope

def nodeDefinition (profile : FormatProfile) (name : JSString) : Option NodeDefinition :=
  scopeDefinition name profile.scope

def anyVocabularyDeclares (profile : FormatProfile) (name : JSString) : Bool := (nodeDefinition profile name).isSome

def propDefinition (node : NodeDefinition) (name : JSString) : Option PropDefinition :=
  node.props.bind (·.get name)

def declaredPropType (profile : FormatProfile) (node prop : JSString) : Option PropType :=
  (nodeDefinition profile node).bind fun definition => (propDefinition definition prop).bind (·.type)

def propTypeLookup (profile : FormatProfile) : PropTypeLookup :=
  fun node prop => (declaredPropType profile node prop).map PropType.names

end Xript
