import Xript.Extends.Collect
import Xript.Sanitize.Profiles

namespace Xript

/-- A problem a resolver reports, at a JSON pointer into the manifest. -/
structure ManifestIssue where
  path : JSString
  message : JSString
  deriving DecidableEq

/-- What a resolver throws: the runtime's `ManifestValidationError`, the validator's
`ManifestResolutionError`, or a JavaScript `TypeError`. -/
inductive ManifestError where
  | validation (issues : List ManifestIssue)
  | resolution (issue : ManifestIssue)
  | typeError
  deriving DecidableEq

def resolveMapKeys : List JSString := ["bindings", "capabilities", "hooks", "types"].map js

def resolveScalarKeys : List JSString := ["name", "version", "title", "description", "xript"].map js

/-- `{ ...value }`. -/
def spread : Json → Record Json
  | .obj members => members
  | .arr items => items.zipIdx.map fun entry => (decimal entry.2, entry.1)
  | .str s => s.zipIdx.map fun entry => (decimal entry.2, .str [entry.1])
  | _ => []

/-- What reading a key of an object gives: an own value, `Object.prototype` itself through `__proto__`, or
something that is no JSON (an inherited function, `undefined`). -/
inductive Member where
  | own (value : Json)
  | prototype
  | other

namespace Member

def spread : Member → Record Json
  | .own value => Xript.spread value
  | _ => []

/-- The own properties of what `isObject` admits. -/
def object? : Member → Option (Record Json)
  | .own (.obj members) => some members
  | .prototype => some []
  | _ => none

/-- `key in member`, for a key no builtin object has; a primitive throws. -/
def has (member : Member) (key : JSString) : Option Bool :=
  match member with
  | .own (.obj members) => some (decide (key ∈ Record.keys members))
  | .own (.arr _) | .prototype | .other => some false
  | .own _ => none

def get (member : Member) (key : JSString) : Option Json := member.object?.bind fun members => Record.get members key

end Member

/-- Whether an object's member is `true`. -/
def hasMark (members : Record Json) (mark : JSString) : Bool :=
  match Record.get members mark with
  | some (.bool b) => b
  | _ => false

mutual

/-- A child's value over what the base has under its key: two objects merge, anything else replaces. -/
def mergeValue (existing : Option Json) : Json → Json
  | .obj members =>
    match existing with
    | some (.obj base) => .obj (mergeMembers base base members)
    | _ => .obj members
  | value => value

def mergeMembers (base result : Record Json) : List (JSString × Json) → Record Json
  | [] => result
  | (key, value) :: members =>
    if key = js "refines" then mergeMembers base result members
    else mergeMembers base (result.assign key (mergeValue (Record.get base key) value)) members

end

/-- Recursively merges a child object onto a base, key by key; the `refines` marker is consumed. -/
def deepMerge (base child : Record Json) : Record Json := mergeMembers base base child

/-- The members of a child but these, written over a base's. -/
def overlay (skip : List JSString) (base child : Record Json) : Record Json :=
  child.foldl (fun merged entry => if entry.1 ∈ skip then merged else Record.assign merged entry.1 entry.2) base

def withoutRefines : Json → Json
  | .obj members => .obj (Record.erase members (js "refines"))
  | value => value

def objectOr : Option Json → Record Json
  | some (.obj members) => members
  | _ => []

/-- A same-named prop is replaced wholesale. -/
def mergeProps (base child : Option Json) : Record Json :=
  (objectOr child).foldl (fun merged entry => merged.set entry.1 entry.2) (objectOr base)

/-- Where the two resolvers differ while they merge: what they find under a key of the base, whether a
conflict stops them, and how they word it. -/
structure MergePolicy (m : Type → Type) where
  lookup : Record Json → JSString → Option Member
  report : ManifestIssue → m Unit
  throwType : {α : Type} → m α
  quoteId : JSString → JSString
  mapLabel : JSString → JSString
  slotPath : JSString → JSString

section

variable {m : Type → Type} [Monad m] (policy : MergePolicy m)

def MergePolicy.conflict (path label id : JSString) : m Unit :=
  policy.report ⟨path, label ++ js " " ++ policy.quoteId id ++ js " conflicts with extended base"⟩

/-- `key in member`. -/
def MergePolicy.has (member : Member) (key : JSString) : m Bool :=
  match member.has key with
  | some found => pure found
  | none => policy.throwType

/-- What a type says of the type it collides with: it fills an abstract one or refines one. -/
def typeRefinement (base : Member) (value : Json) : Option Json :=
  match base.object?, value with
  | some baseType, .obj members =>
    if hasMark baseType (js "abstract") then some (.obj members)
    else if hasMark members (js "refines") then some (.obj (deepMerge baseType members))
    else none
  | _, _ => none

/-- One entry of a map block: `known` is what the base has under its key. -/
def mergeEntry (mapKey : JSString) (known : Option Member) (merged : Record Json) (entry : JSString × Json) :
    m (Record Json) :=
  match known with
  | none => pure (Record.assign merged entry.1 entry.2)
  | some base =>
    match if mapKey = js "types" then typeRefinement base entry.2 else none with
    | some value => pure (Record.assign merged entry.1 value)
    | none => do
      policy.conflict (47 :: mapKey ++ 47 :: entry.1) (policy.mapLabel mapKey ++ js " id") entry.1
      return merged

/-- The `id` of a slot, where it is a string. -/
def slotId : Json → Option JSString
  | .obj members =>
    match Record.get members (js "id") with
    | some (.str id) => some id
    | _ => none
  | _ => none

/-- The slots with one refined: the first of that id merges with the child's. -/
def refineSlot (slots : List Json) (id : JSString) (slot : Json) : Option (List Json) :=
  match slot with
  | .obj members =>
    if hasMark members (js "refines") then
      (slots.findIdx? fun other => slotId other = some id).map fun i =>
        slots.modify i fun other => .obj (deepMerge (spread other) members)
    else none
  | _ => none

/-- One slot of a child: the slots so far and the ids among them. -/
def mergeSlot (made : List Json × List JSString) (slot : Json) : m (List Json × List JSString) :=
  match slotId slot with
  | none => pure (made.1 ++ [slot], made.2)
  | some id =>
    if id ∈ made.2 then
      match refineSlot made.1 id slot with
      | some slots => pure (slots, made.2)
      | none => do
        policy.conflict (policy.slotPath id) (js "slot id") id
        return made
    else pure (made.1 ++ [slot], id :: made.2)

def mergeSlots (base child : List Json) : m (List Json) := do
  let made ← child.foldlM (mergeSlot policy) (base, base.filterMap slotId)
  return made.1

/-- A child node over the node of its name: every member replaces, `props` merge by name. -/
def mergeNode (base : Member) (child : Record Json) : m (Record Json) := do
  let merged := overlay (["refines", "props"].map js) base.spread child
  let inherited ← policy.has base (js "props")
  let merged := if inherited ∨ js "props" ∈ Record.keys child then
      Record.assign merged (js "props") (.obj (mergeProps (base.get (js "props")) (Record.get child (js "props"))))
    else merged
  return Record.erase merged (js "refines")

/-- One node of a child's `nodes`. -/
def mergeNodeEntry (baseNodes : Record Json) (label owner : JSString) (merged : Record Json)
    (entry : JSString × Json) : m (Record Json) :=
  match policy.lookup baseNodes entry.1 with
  | none => pure (Record.assign merged entry.1 (withoutRefines entry.2))
  | some base =>
    match entry.2 with
    | .obj node =>
      if hasMark node (js "refines") then do
        let made ← mergeNode policy base node
        return Record.assign merged entry.1 (.obj made)
      else do
        policy.conflict (owner ++ js "/nodes/" ++ entry.1) (label ++ js " node") entry.1
        return merged
    | _ => do
      policy.conflict (owner ++ js "/nodes/" ++ entry.1) (label ++ js " node") entry.1
      return merged

/-- Merges a `nodes` map, of a format or of a vocabulary. -/
def mergeNodes (base child : Option Json) (label owner : JSString) : m (Record Json) :=
  let kept := (objectOr base).foldl (fun merged entry => Record.assign merged entry.1 (withoutRefines entry.2)) []
  (objectOr child).foldlM (mergeNodeEntry policy (objectOr base) label owner) kept

/-- Merges one declaration onto its base: every member replaces, `nodes` merge by name. -/
def mergeDeclaration (label : JSString) (base : Member) (child : Record Json) (owner : JSString) : m (Record Json) := do
  let merged := overlay (["refines", "nodes"].map js) base.spread child
  let inherited ← policy.has base (js "nodes")
  let merged ← if inherited ∨ js "nodes" ∈ Record.keys child then do
      let nodes ← mergeNodes policy (base.get (js "nodes")) (Record.get child (js "nodes")) label owner
      pure (Record.assign merged (js "nodes") (.obj nodes))
    else pure merged
  return Record.erase merged (js "refines")

def mergeFormat (base : Member) (child : Record Json) (formatId : JSString) : m (Record Json) :=
  mergeDeclaration policy (js "format") base child (js "/formats/" ++ formatId)

def mergeVocabulary (base : Member) (child : Record Json) (vocabularyId : JSString) : m (Record Json) :=
  mergeDeclaration policy (js "vocabulary") base child (js "/vocabularies/" ++ vocabularyId)

/-- A declaration that meets no other of its id. -/
def admitDeclaration (merge : Member → Record Json → JSString → m (Record Json)) (merged : Record Json)
    (entry : JSString × Json) : m (Record Json) :=
  match entry.2 with
  | .obj declaration => do
    let made ← merge (.own (.obj [])) declaration entry.1
    return Record.assign merged entry.1 (.obj made)
  | value => pure (Record.assign merged entry.1 value)

/-- One declaration of a child's block. -/
def mergeDeclarationEntry (label block : JSString) (merge : Member → Record Json → JSString → m (Record Json))
    (base : Record Json) (merged : Record Json) (entry : JSString × Json) : m (Record Json) :=
  match policy.lookup base entry.1 with
  | none => admitDeclaration merge merged entry
  | some known =>
    match entry.2 with
    | .obj declaration =>
      if hasMark declaration (js "refines") then do
        let made ← merge known declaration entry.1
        return Record.assign merged entry.1 (.obj made)
      else do
        policy.conflict (47 :: block ++ 47 :: entry.1) label entry.1
        return merged
    | _ => do
      policy.conflict (47 :: block ++ 47 :: entry.1) label entry.1
      return merged

/-- Merges a block of declarations by id; a collision is a conflict unless the child `refines`. -/
def mergeDeclarations (label block : JSString) (merge : Member → Record Json → JSString → m (Record Json))
    (base child : Option Json) : m (Record Json) := do
  let kept ← (objectOr base).foldlM (admitDeclaration merge) []
  (objectOr child).foldlM (mergeDeclarationEntry policy label block merge (objectOr base)) kept

def mergeFormats (base child : Option Json) : m (Record Json) :=
  mergeDeclarations policy (js "format") (js "formats") (mergeFormat policy) base child

def mergeVocabularies (base child : Option Json) : m (Record Json) :=
  mergeDeclarations policy (js "vocabulary") (js "vocabularies") (mergeVocabulary policy) base child

end

/-- The blocks that are set, over a base. -/
def setBlocks (base : Record Json) (blocks : List (JSString × Option Json)) : Record Json :=
  blocks.foldl (fun result block =>
    match block.2 with
    | some value => Record.assign result block.1 value
    | none => result) base

/-- A merged manifest: the base, the blocks that merge by their own rules, and every other member of the
child; `extends` never reaches it. -/
def assemble (base child : Record Json) (blocks : List (JSString × Option Json)) : Record Json :=
  (overlay (js "extends" :: blocks.map Prod.fst) (setBlocks base blocks) child).erase (js "extends")

end Xript
