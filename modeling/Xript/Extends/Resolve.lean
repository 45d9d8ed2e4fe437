import Mathlib.Data.List.DropRight
import Xript.Extends.Collect
import Xript.Extends.Merge
import Xript.Sanitize.Profiles

namespace Xript

def isSlash (c : Nat) : Bool := c = 47 ∨ c = 92

/-- The segments a path walks through; the empty ones between adjacent separators are skipped like `.`. -/
def pathParts (segments : List JSString) : List JSString :=
  segments.foldl (fun parts segment =>
    if segment = js "." ∨ segment = [] then parts
    else if segment = js ".." then parts.dropLast
    else parts ++ [segment]) []

/-- `/^[a-zA-Z]:[\\/]/`. -/
def hasDrive : JSString → Bool
  | letter :: colon :: slash :: _ => isLetter letter && colon == 58 && isSlash slash
  | _ => false

/-- The runtime's path of a reference made in a directory. -/
def joinPath (baseDir ref : JSString) : JSString :=
  let normalizedBase := baseDir.rdropWhile isSlash
  if ref.head? = some 47 ∨ hasDrive ref then ref
  else
    let combined := if normalizedBase = [] then ref else normalizedBase ++ 47 :: ref
    let parts := [47].intercalate (pathParts (combined.splitOnP isSlash))
    if combined.head? = some 47 then 47 :: parts else parts

/-- The runtime's directory of a path. -/
def dirOf (path : JSString) : JSString := (path.rdropWhile fun c => !isSlash c).dropLast

/-- `resolve(dir, ref)` of POSIX `node:path`, in a process whose working directory is the absolute `cwd`. -/
def resolvePath (cwd dir ref : JSString) : JSString :=
  let resolved := [ref, dir, cwd].foldl (fun made path =>
    if made.2 || path.isEmpty then made else (path ++ 47 :: made.1, path.head? == some 47)) (([] : JSString), false)
  47 :: [47].intercalate (pathParts (resolved.1.splitOn 47))

/-- `dirname(path)` of POSIX `node:path`. -/
def dirname : JSString → JSString
  | [] => js "."
  | first :: rest =>
    match ((rest.rdropWhile (· = 47)).rdropWhile (· ≠ 47)).reverse with
    | [] => if first = 47 then js "/" else js "."
    | [_] => if first = 47 then js "//" else [first]
    | _ :: before => first :: before.reverse

/-- `extends`, as a list of references; `none` where it is not a string or an array of strings. -/
def asExtendsList : Json → Option (List JSString)
  | .str ref => some [ref]
  | .arr items => items.mapM fun
    | .str ref => some ref
    | _ => none
  | _ => none

/-- The value of one entry of a block list, for the blocks that are set. -/
abbrev Block := JSString × Option Json

section

abbrev RuntimeMerge := Collecting ManifestIssue ManifestError

/-- The runtime looks ids up among own properties and goes on after a conflict. -/
def runtimePolicy : MergePolicy RuntimeMerge where
  lookup members key := (Record.get members key).map .own
  report := note
  throwType := .error .typeError
  quoteId id := 39 :: id ++ [39]
  mapLabel mapKey := mapKey
  slotPath id := js "/slots/" ++ id

/-- Merges a map block; `Object.entries(null)` throws. -/
def runtimeMergeMaps (target source : Json) (mapKey : JSString) : RuntimeMerge (Record Json) :=
  match source with
  | .null => runtimePolicy.throwType
  | _ => (spread source).foldlM (fun merged entry =>
      let known := if entry.1 ∈ Record.keys merged then
          some ((Record.get (spread target) entry.1).elim .other .own)
        else none
      mergeEntry runtimePolicy mapKey known merged entry) (spread target)

def runtimeMap (base child : Record Json) (mapKey : JSString) : RuntimeMerge Block :=
  match Record.get base mapKey, Record.get child mapKey with
  | some baseMap, some childMap => do
    let merged ← runtimeMergeMaps baseMap childMap mapKey
    return (mapKey, some (.obj merged))
  | none, some childMap => pure (mapKey, some childMap)
  | _, none => pure (mapKey, none)

/-- `Array.isArray(value) ? value : []`. -/
def arrayOr : Option Json → List Json
  | some (.arr items) => items
  | _ => []

def isArrayValue : Option Json → Bool
  | some (.arr _) => true
  | _ => false

def isObjectValue : Option Json → Bool
  | some (.obj _) => true
  | _ => false

def runtimeSlots (base child : Record Json) : RuntimeMerge Block :=
  let baseSlots := Record.get base (js "slots")
  let childSlots := Record.get child (js "slots")
  if isArrayValue baseSlots ∨ isArrayValue childSlots then do
    let slots ← mergeSlots runtimePolicy (arrayOr baseSlots) (arrayOr childSlots)
    return (js "slots", some (.arr slots))
  else pure (js "slots", none)

/-- A block of declarations, set where either side has an object of them. -/
def runtimeDeclarations (merge : Option Json → Option Json → RuntimeMerge (Record Json)) (block : JSString)
    (base child : Record Json) : RuntimeMerge Block :=
  if isObjectValue (Record.get base block) ∨ isObjectValue (Record.get child block) then do
    let merged ← merge (Record.get base block) (Record.get child block)
    return (block, some (.obj merged))
  else pure (block, none)

/-- The blocks the runtime merges by rules of their own, over a base's. -/
def runtimeBlocks (base child : Record Json) : RuntimeMerge (List Block) := do
  let maps ← resolveMapKeys.mapM (runtimeMap base child)
  let slots ← runtimeSlots base child
  let formats ← runtimeDeclarations (mergeFormats runtimePolicy) (js "formats") base child
  let vocabularies ← runtimeDeclarations (mergeVocabularies runtimePolicy) (js "vocabularies") base child
  return maps ++ [slots, formats, vocabularies] ++ resolveScalarKeys.map fun key => (key, Record.get child key)

/-- The runtime's `mergeManifests`. -/
def runtimeMerge (base child : Record Json) : Except ManifestError (Record Json) :=
  settle .validation do
    let blocks ← runtimeBlocks base child
    return assemble base child blocks

end

section

/-- The validator looks ids up with `in`, which also finds what `Object.prototype` has, and stops at a conflict. -/
def validatorPolicy : MergePolicy (Except ManifestError) where
  lookup members key :=
    match Record.get members key with
    | some value => some (.own value)
    | none =>
      if key = js "__proto__" then some .prototype
      else if key ∈ objectPrototypeNames then some .other
      else none
  report issue := .error (.resolution issue)
  throwType := .error .typeError
  quoteId id := 34 :: id ++ [34]
  mapLabel mapKey :=
    if mapKey = js "capabilities" then js "capability"
    else if mapKey.getLast? = some 115 then mapKey.dropLast else mapKey
  slotPath _ := js "/slots"

def validatorMergeMaps (base child : Option Json) (mapKey : JSString) : Except ManifestError (Record Json) :=
  let baseMap := objectOr base
  (objectOr child).foldlM (fun merged entry =>
    mergeEntry validatorPolicy mapKey (validatorPolicy.lookup baseMap entry.1) merged entry) baseMap

/-- A block, set where either side has its key. -/
def validatorBlock (merge : Option Json → Option Json → Except ManifestError Json) (base child : Record Json)
    (block : JSString) : Except ManifestError Block :=
  if block ∈ Record.keys base ∨ block ∈ Record.keys child then do
    let merged ← merge (Record.get base block) (Record.get child block)
    return (block, some merged)
  else pure (block, none)

/-- `child ?? base`, where `undefined` is `none`. -/
def orBase (base : Option Json) : Option Json → Option Json
  | none => base
  | some .null => base
  | child => child

/-- Merges an `execution` block per property, the child winning each property it states. -/
def mergeExecution (base child : Option Json) : Option Json :=
  match base with
  | some (.obj baseMembers) =>
    match child with
    | some (.obj childMembers) =>
      some (.obj (childMembers.foldl (fun merged entry => Record.set merged entry.1 entry.2) baseMembers))
    | _ => base
  | _ => orBase base child

/-- The blocks the validator merges by rules of their own, over a base's. -/
def validatorBlocks (base child : Record Json) : Except ManifestError (List Block) := do
  let maps ← resolveMapKeys.mapM fun mapKey =>
    validatorBlock (fun baseMap childMap => do
      let merged ← validatorMergeMaps baseMap childMap mapKey
      return .obj merged) base child mapKey
  let slots ← validatorBlock (fun baseSlots childSlots => do
    let merged ← mergeSlots validatorPolicy (arrayOr baseSlots) (arrayOr childSlots)
    return .arr merged) base child (js "slots")
  let formats ← validatorBlock (fun baseFormats childFormats => do
    let merged ← mergeFormats validatorPolicy baseFormats childFormats
    return .obj merged) base child (js "formats")
  let vocabularies ← validatorBlock (fun baseVocabularies childVocabularies => do
    let merged ← mergeVocabularies validatorPolicy baseVocabularies childVocabularies
    return .obj merged) base child (js "vocabularies")
  let execution := mergeExecution (Record.get base (js "execution")) (Record.get child (js "execution"))
  return resolveScalarKeys.map (fun key => (key, Record.get child key)) ++ maps ++
    [slots, formats, vocabularies, (js "execution", execution)]

/-- The validator's `mergeManifests`. -/
def validatorMerge (base child : Record Json) : Except ManifestError (Record Json) := do
  let blocks ← validatorBlocks base child
  return assemble base child blocks

end

/-- How a resolution ends without a manifest: one of its errors, or a recursion past its bound. -/
inductive ResolveFailure where
  | refused (error : ManifestError)
  | tooDeep
  deriving DecidableEq

/-- The manifests a loader finds: the text of one need not be JSON. -/
abbrev Manifests := Record (Option Json)

/-- Where the two resolvers differ while they follow `extends`. -/
structure Resolver where
  refs : Record Json → Except ManifestError (Option (List JSString))
  pathOf : JSString → JSString → JSString
  dirOf : JSString → JSString
  asBase : Json → Option (Record Json)
  merge : Record Json → Record Json → Except ManifestError (Record Json)
  own : Record Json → Record Json
  circular : List JSString → JSString → ManifestError
  unreadable : JSString → JSString → ManifestError
  noJson : JSString → JSString → ManifestError
  noObject : JSString → JSString → ManifestError

namespace Resolver

def refuse {α : Type} (error : ManifestError) : Except ResolveFailure α := .error (.refused error)

/-- The manifest a reference names, unless it is one of the chain that led here. -/
def load (r : Resolver) (manifests : Manifests) (chain : List JSString) (ref path : JSString) :
    Except ManifestError (Record Json) :=
  if path ∈ chain then .error (r.circular chain path)
  else
    match Record.get manifests path with
    | none => .error (r.unreadable ref path)
    | some none => .error (r.noJson ref path)
    | some (some raw) =>
      match r.asBase raw with
      | none => .error (r.noObject ref path)
      | some base => .ok base

/-- Resolves the base one reference names and merges it over what the references before it composed. -/
def follow (r : Resolver) (manifests : Manifests)
    (resolveBase : Record Json → JSString → List JSString → Except ResolveFailure (Record Json)) (dir : JSString)
    (chain : List JSString) (composed : Record Json) (ref : JSString) : Except ResolveFailure (Record Json) := do
  let path := r.pathOf dir ref
  let base ← (r.load manifests chain ref path).mapError .refused
  let resolved ← resolveBase base (r.dirOf path) (chain ++ [path])
  (r.merge composed resolved).mapError .refused

/-- Resolves a manifest: its bases left to right, each resolved first, then the manifest on top. -/
def resolve (r : Resolver) (manifests : Manifests) :
    Nat → Record Json → JSString → List JSString → Except ResolveFailure (Record Json)
  | 0, _, _, _ => .error .tooDeep
  | fuel + 1, manifest, dir, chain => do
    match ← (r.refs manifest).mapError .refused with
    | none => return manifest.erase (js "extends")
    | some refs =>
      let composed ← refs.foldlM (r.follow manifests (r.resolve manifests fuel) dir chain) []
      (r.merge composed (r.own manifest)).mapError .refused

end Resolver

/-- An error about `extends` itself. -/
def extendsIssue (message : JSString) : ManifestIssue := ⟨js "/extends", message⟩

/-- The runtime's resolver; the loader words what it cannot read. -/
def runtimeResolver (wording : JSString → JSString) : Resolver where
  refs manifest :=
    match Record.get manifest (js "extends") with
    | none => .ok none
    | some value =>
      match asExtendsList value with
      | some refs => .ok (some refs)
      | none => .error (.validation [extendsIssue (js "'extends' must be a string or an array of strings")])
  pathOf := joinPath
  dirOf := dirOf
  asBase
    | .obj members => some members
    | .arr items => some (spread (.arr items))
    | _ => none
  merge := runtimeMerge
  own manifest := manifest.erase (js "extends")
  circular _ path := .validation [extendsIssue (js "circular extends detected at '" ++ path ++ js "'")]
  unreadable ref path :=
    .validation [extendsIssue (js "cannot resolve base manifest '" ++ ref ++ js "': " ++ wording path)]
  noJson ref path :=
    .validation [extendsIssue (js "cannot resolve base manifest '" ++ ref ++ js "': " ++ wording path)]
  noObject ref _ := .validation [extendsIssue (js "base manifest '" ++ ref ++ js "' is not an object")]

/-- The validator's resolver, in a process whose working directory is `cwd`. -/
def validatorResolver (cwd : JSString) : Resolver where
  refs manifest :=
    match Record.get manifest (js "extends") with
    | none => .ok none
    | some value =>
      match asExtendsList value with
      | some [] => .ok none
      | some refs => .ok (some refs)
      | none => .error (.resolution (extendsIssue (js "extends must be a string or an array of strings")))
  pathOf := resolvePath cwd
  dirOf := dirname
  asBase
    | .obj members => some members
    | _ => none
  merge := validatorMerge
  own manifest := manifest
  circular chain path :=
    .resolution (extendsIssue (js "cyclic extends detected: " ++ (js " -> ").intercalate (chain ++ [path])))
  unreadable _ path := .resolution (extendsIssue (js "could not read extended manifest: " ++ path))
  noJson _ path := .resolution (extendsIssue (js "invalid JSON in extended manifest: " ++ path))
  noObject _ path := .resolution (extendsIssue (js "extended manifest is not an object: " ++ path))

/-- How deep a chain of distinct manifests can go. -/
def Manifests.depth (manifests : Manifests) : Nat := List.length manifests + 1

/-- The runtime's `resolveExtends`. -/
def runtimeResolveExtends (wording : JSString → JSString) (manifests : Manifests) (manifest : Json)
    (baseDir : JSString) : Except ResolveFailure Json :=
  match manifest with
  | .obj _ | .arr _ =>
    ((runtimeResolver wording).resolve manifests manifests.depth (spread manifest) baseDir []).map .obj
  | _ => Resolver.refuse (.validation [⟨js "/", js "manifest must be a non-null object"⟩])

/-- The validator's `resolveExtends`: what is no object is returned as it is. -/
def validatorResolveExtends (cwd : JSString) (manifests : Manifests) (manifest : Json) (baseDir : JSString) :
    Except ResolveFailure Json :=
  match manifest with
  | .obj members => ((validatorResolver cwd).resolve manifests manifests.depth members baseDir []).map .obj
  | value => .ok value

/-- What a resolution works on: one manifest, or the references of one over what the earlier ones composed. -/
inductive ResolveTask where
  | manifest (manifest : Record Json) (dir : JSString) (chain : List JSString)
  | bases (composed : Record Json) (dir : JSString) (chain : List JSString) (refs : List JSString)

section

variable (r : Resolver) (manifests : Manifests)

/-- A resolution that succeeds, with `P` at each of its merges. -/
inductive Resolving (P : Record Json → Record Json → Prop) : ResolveTask → Record Json → Prop
  | flat {manifest : Record Json} {dir : JSString} {chain : List JSString} (flat : r.refs manifest = .ok none) :
      Resolving P (.manifest manifest dir chain) (manifest.erase (js "extends"))
  | extending {manifest composed result : Record Json} {dir : JSString} {chain refs : List JSString}
      (extending : r.refs manifest = .ok (some refs)) (bases : Resolving P (.bases [] dir chain refs) composed)
      (merges : r.merge composed (r.own manifest) = .ok result) (here : P composed (r.own manifest)) :
      Resolving P (.manifest manifest dir chain) result
  | done {composed : Record Json} {dir : JSString} {chain : List JSString} :
      Resolving P (.bases composed dir chain []) composed
  | follow {composed base resolved merged result : Record Json} {dir ref : JSString} {chain refs : List JSString}
      (loads : r.load manifests chain ref (r.pathOf dir ref) = .ok base)
      (resolves : Resolving P (.manifest base (r.dirOf (r.pathOf dir ref)) (chain ++ [r.pathOf dir ref])) resolved)
      (merges : r.merge composed resolved = .ok merged) (here : P composed resolved)
      (rest : Resolving P (.bases merged dir chain refs) result) :
      Resolving P (.bases composed dir chain (ref :: refs)) result

variable {r manifests}

theorem mapError_eq_ok {α ε δ : Type} {x : Except ε α} {f : ε → δ} {a : α} (ok : x.mapError f = .ok a) : x = .ok a := by
  cases x with
  | error e => cases ok
  | ok b => exact congrArg Except.ok (Except.ok.inj ok)

theorem bind_eq_ok {α β ε : Type} {x : Except ε α} {f : α → Except ε β} {b : β} (ok : (x >>= f) = .ok b) :
    ∃ a, x = .ok a ∧ f a = .ok b := by
  cases x with
  | error e => cases ok
  | ok a => exact ⟨a, rfl, ok⟩

/-- A resolution that returns has a derivation, on the fuel of each step. -/
theorem resolving_of_resolve {fuel : Nat} {manifest result : Record Json} {dir : JSString} {chain : List JSString}
    (resolves : r.resolve manifests fuel manifest dir chain = .ok result) :
    Resolving r manifests (fun _ _ => True) (.manifest manifest dir chain) result := by
  induction fuel generalizing manifest dir chain result with
  | zero => cases resolves
  | succ fuel ih =>
    rw [Resolver.resolve] at resolves
    obtain ⟨found, refs, resolves⟩ := bind_eq_ok resolves
    replace refs := mapError_eq_ok refs
    cases found with
    | none =>
      obtain rfl := Except.ok.inj resolves
      exact .flat refs
    | some list =>
      obtain ⟨composed, follows, merges⟩ := bind_eq_ok resolves
      have bases : ∀ (list : List JSString) (start : Record Json),
          list.foldlM (r.follow manifests (r.resolve manifests fuel) dir chain) start = .ok composed →
          Resolving r manifests (fun _ _ => True) (.bases start dir chain list) composed := by
        intro list
        induction list with
        | nil =>
          intro start follows
          obtain rfl := Except.ok.inj follows
          exact .done
        | cons ref list rest =>
          intro start follows
          rw [List.foldlM_cons] at follows
          obtain ⟨merged, follow, follows⟩ := bind_eq_ok follows
          obtain ⟨base, loads, follow⟩ := bind_eq_ok follow
          obtain ⟨resolved, inner, merging⟩ := bind_eq_ok follow
          exact .follow (mapError_eq_ok loads) (ih inner) (mapError_eq_ok merging) trivial (rest merged follows)
      exact .extending refs (bases list [] follows) (mapError_eq_ok merges) trivial

/-- What holds of no manifest at all and is kept by every merge holds of what the references of a manifest compose
and of the manifest they resolve. -/
theorem Resolving.keeps {P Q : Record Json → Record Json → Prop} {I : Record Json → Prop} (initially : I [])
    (step : ∀ base child merged, I base → r.merge base child = .ok merged → P base child → Q base child ∧ I merged)
    {task : ResolveTask} {result : Record Json} (resolving : Resolving r manifests P task result) :
    (match task with
      | .manifest manifest _ _ => Resolving r manifests Q task result ∧ (r.refs manifest ≠ .ok none → I result)
      | .bases composed _ _ _ => I composed → Resolving r manifests Q task result ∧ I result) := by
  induction resolving with
  | flat flat => exact ⟨.flat flat, fun extending => absurd flat extending⟩
  | extending extending _ merges here ih =>
    obtain ⟨bases, composed⟩ := ih initially
    obtain ⟨next, result⟩ := step _ _ _ composed merges here
    exact ⟨.extending extending bases merges next, fun _ => result⟩
  | done => exact fun composed => ⟨.done, composed⟩
  | follow loads _ merges here _ resolves rest =>
    intro composed
    obtain ⟨next, merged⟩ := step _ _ _ composed merges here
    obtain ⟨bases, result⟩ := rest merged
    exact ⟨.follow loads resolves.1 merges next bases, result⟩

end

end Xript
