import Xript.Capability.Match
import Xript.Expr.Eval
import Xript.Pool.Intent

namespace Xript

namespace Score

structure HostSlot where
  id : Option JSString
  accepts : Option (List JSString)
  capability : Option JSString
  reserved : Option Bool
  multiple : Option Bool
  payload : Bool

/-- A binding of a host's tree: a namespace carries members. -/
inductive HostBinding where
  | mk (capability : Option JSString) (members : List (JSString × HostBinding))

structure FormatDef where
  nodes : List JSString
  vocabularies : List JSString

/-- What scoring reads of a host manifest. A list or map that is absent is read as an empty one. -/
structure HostManifest where
  slots : List HostSlot
  /-- The declared capabilities, each with its `reserved`. -/
  capabilities : Record (Option Bool)
  bindings : Record HostBinding
  events : List JsValue
  /-- The libraries and the hooks, each with its `capability`. -/
  libraries : Record (Option JSString)
  hooks : Record (Option JSString)
  formats : Record FormatDef
  /-- The declared vocabularies, each with the names of its nodes. -/
  vocabularies : Record (List JSString)

/-- What scoring reads of a mod manifest: of `fills` and of `contributions.slots` the keys. -/
structure ModManifest where
  name : Option JSString
  capabilities : List JSString
  fragments : List (Option JSString)
  fills : List JSString
  contributions : List JSString

inductive CapacitySurface where
  | bindings
  | slots
  | capabilities
  | events
  | libraries
  deriving DecidableEq

def capacitySurfaces : List CapacitySurface := [.bindings, .slots, .capabilities, .events, .libraries]

def CapacitySurface.name : CapacitySurface → JSString
  | .bindings => js "bindings"
  | .slots => js "slots"
  | .capabilities => js "capabilities"
  | .events => js "events"
  | .libraries => js "libraries"

structure UtilizationMetric where
  score : F64
  total : Nat
  used : List JSString
  unused : List JSString

structure CapacityMetric where
  score : F64
  exposed : List CapacitySurface
  absent : List CapacitySurface

structure IntegrityResult where
  passed : Bool
  violations : List JSString
  checks : Nat

structure FormatSurface where
  declared : List JSString
  nodes : Nat
  reachable : List JSString
  unreachable : List JSString
  vocabularies : List JSString
  vocabulariesUnreachable : List JSString

structure CommandSurface where
  slots : List JSString
  constrained : List JSString
  gated : List JSString
  singular : List JSString
  unreachable : List JSString

structure IntentSurface where
  score : F64
  declared : List JSString
  undeclared : List JSString
  byDuration : IntentDuration → Nat

structure Gate where
  min : F64
  passed : Bool

structure ScoreResult where
  headline : F64
  integrity : IntegrityResult
  capacity : CapacityMetric
  slots : UtilizationMetric
  capabilities : UtilizationMetric
  formats : FormatSurface
  commands : CommandSurface
  intent : IntentSurface
  signals : Record F64
  gate : Option Gate

structure ScoreOptions where
  min : Option F64
  inheritedSlots : List JSString
  inheritedCapabilities : List JSString

structure ValidationError where
  path : JSString
  message : JSString

/-- A surface intent can be declared on. Scoring passes over those of mod exports. -/
structure ExecutionSurface where
  ofExport : Bool
  path : JSString
  declared : Bool
  duration : IntentDuration

/-- The analyses scoring imports: nothing below depends on what they answer. -/
structure Analyses where
  validateManifest : HostManifest → List ValidationError
  crossValidate : HostManifest → ModManifest → List ValidationError
  executionSurfaces : HostManifest → List ExecutionSurface

/-- The mean of a signal set, and zero for an empty one. -/
def composite (signals : Record F64) : F64 :=
  if signals = [] then .ofNat 0
  else ((signals.map Prod.snd).foldl F64.add (.ofNat 0)).div (.ofNat signals.length)

/-- The text of an optional string, absent when it is empty. -/
def present (text : Option JSString) : Option JSString := text.filter (· ≠ [])

def slotIds (host : HostManifest) : List JSString := host.slots.filterMap fun slot => present slot.id

def capabilityNames (host : HostManifest) : List JSString := host.capabilities.keys

def surfaceExposed (host : HostManifest) : CapacitySurface → Bool
  | .bindings => !host.bindings.isEmpty
  | .slots => !host.slots.isEmpty
  | .capabilities => !host.capabilities.isEmpty
  | .events => !host.events.isEmpty
  | .libraries => !host.libraries.isEmpty

def capacityOf (host : HostManifest) : CapacityMetric :=
  let exposed := capacitySurfaces.filter (surfaceExposed host)
  { score := F64.div (.ofNat exposed.length) (.ofNat capacitySurfaces.length)
    exposed
    absent := capacitySurfaces.filter fun surface => !surfaceExposed host surface }

def formatSurface (host : HostManifest) : FormatSurface :=
  let declared := host.formats.keys
  let accepted := host.slots.flatMap fun slot => slot.accepts.getD []
  let reachable := declared.filter (· ∈ accepted)
  let formats := reachable.filterMap fun id => (host.formats.get id).map fun format => (id, format)
  let inScope := formats.flatMap fun entry => entry.2.vocabularies.filter (· ∈ host.vocabularies.keys)
  let countedNodes := formats.flatMap (fun entry => entry.2.nodes.map fun node => entry.1 ++ js "#inline::" ++ node) ++
    inScope.flatMap fun ref => ((host.vocabularies.get ref).getD []).map fun node => ref ++ js "::" ++ node
  { declared
    nodes := countedNodes.dedup.length
    reachable
    unreachable := declared.filter (· ∉ accepted)
    vocabularies := host.vocabularies.keys.filter (· ∈ inScope)
    vocabulariesUnreachable := host.vocabularies.keys.filter (· ∉ inScope) }

/-- A slot takes command fills when its `accepts` names the command type and neither reserved kind. -/
def isCommandSlot (slot : HostSlot) : Bool :=
  match slot.accepts with
  | none => false
  | some accepts =>
    if js "application/x-xript-role" ∈ accepts ∨ js "application/x-xript-hook" ∈ accepts then false
    else decide (js "application/x-xript-command" ∈ accepts)

def commandSurface (host : HostManifest) (filled : List JSString) : CommandSurface :=
  let commandSlots := host.slots.filterMap fun slot => (present slot.id).bind fun id =>
    if isCommandSlot slot then some (id, slot) else none
  { slots := commandSlots.map Prod.fst
    constrained := (commandSlots.filter fun entry => entry.2.payload).map Prod.fst
    gated := (commandSlots.filter fun entry => (present entry.2.capability).isSome).map Prod.fst
    singular := (commandSlots.filter fun entry => entry.2.multiple ≠ some true).map Prod.fst
    unreachable := (commandSlots.filter fun entry => entry.2.reserved = some true ∨ entry.1 ∉ filled).map Prod.fst }

def intentSurface (surfaces : List ExecutionSurface) : IntentSurface :=
  let surfaces := surfaces.filter fun surface => !surface.ofExport
  let declared := (surfaces.filter (·.declared)).map (·.path)
  { score := if surfaces = [] then .ofNat 0 else F64.div (.ofNat declared.length) (.ofNat surfaces.length)
    declared
    undeclared := (surfaces.filter fun surface => !surface.declared).map (·.path)
    byDuration := fun duration => (surfaces.filter fun surface => surface.duration = duration).length }

def reservedSlotIds (host : HostManifest) : List JSString :=
  (host.slots.filter fun slot => slot.reserved = some true).filterMap fun slot => present slot.id

def reservedCapabilityNames (host : HostManifest) : List JSString :=
  Record.keys (host.capabilities.filter fun entry => entry.2 = some true)

def modSlotReferences (mods : List ModManifest) : List JSString :=
  mods.flatMap fun mod => mod.fills ++ mod.contributions ++ mod.fragments.filterMap present

def modCapabilityRequests (mods : List ModManifest) : List JSString := mods.flatMap (·.capabilities)

mutual

def bindingGates : HostBinding → List JSString
  | .mk capability members => (present capability).toList ++ memberGates members

def memberGates : List (JSString × HostBinding) → List JSString
  | [] => []
  | member :: members => bindingGates member.2 ++ memberGates members

end

/-- Every capability a host manifest references through its own surface. -/
def gateCapabilities (host : HostManifest) : List JSString :=
  host.slots.filterMap (fun slot => present slot.capability) ++ host.libraries.filterMap (fun entry => present entry.2) ++
    host.hooks.filterMap (fun entry => present entry.2) ++ memberGates host.bindings

/-- The slots a host declares that it neither inherits nor reserves. -/
def ownSlots (host : HostManifest) (options : ScoreOptions) : List JSString :=
  (slotIds host).filter fun id => id ∉ options.inheritedSlots ∧ id ∉ reservedSlotIds host

/-- The capabilities a host declares that it neither inherits nor reserves. -/
def ownCaps (host : HostManifest) (options : ScoreOptions) : List JSString :=
  (capabilityNames host).filter fun name => name ∉ options.inheritedCapabilities ∧ name ∉ reservedCapabilityNames host

/-- How much of a surface is used. -/
def utilization (own : List JSString) (isUsed : JSString → Bool) : UtilizationMetric :=
  let used := own.filter isUsed
  { score := if own = [] then .ofNat 1 else F64.div (.ofNat used.length) (.ofNat own.length)
    total := own.length
    used
    unused := own.filter (· ∉ used) }

def undeclaredGates (host : HostManifest) : List JSString :=
  host.slots.filterMap fun slot => (present slot.capability).bind fun gate =>
    if (capabilityNames host).any fun scope => satisfies scope gate then none
    else some (js "slot \"" ++ slot.id.getD (js "?") ++ js "\" references undeclared capability \"" ++ gate ++ js "\"")

def violationsOf (analyses : Analyses) (host : HostManifest) (mods : List ModManifest) : List JSString :=
  (analyses.validateManifest host).map (fun error => js "host " ++ error.path ++ js ": " ++ error.message) ++
    undeclaredGates host ++
    mods.flatMap fun mod => (analyses.crossValidate host mod).map fun error =>
      js "mod \"" ++ mod.name.getD (js "?") ++ js "\" " ++ error.path ++ js ": " ++ error.message

def scoreManifests (analyses : Analyses) (host : HostManifest) (mods : List ModManifest) (options : ScoreOptions) :
    ScoreResult :=
  let violations := violationsOf analyses host mods
  let capacity := capacityOf host
  let intent := intentSurface (analyses.executionSurfaces host)
  let exposure := capacitySurfaces.map fun surface =>
    (surface.name, F64.ofNat (if surfaceExposed host surface then 1 else 0))
  let signals : Record F64 :=
    if intent.declared.length + intent.undeclared.length > 0 then exposure ++ [(js "declared-intent", intent.score)]
    else exposure
  let headline := mathRound (F64.mul (.ofNat 100) (composite signals))
  let usedSlots := modSlotReferences mods
  let referencedCaps := modCapabilityRequests mods ++ gateCapabilities host
  { headline
    integrity :=
      { passed := violations.isEmpty
        violations
        checks := 1 + host.slots.length + mods.length }
    capacity
    slots := utilization (ownSlots host options) fun id => id ∈ usedSlots
    capabilities := utilization (ownCaps host options) fun name => referencedCaps.any fun ref => satisfies name ref
    formats := formatSurface host
    commands := commandSurface host usedSlots
    intent
    signals
    gate := options.min.map fun min => ⟨min, violations.isEmpty && F64.le min headline⟩ }

end Score

end Xript
