import Xript.Pool.Intent
import Xript.Sanitize.Tree

namespace Xript

def roleSlotAccept : JSString := js "application/x-xript-role"

def hookSlotAccept : JSString := js "application/x-xript-hook"

def commandSlotAccept : JSString := js "application/x-xript-command"

/-- A slot the host declares; the manifest's schema lets no id be empty. -/
structure Slot where
  id : JSString
  accepts : List JSString
  description : Option JSString
  capability : Option JSString
  execution : Option ExecutionIntent
  timeoutMs : Option Nat
  named : id ≠ []

namespace Slot

def isRoleSlot (slot : Slot) : Bool := roleSlotAccept ∈ slot.accepts

def isHookSlot (slot : Slot) : Bool := hookSlotAccept ∈ slot.accepts

def isCommandSlot (slot : Slot) : Bool := commandSlotAccept ∈ slot.accepts

end Slot

structure HookDef where
  description : JSString
  phases : Option (List JSString)
  capability : Option JSString
  execution : Option ExecutionIntent
  timeoutMs : Option Nat

/-- What the pool reads of the host's manifest. -/
structure HostManifest where
  execution : Option ExecutionIntent
  hooks : Record HookDef
  slots : List Slot

/-- The surfaces of a host that a pool asks about: the paths `hooks/<id>` and `slots/<id>`. -/
inductive Surface where
  | hook (id : JSString)
  | slot (id : JSString)

/-- `self.execution.unwrap_or_default().resolved()`. -/
def manifestDefault (execution : Option ExecutionIntent) : ResolvedIntent :=
  (execution.getD ⟨none, none⟩).resolved

namespace HostManifest

def slotAt (host : HostManifest) (id : JSString) : Option Slot := host.slots.find? fun slot => slot.id = id

def declaredExecution (host : HostManifest) : Surface → Option ExecutionIntent
  | .hook id => (host.hooks.get id).bind HookDef.execution
  | .slot id => (host.slotAt id).bind Slot.execution

def executionOf (host : HostManifest) (surface : Surface) : ResolvedIntent :=
  match host.declaredExecution surface with
  | some intent => intent.resolved
  | none => manifestDefault host.execution

/-- The hook an event-typed slot stands for. -/
def hookOfSlot (slot : Slot) : HookDef :=
  ⟨slot.description.getD [], none, slot.capability, slot.execution, slot.timeoutMs⟩

def addSlotHook (hooks : Record HookDef) (slot : Slot) : Record HookDef :=
  if !slot.isHookSlot || slot.id ∈ hooks.keys then hooks else hooks ++ [(slot.id, hookOfSlot slot)]

/-- The hooks that are fired: those of the manifest, and one for each event-typed slot no hook shares its id with. -/
def effectiveHooks (host : HostManifest) : Record HookDef := host.slots.foldl addSlotHook host.hooks

end HostManifest

/-- What the pool reads of an export's declaration. -/
structure ExportDecl where
  execution : Option ExecutionIntent

/-- A mod's `entry`. A script, several or none declare no exports; `refused` is an object that is no entry block, with
what can be read off the exports in it. The manifest's schema lets no export's name be empty. -/
inductive Entry where
  | plain
  | block (exports : Record ExportDecl) (named : [] ∉ exports.keys)
  | refused (exports : Record ExportDecl) (named : [] ∉ exports.keys)

/-- What the pool reads of a mod's manifest, its fills in the order they are enumerated in. -/
structure ModManifest where
  execution : Option ExecutionIntent
  entry : Entry
  fills : Record Json

namespace ModManifest

/-- `entry_block`: the exports the entry declares, where it reads as a block. -/
def entryExports (mod : ModManifest) : Record ExportDecl :=
  match mod.entry with
  | .block exports _ => exports
  | _ => []

def declaredExecution (mod : ModManifest) (name : JSString) : Option ExecutionIntent :=
  (mod.entryExports.get name).bind ExportDecl.execution

/-- `execution_of("exports/<name>")`. -/
def executionOf (mod : ModManifest) (name : JSString) : ResolvedIntent :=
  match mod.declaredExecution name with
  | some intent => intent.resolved
  | none => manifestDefault mod.execution

def aggregateExecution (mod : ModManifest) : ResolvedIntent :=
  mod.entryExports.keys.foldl (fun aggregate name => aggregate.widen (mod.executionOf name)) (manifestDefault mod.execution)

end ModManifest

def Json.asText : Json → Option JSString
  | .str text => some text
  | _ => none

def fillKeys : List JSString := ["handler", "export", "fn", "command"].map js

/-- The exports one entry of a fill is seen to name. -/
def namedExports : Json → List JSString
  | .str name => [name]
  | .obj members => fillKeys.filterMap fun key => (Record.get members key).bind Json.asText
  | _ => []

/-- The exports a slot's fill is seen to name. -/
def recordedExports : Json → List JSString
  | .arr entries => entries.flatMap namedExports
  | fill => namedExports fill

/-- The slot each export fills, as `slot_of_export` reads it off the fills: a later slot replaces an earlier one. -/
def slotOfExport (fills : Record Json) : Record JSString :=
  fills.foldl (fun map fill => (recordedExports fill.2).foldl (fun map name => map.set name fill.1) map) []

/-- The exports that loading a mod takes an entry of a slot's fill to name. -/
def Slot.exportsOf (slot : Slot) (entry : Json) : List JSString :=
  match entry with
  | .obj members =>
    if slot.isRoleSlot then
      match Record.get members (js "fns") with
      | some (.obj fns) => fns.filterMap fun fn => fn.2.asText
      | _ => []
    else if slot.isHookSlot || slot.isCommandSlot then
      match Record.get members (js "handler") with
      | some (.str (unit :: name)) => [unit :: name]
      | _ => []
    else []
  | _ => []

/-- The slots of a host that a mod's export fills. -/
def HostManifest.filledSlots (host : HostManifest) (mod : ModManifest) (name : JSString) : List Slot :=
  mod.fills.filterMap fun fill =>
    match host.slotAt fill.1, fill.2 with
    | some slot, .arr entries => if name ∈ entries.flatMap slot.exportsOf then some slot else none
    | _, _ => none

namespace Validator

def durationOrder : List IntentDuration := [.instant, .brief, .long, .unbounded]

def affinityOrder : List IntentAffinity := [.any, .pinned, .isolated]

def defaultExecutionIntent : ResolvedIntent := ⟨.brief, .any⟩

def maxBy {T : Type} [DecidableEq T] (order : List T) (a b : Option T) (fallback : T) : T :=
  order.getD (max (order.idxOf (a.getD fallback)) (order.idxOf (b.getD fallback))) fallback

def widenExecutionIntent (a b : ResolvedIntent) : ResolvedIntent :=
  ⟨maxBy durationOrder a.duration b.duration defaultExecutionIntent.duration,
    maxBy affinityOrder a.affinity b.affinity defaultExecutionIntent.affinity⟩

/-- What `resolveExecutionIntent` makes of a surface's own declaration and the manifest's. -/
def settle (own fallback : Option ExecutionIntent) : ResolvedIntent :=
  let source := (own.or fallback).getD ⟨none, none⟩
  ⟨source.duration.getD defaultExecutionIntent.duration, source.affinity.getD defaultExecutionIntent.affinity⟩

def resolveHost (host : HostManifest) : Option Surface → ResolvedIntent
  | none => settle host.execution none
  | some surface => settle (host.declaredExecution surface) host.execution

/-- `exportAt`, which reads any object. -/
def exportAt (mod : ModManifest) (name : JSString) : Option ExportDecl :=
  match mod.entry with
  | .plain => none
  | .block exports _ | .refused exports _ => exports.get name

def resolveMod (mod : ModManifest) : Option JSString → ResolvedIntent
  | none => settle mod.execution none
  | some name => settle ((exportAt mod name).bind ExportDecl.execution) mod.execution

structure InvokeIntentOptions where
  name : Option JSString
  slot : Option JSString
  callSite : Option ExecutionIntent

/-- `options.slot ? … : …`: an empty text is no text. -/
def truthy (text : Option JSString) : Option JSString := text.filter fun text => text ≠ []

def resolveInvokeIntent (host : HostManifest) (mod : ModManifest) (options : InvokeIntentOptions) : ResolvedIntent :=
  match options.callSite with
  | some intent => ⟨intent.duration.getD defaultExecutionIntent.duration, intent.affinity.getD defaultExecutionIntent.affinity⟩
  | none =>
    widenExecutionIntent (resolveHost host ((truthy options.slot).map Surface.slot)) (resolveMod mod (truthy options.name))

end Validator

end Xript
