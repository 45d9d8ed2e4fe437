import Xript.Pool.Manifest

namespace Xript

inductive WorkerId where
  | worker (n : Nat)
  | dedicated (n : Nat)
  deriving DecidableEq

/-- What a pool keeps of a mod it loaded. -/
structure ModRecord where
  home : WorkerId
  loadSeq : Nat
  hooks : List JSString
  intent : ResolvedIntent
  manifest : Option ModManifest
  slotOfExport : Record JSString

/-- What the pool keeps of a mod once it is loaded, with the hooks its handlers answered to by then. -/
def ModRecord.loaded (home : WorkerId) (loadSeq : Nat) (manifest : ModManifest) (hooks : List JSString) : ModRecord :=
  ⟨home, loadSeq, hooks, manifest.aggregateExecution, some manifest, Xript.slotOfExport manifest.fills⟩

namespace HostManifest

/-- The host's side of a call: the slot the export is recorded to fill, or the host's default. -/
def hostSide (host : HostManifest) (record : ModRecord) (name : JSString) : ResolvedIntent :=
  match record.slotOfExport.get name with
  | some slot => host.executionOf (.slot slot)
  | none => manifestDefault host.execution

def callIntent (host : HostManifest) (records : Record ModRecord) (mod name : JSString) : ResolvedIntent :=
  match records.get mod with
  | none => manifestDefault host.execution
  | some record =>
    let modSide := match record.manifest with
      | some manifest => manifest.executionOf name
      | none => record.intent
    (host.hostSide record name).widen modSide

/-- The intent a hook is fired with. -/
def fanOutIntent (host : HostManifest) (records : Record ModRecord) (hook : JSString) : ResolvedIntent :=
  records.foldl (fun intent entry => if hook ∈ entry.2.hooks then intent.widen entry.2.intent else intent)
    (host.executionOf (.hook hook))

/-- What the host declares of firing a hook, whether it lists the hook or only a slot that stands for it. -/
def hookExecution (host : HostManifest) (hook : JSString) : ResolvedIntent :=
  match (host.effectiveHooks.get hook).bind HookDef.execution with
  | some intent => intent.resolved
  | none => manifestDefault host.execution

end HostManifest

/-- A mod of a pool, with the hooks it had handlers of when it was loaded and those it has handlers of now. -/
structure LoadedMod where
  name : JSString
  home : WorkerId
  loadSeq : Nat
  manifest : ModManifest
  indexed : List JSString
  handled : List JSString

def LoadedMod.record (mod : LoadedMod) : ModRecord := .loaded mod.home mod.loadSeq mod.manifest mod.indexed

/-- The mods of a pool, one under each name. -/
structure LoadedMods where
  mods : List LoadedMod
  distinct : (mods.map LoadedMod.name).Nodup

def LoadedMods.records (loaded : LoadedMods) : Record ModRecord := loaded.mods.map fun mod => (mod.name, mod.record)

theorem LoadedMods.get_records {loaded : LoadedMods} {mod : LoadedMod} (member : mod ∈ loaded.mods) :
    loaded.records.get mod.name = some mod.record := by
  refine Record.get_of_mem ?_ (List.mem_map_of_mem member)
  have keys : loaded.records.keys = loaded.mods.map LoadedMod.name := List.map_map
  rw [keys]
  exact loaded.distinct

theorem HostManifest.callIntent_loaded (host : HostManifest) {loaded : LoadedMods} {mod : LoadedMod}
    (member : mod ∈ loaded.mods) (name : JSString) :
    host.callIntent loaded.records mod.name name = (host.hostSide mod.record name).widen (mod.manifest.executionOf name) := by
  rw [callIntent, loaded.get_records member]
  rfl

/-- The mods a fire is known to reach. -/
def LoadedMods.reached (loaded : LoadedMods) (hook : JSString) : List ResolvedIntent :=
  (loaded.mods.filter fun mod => hook ∈ mod.indexed).map fun mod => mod.manifest.aggregateExecution

theorem HostManifest.fanOutIntent_loaded (host : HostManifest) (loaded : LoadedMods) (hook : JSString) :
    host.fanOutIntent loaded.records hook = .widenAll (host.executionOf (.hook hook)) (loaded.reached hook) := by
  rw [fanOutIntent, LoadedMods.records, List.foldl_map, ResolvedIntent.widenAll, LoadedMods.reached, List.foldl_map,
    List.foldl_filter]
  simp only [decide_eq_true_eq]
  rfl

/-- A mod's placement weighs every export it declares, and its default. -/
theorem ModManifest.executionOf_le_aggregate (mod : ModManifest) (name : JSString) :
    mod.executionOf name ≤ mod.aggregateExecution := by
  have all : mod.aggregateExecution =
      .widenAll (manifestDefault mod.execution) (mod.entryExports.keys.map mod.executionOf) := by
    rw [aggregateExecution, ResolvedIntent.widenAll, List.foldl_map]
  rw [all, ResolvedIntent.le_widenAll_iff]
  refine .of_mem ?_
  by_cases declared : name ∈ mod.entryExports.keys
  · exact List.mem_cons_of_mem _ (List.mem_map_of_mem declared)
  · have silent : mod.executionOf name = manifestDefault mod.execution := by
      rw [executionOf, declaredExecution, Record.get_eq_none.2 declared]
      rfl
    rw [silent]
    exact List.mem_cons_self

namespace Validator

theorem maxBy_duration (a b fallback : IntentDuration) :
    maxBy durationOrder (some a) (some b) fallback = max a b := by
  cases a <;> cases b <;> rfl

theorem maxBy_affinity (a b fallback : IntentAffinity) :
    maxBy affinityOrder (some a) (some b) fallback = max a b := by
  cases a <;> cases b <;> rfl

theorem widenExecutionIntent_eq (a b : ResolvedIntent) : widenExecutionIntent a b = a.widen b := by
  rw [widenExecutionIntent, maxBy_duration, maxBy_affinity]
  rfl

theorem settle_some (own : ExecutionIntent) (fallback : Option ExecutionIntent) :
    settle (some own) fallback = own.resolved := rfl

theorem settle_none (fallback : Option ExecutionIntent) : settle none fallback = manifestDefault fallback := by
  cases fallback <;> rfl

theorem resolveHost_slot (host : HostManifest) (slot : JSString) :
    resolveHost host (some (.slot slot)) = host.executionOf (.slot slot) := by
  rw [resolveHost, HostManifest.executionOf]
  cases host.declaredExecution (.slot slot) with
  | some own => exact settle_some ..
  | none => exact settle_none ..

theorem resolveHost_none (host : HostManifest) : resolveHost host none = manifestDefault host.execution := by
  rw [resolveHost]
  cases host.execution <;> rfl

/-- The validator and the pool read the same off a mod's entry where it is no object or reads as a block. -/
theorem resolveMod_eq {mod : ModManifest} (reads : ∀ exports named, mod.entry ≠ .refused exports named) (name : JSString) :
    resolveMod mod (some name) = mod.executionOf name := by
  have same : exportAt mod name = mod.entryExports.get name := by
    rw [exportAt, ModManifest.entryExports]
    cases entry : mod.entry with
    | plain | block _ _ => rfl
    | refused exports named => exact absurd entry (reads exports named)
  rw [resolveMod, same, ModManifest.executionOf, ModManifest.declaredExecution]
  cases (mod.entryExports.get name).bind ExportDecl.execution with
  | some own => exact settle_some ..
  | none => exact settle_none ..

theorem resolveMod_truthy (mod : ModManifest) (name : JSString) :
    resolveMod mod (truthy (some name)) = resolveMod mod (some name) := by
  cases name with
  | cons unit name => rfl
  | nil =>
    have none : exportAt mod [] = none := by
      rw [exportAt]
      cases mod.entry with
      | plain => rfl
      | block _ named | refused _ named => exact Record.get_eq_none.2 named
    show settle mod.execution .none = settle ((exportAt mod []).bind _) mod.execution
    rw [none]
    show settle mod.execution .none = settle .none mod.execution
    cases mod.execution <;> rfl

end Validator

end Xript
