import Xript.Pool.CallIntent

namespace Xript

namespace HostManifest

variable (host : HostManifest)

/-- The host's side of a call into an export of a mod that fills at most one slot, as the validator takes it. -/
def filledSide (mod : ModManifest) (name : JSString) : ResolvedIntent :=
  match (host.filledSlots mod name).head? with
  | some slot => host.executionOf (.slot slot.id)
  | none => manifestDefault host.execution

/-- A call into an export is routed with no less than the host's slots, the host's default and the mod itself ask for,
and as the validator says where the export fills one slot or none. -/
structure InvokeWeighed (mod : ModManifest) (name : JSString) (intent : ResolvedIntent) : Prop where
  slots : ∀ slot ∈ host.filledSlots mod name, host.executionOf (.slot slot.id) ≤ intent
  unfilled : host.filledSlots mod name = [] → manifestDefault host.execution ≤ intent
  own : Validator.resolveMod mod (some name) ≤ intent
  validated : (host.filledSlots mod name).length ≤ 1 →
    intent = Validator.resolveInvokeIntent host mod ⟨some name, (host.filledSlots mod name).head?.map Slot.id, none⟩

/-- A hook is fired with no less than the host asks for that hook and than each mod with a handler asks for. -/
structure FireWeighed (mods : LoadedMods) (hook : JSString) (intent : ResolvedIntent) : Prop where
  declared : host.hookExecution hook ≤ intent
  handlers : ∀ mod ∈ mods.mods, hook ∈ mod.handled → mod.manifest.aggregateExecution ≤ intent

/-- What the recorded slot and the mod's readable claim leave out asks for no more than they do. -/
structure InvokeHeard (mod : LoadedMod) (name : JSString) : Prop where
  /-- The export fills slots that its record does not have. -/
  missed : ∀ slot ∈ host.filledSlots mod.manifest name, mod.record.slotOfExport.get name ≠ some slot.id →
    Covered [host.hostSide mod.record name, mod.manifest.executionOf name] (host.executionOf (.slot slot.id))
  /-- Its record has another slot than the one it fills. -/
  mistaken : (host.filledSlots mod.manifest name).length ≤ 1 →
    mod.record.slotOfExport.get name ≠ (host.filledSlots mod.manifest name).head?.map Slot.id →
    Covered [host.hostSide mod.record name, mod.manifest.executionOf name] (host.filledSide mod.manifest name) ∧
      Covered [host.filledSide mod.manifest name, Validator.resolveMod mod.manifest (some name)]
        (host.hostSide mod.record name)
  /-- The mod's entry is no entry block. -/
  refused : ∀ exports named, mod.manifest.entry = .refused exports named →
    Covered [host.hostSide mod.record name, mod.manifest.executionOf name]
        (Validator.resolveMod mod.manifest (some name)) ∧
      ((host.filledSlots mod.manifest name).length ≤ 1 →
        Covered [host.filledSide mod.manifest name, Validator.resolveMod mod.manifest (some name)]
          (mod.manifest.executionOf name))

/-- A slot that stands for a hook, and mods that took a handler after they were loaded, ask for no more than the host's
default and the mods known to have one do. -/
structure FireHeard (mods : LoadedMods) (hook : JSString) : Prop where
  synthesized : hook ∉ host.hooks.keys →
    Covered (host.executionOf (.hook hook) :: mods.reached hook) (host.hookExecution hook)
  late : ∀ mod ∈ mods.mods, hook ∈ mod.handled → hook ∉ mod.indexed →
    Covered (host.executionOf (.hook hook) :: mods.reached hook) mod.manifest.aggregateExecution

variable {host}

theorem head_of_filled {slots : List Slot} (one : slots.length ≤ 1) {slot : Slot} (member : slot ∈ slots) :
    slots.head? = some slot := by
  match slots, one with
  | [only], _ => rw [List.head?_cons, List.mem_singleton.mp member]
  | _ :: _ :: _, one => exact absurd one (by simp)

theorem validator_eq (mod : ModManifest) (name : JSString) :
    Validator.resolveInvokeIntent host mod ⟨some name, (host.filledSlots mod name).head?.map Slot.id, none⟩ =
      (host.filledSide mod name).widen (Validator.resolveMod mod (some name)) := by
  rw [Validator.resolveInvokeIntent, Validator.widenExecutionIntent_eq, Validator.resolveMod_truthy, filledSide]
  cases (host.filledSlots mod name).head? with
  | none => exact congrArg (ResolvedIntent.widen · _) (Validator.resolveHost_none host)
  | some slot =>
    have whole : Validator.truthy (some slot.id) = some slot.id := Option.filter_some_pos (by simpa using slot.named)
    rw [Option.map_some, whole, Option.map_some, Validator.resolveHost_slot]

/-- The hooks the manifest lists are the ones that are fired. -/
theorem get_effectiveHooks {hook : JSString} (listed : hook ∈ host.hooks.keys) :
    host.effectiveHooks.get hook = host.hooks.get hook := by
  suffices kept : ∀ (slots : List Slot) hooks, Record.get hooks hook = host.hooks.get hook →
      Record.get (slots.foldl addSlotHook hooks) hook = host.hooks.get hook from kept host.slots host.hooks rfl
  intro slots
  induction slots with
  | nil => exact fun _ same => same
  | cons slot slots ih =>
    intro hooks same
    refine ih (addSlotHook hooks slot) ?_
    rw [addSlotHook]
    split
    · exact same
    · obtain ⟨listing, found⟩ := Option.isSome_iff_exists.mp (Record.get_isSome.mpr listed)
      rw [Record.get_append, same, found]
      rfl

theorem hookExecution_listed {hook : JSString} (listed : hook ∈ host.hooks.keys) :
    host.hookExecution hook = host.executionOf (.hook hook) := by
  rw [hookExecution, get_effectiveHooks listed]
  rfl

theorem invokeWeighed_iff {mod : LoadedMod} {name : JSString} :
    host.InvokeWeighed mod.manifest name ((host.hostSide mod.record name).widen (mod.manifest.executionOf name)) ↔
      host.InvokeHeard mod name := by
  have reads : (∀ exports named, mod.manifest.entry ≠ .refused exports named) →
      Validator.resolveMod mod.manifest (some name) = mod.manifest.executionOf name :=
    fun reads => Validator.resolveMod_eq reads name
  constructor
  · intro weighed
    have valid := fun one => (weighed.validated one).trans (validator_eq mod.manifest name)
    refine ⟨fun slot filled _ => ResolvedIntent.le_widen_iff.mp (weighed.slots slot filled), fun one _ => ⟨?_, ?_⟩,
      fun exports named _ => ⟨ResolvedIntent.le_widen_iff.mp weighed.own, fun one => ?_⟩⟩
    · exact ResolvedIntent.le_widen_iff.mp (valid one ▸ ResolvedIntent.le_widen_left ..)
    · exact ResolvedIntent.le_widen_iff.mp (valid one ▸ ResolvedIntent.le_widen_left ..)
    · exact ResolvedIntent.le_widen_iff.mp (valid one ▸ ResolvedIntent.le_widen_right ..)
  · intro heard
    -- The filled slot and the recorded one, where there is one slot at most.
    have sides : (host.filledSlots mod.manifest name).length ≤ 1 →
        host.filledSide mod.manifest name ≤
            (host.hostSide mod.record name).widen (mod.manifest.executionOf name) ∧
          host.hostSide mod.record name ≤
            (host.filledSide mod.manifest name).widen (Validator.resolveMod mod.manifest (some name)) := by
      intro one
      by_cases recorded : mod.record.slotOfExport.get name = (host.filledSlots mod.manifest name).head?.map Slot.id
      · have same : host.hostSide mod.record name = host.filledSide mod.manifest name := by
          rw [hostSide, recorded, filledSide]
          cases (host.filledSlots mod.manifest name).head? <;> rfl
        exact ⟨same ▸ ResolvedIntent.le_widen_left .., same ▸ ResolvedIntent.le_widen_left ..⟩
      · obtain ⟨filled, kept⟩ := heard.mistaken one recorded
        exact ⟨ResolvedIntent.le_widen_iff.mpr filled, ResolvedIntent.le_widen_iff.mpr kept⟩
    have own : Validator.resolveMod mod.manifest (some name) ≤
        (host.hostSide mod.record name).widen (mod.manifest.executionOf name) := by
      by_cases refused : ∃ exports named, mod.manifest.entry = .refused exports named
      · obtain ⟨exports, named, refused⟩ := refused
        exact ResolvedIntent.le_widen_iff.mpr (heard.refused exports named refused).1
      · rw [reads fun exports named is => refused ⟨exports, named, is⟩]
        exact ResolvedIntent.le_widen_right ..
    refine ⟨fun slot filled => ?_, fun unfilled => ?_, own, fun one => ?_⟩
    · by_cases recorded : mod.record.slotOfExport.get name = some slot.id
      · have same : host.hostSide mod.record name = host.executionOf (.slot slot.id) := by rw [hostSide, recorded]
        exact same ▸ ResolvedIntent.le_widen_left ..
      · exact ResolvedIntent.le_widen_iff.mpr (heard.missed slot filled recorded)
    · have default : host.filledSide mod.manifest name = manifestDefault host.execution := by rw [filledSide, unfilled]; rfl
      exact default ▸ (sides (by simp [unfilled])).1
    · rw [validator_eq]
      refine le_antisymm (ResolvedIntent.widen_le (sides one).2 ?_) (ResolvedIntent.widen_le (sides one).1 own)
      by_cases refused : ∃ exports named, mod.manifest.entry = .refused exports named
      · obtain ⟨exports, named, refused⟩ := refused
        exact ResolvedIntent.le_widen_iff.mpr ((heard.refused exports named refused).2 one)
      · rw [← reads fun exports named is => refused ⟨exports, named, is⟩]
        exact ResolvedIntent.le_widen_right ..

theorem fireWeighed_iff {mods : LoadedMods} {hook : JSString} :
    host.FireWeighed mods hook (host.fanOutIntent mods.records hook) ↔ host.FireHeard mods hook := by
  rw [fanOutIntent_loaded]
  constructor
  · exact fun weighed => ⟨fun _ => ResolvedIntent.le_widenAll_iff.mp weighed.declared,
      fun mod member handled _ => ResolvedIntent.le_widenAll_iff.mp (weighed.handlers mod member handled)⟩
  · intro heard
    refine ⟨?_, fun mod member handled => ?_⟩
    · by_cases listed : hook ∈ host.hooks.keys
      · rw [hookExecution_listed listed, ResolvedIntent.le_widenAll_iff]
        exact .of_mem List.mem_cons_self
      · exact ResolvedIntent.le_widenAll_iff.mpr (heard.synthesized listed)
    · rw [ResolvedIntent.le_widenAll_iff]
      by_cases indexed : hook ∈ mod.indexed
      · refine .of_mem (List.mem_cons_of_mem _ (List.mem_map.mpr ⟨mod, List.mem_filter.mpr ⟨member, ?_⟩, rfl⟩))
        exact decide_eq_true indexed
      · exact heard.late mod member handled indexed

end HostManifest

/-- A call the pool routes by its intent: into an export of one of its mods, or to the handlers of a hook. -/
inductive PoolCall (mods : LoadedMods) where
  | invokeExport (mod : LoadedMod) (member : mod ∈ mods.mods) (name : JSString)
  | fireHook (hook : JSString)

namespace PoolCall

variable {mods : LoadedMods} (host : HostManifest)

/-- The intent a call is routed with is no less than what each party to it asks for. -/
def Weighed : PoolCall mods → Prop
  | .invokeExport mod _ name => host.InvokeWeighed mod.manifest name (host.callIntent mods.records mod.name name)
  | .fireHook hook => host.FireWeighed mods hook (host.fanOutIntent mods.records hook)

def Heard : PoolCall mods → Prop
  | .invokeExport mod _ name => host.InvokeHeard mod name
  | .fireHook hook => host.FireHeard mods hook

/-- A call is routed with no less than each party to it asks for exactly where the slots, hooks and mods that the pool
does not look at ask for no more than those it does; a mod is always placed with no less than its exports ask for. -/
theorem weighed_iff (call : PoolCall mods) :
    (call.Weighed host ∧ ∀ mod ∈ mods.mods, ∀ name, mod.manifest.executionOf name ≤ mod.manifest.aggregateExecution) ↔
      call.Heard host := by
  refine (and_iff_left fun mod _ name => mod.manifest.executionOf_le_aggregate name).trans ?_
  cases call with
  | invokeExport mod member name =>
    rw [Weighed, host.callIntent_loaded member name]
    exact HostManifest.invokeWeighed_iff
  | fireHook hook => exact HostManifest.fireWeighed_iff

end PoolCall

/-- A hook that only an event-typed slot declares, as a long call, is fired as a brief one. -/
theorem PoolCall.slot_hook_fired_brief : ¬ ∀ (host : HostManifest) (mods : LoadedMods) (call : PoolCall mods),
    call.Weighed host ∧ ∀ mod ∈ mods.mods, ∀ name, mod.manifest.executionOf name ≤ mod.manifest.aggregateExecution := by
  intro weighed
  let slot : Slot := ⟨js "on-save", [hookSlotAccept], none, none, some ⟨some .long, none⟩, none, by decide⟩
  let mod : LoadedMod := ⟨js "saver", .worker 0, 0, ⟨none, .plain, [(js "on-save", .arr [.obj [(js "handler", .str (js "onSave"))]])]⟩,
    [js "on-save"], [js "on-save"]⟩
  have fired := (weighed ⟨none, [], [slot]⟩ ⟨[mod], by decide⟩ (.fireHook (js "on-save"))).1
  exact absurd fired.declared (by decide)

end Xript
