import Xript.Score.Score

namespace Xript

namespace Score

structure MetricDiff (ι : Type) where
  baseline : F64
  current : F64
  delta : F64
  baselineTotal : Option Nat
  currentTotal : Option Nat
  gained : List ι
  lost : List ι

structure Movement where
  baseline : F64
  current : F64
  delta : F64

structure IntegrityDiff where
  baselineViolations : Nat
  currentViolations : Nat
  introduced : List JSString
  fixed : List JSString

structure CommandDiff where
  gained : List JSString
  lost : List JSString
  ungated : List JSString
  narrowed : List JSString

structure SignalDiff where
  shared : List JSString
  baselineOnly : List JSString
  currentOnly : List JSString
  unshared : Record F64
  note : Option JSString

inductive Direction where
  | improved
  | regressed
  | unchanged

structure DeltaGate where
  minDelta : F64
  passed : Bool

structure ScoreDiff where
  direction : Direction
  headline : Movement
  capacity : MetricDiff CapacitySurface
  slots : MetricDiff JSString
  capabilities : MetricDiff JSString
  integrity : IntegrityDiff
  commands : CommandDiff
  signals : SignalDiff
  gate : Option DeltaGate

def round3 (n : F64) : F64 := (mathRound (n.mul (.ofNat 1000))).div (.ofNat 1000)

def metricDiff (baseline current : UtilizationMetric) : MetricDiff JSString where
  baseline := round3 baseline.score
  current := round3 current.score
  delta := round3 (current.score.sub baseline.score)
  baselineTotal := some baseline.total
  currentTotal := some current.total
  gained := current.used.filter (· ∉ baseline.used)
  lost := current.unused.filter (· ∉ baseline.unused)

def capacityDiff (baseline current : CapacityMetric) : MetricDiff CapacitySurface where
  baseline := round3 baseline.score
  current := round3 current.score
  delta := round3 (current.score.sub baseline.score)
  baselineTotal := none
  currentTotal := none
  gained := current.exposed.filter (· ∉ baseline.exposed)
  lost := current.absent.filter (· ∉ baseline.absent)

def commandDiff (before after : CommandSurface) : CommandDiff where
  gained := after.slots.filter (· ∉ before.slots)
  lost := before.slots.filter (· ∉ after.slots)
  ungated := after.slots.filter fun id => id ∈ before.gated ∧ id ∉ after.gated
  narrowed := after.singular.filter fun id => id ∈ before.slots ∧ id ∉ before.singular

/-- The signal set a result carries, or the one its capacity surfaces amount to. -/
def signalsOf (result : ScoreResult) : Record F64 :=
  if result.signals ≠ [] then result.signals
  else capacitySurfaces.map fun surface => (surface.name, F64.ofNat (if surface ∈ result.capacity.exposed then 1 else 0))

def pick (shared : List JSString) (signals : Record F64) : Record F64 :=
  shared.filterMap fun name => (Record.get signals name).map fun value => (name, value)

/-- `shared` counts the signals of both sides; `only` takes each side's own name and score. -/
def signalNote (shared : Nat) (baselineOnly : List JSString) (currentOnly : List (JSString × F64)) : Option JSString :=
  let noteParts := currentOnly.map (fun entry => js "baseline lacks signal '" ++ entry.1 ++ js "'") ++
    baselineOnly.map fun name => js "current no longer carries signal '" ++ name ++ js "'"
  if noteParts = [] then none
  else some (List.intercalate (js "; ") noteParts ++ js "; composite compared on " ++ decimal shared ++
    js " shared signal" ++ (if shared = 1 then [] else js "s") ++
    currentOnly.flatMap fun entry => js "; new signal scores " ++ (round3 entry.2).toText)

def diffScores (baseline current : ScoreResult) (minDelta : Option F64) : ScoreDiff :=
  let introduced := current.integrity.violations.filter (· ∉ baseline.integrity.violations)
  let fixed := baseline.integrity.violations.filter (· ∉ current.integrity.violations)
  let baselineSignals := signalsOf baseline
  let currentSignals := signalsOf current
  let shared := currentSignals.keys.filter (· ∈ baselineSignals.keys)
  let baselineOnly := baselineSignals.filter fun entry => entry.1 ∉ currentSignals.keys
  let currentOnly := currentSignals.filter fun entry => entry.1 ∉ baselineSignals.keys
  let baselineHeadline := mathRound (F64.mul (.ofNat 100) (composite (pick shared baselineSignals)))
  let currentHeadline := mathRound (F64.mul (.ofNat 100) (composite (pick shared currentSignals)))
  let headlineDelta := currentHeadline.sub baselineHeadline
  { direction :=
      if introduced ≠ [] ∨ F64.lt headlineDelta (.ofNat 0) then .regressed
      else if F64.lt (.ofNat 0) headlineDelta then .improved else .unchanged
    headline := ⟨baselineHeadline, currentHeadline, headlineDelta⟩
    capacity := capacityDiff baseline.capacity current.capacity
    slots := metricDiff baseline.slots current.slots
    capabilities := metricDiff baseline.capabilities current.capabilities
    integrity := ⟨baseline.integrity.violations.length, current.integrity.violations.length, introduced, fixed⟩
    commands := commandDiff baseline.commands current.commands
    signals :=
      { shared
        baselineOnly := Record.keys baselineOnly
        currentOnly := Record.keys currentOnly
        unshared := (baselineOnly ++ currentOnly).map fun entry => (entry.1, round3 entry.2)
        note := signalNote shared.length (Record.keys baselineOnly) currentOnly }
    gate := minDelta.map fun minDelta => ⟨minDelta, introduced.isEmpty && F64.le minDelta headlineDelta⟩ }

variable {ι : Type}

/-- What one list gains is what the other loses, as sets and in both directions. -/
structure Swapped (gained lost gainedBack lostBack : List ι) : Prop where
  forth : ∀ id, id ∈ gained ↔ id ∈ lostBack
  back : ∀ id, id ∈ gainedBack ↔ id ∈ lost

/-- The entries gained or lost are those used on one side and not on the other. -/
structure Moved (before after gained lost : List ι) : Prop where
  gained : ∀ id, id ∈ gained ↔ id ∈ after ∧ id ∉ before
  lost : ∀ id, id ∈ lost ↔ id ∈ before ∧ id ∉ after

/-- The diff of two results read one way and the other. -/
structure ReadsBothWays (a b : ScoreResult) (there back : ScoreDiff) : Prop where
  slots : Swapped there.slots.gained there.slots.lost back.slots.gained back.slots.lost
  capabilities : Swapped there.capabilities.gained there.capabilities.lost back.capabilities.gained back.capabilities.lost
  capacity : Swapped there.capacity.gained there.capacity.lost back.capacity.gained back.capacity.lost
  commands : Swapped there.commands.gained there.commands.lost back.commands.gained back.commands.lost
  integrity : Swapped there.integrity.introduced there.integrity.fixed back.integrity.introduced back.integrity.fixed
  slotsMoved : Moved a.slots.used b.slots.used there.slots.gained there.slots.lost
  capabilitiesMoved : Moved a.capabilities.used b.capabilities.used there.capabilities.gained there.capabilities.lost

/-- A surface's entries fall into the used and the unused. -/
structure Parts (own used unused : List ι) : Prop where
  inside : ∀ id, id ∈ used → id ∈ own
  unused : ∀ id, id ∈ unused ↔ id ∈ own ∧ id ∉ used

theorem Parts.of_filter (own : List ι) (isUsed : ι → Bool) :
    Parts own (own.filter isUsed) (own.filter fun id => !isUsed id) where
  inside := fun id member => (List.mem_filter.mp member).1
  unused := fun id => by
    rw [List.mem_filter, List.mem_filter, Bool.not_eq_true', not_and, Bool.not_eq_true]
    exact and_congr_right fun member => ⟨fun off _ => off, fun off => off member⟩

theorem utilization_parts (own : List JSString) (isUsed : JSString → Bool) :
    Parts own (utilization own isUsed).used (utilization own isUsed).unused where
  inside := fun id member => (List.mem_filter.mp member).1
  unused := fun id => by simp only [utilization, List.mem_filter, decide_eq_true_eq]

theorem mem_newly {s t : List ι} [DecidablePred (· ∉ t)] {id : ι} : id ∈ s.filter (· ∉ t) ↔ id ∈ s ∧ id ∉ t := by
  rw [List.mem_filter, decide_eq_true_eq]

/-- Lists taken from the parts of one surface: what is newly unused there is what was used and is no more. -/
theorem Parts.newly_unused {own used unused own' used' unused' : List ι} [DecidablePred (· ∉ unused)]
    (before : Parts own used unused) (after : Parts own' used' unused') (same : ∀ id, id ∈ own ↔ id ∈ own') (id : ι) :
    id ∈ unused'.filter (· ∉ unused) ↔ id ∈ used ∧ id ∉ used' := by
  rw [mem_newly, after.unused, before.unused, ← same]
  have inside := before.inside id
  tauto

/-- Where each newly unused entry was used and each entry no more used is newly unused, both ways, the surfaces agree. -/
theorem Parts.same_of_moved {own used unused own' used' unused' : List ι} [DecidablePred (· ∉ unused)]
    [DecidablePred (· ∉ unused')] (before : Parts own used unused) (after : Parts own' used' unused') (there : ∀ id, id ∈ unused'.filter (· ∉ unused) ↔ id ∈ used ∧ id ∉ used')
    (back : ∀ id, id ∈ unused.filter (· ∉ unused') ↔ id ∈ used' ∧ id ∉ used) (id : ι) : id ∈ own ↔ id ∈ own' := by
  have forth := there id
  have again := back id
  rw [mem_newly, after.unused, before.unused] at forth
  rw [mem_newly, after.unused, before.unused] at again
  have inside := before.inside id
  have inside' := after.inside id
  tauto

theorem metricDiff_swapped_iff {own own' : List JSString} {a b : UtilizationMetric} (before : Parts own a.used a.unused)
    (after : Parts own' b.used b.unused) :
    (Swapped (metricDiff a b).gained (metricDiff a b).lost (metricDiff b a).gained (metricDiff b a).lost ∧
      Moved a.used b.used (metricDiff a b).gained (metricDiff a b).lost) ↔ ∀ id, id ∈ own ↔ id ∈ own' := by
  constructor
  · rintro ⟨swapped, moved⟩
    refine before.same_of_moved after moved.lost fun id => ?_
    exact (swapped.forth id).symm.trans (moved.gained id)
  · intro same
    have lost := before.newly_unused after same
    have lostBack := after.newly_unused before fun id => (same id).symm
    exact ⟨⟨fun id => mem_newly.trans (lostBack id).symm, fun id => mem_newly.trans (lost id).symm⟩,
      ⟨fun id => mem_newly, lost⟩⟩

theorem capacityDiff_swapped (host host' : HostManifest) :
    Swapped (capacityDiff (capacityOf host) (capacityOf host')).gained (capacityDiff (capacityOf host) (capacityOf host')).lost
      (capacityDiff (capacityOf host') (capacityOf host)).gained (capacityDiff (capacityOf host') (capacityOf host)).lost := by
  have before := Parts.of_filter capacitySurfaces (surfaceExposed host)
  have after := Parts.of_filter capacitySurfaces (surfaceExposed host')
  exact ⟨fun id => mem_newly.trans (after.newly_unused before (fun _ => Iff.rfl) id).symm,
    fun id => mem_newly.trans (before.newly_unused after (fun _ => Iff.rfl) id).symm⟩

/-- A diff reads the same both ways exactly where the two hosts have the same slots and the same capabilities of their
own. -/
theorem diffScores_readsBothWays_iff (analyses : Analyses) (host host' : HostManifest) (mods mods' : List ModManifest)
    (options options' : ScoreOptions) (minDelta minDelta' : Option F64) :
    ReadsBothWays (scoreManifests analyses host mods options) (scoreManifests analyses host' mods' options')
        (diffScores (scoreManifests analyses host mods options) (scoreManifests analyses host' mods' options') minDelta)
        (diffScores (scoreManifests analyses host' mods' options') (scoreManifests analyses host mods options) minDelta') ↔
      (∀ id, id ∈ ownSlots host options ↔ id ∈ ownSlots host' options') ∧
        ∀ name, name ∈ ownCaps host options ↔ name ∈ ownCaps host' options' := by
  have slots := @metricDiff_swapped_iff _ _ (scoreManifests analyses host mods options).slots
    (scoreManifests analyses host' mods' options').slots (utilization_parts _ _) (utilization_parts _ _)
  have capabilities := @metricDiff_swapped_iff _ _ (scoreManifests analyses host mods options).capabilities
    (scoreManifests analyses host' mods' options').capabilities (utilization_parts _ _) (utilization_parts _ _)
  rw [← slots, ← capabilities]
  constructor
  · intro both
    exact ⟨⟨both.slots, both.slotsMoved⟩, ⟨both.capabilities, both.capabilitiesMoved⟩⟩
  · rintro ⟨⟨slots, slotsMoved⟩, ⟨capabilities, capabilitiesMoved⟩⟩
    exact ⟨slots, capabilities, capacityDiff_swapped host host', ⟨fun _ => Iff.rfl, fun _ => Iff.rfl⟩,
      ⟨fun _ => Iff.rfl, fun _ => Iff.rfl⟩, slotsMoved, capabilitiesMoved⟩

def quiet : Analyses := ⟨fun _ => [], fun _ _ => [], fun _ => []⟩

def bareHost : HostManifest := ⟨[], [], [], [], [], [], [], []⟩

/-- The bare host with one slot added to it, which no mod fills. -/
def slottedHost : HostManifest :=
  { bareHost with slots := [⟨some (js "panel"), some [js "text/html"], none, none, none, false⟩] }

/-- A slot added and never filled is listed as lost. -/
theorem diffScores_added_slot :
    let a := scoreManifests quiet bareHost [] ⟨none, [], []⟩
    let b := scoreManifests quiet slottedHost [] ⟨none, [], []⟩
    ¬ ReadsBothWays a b (diffScores a b none) (diffScores b a none) := by
  intro a b both
  have listed : js "panel" ∈ (diffScores a b none).slots.lost := by decide
  have used : js "panel" ∈ a.slots.used := ((both.slotsMoved.lost _).1 listed).1
  cases used

end Score

end Xript
