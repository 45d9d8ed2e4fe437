import Xript.Extends.Tame

namespace Xript

open Collecting

/-- A map block as JSON text gives one, with ids no object inherits. -/
def TameMap (value : Json) : Prop := ∃ r, value = .obj r ∧ Record.Ordered r ∧ PlainKeys r

def TameSlots (value : Json) : Prop := ∃ items, value = .arr items

def TameDeclarations (value : Json) : Prop := ∃ r, value = .obj r ∧ PlainDeclarations r

def TameExecution (value : Json) : Prop := ∃ r, value = .obj r ∧ (Record.keys r).Nodup

/-- What a manifest has under a key, if anything, is of a kind. -/
def Holds (manifest : Record Json) (key : JSString) (kind : Json → Prop) : Prop :=
  ∀ value, Record.get manifest key = some value → kind value

/-- A manifest whose blocks have the types its schema gives them, under ids no object inherits. -/
structure TameManifest (manifest : Record Json) : Prop where
  distinct : (Record.keys manifest).Nodup
  own : js "__proto__" ∉ Record.keys manifest
  maps : ∀ key ∈ resolveMapKeys, Holds manifest key TameMap
  slots : Holds manifest (js "slots") TameSlots
  formats : Holds manifest (js "formats") TameDeclarations
  vocabularies : Holds manifest (js "vocabularies") TameDeclarations
  execution : Holds manifest (js "execution") TameExecution

/-- What a manifest has under a block's key once the block is merged over it. -/
def settled (base : Record Json) (block : Block) : Option Json := block.2.or (Record.get base block.1)

def AlikeBlock (base : Record Json) (block other : Block) : Prop :=
  block.1 = other.1 ∧ settled base block = settled base other

theorem Record.Ordered.assign {β : Type} {r : Record β} (ordered : Ordered r) (key : JSString) (value : β) :
    Ordered (Record.assign r key value) := by
  unfold Record.assign
  split
  · exact ordered
  · exact ordered.set key value

theorem PlainKeys.proto {β : Type} {r : Record β} (plain : PlainKeys r) : js "__proto__" ∉ Record.keys r :=
  fun inside => plain _ inside (by decide +kernel)

/-- The validator's merge of a map block over none is the block. -/
theorem validatorMergeMaps_none {r : Record Json} (ordered : Record.Ordered r) (plain : PlainKeys r) (mapKey : JSString) :
    validatorMergeMaps none (some (.obj r)) mapKey = .ok r := by
  have steps : ∀ (rest made : Record Json), PlainKeys rest →
      rest.foldlM (fun merged entry =>
        mergeEntry validatorPolicy mapKey (validatorPolicy.lookup [] entry.1) merged entry) made =
        (.ok (rest.foldl (fun merged entry => Record.set merged entry.1 entry.2) made) : Except ManifestError _) := by
    intro rest
    induction rest with
    | nil => intro made _; rfl
    | cons entry rest ih =>
      intro made plainRest
      have plainId := plainRest entry.1 (List.mem_cons_self ..)
      have proto : entry.1 ≠ js "__proto__" := fun same => plainRest.proto (same ▸ List.mem_cons_self ..)
      have first : mergeEntry validatorPolicy mapKey (validatorPolicy.lookup [] entry.1) made entry =
          .ok (Record.set made entry.1 entry.2) := by
        rw [lookup_plain plainId, ← Record.assign_plain proto]
        rfl
      rw [List.foldlM_cons, first]
      exact ih _ fun key inside => plainRest key (List.mem_cons_of_mem _ inside)
  show r.foldlM _ [] = _
  exact (steps r [] plain).trans (congrArg Except.ok (Record.Ordered.rebuilt (r := []) ordered))

theorem mirrors_mergeMaps {base child : Record Json} (distinct : (Record.keys child).Nodup) (plain : PlainKeys child)
    (mapKey : JSString) :
    Mirrors Eq (runtimeMergeMaps (.obj base) (.obj child) mapKey)
      (validatorMergeMaps (some (.obj base)) (some (.obj child)) mapKey) := by
  refine Mirrors.foldlM (fun made rest => (Record.keys rest).Nodup ∧ PlainKeys rest ∧
    ∀ key ∈ Record.keys rest, (key ∈ Record.keys made ↔ key ∈ Record.keys base)) ?_ ?_
    ⟨distinct, plain, fun key _ => Iff.rfl⟩
  · rintro made entry rest ⟨-, plainRest, known⟩
    have here := known entry.1 (List.mem_cons_self ..)
    have alike : (if entry.1 ∈ Record.keys made then some ((Record.get base entry.1).elim Member.other .own) else none) =
        validatorPolicy.lookup base entry.1 := by
      rw [lookup_plain (plainRest entry.1 (List.mem_cons_self ..))]
      show _ = (Record.get base entry.1).map Member.own
      by_cases inBase : entry.1 ∈ Record.keys base
      · obtain ⟨value, found⟩ := Option.isSome_iff_exists.mp (Record.get_isSome.mpr inBase)
        rw [if_pos (here.mpr inBase), found]
        rfl
      · rw [if_neg fun inMade => inBase (here.mp inMade), Record.get_eq_none.2 inBase]
        rfl
    show Mirrors Eq (mergeEntry runtimePolicy mapKey (if entry.1 ∈ Record.keys made then
      some ((Record.get base entry.1).elim Member.other .own) else none) made entry) _
    rw [alike]
    exact mirrors_mergeEntry _ _ _ _
  · rintro made entry rest ⟨distinctRest, plainRest, known⟩ next returns
    have ⟨absent, later⟩ := List.nodup_cons.mp distinctRest
    refine ⟨later, fun key inside => plainRest key (List.mem_cons_of_mem _ inside), fun key inside => ?_⟩
    have apart : key ≠ entry.1 := fun same => absent (same ▸ inside)
    rw [← known key (List.mem_cons_of_mem _ inside)]
    rcases returns_mergeEntry returns with rfl | ⟨value, rfl⟩
    · exact Iff.rfl
    · rw [← Record.get_isSome, Record.get_assign_of_ne apart, Record.get_isSome]

theorem returns_mergeMaps {base child made : Record Json} {mapKey : JSString} (ordered : Record.Ordered base)
    (plainBase : PlainKeys base) (plainChild : PlainKeys child)
    (returns : Returns (runtimeMergeMaps (.obj base) (.obj child) mapKey) made) :
    Record.Ordered made ∧ PlainKeys made := by
  refine foldlM_keeps (fun made => Record.Ordered made ∧ PlainKeys made) ?_ ⟨ordered, plainBase⟩ returns
  rintro made entry inside ⟨old, plain⟩ next step
  rcases returns_mergeEntry step with rfl | ⟨value, rfl⟩
  · exact ⟨old, plain⟩
  · exact ⟨old.assign _ _, Record.keys_assign (plainChild entry.1 (List.mem_map_of_mem inside)) plain⟩

section

variable {base child : Record Json}

theorem mirrors_map {key : JSString} (tameBase : Holds base key TameMap) (tameChild : Holds child key TameMap) :
    Mirrors (AlikeBlock base) (runtimeMap base child key)
      (validatorBlock (fun baseMap childMap => do
        let merged ← validatorMergeMaps baseMap childMap key
        return .obj merged) base child key) := by
  unfold runtimeMap validatorBlock
  cases inBase : Record.get base key with
  | none =>
    have noBase := Record.get_eq_none.1 inBase
    cases inChild : Record.get child key with
    | none =>
      rw [if_neg (not_or.mpr ⟨noBase, Record.get_eq_none.1 inChild⟩)]
      exact .pure ⟨rfl, rfl⟩
    | some value =>
      obtain ⟨r, rfl, ordered, plain⟩ := tameChild value inChild
      rw [if_pos (Or.inr (Record.mem_keys_of_get inChild))]
      simp only [validatorMergeMaps_none ordered plain]
      exact .pure ⟨rfl, rfl⟩
  | some value =>
    obtain ⟨b, rfl, orderedBase, -⟩ := tameBase value inBase
    rw [if_pos (Or.inl (Record.mem_keys_of_get inBase))]
    cases inChild : Record.get child key with
    | none => exact .pure ⟨rfl, inBase⟩
    | some value =>
      obtain ⟨c, rfl, ordered, plain⟩ := tameChild value inChild
      rw [bind_assoc]
      exact (mirrors_mergeMaps ordered.distinct plain key).bind_same fun merged _ => .pure ⟨rfl, rfl⟩

theorem returns_map {key : JSString} (tameBase : Holds base key TameMap) (tameChild : Holds child key TameMap)
    {block : Block} (returns : Returns (runtimeMap base child key) block) :
    block.1 = key ∧ ∀ value, settled base block = some value → TameMap value := by
  unfold runtimeMap at returns
  split at returns
  · rename_i baseMap childMap inBase inChild
    obtain ⟨b, rfl, ordered, plainBase⟩ := tameBase _ inBase
    obtain ⟨c, rfl, -, plainChild⟩ := tameChild _ inChild
    obtain ⟨merged, merging, returns⟩ := returns_bind returns
    obtain rfl := returns_pure returns
    refine ⟨rfl, fun value same => ?_⟩
    cases same
    exact ⟨merged, rfl, returns_mergeMaps ordered plainBase plainChild merging⟩
  · rename_i childMap inBase inChild
    obtain rfl := returns_pure returns
    refine ⟨rfl, fun value same => ?_⟩
    cases same
    exact tameChild _ inChild
  · obtain rfl := returns_pure returns
    exact ⟨rfl, fun value same => tameBase value same⟩

theorem isArrayValue_iff {key : JSString} (tame : Holds base key TameSlots) :
    isArrayValue (Record.get base key) = true ↔ key ∈ Record.keys base := by
  rw [← Record.get_isSome]
  cases found : Record.get base key with
  | none => simp [isArrayValue]
  | some value =>
    obtain ⟨items, rfl⟩ := tame value found
    simp [isArrayValue]

theorem isObjectValue_iff {key : JSString} (tame : Holds base key TameDeclarations) :
    isObjectValue (Record.get base key) = true ↔ key ∈ Record.keys base := by
  rw [← Record.get_isSome]
  cases found : Record.get base key with
  | none => simp [isObjectValue]
  | some value =>
    obtain ⟨r, rfl, -⟩ := tame value found
    simp [isObjectValue]

theorem mirrors_slots (tameBase : Holds base (js "slots") TameSlots) (tameChild : Holds child (js "slots") TameSlots) :
    Mirrors (AlikeBlock base) (runtimeSlots base child)
      (validatorBlock (fun baseSlots childSlots => do
        let merged ← mergeSlots validatorPolicy (arrayOr baseSlots) (arrayOr childSlots)
        return .arr merged) base child (js "slots")) := by
  unfold runtimeSlots validatorBlock
  simp only [isArrayValue_iff tameBase, isArrayValue_iff tameChild]
  split
  · rw [bind_assoc]
    exact (mirrors_mergeSlots _ _).bind_same fun merged _ => .pure ⟨rfl, rfl⟩
  · exact .pure ⟨rfl, rfl⟩

theorem returns_slots (tameBase : Holds base (js "slots") TameSlots) {block : Block} (returns : Returns (runtimeSlots base child) block) :
    block.1 = js "slots" ∧ ∀ value, settled base block = some value → TameSlots value := by
  unfold runtimeSlots at returns
  simp only at returns
  split at returns
  · obtain ⟨merged, -, returns⟩ := returns_bind returns
    obtain rfl := returns_pure returns
    refine ⟨rfl, fun value same => ?_⟩
    cases same
    exact ⟨merged, rfl⟩
  · obtain rfl := returns_pure returns
    exact ⟨rfl, fun value same => tameBase value same⟩

theorem PlainDeclarations.of_tame {key : JSString}
    (tame : Holds base key TameDeclarations) :
    PlainDeclarations (objectOr (Record.get base key)) := by
  cases found : Record.get base key with
  | none => exact .nil
  | some value =>
    obtain ⟨r, rfl, plain⟩ := tame value found
    exact plain

theorem mirrors_declarations {block : JSString} (label : JSString)
    {mergeR : Member → Record Json → JSString → RuntimeMerge (Record Json)}
    {mergeV : Member → Record Json → JSString → Except ManifestError (Record Json)} (alike : MergesAlike mergeR mergeV)
    (tameBase : Holds base block TameDeclarations)
    (tameChild : Holds child block TameDeclarations) :
    Mirrors (AlikeBlock base)
      (runtimeDeclarations (mergeDeclarations runtimePolicy label block mergeR) block base child)
      (validatorBlock (fun baseBlock childBlock => do
        let merged ← mergeDeclarations validatorPolicy label block mergeV baseBlock childBlock
        return .obj merged) base child block) := by
  unfold runtimeDeclarations validatorBlock
  simp only [isObjectValue_iff tameBase, isObjectValue_iff tameChild]
  split
  · rw [bind_assoc]
    exact (mirrors_mergeDeclarations alike (.of_tame tameBase) (.of_tame tameChild)).bind_same fun merged _ => .pure ⟨rfl, rfl⟩
  · exact .pure ⟨rfl, rfl⟩

theorem returns_declarations {label block : JSString}
    {merge : Member → Record Json → JSString → RuntimeMerge (Record Json)} (brings : BringsNoName merge)
    (tameBase : Holds base block TameDeclarations)
    (tameChild : Holds child block TameDeclarations) {made : Block}
    (returns : Returns (runtimeDeclarations (mergeDeclarations runtimePolicy label block merge) block base child) made) :
    made.1 = block ∧ ∀ value, settled base made = some value → TameDeclarations value := by
  unfold runtimeDeclarations at returns
  split at returns
  · obtain ⟨merged, merging, returns⟩ := returns_bind returns
    obtain rfl := returns_pure returns
    refine ⟨rfl, fun value same => ?_⟩
    cases same
    exact ⟨merged, rfl, returns_mergeDeclarations brings (.of_tame tameBase) (.of_tame tameChild) merging⟩
  · obtain rfl := returns_pure returns
    exact ⟨rfl, tameBase⟩

end

end Xript
