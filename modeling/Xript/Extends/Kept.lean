import Xript.Extends.Names

namespace Xript

open Collecting

/-- The maps whose entries no manifest redeclares. -/
def uniqueMapKeys : List JSString := ["bindings", "capabilities", "hooks"].map js

/-- What a manifest declares is in another: its bindings, capabilities and hooks as it declares them, and every name. -/
structure Kept (manifest result : Record Json) : Prop where
  entries : ∀ mapKey ∈ uniqueMapKeys, ∀ id value, id ≠ js "__proto__" →
    Record.get (mapOf mapKey manifest) id = some value → Record.get (mapOf mapKey result) id = some value
  names : ∀ name : SharedName, name.Plain → Declares manifest name → Declares result name

theorem Kept.refl (manifest : Record Json) : Kept manifest manifest :=
  ⟨fun _ _ _ _ _ found => found, fun _ _ declares => declares⟩

theorem Kept.trans {a b c : Record Json} (first : Kept a b) (second : Kept b c) : Kept a c :=
  ⟨fun mapKey unique id value plain found => second.entries mapKey unique id value plain
      (first.entries mapKey unique id value plain found),
    fun name plain declares => second.names name plain (first.names name plain declares)⟩

/-- The objects among some slots have each key once. -/
def DistinctSlots (slots : List Json) : Prop :=
  ∀ slot ∈ slots, ∀ members, slot = .obj members → (Record.keys members).Nodup

/-- The objects of a manifest's blocks have each key once. -/
structure DistinctKeys (manifest : Record Json) : Prop where
  maps : ∀ mapKey ∈ resolveMapKeys, (Record.keys (mapOf mapKey manifest)).Nodup
  slots : DistinctSlots (slotsOf manifest)
  declarations : ∀ block, (Record.keys (declarationsOf block manifest)).Nodup

section

variable {f : Record Json → JSString × Json → RuntimeMerge (Record Json)} {id : JSString}

/-- A loop over other keys leaves a key alone. -/
theorem get_foldlM_other
    (frame : ∀ made entry next, entry.1 ≠ id → Gives (f made entry) next [] → Record.get next id = Record.get made id)
    {entries start result : Record Json} (absent : id ∉ Record.keys entries)
    (gives : Gives (entries.foldlM f start) result []) : Record.get result id = Record.get start id := by
  induction entries generalizing start with
  | nil => rw [gives_nil_pure gives]
  | cons entry entries ih =>
    rw [List.foldlM_cons] at gives
    obtain ⟨next, first, rest⟩ := gives_nil_bind gives
    have apart : entry.1 ≠ id ∧ id ∉ Record.keys entries := by
      simpa [Record.keys, eq_comm] using absent
    rw [ih apart.2 rest, frame start entry next apart.1 first]

/-- What a loop leaves under a key, the step at its entry did. -/
theorem get_foldlM_entry
    (frame : ∀ made entry next, entry.1 ≠ id → Gives (f made entry) next [] → Record.get next id = Record.get made id)
    {entries start result : Record Json} (distinct : (Record.keys entries).Nodup) {value : Json}
    (inside : (id, value) ∈ entries) (gives : Gives (entries.foldlM f start) result []) :
    ∃ made next, Gives (f made (id, value)) next [] ∧ Record.get made id = Record.get start id ∧
      Record.get result id = Record.get next id := by
  induction entries generalizing start with
  | nil => cases inside
  | cons entry entries ih =>
    rw [List.foldlM_cons] at gives
    obtain ⟨next, first, rest⟩ := gives_nil_bind gives
    obtain ⟨absent, distinct⟩ := List.nodup_cons.mp (show (entry.1 :: Record.keys entries).Nodup from distinct)
    rcases List.mem_cons.mp inside with rfl | later
    · exact ⟨start, next, first, rfl, get_foldlM_other frame absent rest⟩
    · have apart : entry.1 ≠ id := fun same => absent (same ▸ List.mem_map_of_mem later)
      obtain ⟨made, last, step, before, after⟩ := ih distinct later rest
      exact ⟨made, last, step, before.trans (frame start entry next apart first), after⟩

end

section

variable {base child merged : Record Json}

theorem get_mergeEntry_other {mapKey id : JSString} {known : Option Member} {made next : Record Json}
    {entry : JSString × Json} (apart : entry.1 ≠ id)
    (gives : Gives (mergeEntry runtimePolicy mapKey known made entry) next []) :
    Record.get next id = Record.get made id := by
  unfold mergeEntry at gives
  split at gives
  · rw [gives_nil_pure gives, Record.get_assign_of_ne apart.symm]
  · split at gives
    · rw [gives_nil_pure gives, Record.get_assign_of_ne apart.symm]
    · exact (conflict_not_nil gives).elim

/-- What a merge of maps makes of an id the child declares. -/
theorem get_mergeMaps_entry {target source : Json} {mapKey id : JSString} {made : Record Json}
    (distinct : (Record.keys (spread source)).Nodup) (gives : Gives (runtimeMergeMaps target source mapKey) made [])
    (plain : id ≠ js "__proto__") {value : Json} (stated : Record.get (spread source) id = some value) :
    id ∈ Record.keys made ∧ (mapKey ≠ js "types" →
      Record.get (spread target) id = none ∧ Record.get made id = some value) := by
  unfold runtimeMergeMaps at gives
  split at gives
  · cases gives
  · obtain ⟨before, next, step, same, after⟩ := get_foldlM_entry
      (fun _ _ _ apart gives => get_mergeEntry_other apart gives) distinct (Record.mem_of_get stated) gives
    simp only at step
    split at step
    · rename_i known
      unfold mergeEntry at step
      simp only at step
      split at step
      · rename_i made' refined
        obtain rfl := gives_nil_pure step
        have present : id ∈ Record.keys made := by
          rw [← Record.get_isSome, after, Record.get_isSome]
          exact mem_keys_assign_self plain _ _
        refine ⟨present, fun other => ?_⟩
        rw [if_neg other] at refined
        cases refined
      · exact (conflict_not_nil step).elim
    · rename_i unknown
      obtain rfl := gives_nil_pure step
      have found : Record.get made id = some value := after.trans (Record.get_assign_self plain _ _)
      exact ⟨Record.mem_keys_of_get found, fun _ => ⟨same.symm.trans (Record.get_eq_none.2 unknown), found⟩⟩

theorem get_mergeMaps_other {target source : Json} {mapKey id : JSString} {made : Record Json}
    (gives : Gives (runtimeMergeMaps target source mapKey) made []) (absent : id ∉ Record.keys (spread source)) :
    Record.get made id = Record.get (spread target) id := by
  unfold runtimeMergeMaps at gives
  split at gives
  · cases gives
  · exact get_foldlM_other (fun _ _ _ apart gives => get_mergeEntry_other apart gives) absent gives

/-- A map after a merge: every id of both sides, and under those of a map without redeclarations what they stand for. -/
theorem kept_map (ok : runtimeMerge base child = .ok merged) (distinct : DistinctKeys child) {mapKey : JSString}
    (isMap : mapKey ∈ resolveMapKeys) {id : JSString} (plain : id ≠ js "__proto__") {value : Json} :
    (Record.get (mapOf mapKey base) id = some value →
      id ∈ Record.keys (mapOf mapKey merged) ∧
        (mapKey ≠ js "types" → Record.get (mapOf mapKey merged) id = some value)) ∧
    (Record.get (mapOf mapKey child) id = some value →
      id ∈ Record.keys (mapOf mapKey merged) ∧
        (mapKey ≠ js "types" → Record.get (mapOf mapKey merged) id = some value)) := by
  obtain ⟨block, gives, found⟩ := (runtimeMerge_blocks ok).maps mapKey isMap
  have distinct := distinct.maps mapKey isMap
  unfold runtimeMap at gives
  split at gives
  · rename_i baseMap childMap inBase inChild
    obtain ⟨made, merging, gives⟩ := gives_nil_bind gives
    obtain rfl := gives_nil_pure gives
    have isMerged : mapOf mapKey merged = made := mapOf_some found
    rw [mapOf_some inChild] at distinct
    rw [isMerged, mapOf_some inBase, mapOf_some inChild]
    constructor
    · intro stated
      cases redeclared : Record.get (spread childMap) id with
      | none =>
        have same := get_mergeMaps_other merging (Record.get_eq_none.1 redeclared)
        exact ⟨Record.mem_keys_of_get (same.trans stated), fun _ => same.trans stated⟩
      | some other =>
        obtain ⟨present, unique⟩ := get_mergeMaps_entry distinct merging plain redeclared
        refine ⟨present, fun notTypes => ?_⟩
        cases (unique notTypes).1.symm.trans stated
    · intro stated
      obtain ⟨present, unique⟩ := get_mergeMaps_entry distinct merging plain stated
      exact ⟨present, fun notTypes => (unique notTypes).2⟩
  · rename_i childMap notInBase inChild
    obtain rfl := gives_nil_pure gives
    have isMerged : mapOf mapKey merged = spread childMap := mapOf_some found
    rw [isMerged, mapOf_none notInBase, mapOf_some inChild]
    exact ⟨nofun, fun stated => ⟨Record.mem_keys_of_get stated, fun _ => stated⟩⟩
  · rename_i notInChild
    obtain rfl := gives_nil_pure gives
    have isMerged : mapOf mapKey merged = mapOf mapKey base := by rw [mapOf, found]; rfl
    rw [isMerged, mapOf_none notInChild]
    exact ⟨fun stated => ⟨Record.mem_keys_of_get stated, fun _ => stated⟩, nofun⟩

end

section

theorem get_mergeMembers_other {base : Record Json} {key : JSString} : ∀ {members result : Record Json},
    key ∉ Record.keys members → Record.get (mergeMembers base result members) key = Record.get result key
  | [], _, _ => by rw [mergeMembers]
  | (other, value) :: members, result, absent => by
    have apart : key ≠ other ∧ key ∉ Record.keys members := by simpa [Record.keys] using absent
    rw [mergeMembers]
    split
    · exact get_mergeMembers_other apart.2
    · rw [get_mergeMembers_other apart.2, Record.get_assign_of_ne apart.1]

theorem get_mergeMembers {base : Record Json} {key : JSString} (plain : key ≠ js "__proto__") (unmarked : key ≠ js "refines")
    {value : Json} : ∀ {members result : Record Json}, (Record.keys members).Nodup → Record.get members key = some value →
    Record.get (mergeMembers base result members) key = some (mergeValue (Record.get base key) value)
  | [], _, _, stated => nomatch stated
  | (other, first) :: members, result, distinct, stated => by
    obtain ⟨absent, distinct⟩ := List.nodup_cons.mp (show (other :: Record.keys members).Nodup from distinct)
    rw [Record.get_cons] at stated
    rw [mergeMembers]
    by_cases here : key = other
    · subst here
      obtain rfl : first = value := Option.some.inj ((if_pos rfl).symm.trans stated)
      rw [if_neg unmarked, get_mergeMembers_other absent, Record.get_assign_self plain]
    · rw [if_neg here] at stated
      split
      · exact get_mergeMembers plain unmarked distinct stated
      · exact get_mergeMembers plain unmarked distinct stated

/-- A refined slot keeps the id the child refines it by. -/
theorem slotId_deepMerge {base members : Record Json} {id : JSString} (distinct : (Record.keys members).Nodup)
    (named : slotId (.obj members) = some id) : slotId (.obj (deepMerge base members)) = some id := by
  unfold slotId at named
  simp only at named
  split at named
  · rename_i other stated
    have merged : Record.get (deepMerge base members) (js "id") = some (.str other) := by
      rw [deepMerge, get_mergeMembers (by decide) (by decide) distinct stated, mergeValue]
      intro _ same
      cases same
    simp only [slotId, merged]
    exact named
  · cases named

theorem slotIds_modify {slots : List Json} {id : JSString} {members : Record Json} {i : Nat}
    (distinct : (Record.keys members).Nodup) (named : slotId (.obj members) = some id)
    (found : slots.findIdx? (fun other => slotId other = some id) = some i) :
    (slots.modify i fun other => .obj (deepMerge (spread other) members)).filterMap slotId = slots.filterMap slotId := by
  induction slots generalizing i with
  | nil => cases found
  | cons slot slots ih =>
    rw [List.findIdx?_cons] at found
    split at found
    · rename_i here
      obtain rfl := Option.some.inj found
      have same : slotId slot = some id := of_decide_eq_true here
      rw [List.modify_zero_cons, List.filterMap_cons, List.filterMap_cons, slotId_deepMerge distinct named, same]
    · obtain ⟨j, later, rfl⟩ := Option.map_eq_some_iff.mp found
      rw [List.modify_succ_cons, List.filterMap_cons, List.filterMap_cons, ih later]

/-- The slots made so far have the ids of the base's, and those of the child's are there or still to come. -/
theorem slotIds_mergeSlots {slots more made : List Json}
    (distinct : DistinctSlots more)
    (gives : Gives (mergeSlots runtimePolicy slots more) made []) {id : JSString}
    (member : id ∈ slots.filterMap slotId ∨ id ∈ more.filterMap slotId) : id ∈ made.filterMap slotId := by
  obtain ⟨last, loop, gives⟩ := gives_nil_bind gives
  obtain rfl := gives_nil_pure gives
  have inside := foldlM_gives_nil (fun (made : List Json × List JSString) rest =>
    DistinctSlots rest ∧
      (∀ id ∈ made.2, id ∈ made.1.filterMap slotId) ∧ (id ∈ made.1.filterMap slotId ∨ id ∈ rest.filterMap slotId))
    ?_ ⟨distinct, fun _ known => known, member⟩ loop
  · exact inside.2.2.resolve_right (by simp)
  · rintro made slot rest next ⟨distinct, seen, member⟩ step
    have later : DistinctSlots rest := fun other inside => distinct other (List.mem_cons_of_mem _ inside)
    unfold mergeSlot at step
    split at step
    · rename_i unnamed
      obtain rfl := gives_nil_pure step
      rw [List.filterMap_cons, unnamed] at member
      refine ⟨later, fun id known => ?_, member.imp_left fun known => ?_⟩
      · exact List.filterMap_append .. ▸ List.mem_append_left _ (seen id known)
      · exact List.filterMap_append .. ▸ List.mem_append_left _ known
    · rename_i slotName named
      rw [List.filterMap_cons, named] at member
      split at step
      · rename_i known
        split at step
        · rename_i slots refined
          obtain rfl := gives_nil_pure step
          unfold refineSlot at refined
          split at refined
          · rename_i members
            split at refined
            · obtain ⟨i, found, rfl⟩ := Option.map_eq_some_iff.mp refined
              have same := slotIds_modify (distinct _ (List.mem_cons_self ..) members rfl) named found
              refine ⟨later, fun id inside => same.symm ▸ seen id inside, ?_⟩
              rcases member with inside | inside
              · exact Or.inl (same.symm ▸ inside)
              · rcases List.mem_cons.mp inside with rfl | inside
                · exact Or.inl (same.symm ▸ seen _ known)
                · exact Or.inr inside
            · cases refined
          · cases refined
        · exact (conflict_not_nil step).elim
      · obtain rfl := gives_nil_pure step
        have appended : (made.1 ++ [slot]).filterMap slotId = made.1.filterMap slotId ++ [slotName] := by
          rw [List.filterMap_append, List.filterMap_cons, named, List.filterMap_nil]
        refine ⟨later, fun id inside => ?_, ?_⟩
        · rw [appended]
          rcases List.mem_cons.mp inside with rfl | inside
          · exact List.mem_append_right _ (List.mem_singleton_self _)
          · exact List.mem_append_left _ (seen id inside)
        · rw [appended]
          rcases member with inside | inside
          · exact Or.inl (List.mem_append_left _ inside)
          · rcases List.mem_cons.mp inside with rfl | inside
            · exact Or.inl (List.mem_append_right _ (List.mem_singleton_self _))
            · exact Or.inr inside

end

section

variable {base child merged : Record Json}

theorem kept_slots (ok : runtimeMerge base child = .ok merged) (distinct : DistinctKeys child) {id : JSString}
    (member : id ∈ (slotsOf base).filterMap slotId ∨ id ∈ (slotsOf child).filterMap slotId) :
    id ∈ (slotsOf merged).filterMap slotId := by
  obtain ⟨block, gives, found⟩ := (runtimeMerge_blocks ok).slots
  unfold runtimeSlots at gives
  simp only at gives
  split at gives
  · obtain ⟨slots, merging, gives⟩ := gives_nil_bind gives
    obtain rfl := gives_nil_pure gives
    have made : slotsOf merged = slots := by rw [slotsOf, found]; rfl
    rw [made]
    exact slotIds_mergeSlots distinct.slots merging member
  · rename_i neither
    obtain ⟨noBase, noChild⟩ := not_or.mp neither
    have inBase : slotsOf base = [] := arrayOr_of_not noBase
    have inChild : slotsOf child = [] := arrayOr_of_not noChild
    rw [inBase, inChild] at member
    cases member <;> contradiction

end

/-- A loop brings about what the step at one of its entries does, under what the steps keep. -/
theorem foldlM_brings {β γ : Type} {f : β → γ → RuntimeMerge β} (I P : β → Prop)
    (keeps : ∀ made entry next, I made → Returns (f made entry) next → I next)
    (stays : ∀ made entry next, P made → Returns (f made entry) next → P next) {entries : List γ} {entry : γ}
    (inside : entry ∈ entries) (brings : ∀ made next, I made → Returns (f made entry) next → P next) {start result : β}
    (initially : I start) (returns : Returns (entries.foldlM f start) result) : P result := by
  induction entries generalizing start with
  | nil => cases inside
  | cons first entries ih =>
    rw [List.foldlM_cons] at returns
    obtain ⟨next, step, rest⟩ := returns_bind returns
    rcases List.mem_cons.mp inside with rfl | member
    · exact foldlM_keeps P (fun made entry _ done next step => stays made entry next done step)
        (brings start next initially step) rest
    · exact ih member (keeps start first next initially step) rest

section

variable {name : JSString}

theorem mem_keys_mergeNodeEntry {baseNodes : Record Json} {label owner : JSString} {made next : Record Json}
    {entry : JSString × Json} (returns : Returns (mergeNodeEntry runtimePolicy baseNodes label owner made entry) next)
    (member : name ∈ Record.keys made) : name ∈ Record.keys next := by
  rcases returns_mergeNodeEntry returns with rfl | ⟨value, rfl⟩
  · exact member
  · exact mem_keys_assign_of_mem member

theorem mem_keys_foldl_assign {g : JSString × Json → Json} (plain : name ≠ js "__proto__") {entries start : Record Json}
    (member : name ∈ Record.keys start ∨ name ∈ Record.keys entries) :
    name ∈ Record.keys (entries.foldl (fun made entry => Record.assign made entry.1 (g entry)) start) := by
  induction entries generalizing start with
  | nil => exact member.resolve_right (nomatch ·)
  | cons entry entries ih =>
    refine ih ?_
    rcases member with old | new
    · exact Or.inl (mem_keys_assign_of_mem old)
    · rcases List.mem_cons.mp (show name ∈ entry.1 :: Record.keys entries from new) with rfl | later
      · exact Or.inl (mem_keys_assign_self plain _ _)
      · exact Or.inr later

/-- Merging nodes loses no name. -/
theorem mem_keys_mergeNodes {base child : Option Json} {label owner : JSString} {nodes : Record Json}
    (returns : Returns (mergeNodes runtimePolicy base child label owner) nodes) (plain : name ≠ js "__proto__")
    (member : name ∈ Record.keys (objectOr base) ∨ name ∈ Record.keys (objectOr child)) : name ∈ Record.keys nodes := by
  have bases : ∀ other, other ≠ js "__proto__" → other ∈ Record.keys (objectOr base) → other ∈ Record.keys
      ((objectOr base).foldl (fun made entry => Record.assign made entry.1 (withoutRefines entry.2)) []) :=
    fun other plain known => mem_keys_foldl_assign plain (Or.inr known)
  rcases member with known | new
  · exact foldlM_keeps (name ∈ Record.keys ·) (fun _ _ _ member _ step => mem_keys_mergeNodeEntry step member)
      (bases name plain known) returns
  · obtain ⟨entry, inside, rfl⟩ := List.mem_map.mp new
    refine foldlM_brings (fun made => entry.1 ∈ Record.keys (objectOr base) → entry.1 ∈ Record.keys made)
      (entry.1 ∈ Record.keys ·) ?_ (fun _ _ _ member step => mem_keys_mergeNodeEntry step member) inside ?_
      (bases entry.1 plain) returns
    · exact fun _ _ _ old step known => mem_keys_mergeNodeEntry step (old known)
    · intro made next old step
      by_cases known : entry.1 ∈ Record.keys (objectOr base)
      · exact mem_keys_mergeNodeEntry step (old known)
      · have unknown : runtimePolicy.lookup (objectOr base) entry.1 = none :=
          congrArg (Option.map Member.own) (Record.get_eq_none.2 known)
        simp only [mergeNodeEntry, unknown] at step
        exact returns_pure step ▸ mem_keys_assign_self plain _ _

/-- Merging declarations loses no node. -/
theorem nodes_mergeDeclaration {label owner : JSString} {base : Member} {child made : Record Json}
    (returns : Returns (mergeDeclaration runtimePolicy label base child owner) made) (plain : name ≠ js "__proto__")
    (member : name ∈ Record.keys (objectOr (base.get (js "nodes"))) ∨ name ∈ Record.keys (nodesOf (.obj child))) :
    name ∈ Record.keys (nodesOf (.obj made)) := by
  rcases returns_mergeDeclaration_nodes returns with ⟨nodes, found, merging⟩ | ⟨-, notInBase, notInChild⟩
  · have isMade : nodesOf (.obj made) = nodes := congrArg objectOr found
    rw [isMade]
    exact mem_keys_mergeNodes merging plain member
  · have noChild : nodesOf (.obj child) = [] := congrArg objectOr (Record.get_eq_none.2 notInChild)
    have noBase : base.get (js "nodes") = none := by
      cases base with
      | own value =>
        cases value with
        | obj members =>
          have missing : js "nodes" ∉ Record.keys members := by simpa [Member.has] using notInBase
          exact Record.get_eq_none.2 missing
        | _ => rfl
      | _ => rfl
    rw [noBase, noChild] at member
    rcases member with none | none <;> cases none

/-- A merge of declarations that loses no node. -/
def KeepsNodes (merge : Member → Record Json → JSString → RuntimeMerge (Record Json)) : Prop :=
  ∀ base child id made name, Returns (merge base child id) made → name ≠ js "__proto__" →
    name ∈ Record.keys (objectOr (base.get (js "nodes"))) ∨ name ∈ Record.keys (nodesOf (.obj child)) →
    name ∈ Record.keys (nodesOf (.obj made))

theorem DeclarationBlock.keepsNodes (block : DeclarationBlock) : KeepsNodes block.merge := by
  cases block with
  | formats => exact fun _ _ _ _ _ returns plain member => nodes_mergeDeclaration returns plain member
  | vocabularies => exact fun _ _ _ _ _ returns plain member => nodes_mergeDeclaration returns plain member

end

section

variable {merge : Member → Record Json → JSString → RuntimeMerge (Record Json)} {id : JSString}

theorem get_admitDeclaration_other {made next : Record Json} {entry : JSString × Json} (apart : entry.1 ≠ id)
    (gives : Gives (admitDeclaration merge made entry) next []) : Record.get next id = Record.get made id := by
  unfold admitDeclaration at gives
  split at gives
  · obtain ⟨declared, -, gives⟩ := gives_nil_bind gives
    rw [gives_nil_pure gives, Record.get_assign_of_ne apart.symm]
  · rw [gives_nil_pure gives, Record.get_assign_of_ne apart.symm]

theorem get_admitDeclaration (keeps : KeepsNodes merge) (plain : id ≠ js "__proto__") {made next : Record Json}
    {value : Json} (gives : Gives (admitDeclaration merge made (id, value)) next []) :
    ∃ declared, Record.get next id = some declared ∧ ∀ name, name ≠ js "__proto__" →
      name ∈ Record.keys (nodesOf value) → name ∈ Record.keys (nodesOf declared) := by
  unfold admitDeclaration at gives
  split at gives
  · rename_i members isObj
    obtain ⟨declared, merging, gives⟩ := gives_nil_bind gives
    obtain rfl := gives_nil_pure gives
    refine ⟨_, Record.get_assign_self plain _ _, fun name plainName member => ?_⟩
    have isObj : value = .obj members := isObj
    subst isObj
    exact keeps _ _ _ _ name ⟨[], merging⟩ plainName (Or.inr member)
  · obtain rfl := gives_nil_pure gives
    exact ⟨_, Record.get_assign_self plain _ _, fun _ _ member => member⟩

theorem get_mergeDeclarationEntry_other {label block : JSString} {base made next : Record Json} {entry : JSString × Json}
    (apart : entry.1 ≠ id) (gives : Gives (mergeDeclarationEntry runtimePolicy label block merge base made entry) next []) :
    Record.get next id = Record.get made id := by
  unfold mergeDeclarationEntry at gives
  split at gives
  · exact get_admitDeclaration_other apart gives
  · split at gives
    · split at gives
      · obtain ⟨declared, -, gives⟩ := gives_nil_bind gives
        rw [gives_nil_pure gives, Record.get_assign_of_ne apart.symm]
      · exact (conflict_not_nil gives).elim
    · exact (conflict_not_nil gives).elim

/-- What a merge of declarations makes of an id: a declaration with every node of both sides. -/
theorem get_mergeDeclarations (keeps : KeepsNodes merge) {label block : JSString} {base child : Option Json}
    {made : Record Json} (distinctBase : (Record.keys (objectOr base)).Nodup)
    (distinctChild : (Record.keys (objectOr child)).Nodup)
    (gives : Gives (mergeDeclarations runtimePolicy label block merge base child) made []) (plain : id ≠ js "__proto__") :
    (∀ old, Record.get (objectOr base) id = some old → ∃ declared, Record.get made id = some declared ∧
      ∀ name, name ≠ js "__proto__" → name ∈ Record.keys (nodesOf old) → name ∈ Record.keys (nodesOf declared)) ∧
    (∀ value, Record.get (objectOr child) id = some value → ∃ declared, Record.get made id = some declared ∧
      ∀ name, name ≠ js "__proto__" → name ∈ Record.keys (nodesOf value) → name ∈ Record.keys (nodesOf declared)) := by
  obtain ⟨kept, keeping, gives⟩ := gives_nil_bind gives
  have frame := fun made entry next apart gives => @get_mergeDeclarationEntry_other merge id label block (objectOr base) made next entry apart gives
  constructor
  · intro old known
    obtain ⟨before, next, step, -, after⟩ := get_foldlM_entry
      (fun _ _ _ apart gives => get_admitDeclaration_other apart gives) distinctBase (Record.mem_of_get known) keeping
    obtain ⟨admitted, stated, nodes⟩ := get_admitDeclaration keeps plain step
    cases redeclared : Record.get (objectOr child) id with
    | none =>
      have same := get_foldlM_other frame (Record.get_eq_none.1 redeclared) gives
      exact ⟨admitted, same.trans (after.trans stated), nodes⟩
    | some value =>
      obtain ⟨made', next, step, -, last⟩ := get_foldlM_entry frame distinctChild (Record.mem_of_get redeclared) gives
      have looked : runtimePolicy.lookup (objectOr base) id = some (.own old) := congrArg (Option.map Member.own) known
      simp only [mergeDeclarationEntry, looked] at step
      split at step
      · split at step
        · obtain ⟨declared, merging, step⟩ := gives_nil_bind step
          obtain rfl := gives_nil_pure step
          refine ⟨_, last.trans (Record.get_assign_self plain _ _), fun name plainName member => ?_⟩
          refine keeps _ _ _ _ name ⟨[], merging⟩ plainName (Or.inl ?_)
          cases old with
          | obj members => exact member
          | _ => cases member
        · exact (conflict_not_nil step).elim
      · exact (conflict_not_nil step).elim
  · intro value redeclared
    obtain ⟨made', next, step, -, last⟩ := get_foldlM_entry frame distinctChild (Record.mem_of_get redeclared) gives
    unfold mergeDeclarationEntry at step
    split at step
    · obtain ⟨declared, stated, nodes⟩ := get_admitDeclaration keeps plain step
      exact ⟨declared, last.trans stated, nodes⟩
    · split at step
      · split at step
        · rename_i members isObj _
          have isObj : value = .obj members := isObj
          subst isObj
          obtain ⟨declared, merging, step⟩ := gives_nil_bind step
          obtain rfl := gives_nil_pure step
          exact ⟨_, last.trans (Record.get_assign_self plain _ _), fun name plainName member =>
            keeps _ _ _ _ name ⟨[], merging⟩ plainName (Or.inr member)⟩
        · exact (conflict_not_nil step).elim
      · exact (conflict_not_nil step).elim

end

section

variable {base child merged : Record Json}

theorem merged_declarations (ok : runtimeMerge base child = .ok merged) (block : DeclarationBlock) :
    ∃ label made, Gives (runtimeDeclarations (mergeDeclarations runtimePolicy label block.key block.merge) block.key base
      child) made [] ∧ Record.get merged block.key = made.2.or (Record.get base block.key) := by
  have blocks := runtimeMerge_blocks ok
  cases block with
  | formats =>
    obtain ⟨made, gives, found⟩ := blocks.formats
    exact ⟨js "format", made, gives, found⟩
  | vocabularies =>
    obtain ⟨made, gives, found⟩ := blocks.vocabularies
    exact ⟨js "vocabulary", made, gives, found⟩

/-- A declaration of either side is in the merge, with every node. -/
theorem kept_declarations (ok : runtimeMerge base child = .ok merged) (distinctBase : DistinctKeys base)
    (distinctChild : DistinctKeys child) (block : DeclarationBlock) {id : JSString} (plain : id ≠ js "__proto__")
    {value : Json} (stated : Record.get (declarationsOf block base) id = some value ∨
      Record.get (declarationsOf block child) id = some value) :
    ∃ declared, Record.get (declarationsOf block merged) id = some declared ∧ ∀ name, name ≠ js "__proto__" →
      name ∈ Record.keys (nodesOf value) → name ∈ Record.keys (nodesOf declared) := by
  obtain ⟨label, made, gives, found⟩ := merged_declarations ok block
  unfold runtimeDeclarations at gives
  split at gives
  · obtain ⟨declarations, merging, gives⟩ := gives_nil_bind gives
    obtain rfl := gives_nil_pure gives
    have isMerged : declarationsOf block merged = declarations := by rw [declarationsOf, found]; rfl
    obtain ⟨ofBase, ofChild⟩ := get_mergeDeclarations block.keepsNodes (distinctBase.declarations block)
      (distinctChild.declarations block) merging plain
    rw [isMerged]
    exact stated.elim (ofBase value) (ofChild value)
  · rename_i neither
    obtain ⟨noBase, noChild⟩ := not_or.mp neither
    have inBase : declarationsOf block base = [] := objectOr_of_not noBase
    have inChild : declarationsOf block child = [] := objectOr_of_not noChild
    rw [inBase, inChild] at stated
    rcases stated with none | none <;> cases none

/-- A merge that succeeds keeps what both sides declare. -/
theorem kept_merge (ok : runtimeMerge base child = .ok merged) (distinctBase : DistinctKeys base)
    (distinctChild : DistinctKeys child) : Kept base merged ∧ Kept child merged := by
  have notTypes : ∀ mapKey ∈ uniqueMapKeys, mapKey ∈ resolveMapKeys ∧ mapKey ≠ js "types" := by decide
  constructor
  · refine ⟨fun mapKey unique id value plain stated => ?_, fun name plain declares => ?_⟩
    · obtain ⟨isMap, other⟩ := notTypes mapKey unique
      exact ((kept_map ok distinctChild isMap plain).1 stated).2 other
    · cases name with
      | entry mapKey id =>
        obtain ⟨value, stated⟩ := Option.isSome_iff_exists.mp (Record.get_isSome.mpr declares.2)
        exact ⟨declares.1, ((kept_map ok distinctChild declares.1 plain).1 stated).1⟩
      | slot id => exact kept_slots ok distinctChild (Or.inl declares)
      | declaration block id =>
        obtain ⟨value, stated⟩ := Option.isSome_iff_exists.mp (Record.get_isSome.mpr declares)
        obtain ⟨declared, found, -⟩ := kept_declarations ok distinctBase distinctChild block plain (Or.inl stated)
        exact Record.mem_keys_of_get found
      | node block id name =>
        obtain ⟨value, stated, member⟩ := declares
        obtain ⟨declared, found, nodes⟩ := kept_declarations ok distinctBase distinctChild block plain.1 (Or.inl stated)
        exact ⟨declared, found, nodes name plain.2 member⟩
  · refine ⟨fun mapKey unique id value plain stated => ?_, fun name plain declares => ?_⟩
    · obtain ⟨isMap, other⟩ := notTypes mapKey unique
      exact ((kept_map ok distinctChild isMap plain).2 stated).2 other
    · cases name with
      | entry mapKey id =>
        obtain ⟨value, stated⟩ := Option.isSome_iff_exists.mp (Record.get_isSome.mpr declares.2)
        exact ⟨declares.1, ((kept_map ok distinctChild declares.1 plain).2 stated).1⟩
      | slot id => exact kept_slots ok distinctChild (Or.inr declares)
      | declaration block id =>
        obtain ⟨value, stated⟩ := Option.isSome_iff_exists.mp (Record.get_isSome.mpr declares)
        obtain ⟨declared, found, -⟩ := kept_declarations ok distinctBase distinctChild block plain (Or.inr stated)
        exact Record.mem_keys_of_get found
      | node block id name =>
        obtain ⟨value, stated, member⟩ := declares
        obtain ⟨declared, found, nodes⟩ := kept_declarations ok distinctBase distinctChild block plain.1 (Or.inr stated)
        exact ⟨declared, found, nodes name plain.2 member⟩

theorem nodup_mergeEntry {mapKey : JSString} {known : Option Member} {made next : Record Json} {entry : JSString × Json}
    (distinct : (Record.keys made).Nodup) (returns : Returns (mergeEntry runtimePolicy mapKey known made entry) next) :
    (Record.keys next).Nodup := by
  unfold mergeEntry at returns
  split at returns
  · exact returns_pure returns ▸ Record.nodup_keys_assign distinct _ _
  · split at returns
    · exact returns_pure returns ▸ Record.nodup_keys_assign distinct _ _
    · obtain ⟨-, -, returns⟩ := returns_bind returns
      exact returns_pure returns ▸ distinct

theorem nodup_admitDeclaration {merge : Member → Record Json → JSString → RuntimeMerge (Record Json)}
    {made next : Record Json} {entry : JSString × Json} (distinct : (Record.keys made).Nodup)
    (returns : Returns (admitDeclaration merge made entry) next) : (Record.keys next).Nodup := by
  unfold admitDeclaration at returns
  split at returns
  · obtain ⟨declared, -, returns⟩ := returns_bind returns
    exact returns_pure returns ▸ Record.nodup_keys_assign distinct _ _
  · exact returns_pure returns ▸ Record.nodup_keys_assign distinct _ _

theorem nodup_mergeDeclarationEntry {merge : Member → Record Json → JSString → RuntimeMerge (Record Json)}
    {label block : JSString} {bases made next : Record Json} {entry : JSString × Json} (distinct : (Record.keys made).Nodup)
    (returns : Returns (mergeDeclarationEntry runtimePolicy label block merge bases made entry) next) :
    (Record.keys next).Nodup := by
  unfold mergeDeclarationEntry at returns
  split at returns
  · exact nodup_admitDeclaration distinct returns
  · split at returns
    · split at returns
      · obtain ⟨declared, -, returns⟩ := returns_bind returns
        exact returns_pure returns ▸ Record.nodup_keys_assign distinct _ _
      · obtain ⟨-, -, returns⟩ := returns_bind returns
        exact returns_pure returns ▸ distinct
    · obtain ⟨-, -, returns⟩ := returns_bind returns
      exact returns_pure returns ▸ distinct

theorem nodup_mergeMembers {base : Record Json} : ∀ {members result : Record Json}, (Record.keys result).Nodup →
    (Record.keys (mergeMembers base result members)).Nodup
  | [], _, distinct => by rwa [mergeMembers]
  | (key, value) :: members, result, distinct => by
    rw [mergeMembers]
    split
    · exact nodup_mergeMembers distinct
    · exact nodup_mergeMembers (Record.nodup_keys_assign distinct _ _)

theorem distinctSlots_mergeSlot {made next : List Json × List JSString} {slot : Json}
    (distinct : DistinctSlots made.1) (own : ∀ members, slot = .obj members → (Record.keys members).Nodup)
    (returns : Returns (mergeSlot runtimePolicy made slot) next) : DistinctSlots next.1 := by
  have appended : DistinctSlots (made.1 ++ [slot]) := by
    intro other inside
    rcases List.mem_append.mp inside with old | new
    · exact distinct other old
    · exact List.mem_singleton.mp new ▸ own
  unfold mergeSlot at returns
  split at returns
  · exact returns_pure returns ▸ appended
  · split at returns
    · split at returns
      · rename_i slots refined
        obtain rfl := returns_pure returns
        unfold refineSlot at refined
        split at refined
        · rename_i members
          split at refined
          · obtain ⟨i, found, rfl⟩ := Option.map_eq_some_iff.mp refined
            intro other inside
            obtain ⟨j, here, rfl⟩ := List.mem_iff_getElem.mp inside
            rw [List.getElem_modify]
            split
            · rename_i same
              intro others isObj
              obtain rfl := Json.obj.inj isObj
              obtain ⟨known, named, -⟩ := List.findIdx?_eq_some_iff_getElem.mp found
              subst same
              have named : slotId made.1[i] = some _ := of_decide_eq_true named
              cases isKnown : made.1[i] with
              | obj old => exact nodup_mergeMembers (distinct _ (List.getElem_mem known) old isKnown)
              | _ => rw [isKnown] at named; cases named
            · have inMade : j < made.1.length := by rwa [List.length_modify] at here
              exact distinct _ (List.getElem_mem inMade)
          · cases refined
        · cases refined
      · obtain ⟨-, -, returns⟩ := returns_bind returns
        exact returns_pure returns ▸ distinct
    · exact returns_pure returns ▸ appended

/-- A merge keeps each key of its objects once. -/
theorem DistinctKeys.merge (distinctBase : DistinctKeys base) (distinctChild : DistinctKeys child)
    (ok : runtimeMerge base child = .ok merged) : DistinctKeys merged := by
  refine ⟨fun mapKey isMap => ?_, ?_, fun block => ?_⟩
  · obtain ⟨block, gives, found⟩ := (runtimeMerge_blocks ok).maps mapKey isMap
    have ofBase := distinctBase.maps mapKey isMap
    have ofChild := distinctChild.maps mapKey isMap
    unfold runtimeMap at gives
    split at gives
    · rename_i baseMap childMap inBase inChild
      obtain ⟨made, merging, gives⟩ := gives_nil_bind gives
      obtain rfl := gives_nil_pure gives
      rw [mapOf_some inBase] at ofBase
      have isMerged : mapOf mapKey merged = made := mapOf_some found
      rw [isMerged]
      unfold runtimeMergeMaps at merging
      split at merging
      · cases merging
      · exact foldlM_keeps (fun made => (Record.keys made).Nodup)
          (fun _ _ _ distinct _ step => nodup_mergeEntry distinct step) ofBase ⟨[], merging⟩
    · rename_i childMap _ inChild
      obtain rfl := gives_nil_pure gives
      have isMerged : mapOf mapKey merged = spread childMap := mapOf_some found
      rwa [isMerged, ← mapOf_some inChild]
    · obtain rfl := gives_nil_pure gives
      have isMerged : mapOf mapKey merged = mapOf mapKey base := by rw [mapOf, found]; rfl
      rwa [isMerged]
  · obtain ⟨block, gives, found⟩ := (runtimeMerge_blocks ok).slots
    unfold runtimeSlots at gives
    simp only at gives
    split at gives
    · obtain ⟨slots, merging, gives⟩ := gives_nil_bind gives
      obtain rfl := gives_nil_pure gives
      have made : slotsOf merged = slots := by rw [slotsOf, found]; rfl
      rw [made]
      obtain ⟨last, loop, merging⟩ := gives_nil_bind merging
      obtain rfl := gives_nil_pure merging
      exact foldlM_keeps (fun (made : List Json × List JSString) => DistinctSlots made.1)
        (fun made slot inside distinct next step => distinctSlots_mergeSlot distinct (distinctChild.slots slot inside) step)
        (show DistinctSlots (slotsOf base) from distinctBase.slots) ⟨[], loop⟩
    · rename_i neither
      obtain rfl := gives_nil_pure gives
      have same : slotsOf merged = slotsOf base := by rw [slotsOf, found]; rfl
      rw [same]
      exact distinctBase.slots
  · obtain ⟨label, made, gives, found⟩ := merged_declarations ok block
    unfold runtimeDeclarations at gives
    split at gives
    · obtain ⟨declarations, merging, gives⟩ := gives_nil_bind gives
      obtain rfl := gives_nil_pure gives
      have isMerged : declarationsOf block merged = declarations := by rw [declarationsOf, found]; rfl
      rw [isMerged]
      obtain ⟨kept, keeping, merging⟩ := gives_nil_bind merging
      have distinct := foldlM_keeps (fun made => (Record.keys made).Nodup)
        (fun _ _ _ distinct _ step => nodup_admitDeclaration distinct step)
        (show (Record.keys ([] : Record Json)).Nodup from List.nodup_nil) ⟨[], keeping⟩
      exact foldlM_keeps (fun made => (Record.keys made).Nodup)
        (fun _ _ _ distinct _ step => nodup_mergeDeclarationEntry distinct step) distinct ⟨[], merging⟩
    · obtain rfl := gives_nil_pure gives
      have same : declarationsOf block merged = declarationsOf block base := by rw [declarationsOf, found]; rfl
      rw [same]
      exact distinctBase.declarations block

end

end Xript
