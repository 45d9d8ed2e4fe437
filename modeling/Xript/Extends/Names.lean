import Xript.Extends.Refining

namespace Xript

open Collecting

/-- The two blocks of declarations with nodes. -/
inductive DeclarationBlock where
  | formats
  | vocabularies

def DeclarationBlock.key : DeclarationBlock → JSString
  | .formats => js "formats"
  | .vocabularies => js "vocabularies"

/-- What manifests name and a resolution must not overwrite. -/
inductive SharedName where
  | entry (mapKey id : JSString)
  | slot (id : JSString)
  | declaration (block : DeclarationBlock) (id : JSString)
  | node (block : DeclarationBlock) (id name : JSString)

namespace SharedName

/-- Where a conflict over a name is reported. -/
def path : SharedName → JSString
  | .entry mapKey id => 47 :: mapKey ++ 47 :: id
  | .slot id => js "/slots/" ++ id
  | .declaration block id => 47 :: block.key ++ 47 :: id
  | .node block id name => 47 :: block.key ++ 47 :: id ++ js "/nodes/" ++ name

/-- A name without `__proto__`, which assignment does not define. -/
def Plain : SharedName → Prop
  | .entry _ id => id ≠ js "__proto__"
  | .slot _ => True
  | .declaration _ id => id ≠ js "__proto__"
  | .node _ id name => id ≠ js "__proto__" ∧ name ≠ js "__proto__"

end SharedName

/-- The declarations of a block. -/
def declarationsOf (block : DeclarationBlock) (manifest : Record Json) : Record Json :=
  objectOr (Record.get manifest block.key)

/-- A manifest declares a name. -/
def Declares (manifest : Record Json) : SharedName → Prop
  | .entry mapKey id => mapKey ∈ resolveMapKeys ∧ id ∈ Record.keys (mapOf mapKey manifest)
  | .slot id => id ∈ (slotsOf manifest).filterMap slotId
  | .declaration block id => id ∈ Record.keys (declarationsOf block manifest)
  | .node block id name =>
    ∃ value, Record.get (declarationsOf block manifest) id = some value ∧ name ∈ Record.keys (nodesOf value)

/-- A value with `refines: true`. -/
def Refines (value : Json) : Prop := ∃ members, value = .obj members ∧ hasMark members (js "refines")

/-- A child may declare a name its base has: it fills an abstract type, or says `refines: true`; nodes are asked only
where their declaration refines. -/
def MayRedeclare (base child : Record Json) : SharedName → Prop
  | .entry mapKey id => mapKey = js "types" ∧ ∃ old members,
      Record.get (mapOf mapKey base) id = some (.obj old) ∧ Record.get (mapOf mapKey child) id = some (.obj members) ∧
        (hasMark old (js "abstract") ∨ hasMark members (js "refines"))
  | .slot id => ∀ slot ∈ slotsOf child, slotId slot = some id → Refines slot
  | .declaration block id => ∃ value, Record.get (declarationsOf block child) id = some value ∧ Refines value
  | .node block id name => ∀ value, Record.get (declarationsOf block child) id = some value → Refines value →
      ∃ node, Record.get (nodesOf value) name = some node ∧ Refines node

/-- An issue about a path. -/
def Reports (found : List ManifestIssue) (path : JSString) : Prop := ∃ issue ∈ found, issue.path = path

theorem Reports.left {found more : List ManifestIssue} {path : JSString} (reports : Reports found path) :
    Reports (found ++ more) path := by
  obtain ⟨issue, inside, named⟩ := reports
  exact ⟨issue, List.mem_append_left _ inside, named⟩

theorem Reports.right {found more : List ManifestIssue} {path : JSString} (reports : Reports more path) :
    Reports (found ++ more) path := by
  obtain ⟨issue, inside, named⟩ := reports
  exact ⟨issue, List.mem_append_right _ inside, named⟩

/-- What the first of two computations reports, both report. -/
theorem reports_bind {α β : Type} {x : RuntimeMerge α} {f : α → RuntimeMerge β} {b : β} {found : List ManifestIssue}
    {path : JSString} (gives : Gives (x >>= f) b found)
    (reports : ∀ a more, Gives x a more → Reports more path ∨ ∀ b rest, Gives (f a) b rest → Reports rest path) :
    Reports found path := by
  obtain ⟨a, first, rest, run, later, rfl⟩ := gives_bind gives
  rcases reports a first run with here | there
  · exact here.left
  · exact (there b rest later).right

theorem reports_conflict {α : Type} {path label id : JSString} {a b : α} {found : List ManifestIssue}
    (gives : Gives (runtimePolicy.conflict path label id >>= fun _ => pure a : RuntimeMerge α) b found) :
    Reports found path := by
  obtain ⟨-, message, rfl⟩ := conflict_gives gives
  exact ⟨_, List.mem_singleton_self _, rfl⟩

/-- A loop reports what the step at one of its entries does, under what the steps keep. -/
theorem reports_foldlM {β γ : Type} {f : β → γ → RuntimeMerge β} {path : JSString} (I : β → Prop)
    (keeps : ∀ made entry next, I made → Returns (f made entry) next → I next) {entries : List γ} {entry : γ}
    (inside : entry ∈ entries)
    (reports : ∀ made next more, I made → Gives (f made entry) next more → Reports more path) {start result : β}
    (initially : I start) {found : List ManifestIssue} (gives : Gives (entries.foldlM f start) result found) :
    Reports found path := by
  induction entries generalizing start found with
  | nil => cases inside
  | cons first entries ih =>
    rw [List.foldlM_cons] at gives
    obtain ⟨next, more, rest, run, later, rfl⟩ := gives_bind gives
    rcases List.mem_cons.mp inside with rfl | member
    · exact (reports start next more initially run).left
    · exact (ih member (keeps start first next initially ⟨more, run⟩) later).right

section

variable {target source : Json} {mapKey id : JSString}

theorem mem_keys_assign_self {key : JSString} (plain : key ≠ js "__proto__") (r : Record Json) (value : Json) :
    key ∈ Record.keys (Record.assign r key value) := by
  rw [Record.assign_plain plain]
  exact Record.mem_keys_set.2 (Or.inl rfl)

theorem mem_keys_assign_of_mem {r : Record Json} {key other : JSString} {value : Json} (known : other ∈ Record.keys r) :
    other ∈ Record.keys (Record.assign r key value) := by
  unfold Record.assign
  split
  · exact known
  · exact Record.mem_keys_set.2 (Or.inr known)

theorem keys_mergeEntry {known : Option Member} {made next : Record Json} {entry : JSString × Json}
    (returns : Returns (mergeEntry runtimePolicy mapKey known made entry) next) (member : id ∈ Record.keys made) :
    id ∈ Record.keys next := by
  unfold mergeEntry at returns
  split at returns
  · exact returns_pure returns ▸ mem_keys_assign_of_mem member
  · split at returns
    · exact returns_pure returns ▸ mem_keys_assign_of_mem member
    · obtain ⟨-, -, returns⟩ := returns_bind returns
      exact returns_pure returns ▸ member

theorem reports_mergeMaps {made : Record Json} {found : List ManifestIssue}
    (gives : Gives (runtimeMergeMaps target source mapKey) made found) (known : id ∈ Record.keys (spread target))
    {value : Json} (redeclared : (id, value) ∈ spread source)
    (refused : mapKey = js "types" →
      typeRefinement ((Record.get (spread target) id).elim .other .own) value = none) :
    Reports found (47 :: mapKey ++ 47 :: id) := by
  unfold runtimeMergeMaps at gives
  split at gives
  · cases gives
  · refine reports_foldlM (fun made => id ∈ Record.keys made) ?_ redeclared ?_ known gives
    · exact fun made entry next member returns => keys_mergeEntry returns member
    · intro made next more member step
      have none : (if mapKey = js "types" then
          typeRefinement ((Record.get (spread target) id).elim .other .own) value else none) = none := by
        split
        · exact refused ‹_›
        · rfl
      simp only [if_pos member, mergeEntry, none] at step
      exact reports_conflict step

theorem seen_mergeSlot {made next : List Json × List JSString} {slot : Json}
    (returns : Returns (mergeSlot runtimePolicy made slot) next) (member : id ∈ made.2) : id ∈ next.2 := by
  unfold mergeSlot at returns
  split at returns
  · exact returns_pure returns ▸ member
  · split at returns
    · split at returns
      · exact returns_pure returns ▸ member
      · obtain ⟨-, -, returns⟩ := returns_bind returns
        exact returns_pure returns ▸ member
    · exact returns_pure returns ▸ List.mem_cons_of_mem _ member

theorem reports_mergeSlots {slots more made : List Json} {found : List ManifestIssue}
    (gives : Gives (mergeSlots runtimePolicy slots more) made found) (known : id ∈ slots.filterMap slotId) {slot : Json}
    (redeclared : slot ∈ more) (named : slotId slot = some id) (unmarked : ¬ Refines slot) :
    Reports found (js "/slots/" ++ id) := by
  refine reports_bind gives fun last found loop => Or.inl ?_
  refine reports_foldlM (fun made => id ∈ made.2) (fun _ _ _ member returns => seen_mergeSlot returns member) redeclared
    ?_ known loop
  intro made next more member step
  have refused : refineSlot made.1 id slot = none := by
    unfold refineSlot
    split
    · rename_i members
      exact if_neg fun marked => unmarked ⟨members, rfl, marked⟩
    · rfl
  simp only [mergeSlot, named, if_pos member, refused] at step
  exact reports_conflict step

theorem reports_mergeNodes {base child : Option Json} {label owner name : JSString} {nodes : Record Json}
    {found : List ManifestIssue} (gives : Gives (mergeNodes runtimePolicy base child label owner) nodes found)
    (known : name ∈ Record.keys (objectOr base)) {node : Json} (redeclared : (name, node) ∈ objectOr child)
    (unmarked : ¬ Refines node) : Reports found (owner ++ js "/nodes/" ++ name) := by
  refine reports_foldlM (fun _ => True) (fun _ _ _ _ _ => trivial) redeclared ?_ trivial gives
  intro made next more _ step
  obtain ⟨old, stated⟩ := Option.isSome_iff_exists.mp (Record.get_isSome.mpr known)
  have looked : runtimePolicy.lookup (objectOr base) name = some (.own old) := congrArg (Option.map Member.own) stated
  simp only [mergeNodeEntry, looked] at step
  split at step
  · rename_i members
    rw [if_neg fun marked => unmarked ⟨members, rfl, marked⟩] at step
    exact reports_conflict step
  · exact reports_conflict step

theorem reports_mergeDeclaration {label owner name : JSString} {old : Json} {child made : Record Json}
    {found : List ManifestIssue}
    (gives : Gives (mergeDeclaration runtimePolicy label (.own old) child owner) made found)
    (known : name ∈ Record.keys (nodesOf old)) {node : Json} (redeclared : (name, node) ∈ nodesOf (.obj child))
    (unmarked : ¬ Refines node) : Reports found (owner ++ js "/nodes/" ++ name) := by
  have stated : js "nodes" ∈ Record.keys child := by
    by_contra absent
    have none : nodesOf (.obj child) = [] := congrArg objectOr (Record.get_eq_none.2 absent)
    rw [none] at redeclared
    cases redeclared
  cases old with
  | obj members =>
    refine reports_bind gives fun inherited _ _ => Or.inr fun _ rest gives => ?_
    simp only [if_pos (Or.inr stated : inherited = true ∨ js "nodes" ∈ Record.keys child)] at gives
    refine reports_bind gives fun nodes _ merging => Or.inl ?_
    exact reports_mergeNodes merging known redeclared unmarked
  | _ => cases known

/-- The merge of one declaration of a block. -/
def DeclarationBlock.merge : DeclarationBlock → Member → Record Json → JSString → RuntimeMerge (Record Json)
  | .formats => mergeFormat runtimePolicy
  | .vocabularies => mergeVocabulary runtimePolicy

theorem reports_mergeBlock {block : DeclarationBlock} {old : Json} {child made : Record Json}
    {found : List ManifestIssue} {name : JSString} (gives : Gives (block.merge (.own old) child id) made found)
    (known : name ∈ Record.keys (nodesOf old)) {node : Json} (redeclared : (name, node) ∈ nodesOf (.obj child))
    (unmarked : ¬ Refines node) : Reports found (SharedName.node block id name).path := by
  cases block with
  | formats => exact reports_mergeDeclaration gives known redeclared unmarked
  | vocabularies => exact reports_mergeDeclaration gives known redeclared unmarked

theorem reports_mergeDeclarations {label block : JSString} {merge : Member → Record Json → JSString → RuntimeMerge (Record Json)}
    {base child : Option Json} {made : Record Json} {found : List ManifestIssue}
    (gives : Gives (mergeDeclarations runtimePolicy label block merge base child) made found) {old value : Json}
    (known : Record.get (objectOr base) id = some old) (redeclared : (id, value) ∈ objectOr child) {path : JSString}
    (unmarked : ¬ Refines value → path = 47 :: block ++ 47 :: id)
    (marked : ∀ members made more, value = .obj members → Gives (merge (.own old) members id) made more →
      ¬ Refines value ∨ Reports more path) : Reports found path := by
  refine reports_bind gives fun kept _ _ => Or.inr fun _ rest loop => ?_
  refine reports_foldlM (fun _ => True) (fun _ _ _ _ _ => trivial) redeclared ?_ trivial loop
  intro made next more _ step
  have looked : runtimePolicy.lookup (objectOr base) id = some (.own old) := congrArg (Option.map Member.own) known
  simp only [mergeDeclarationEntry, looked] at step
  split at step
  · rename_i members
    split at step
    · rename_i mark
      refine reports_bind step fun made more merging => Or.inl ?_
      exact (marked members made more rfl merging).resolve_left fun unmarked => unmarked ⟨members, rfl, mark⟩
    · rename_i unmarkedMembers
      have noRefines : ¬ Refines (.obj members) := by
        rintro ⟨other, same, mark⟩
        cases same
        exact unmarkedMembers mark
      exact unmarked noRefines ▸ reports_conflict step
  · rename_i noObject
    have noRefines : ¬ Refines value := fun ⟨members, same, _⟩ => noObject members same
    exact unmarked noRefines ▸ reports_conflict step

end

section

variable {base child : Record Json}

theorem reports_map {mapKey id : JSString} {block : Block} {found : List ManifestIssue}
    (gives : Gives (runtimeMap base child mapKey) block found) (known : id ∈ Record.keys (mapOf mapKey base))
    (redeclared : id ∈ Record.keys (mapOf mapKey child)) (refused : ¬ MayRedeclare base child (.entry mapKey id)) :
    Reports found (SharedName.entry mapKey id).path := by
  unfold runtimeMap at gives
  split at gives
  · rename_i baseMap childMap inBase inChild
    rw [mapOf_some inBase] at known
    rw [mapOf_some inChild] at redeclared
    obtain ⟨old, hasOld⟩ := Option.isSome_iff_exists.mp (Record.get_isSome.mpr known)
    obtain ⟨value, hasValue⟩ := Option.isSome_iff_exists.mp (Record.get_isSome.mpr redeclared)
    refine reports_bind gives fun merged _ merging => Or.inl ?_
    refine reports_mergeMaps merging known (Record.mem_of_get hasValue) fun isTypes => ?_
    rw [hasOld]
    show typeRefinement (.own old) value = none
    cases refined : typeRefinement (.own old) value with
    | none => rfl
    | some made =>
      refine (refused ⟨isTypes, ?_⟩).elim
      unfold typeRefinement at refined
      split at refined
      · rename_i oldMembers members isOld
        have isObj : old = .obj oldMembers := by
          cases old with
          | obj others => exact congrArg Json.obj (Option.some.inj isOld)
          | _ => cases isOld
        rw [mapOf_some inBase, mapOf_some inChild]
        refine ⟨oldMembers, members, isObj ▸ hasOld, hasValue, ?_⟩
        split at refined
        · exact Or.inl ‹_›
        · split at refined
          · exact Or.inr ‹_›
          · cases refined
      · cases refined
  · rename_i noBase _
    rw [mapOf_none noBase] at known
    cases known
  · rename_i noChild
    rw [mapOf_none noChild] at redeclared
    cases redeclared

theorem reports_slots {id : JSString} {block : Block} {found : List ManifestIssue}
    (gives : Gives (runtimeSlots base child) block found) (known : id ∈ (slotsOf base).filterMap slotId)
    (refused : ¬ MayRedeclare base child (.slot id)) : Reports found (SharedName.slot id).path := by
  obtain ⟨slot, refused⟩ := not_forall.mp refused
  obtain ⟨redeclared, refused⟩ := Classical.not_imp.mp refused
  obtain ⟨named, unmarked⟩ := Classical.not_imp.mp refused
  unfold runtimeSlots at gives
  simp only at gives
  split at gives
  · refine reports_bind gives fun merged _ merging => Or.inl ?_
    exact reports_mergeSlots merging known redeclared named unmarked
  · rename_i neither
    obtain ⟨noBase, -⟩ := not_or.mp neither
    have none : slotsOf base = [] := arrayOr_of_not noBase
    rw [none] at known
    cases known

theorem reports_declarations {block : DeclarationBlock} {made : Block} {found : List ManifestIssue}
    {label : JSString}
    (gives : Gives (runtimeDeclarations (mergeDeclarations runtimePolicy label block.key block.merge) block.key base child)
      made found) {id : JSString} {old value : Json} (known : Record.get (declarationsOf block base) id = some old)
    (redeclared : Record.get (declarationsOf block child) id = some value) {path : JSString}
    (unmarked : ¬ Refines value → path = 47 :: block.key ++ 47 :: id)
    (marked : ∀ members made more, value = .obj members → Gives (block.merge (.own old) members id) made more →
      ¬ Refines value ∨ Reports more path) : Reports found path := by
  unfold runtimeDeclarations at gives
  split at gives
  · refine reports_bind gives fun merged _ merging => Or.inl ?_
    exact reports_mergeDeclarations merging known (Record.mem_of_get redeclared) unmarked marked
  · rename_i neither
    obtain ⟨noBase, -⟩ := not_or.mp neither
    have none : declarationsOf block base = [] := objectOr_of_not noBase
    rw [none] at known
    cases known

theorem reports_named {name : SharedName} {block : DeclarationBlock} {id : JSString}
    (isNamed : name = .declaration block id ∨ ∃ node, name = .node block id node) {label : JSString} {made : Block}
    {found : List ManifestIssue}
    (gives : Gives (runtimeDeclarations (mergeDeclarations runtimePolicy label block.key block.merge) block.key base child)
      made found) (known : Declares base name) (redeclared : Declares child name)
    (refused : ¬ MayRedeclare base child name) : Reports found name.path := by
  rcases isNamed with rfl | ⟨node, rfl⟩
  · obtain ⟨old, hasOld⟩ := Option.isSome_iff_exists.mp (Record.get_isSome.mpr known)
    obtain ⟨value, hasValue⟩ := Option.isSome_iff_exists.mp (Record.get_isSome.mpr redeclared)
    have unmarked : ¬ Refines value := fun marked => refused ⟨value, hasValue, marked⟩
    exact reports_declarations gives hasOld hasValue (fun _ => rfl) fun _ _ _ _ _ => Or.inl unmarked
  · obtain ⟨old, hasOld, inOld⟩ := known
    obtain ⟨other, hasOther, inOther⟩ := redeclared
    obtain ⟨value, refused⟩ := not_forall.mp refused
    obtain ⟨hasValue, refused⟩ := Classical.not_imp.mp refused
    obtain ⟨marked, refused⟩ := Classical.not_imp.mp refused
    obtain rfl := Option.some.inj (hasOther.symm.trans hasValue)
    obtain ⟨child, hasChild⟩ := Option.isSome_iff_exists.mp (Record.get_isSome.mpr inOther)
    refine reports_declarations gives hasOld hasValue (absurd marked) fun members made more isObj merging => Or.inr ?_
    subst isObj
    exact reports_mergeBlock merging inOld (Record.mem_of_get hasChild) fun mark => refused ⟨child, hasChild, mark⟩

theorem reports_mapM {β γ : Type} {f : γ → RuntimeMerge β} {path : JSString} {entries : List γ} {entry : γ}
    (inside : entry ∈ entries) (reports : ∀ b more, Gives (f entry) b more → Reports more path) {made : List β}
    {found : List ManifestIssue} (gives : Gives (entries.mapM f) made found) : Reports found path := by
  induction entries generalizing made found with
  | nil => cases inside
  | cons first entries ih =>
    rw [List.mapM_cons] at gives
    refine reports_bind gives fun b more run => ?_
    rcases List.mem_cons.mp inside with rfl | member
    · exact Or.inl (reports b more run)
    · exact Or.inr fun _ rest gives => reports_bind gives fun _ _ later => Or.inl (ih member later)

/-- Every name of both sides that the child may not redeclare is reported. -/
theorem reports_blocks {blocks : List Block} {found : List ManifestIssue}
    (gives : Gives (runtimeBlocks base child) blocks found) {name : SharedName} (known : Declares base name)
    (redeclared : Declares child name) (refused : ¬ MayRedeclare base child name) : Reports found name.path := by
  refine reports_bind gives fun maps _ mapped => ?_
  cases name with
  | entry mapKey id =>
    refine Or.inl (reports_mapM known.1 ?_ mapped)
    exact fun block more gives => reports_map gives known.2 redeclared.2 refused
  | slot id =>
    refine Or.inr fun _ rest gives => reports_bind gives fun _ _ gives => Or.inl ?_
    exact reports_slots gives known refused
  | declaration block id =>
    refine Or.inr fun _ rest gives => reports_bind gives fun _ _ _ => Or.inr fun _ _ gives => ?_
    cases block with
    | formats =>
      refine reports_bind gives fun _ _ gives => Or.inl ?_
      exact reports_named (Or.inl rfl) gives known redeclared refused
    | vocabularies =>
      refine reports_bind gives fun _ _ _ => Or.inr fun _ _ gives => reports_bind gives fun _ _ gives => Or.inl ?_
      exact reports_named (Or.inl rfl) gives known redeclared refused
  | node block id node =>
    refine Or.inr fun _ rest gives => reports_bind gives fun _ _ _ => Or.inr fun _ _ gives => ?_
    cases block with
    | formats =>
      refine reports_bind gives fun _ _ gives => Or.inl ?_
      exact reports_named (Or.inr ⟨node, rfl⟩) gives known redeclared refused
    | vocabularies =>
      refine reports_bind gives fun _ _ _ => Or.inr fun _ _ gives => reports_bind gives fun _ _ gives => Or.inl ?_
      exact reports_named (Or.inr ⟨node, rfl⟩) gives known redeclared refused

/-- A merge that succeeds redeclares only what it may. -/
theorem mayRedeclare_of_merge {merged : Record Json} (ok : runtimeMerge base child = .ok merged) {name : SharedName}
    (known : Declares base name) (redeclared : Declares child name) : MayRedeclare base child name := by
  by_contra refused
  obtain ⟨blocks, gives, -⟩ := runtimeMerge_ok ok
  obtain ⟨issue, inside, -⟩ := reports_blocks gives known redeclared refused
  cases inside

/-- A merge that fails throws on a malformed value, or reports every name it may not redeclare. -/
theorem reports_of_merge {error : ManifestError} (failed : runtimeMerge base child = .error error) :
    runtimeBlocks base child = .error error ∨
      ∃ issues, error = .validation issues ∧ ∀ name, Declares base name → Declares child name →
        ¬ MayRedeclare base child name → Reports issues name.path := by
  cases run : runtimeBlocks base child with
  | error e =>
    have same : runtimeMerge base child = .error e := by
      simp only [runtimeMerge, settle, run]
      rfl
    obtain rfl := Except.error.inj (same.symm.trans failed)
    exact Or.inl rfl
  | ok made =>
    obtain ⟨blocks, found⟩ := made
    refine Or.inr ⟨found, ?_, fun name known redeclared refused => reports_blocks run known redeclared refused⟩
    have same : runtimeMerge base child = settle .validation (.ok (assemble base child blocks, found)) := by
      have last : (runtimeBlocks base child >>= fun blocks => pure (assemble base child blocks)) =
          (.ok (assemble base child blocks, found) : RuntimeMerge (Record Json)) := by
        rw [run]
        exact (andThen_ok rfl).trans (by rw [List.append_nil])
      rw [runtimeMerge, last]
    rw [same, settle] at failed
    split at failed
    · cases failed
    · exact (Except.error.inj failed).symm

end

end Xript
