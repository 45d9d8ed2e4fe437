import Xript.Extends.Composed

namespace Xript

open Collecting

/-- Merging throws nothing but a `TypeError`. -/
def ThrowsType {α : Type} (x : RuntimeMerge α) : Prop := ∀ e, x = .error e → e = .typeError

namespace ThrowsType

theorem pure {α : Type} (a : α) : ThrowsType (Pure.pure a : RuntimeMerge α) := nofun

theorem throwType {α : Type} : ThrowsType (runtimePolicy.throwType : RuntimeMerge α) :=
  fun _ same => (Except.error.inj same).symm

theorem bind {α β : Type} {x : RuntimeMerge α} {f : α → RuntimeMerge β} (first : ThrowsType x)
    (next : ∀ a, ThrowsType (f a)) : ThrowsType (x >>= f) := by
  intro e failed
  rcases x with e' | ⟨a, found⟩
  · exact first e (congrArg Except.error (Except.error.inj failed))
  · cases run : f a with
    | error e' =>
      replace failed : andThen (.ok (a, found)) f = .error e := failed
      rw [andThen_error run] at failed
      exact next a e (run.trans (congrArg Except.error (Except.error.inj failed)))
    | ok made =>
      replace failed : andThen (.ok (a, found)) f = .error e := failed
      rw [andThen_ok run] at failed
      cases failed

theorem conflict {α : Type} {path label id : JSString} (a : α) :
    ThrowsType (runtimePolicy.conflict path label id >>= fun _ => Pure.pure a : RuntimeMerge α) :=
  bind nofun fun _ => pure a

theorem foldlM {β γ : Type} {f : β → γ → RuntimeMerge β} (each : ∀ made entry, ThrowsType (f made entry))
    (entries : List γ) (start : β) : ThrowsType (entries.foldlM f start) := by
  induction entries generalizing start with
  | nil => exact pure start
  | cons entry entries ih =>
    rw [List.foldlM_cons]
    exact (each start entry).bind ih

theorem mapM {β γ : Type} {f : γ → RuntimeMerge β} (each : ∀ entry, ThrowsType (f entry)) (entries : List γ) :
    ThrowsType (entries.mapM f) := by
  induction entries with
  | nil =>
    rw [List.mapM_nil]
    exact pure []
  | cons entry entries ih =>
    rw [List.mapM_cons]
    exact (each entry).bind fun b => ih.bind fun rest => pure (b :: rest)

theorem mergeMaps (target source : Json) (mapKey : JSString) : ThrowsType (runtimeMergeMaps target source mapKey) := by
  unfold runtimeMergeMaps
  split
  · exact throwType
  · refine foldlM (fun made entry => ?_) _ _
    simp only [mergeEntry]
    split
    · exact pure _
    · split
      · exact pure _
      · exact conflict _

theorem mergeSlots (slots more : List Json) : ThrowsType (Xript.mergeSlots runtimePolicy slots more) := by
  refine bind (foldlM (fun made slot => ?_) _ _) fun _ => pure _
  unfold mergeSlot
  split
  · exact pure _
  · split
    · split
      · exact pure _
      · exact conflict _
    · exact pure _

theorem has (member : Member) (key : JSString) : ThrowsType (MergePolicy.has runtimePolicy member key) := by
  unfold MergePolicy.has
  split
  · exact pure _
  · exact throwType

theorem mergeNodes (base child : Option Json) (label owner : JSString) :
    ThrowsType (Xript.mergeNodes runtimePolicy base child label owner) := by
  refine foldlM (fun made entry => ?_) _ _
  unfold mergeNodeEntry
  split
  · exact pure _
  · split
    · split
      · exact ((has _ _).bind fun _ => pure _).bind fun _ => pure _
      · exact conflict _
    · exact conflict _

theorem mergeDeclaration (label owner : JSString) (base : Member) (child : Record Json) :
    ThrowsType (Xript.mergeDeclaration runtimePolicy label base child owner) := by
  refine (has _ _).bind fun inherited => ?_
  simp only
  split
  · exact (mergeNodes _ _ _ _).bind fun _ => (pure _).bind fun _ => pure _
  · exact (pure _).bind fun _ => pure _

variable {merge : Member → Record Json → JSString → RuntimeMerge (Record Json)}

theorem admitDeclaration (each : ∀ base child id, ThrowsType (merge base child id)) (made : Record Json)
    (entry : JSString × Json) : ThrowsType (Xript.admitDeclaration merge made entry) := by
  unfold Xript.admitDeclaration
  split
  · exact (each _ _ _).bind fun _ => pure _
  · exact pure _

theorem declarations (each : ∀ base child id, ThrowsType (merge base child id)) (label block : JSString)
    (base child : Record Json) :
    ThrowsType (runtimeDeclarations (mergeDeclarations runtimePolicy label block merge) block base child) := by
  unfold runtimeDeclarations
  split
  · refine bind ((foldlM (admitDeclaration each) _ _).bind fun kept => foldlM (fun made entry => ?_) _ _) fun _ => pure _
    unfold mergeDeclarationEntry
    split
    · exact admitDeclaration each _ _
    · split
      · split
        · exact (each _ _ _).bind fun _ => pure _
        · exact conflict _
      · exact conflict _
  · exact pure _

theorem blocks (base child : Record Json) : ThrowsType (runtimeBlocks base child) := by
  refine bind (mapM (fun mapKey => ?_) _) fun maps => bind ?_ fun slots => ?_
  · unfold runtimeMap
    split
    · exact (mergeMaps _ _ _).bind fun _ => pure _
    · exact pure _
    · exact pure _
  · unfold runtimeSlots
    simp only
    split
    · exact (mergeSlots _ _).bind fun _ => pure _
    · exact pure _
  · have each := fun label owner base child => mergeDeclaration label owner base child
    refine bind (declarations (fun _ _ _ => each _ _ _ _) _ _ _ _) fun _ => ?_
    refine bind (declarations (fun _ _ _ => each _ _ _ _) _ _ _ _) fun _ => ?_
    exact pure _

end ThrowsType

section

variable {wording : JSString → JSString} {manifests : Manifests}

theorem Kept.erase (manifest : Record Json) : Kept manifest (manifest.erase (js "extends")) := by
  have same : ∀ key, key ≠ js "extends" → Record.get (manifest.erase (js "extends")) key = Record.get manifest key :=
    fun key other => (Record.get_erase manifest (js "extends") key).trans (if_neg other)
  have maps : ∀ mapKey ∈ resolveMapKeys, mapOf mapKey (manifest.erase (js "extends")) = mapOf mapKey manifest := by
    intro mapKey isMap
    have other : mapKey ≠ js "extends" := fun extending => absurd (extending ▸ isMap) (by decide)
    rw [mapOf, mapOf, same mapKey other]
  have blocks : ∀ block, declarationsOf block (manifest.erase (js "extends")) = declarationsOf block manifest := by
    intro block
    rw [declarationsOf, declarationsOf, same block.key (by cases block <;> decide)]
  have slots : slotsOf (manifest.erase (js "extends")) = slotsOf manifest := by
    rw [slotsOf, slotsOf, same (js "slots") (by decide)]
  refine ⟨fun mapKey unique id value _ stated => ?_, fun name _ declares => ?_⟩
  · have isMap : mapKey ∈ resolveMapKeys := by
      have inside : ∀ mapKey ∈ uniqueMapKeys, mapKey ∈ resolveMapKeys := by decide
      exact inside mapKey unique
    rwa [maps mapKey isMap]
  · cases name with
    | entry mapKey id => exact ⟨declares.1, (maps mapKey declares.1).symm ▸ declares.2⟩
    | slot id => exact (congrArg (id ∈ List.filterMap slotId ·) slots).mpr declares
    | declaration block id => exact (congrArg (id ∈ Record.keys ·) (blocks block)).mpr declares
    | node block id name =>
      obtain ⟨value, stated, member⟩ := declares
      exact ⟨value, (blocks block).symm ▸ stated, member⟩

theorem DistinctKeys.erase {manifest : Record Json} (distinct : DistinctKeys manifest) :
    DistinctKeys (manifest.erase (js "extends")) := by
  have same : ∀ key, key ≠ js "extends" → Record.get (manifest.erase (js "extends")) key = Record.get manifest key :=
    fun key other => (Record.get_erase manifest (js "extends") key).trans (if_neg other)
  refine ⟨fun mapKey isMap => ?_, ?_, fun block => ?_⟩
  · have other : mapKey ≠ js "extends" := fun extending => absurd (extending ▸ isMap) (by decide)
    rw [mapOf, same mapKey other]
    exact distinct.maps mapKey isMap
  · rw [slotsOf, same (js "slots") (by decide)]
    exact distinct.slots
  · rw [declarationsOf, same block.key (by cases block <;> decide)]
    exact distinct.declarations block

theorem DistinctKeys.nil : DistinctKeys [] where
  maps _ _ := List.nodup_nil
  slots _ inside := nomatch inside
  declarations _ := List.nodup_nil

theorem distinctKeys_spread_arr (items : List Json) : DistinctKeys (spread (.arr items)) := by
  have absent : ∀ key : JSString, key.all isDigit = false → Record.get (spread (.arr items)) key = none :=
    fun key named => get_spread_named named fun _ same => by cases same
  refine ⟨fun mapKey isMap => ?_, ?_, fun block => ?_⟩
  · have named : ∀ mapKey ∈ resolveMapKeys, mapKey.all isDigit = false := by decide
    rw [mapOf_none (absent mapKey (named mapKey isMap))]
    exact List.nodup_nil
  · rw [slotsOf, absent (js "slots") (by decide)]
    exact fun _ inside => absurd inside List.not_mem_nil
  · rw [declarationsOf, absent block.key (by cases block <;> decide)]
    exact List.nodup_nil

/-- Every manifest the loader finds has each key of its blocks once. -/
def Manifests.Distinct (manifests : Manifests) : Prop :=
  ∀ path members, Record.get manifests path = some (some (.obj members)) → DistinctKeys members

theorem Manifests.Distinct.load (distinct : manifests.Distinct) {chain : List JSString} {ref path : JSString}
    {base : Record Json} (loads : (runtimeResolver wording).load manifests chain ref path = .ok base) :
    DistinctKeys base := by
  obtain ⟨-, raw, found, isBase⟩ := load_ok loads
  cases raw with
  | obj members =>
    obtain rfl := Option.some.inj isBase
    exact distinct path members found
  | arr items =>
    obtain rfl := Option.some.inj isBase
    exact distinctKeys_spread_arr items
  | _ => cases isBase

/-- Of names that manifests on both sides of a merge declare, the one merged onto the other may redeclare each. -/
def MergesNames (before : List (Record Json)) (base : Record Json) (after : List (Record Json)) (child : Record Json) :
    Prop :=
  ∀ name : SharedName, name.Plain → (∃ manifest ∈ before, Declares manifest name) →
    (∃ manifest ∈ after, Declares manifest name) → MayRedeclare base child name

theorem mergesNames {before after : List (Record Json)} {base child merged : Record Json}
    (ok : runtimeMerge base child = .ok merged) (keptBefore : ∀ manifest ∈ before, Kept manifest base)
    (keptAfter : ∀ manifest ∈ after, Kept manifest child) : MergesNames before base after child := by
  rintro name plain ⟨first, inBefore, declaresFirst⟩ ⟨second, inAfter, declaresSecond⟩
  exact mayRedeclare_of_merge ok ((keptBefore first inBefore).names name plain declaresFirst)
    ((keptAfter second inAfter).names name plain declaresSecond)

/-- What a resolution makes keeps what every manifest that takes part declares. -/
theorem Resolving.composes (distinctBases : manifests.Distinct) {task : ResolveTask} {result : Record Json}
    (resolving : Resolving (runtimeResolver wording) manifests (fun _ _ => True) task result) :
    (match task with
      | .manifest manifest _ _ => DistinctKeys manifest → ∃ all,
          Composes (runtimeResolver wording) manifests MergesNames task [] all result ∧ DistinctKeys result ∧
            ∀ manifest ∈ all, Kept manifest result
      | .bases composed _ _ _ => DistinctKeys composed → ∀ before, (∀ manifest ∈ before, Kept manifest composed) → ∃ all,
          Composes (runtimeResolver wording) manifests MergesNames task before all result ∧ DistinctKeys result ∧
            ∀ manifest ∈ all, Kept manifest result) := by
  induction resolving with
  | flat flat =>
    intro distinct
    refine ⟨_, .flat flat, distinct.erase, fun manifest inside => ?_⟩
    obtain rfl := List.mem_singleton.mp inside
    exact .erase manifest
  | @extending manifest composed result dir chain refs extending _ merges _ ih =>
    intro distinct
    obtain ⟨before, bases, distinctBase, keptBefore⟩ := ih DistinctKeys.nil [] (fun _ none => nomatch none)
    have distinctOwn : DistinctKeys ((runtimeResolver wording).own manifest) := distinct.erase
    obtain ⟨ofBase, ofOwn⟩ := kept_merge merges distinctBase distinctOwn
    have keptOwn : ∀ other ∈ [manifest], Kept other ((runtimeResolver wording).own manifest) := by
      intro other inside
      obtain rfl := List.mem_singleton.mp inside
      exact .erase other
    refine ⟨_, .extending extending bases merges (mergesNames merges keptBefore keptOwn),
      distinctBase.merge distinctOwn merges, fun other inside => ?_⟩
    rcases List.mem_append.mp inside with early | last
    · exact (keptBefore other early).trans ofBase
    · exact (keptOwn other last).trans ofOwn
  | done => exact fun distinct before kept => ⟨before, .done, distinct, kept⟩
  | follow loads _ merges _ _ resolves rest =>
    intro distinctBase before keptBefore
    obtain ⟨after, inner, distinctChild, keptAfter⟩ := resolves (distinctBases.load loads)
    obtain ⟨ofBase, ofChild⟩ := kept_merge merges distinctBase distinctChild
    obtain ⟨all, later, distinct, kept⟩ := rest (distinctBase.merge distinctChild merges) (before ++ after) fun other inside =>
      (List.mem_append.mp inside).elim (fun early => (keptBefore other early).trans ofBase)
        fun late => (keptAfter other late).trans ofChild
    exact ⟨all, .follow loads inner merges (mergesNames merges keptBefore keptAfter) later, distinct, kept⟩

end

/-- A base and a child that both bind `log`; the child also extends a manifest that is missing. -/
def logBase : Record Json := [(js "bindings", .obj [(js "log", .obj [(js "description", .str (js "the base's"))])])]

def logChild : Record Json := [(js "extends", .arr [.str (js "base.json"), .str (js "missing.json")]),
  (js "bindings", .obj [(js "log", .obj [(js "description", .str (js "the child's"))])])]

theorem distinctKeys_log {manifest : Record Json} (either : manifest = logBase ∨ manifest = logChild) :
    DistinctKeys manifest := by
  refine ⟨?_, ?_, fun block => ?_⟩
  · rcases either with rfl | rfl <;> decide +kernel
  · have none : slotsOf manifest = [] := by rcases either with rfl | rfl <;> rfl
    rw [none]
    exact fun _ inside => nomatch inside
  · have none : declarationsOf block manifest = [] := by rcases either with rfl | rfl <;> cases block <;> rfl
    rw [none]
    exact List.nodup_nil

end Xript
