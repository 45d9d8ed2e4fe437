import Xript.Extends.MergeAgrees
import Xript.Extends.Resolve

namespace Xript

open Collecting

theorem gives_nil_bind {ι ε α β : Type} {x : Collecting ι ε α} {f : α → Collecting ι ε β} {b : β}
    (gives : Gives (x >>= f) b []) : ∃ a, Gives x a [] ∧ Gives (f a) b [] := by
  obtain ⟨a, first, rest, run, later, none⟩ := gives_bind gives
  obtain ⟨rfl, rfl⟩ := List.append_eq_nil_iff.mp none.symm
  exact ⟨a, run, later⟩

theorem gives_nil_pure {ι ε α : Type} {a b : α} (gives : Gives (pure a : Collecting ι ε α) b []) : b = a :=
  (gives_pure gives).1

/-- A loop that finds nothing, under what its steps keep true of what was made and of the entries left. -/
theorem foldlM_gives_nil {ι ε β γ : Type} {f : β → γ → Collecting ι ε β} (I : β → List γ → Prop)
    (step : ∀ made entry rest next, I made (entry :: rest) → Gives (f made entry) next [] → I next rest)
    {entries : List γ} {start result : β} (initially : I start entries)
    (gives : Gives (entries.foldlM f start) result []) : I result [] := by
  induction entries generalizing start with
  | nil => exact gives_nil_pure gives ▸ initially
  | cons entry entries ih =>
    rw [List.foldlM_cons] at gives
    obtain ⟨next, first, rest⟩ := gives_nil_bind gives
    exact ih (step start entry entries next initially first) rest

theorem mapM_gives_nil {ι ε β γ : Type} {f : γ → Collecting ι ε β} {entries : List γ} {made : List β}
    (gives : Gives (entries.mapM f) made []) : List.Forall₂ (fun entry b => Gives (f entry) b []) entries made := by
  induction entries generalizing made with
  | nil =>
    rw [List.mapM_nil] at gives
    exact gives_nil_pure gives ▸ .nil
  | cons entry entries ih =>
    rw [List.mapM_cons] at gives
    obtain ⟨b, first, gives⟩ := gives_nil_bind gives
    obtain ⟨rest, later, gives⟩ := gives_nil_bind gives
    exact gives_nil_pure gives ▸ .cons first (ih later)

theorem forall₂_partner {α β : Type} {R : α → β → Prop} {l : List α} {m : List β} (related : List.Forall₂ R l m) {a : α}
    (inside : a ∈ l) : ∃ b ∈ m, R a b := by
  induction related with
  | nil => cases inside
  | cons first _ ih =>
    rcases List.mem_cons.mp inside with rfl | later
    · exact ⟨_, List.mem_cons_self .., first⟩
    · obtain ⟨b, member, here⟩ := ih later
      exact ⟨b, List.mem_cons_of_mem _ member, here⟩

/-- A conflict is found. -/
theorem conflict_gives {α : Type} {path label id : JSString} {a b : α} {found : List ManifestIssue}
    (gives : Gives (runtimePolicy.conflict path label id >>= fun _ => pure a : RuntimeMerge α) b found) :
    b = a ∧ ∃ message, found = [⟨path, message⟩] := by
  cases gives
  exact ⟨rfl, _, rfl⟩

theorem conflict_not_nil {α : Type} {path label id : JSString} {a b : α}
    (gives : Gives (runtimePolicy.conflict path label id >>= fun _ => pure a : RuntimeMerge α) b []) : False := by
  obtain ⟨-, message, none⟩ := conflict_gives gives
  cases none

section

variable {base child merged : Record Json}

theorem runtimeMerge_ok (ok : runtimeMerge base child = .ok merged) :
    ∃ blocks, Gives (runtimeBlocks base child) blocks [] ∧ merged = assemble base child blocks := by
  unfold runtimeMerge settle at ok
  split at ok
  · cases ok
  · rename_i made found run
    split at ok
    · rename_i none
      obtain rfl := Except.ok.inj ok
      obtain rfl := List.isEmpty_iff.mp none
      obtain ⟨blocks, gives, last⟩ := gives_nil_bind run
      exact ⟨blocks, gives, gives_nil_pure last⟩
    · cases ok

theorem map_key {key : JSString} {block : Block} (returns : Returns (runtimeMap base child key) block) : block.1 = key := by
  unfold runtimeMap at returns
  split at returns
  · obtain ⟨made, -, returns⟩ := returns_bind returns
    obtain rfl := returns_pure returns
    rfl
  · obtain rfl := returns_pure returns
    rfl
  · obtain rfl := returns_pure returns
    rfl

theorem slots_key {block : Block} (returns : Returns (runtimeSlots base child) block) : block.1 = js "slots" := by
  unfold runtimeSlots at returns
  simp only at returns
  split at returns
  · obtain ⟨made, -, returns⟩ := returns_bind returns
    obtain rfl := returns_pure returns
    rfl
  · obtain rfl := returns_pure returns
    rfl

theorem declarations_key {merge : Option Json → Option Json → RuntimeMerge (Record Json)} {name : JSString}
    {block : Block} (returns : Returns (runtimeDeclarations merge name base child) block) : block.1 = name := by
  unfold runtimeDeclarations at returns
  split at returns
  · obtain ⟨made, -, returns⟩ := returns_bind returns
    obtain rfl := returns_pure returns
    rfl
  · obtain rfl := returns_pure returns
    rfl

theorem get_assemble_block {blocks : List Block} (named : Record.keys blocks = runtimeKeys) {block : Block}
    (inside : block ∈ blocks) : Record.get (assemble base child blocks) block.1 = settled base block := by
  have isKey : block.1 ∈ runtimeKeys := named ▸ List.mem_map_of_mem inside
  obtain ⟨-, notExtends, -⟩ := runtimeKeys_plain isKey
  have distinct : (Record.keys blocks).Nodup := named ▸ by decide +kernel
  have own : js "__proto__" ∉ Record.keys blocks := named ▸ by decide +kernel
  have skipped : block.1 ∈ js "extends" :: blocks.map Prod.fst := List.mem_cons_of_mem _ (List.mem_map_of_mem inside)
  rw [assemble, Record.get_erase, if_neg notExtends, get_overlay_skipped skipped, get_setBlocks distinct own,
    Record.get_of_mem distinct inside]
  rfl

/-- What a merge that succeeds made of each block it has rules for. -/
structure MergedBlocks (base child merged : Record Json) : Prop where
  maps : ∀ key ∈ resolveMapKeys, ∃ block, Gives (runtimeMap base child key) block [] ∧
    Record.get merged key = block.2.or (Record.get base key)
  slots : ∃ block, Gives (runtimeSlots base child) block [] ∧
    Record.get merged (js "slots") = block.2.or (Record.get base (js "slots"))
  formats : ∃ block, Gives (runtimeDeclarations (mergeFormats runtimePolicy) (js "formats") base child) block [] ∧
    Record.get merged (js "formats") = block.2.or (Record.get base (js "formats"))
  vocabularies : ∃ block,
    Gives (runtimeDeclarations (mergeVocabularies runtimePolicy) (js "vocabularies") base child) block [] ∧
    Record.get merged (js "vocabularies") = block.2.or (Record.get base (js "vocabularies"))

theorem runtimeMerge_blocks (ok : runtimeMerge base child = .ok merged) : MergedBlocks base child merged := by
  obtain ⟨blocks, gives, rfl⟩ := runtimeMerge_ok ok
  obtain ⟨maps, mapped, gives⟩ := gives_nil_bind gives
  obtain ⟨slots, givesSlots, gives⟩ := gives_nil_bind gives
  obtain ⟨formats, givesFormats, gives⟩ := gives_nil_bind gives
  obtain ⟨vocabularies, givesVocabularies, gives⟩ := gives_nil_bind gives
  obtain rfl := gives_nil_pure gives
  have each := mapM_gives_nil mapped
  have mapKeys : Record.keys maps = resolveMapKeys := by
    have named := each.imp fun key block gives => (map_key ⟨[], gives⟩ : block.1 = key)
    have same := List.forall₂_map_right_iff.mpr (named.imp fun _ _ h => h.symm)
    exact (List.forall₂_eq_eq_eq ▸ same : resolveMapKeys = Record.keys maps).symm
  have slotsKey := slots_key ⟨[], givesSlots⟩
  have formatsKey := declarations_key ⟨[], givesFormats⟩
  have vocabulariesKey := declarations_key ⟨[], givesVocabularies⟩
  have named : Record.keys (maps ++ [slots, formats, vocabularies] ++
      resolveScalarKeys.map fun key => (key, Record.get child key)) = runtimeKeys := by
    simp only [Record.keys, List.map_append, List.map_cons, List.map_nil, slotsKey, formatsKey, vocabulariesKey]
    rw [show maps.map Prod.fst = resolveMapKeys from mapKeys]
    simp [runtimeKeys, Function.comp_def]
  have settles := fun block inside => @get_assemble_block base child _ named block inside
  refine ⟨fun key isMap => ?_, ⟨slots, givesSlots, ?_⟩, ⟨formats, givesFormats, ?_⟩, vocabularies, givesVocabularies, ?_⟩
  · obtain ⟨block, inside, gives⟩ := forall₂_partner each isMap
    have here := settles block (by simp [inside])
    have name := map_key ⟨[], gives⟩
    rw [settled, name] at here
    exact ⟨block, gives, here⟩
  · have here := settles slots (by simp)
    rwa [slotsKey, settled, slotsKey] at here
  · have here := settles formats (by simp)
    rwa [formatsKey, settled, formatsKey] at here
  · have here := settles vocabularies (by simp)
    rwa [vocabulariesKey, settled, vocabulariesKey] at here

end

/-- A value without a `refines` member. -/
def Unmarked : Json → Prop
  | .obj members => js "refines" ∉ Record.keys members
  | _ => True

/-- The entries of a map block. -/
def mapOf (key : JSString) (manifest : Record Json) : Record Json := ((Record.get manifest key).map spread).getD []

def slotsOf (manifest : Record Json) : List Json := arrayOr (Record.get manifest (js "slots"))

/-- The entries of a declaration's `nodes`. -/
def nodesOf : Json → Record Json
  | .obj members => objectOr (Record.get members (js "nodes"))
  | _ => []

/-- A declaration without a `refines` member, whose nodes have none either. -/
def DeclarationUnmarked (value : Json) : Prop := Unmarked value ∧ ∀ node ∈ nodesOf value, Unmarked node.2

/-- A manifest in which no type, slot, format, vocabulary or node has a `refines` member. -/
structure Consumed (manifest : Record Json) : Prop where
  types : ∀ id value, Record.get (mapOf (js "types") manifest) id = some value → Unmarked value
  slots : ∀ slot ∈ slotsOf manifest, Unmarked slot
  formats : ∀ entry ∈ objectOr (Record.get manifest (js "formats")), DeclarationUnmarked entry.2
  vocabularies : ∀ entry ∈ objectOr (Record.get manifest (js "vocabularies")), DeclarationUnmarked entry.2

theorem arrayOr_of_not {value : Option Json} (noArray : ¬ isArrayValue value = true) : arrayOr value = [] := by
  cases value with
  | none => rfl
  | some value =>
    cases value with
    | arr items => exact absurd rfl noArray
    | _ => rfl

theorem objectOr_of_not {value : Option Json} (noObject : ¬ isObjectValue value = true) : objectOr value = [] := by
  cases value with
  | none => rfl
  | some value =>
    cases value with
    | obj members => exact absurd rfl noObject
    | _ => rfl

theorem get_mergeMembers_refines {base result : Record Json} (members : List (JSString × Json)) :
    Record.get (mergeMembers base result members) (js "refines") = Record.get result (js "refines") := by
  induction members generalizing result with
  | nil => rw [mergeMembers]
  | cons entry members ih =>
    rw [mergeMembers]
    split
    · exact ih
    · rename_i other
      rw [ih, Record.get_assign_of_ne (Ne.symm other)]

/-- A deep merge keeps the marker of its base and consumes the child's. -/
theorem unmarked_deepMerge {base child : Record Json} : Unmarked (.obj (deepMerge base child)) ↔ Unmarked (.obj base) := by
  show js "refines" ∉ Record.keys (deepMerge base child) ↔ js "refines" ∉ Record.keys base
  rw [← Record.get_eq_none, ← Record.get_eq_none, deepMerge, get_mergeMembers_refines]

theorem unmarked_withoutRefines (value : Json) : Unmarked (withoutRefines value) := by
  cases value with
  | obj members =>
    show js "refines" ∉ Record.keys (Record.erase members (js "refines"))
    rw [← Record.get_eq_none, Record.get_erase, if_pos rfl]
  | _ => trivial

theorem unmarked_erase (members : Record Json) : Unmarked (.obj (members.erase (js "refines"))) := by
  show js "refines" ∉ Record.keys (Record.erase members (js "refines"))
  rw [← Record.get_eq_none, Record.get_erase, if_pos rfl]

section

/-- All values under the keys of an object. -/
def Values (P : Json → Prop) (r : Record Json) : Prop := ∀ entry ∈ r, P entry.2

theorem Values.assign {P : Json → Prop} {r : Record Json} (values : Values P r) {key : JSString} {value : Json}
    (new : P value) : Values P (Record.assign r key value) := by
  intro entry member
  rcases Record.mem_assign member with rfl | old
  · exact new
  · exact values entry old

theorem Values.nil {P : Json → Prop} : Values P [] := fun _ none => nomatch none

theorem values_mergeNodes {base child : Option Json} {label owner : JSString} {nodes : Record Json}
    (returns : Returns (mergeNodes runtimePolicy base child label owner) nodes) : Values Unmarked nodes := by
  refine foldlM_keeps (Values Unmarked) ?_ ?_ returns
  · intro made entry _ values next step
    unfold mergeNodeEntry at step
    split at step
    · exact returns_pure step ▸ values.assign (unmarked_withoutRefines _)
    · split at step
      · split at step
        · obtain ⟨node, merging, step⟩ := returns_bind step
          unfold mergeNode at merging
          obtain ⟨_, _, merging⟩ := returns_bind merging
          have consumed : Unmarked (.obj node) := returns_pure merging ▸ unmarked_erase _
          exact returns_pure step ▸ values.assign consumed
        · obtain ⟨-, -, step⟩ := returns_bind step
          exact returns_pure step ▸ values
      · obtain ⟨-, -, step⟩ := returns_bind step
        exact returns_pure step ▸ values
  · have kept : ∀ (entries made : Record Json), Values Unmarked made → Values Unmarked
        (entries.foldl (fun merged entry => Record.assign merged entry.1 (withoutRefines entry.2)) made) := by
      intro entries
      induction entries with
      | nil => exact fun _ values => values
      | cons entry entries ih => exact fun made values => ih _ (values.assign (unmarked_withoutRefines _))
    exact kept _ [] .nil

theorem unmarked_mergeDeclaration {label : JSString} {base : Member} {child made : Record Json} {owner : JSString}
    (returns : Returns (mergeDeclaration runtimePolicy label base child owner) made) : DeclarationUnmarked (.obj made) := by
  refine ⟨?_, ?_⟩
  · unfold mergeDeclaration at returns
    obtain ⟨inherited, -, returns⟩ := returns_bind returns
    simp only at returns
    split at returns
    · obtain ⟨nodes, -, returns⟩ := returns_bind returns
      obtain ⟨merged, -, returns⟩ := returns_bind returns
      exact returns_pure returns ▸ unmarked_erase _
    · obtain ⟨merged, -, returns⟩ := returns_bind returns
      exact returns_pure returns ▸ unmarked_erase _
  · rcases returns_mergeDeclaration_nodes returns with ⟨nodes, found, merging⟩ | ⟨none, -, -⟩
    · show Values Unmarked (objectOr (Record.get made (js "nodes")))
      rw [found]
      exact values_mergeNodes merging
    · show Values Unmarked (objectOr (Record.get made (js "nodes")))
      rw [none]
      exact .nil

variable {merge : Member → Record Json → JSString → RuntimeMerge (Record Json)}

theorem values_admitDeclaration (clean : ∀ base child id made, Returns (merge base child id) made →
    DeclarationUnmarked (.obj made)) {made next : Record Json} {entry : JSString × Json}
    (values : Values DeclarationUnmarked made) (returns : Returns (admitDeclaration merge made entry) next) :
    Values DeclarationUnmarked next := by
  unfold admitDeclaration at returns
  split at returns
  · obtain ⟨declared, merging, returns⟩ := returns_bind returns
    exact returns_pure returns ▸ values.assign (clean _ _ _ _ merging)
  · rename_i value noObject
    have unmarked : DeclarationUnmarked entry.2 := by
      cases declared : entry.2 with
      | obj members => exact absurd declared (noObject members)
      | _ => exact ⟨trivial, fun _ none => nomatch none⟩
    exact returns_pure returns ▸ values.assign unmarked

theorem values_mergeDeclarations (clean : ∀ base child id made, Returns (merge base child id) made →
    DeclarationUnmarked (.obj made)) {label block : JSString} {base child : Option Json} {made : Record Json}
    (returns : Returns (mergeDeclarations runtimePolicy label block merge base child) made) :
    Values DeclarationUnmarked made := by
  unfold mergeDeclarations at returns
  obtain ⟨kept, keeping, returns⟩ := returns_bind returns
  have values := foldlM_keeps (Values DeclarationUnmarked)
    (fun _ _ _ values _ step => values_admitDeclaration clean values step) .nil keeping
  refine foldlM_keeps (Values DeclarationUnmarked) ?_ values returns
  intro made entry _ values next step
  unfold mergeDeclarationEntry at step
  split at step
  · exact values_admitDeclaration clean values step
  · split at step
    · split at step
      · obtain ⟨declared, merging, step⟩ := returns_bind step
        exact returns_pure step ▸ values.assign (clean _ _ _ _ merging)
      · obtain ⟨-, -, step⟩ := returns_bind step
        exact returns_pure step ▸ values
    · obtain ⟨-, -, step⟩ := returns_bind step
      exact returns_pure step ▸ values

/-- Declarations a merge sets have no marker, and declarations it does not set are no object's. -/
theorem values_declarations (clean : ∀ base child id made, Returns (merge base child id) made →
    DeclarationUnmarked (.obj made)) {label block : JSString} {base child : Record Json} {made : Block}
    (returns : Returns (runtimeDeclarations (mergeDeclarations runtimePolicy label block merge) block base child) made) :
    Values DeclarationUnmarked (objectOr (made.2.or (Record.get base block))) := by
  unfold runtimeDeclarations at returns
  split at returns
  · obtain ⟨merged, merging, returns⟩ := returns_bind returns
    obtain rfl := returns_pure returns
    exact values_mergeDeclarations clean merging
  · rename_i neither
    obtain rfl := returns_pure returns
    have none : objectOr (Record.get base block) = [] := objectOr_of_not fun isObject => neither (Or.inl isObject)
    show Values DeclarationUnmarked (objectOr (Record.get base block))
    rw [none]
    exact .nil

end

end Xript
