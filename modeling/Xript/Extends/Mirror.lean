import Xript.Extends.Resolve

namespace Xript

open Collecting

/-- Ids that no object inherits. -/
def PlainKeys {β : Type} (r : Record β) : Prop := ∀ key ∈ Record.keys r, key ∉ objectPrototypeNames

/-- The names under a declaration's `nodes`. -/
def nodeNames (declaration : Record Json) : List JSString := Record.keys (objectOr (Record.get declaration (js "nodes")))

/-- Declarations under plain ids, whose nodes have plain names. -/
structure PlainDeclarations (r : Record Json) : Prop where
  ids : PlainKeys r
  nodes : ∀ id declaration, (id, Json.obj declaration) ∈ r → ∀ name ∈ nodeNames declaration, name ∉ objectPrototypeNames

/-- An id no object inherits is looked up alike. -/
theorem lookup_plain {key : JSString} (plain : key ∉ objectPrototypeNames) (members : Record Json) :
    validatorPolicy.lookup members key = runtimePolicy.lookup members key := by
  have proto : key ≠ js "__proto__" := fun same => plain (same ▸ by decide +kernel)
  simp only [validatorPolicy, runtimePolicy, if_neg proto, if_neg plain]
  cases Record.get members key <;> rfl

theorem mirrors_has (member : Member) (key : JSString) :
    Mirrors Eq (MergePolicy.has runtimePolicy member key) (MergePolicy.has validatorPolicy member key) := by
  unfold MergePolicy.has
  cases member.has key with
  | none => exact Mirrors.throw _ _ _
  | some found => exact .pure rfl

theorem mirrors_conflict {α : Type} {path path' label label' id : JSString} {a : α} :
    Mirrors Eq (runtimePolicy.conflict path label id >>= fun _ => pure a)
      (validatorPolicy.conflict path' label' id >>= fun _ => pure a) :=
  Mirrors.note_bind _ _ _ _ _

theorem mirrors_mergeEntry (mapKey : JSString) (known : Option Member) (merged : Record Json) (entry : JSString × Json) :
    Mirrors Eq (mergeEntry runtimePolicy mapKey known merged entry)
      (mergeEntry validatorPolicy mapKey known merged entry) := by
  unfold mergeEntry
  cases known with
  | none => exact .pure rfl
  | some base =>
    dsimp only
    cases (if mapKey = js "types" then typeRefinement base entry.2 else none) with
    | none => exact mirrors_conflict
    | some value => exact .pure rfl

/-- An entry of a map block is defined or leaves everything as it was. -/
theorem returns_mergeEntry {mapKey : JSString} {known : Option Member} {merged next : Record Json}
    {entry : JSString × Json} (returns : Returns (mergeEntry runtimePolicy mapKey known merged entry) next) :
    next = merged ∨ ∃ value, next = Record.assign merged entry.1 value := by
  unfold mergeEntry at returns
  split at returns
  · exact Or.inr ⟨entry.2, returns_pure returns⟩
  · split at returns
    · exact Or.inr ⟨_, returns_pure returns⟩
    · obtain ⟨-, -, rest⟩ := returns_bind returns
      exact Or.inl (returns_pure rest)

theorem mirrors_mergeSlot (made : List Json × List JSString) (slot : Json) :
    Mirrors Eq (mergeSlot runtimePolicy made slot) (mergeSlot validatorPolicy made slot) := by
  unfold mergeSlot
  split
  · exact .pure rfl
  · split
    · split
      · exact .pure rfl
      · exact mirrors_conflict
    · exact .pure rfl

theorem mirrors_mergeSlots (base child : List Json) :
    Mirrors Eq (mergeSlots runtimePolicy base child) (mergeSlots validatorPolicy base child) := by
  unfold mergeSlots
  exact (Mirrors.foldlM_each (fun made slot _ => mirrors_mergeSlot made slot) _).bind_same fun made _ => .pure rfl

theorem mirrors_mergeNode (base : Member) (child : Record Json) :
    Mirrors Eq (mergeNode runtimePolicy base child) (mergeNode validatorPolicy base child) := by
  unfold mergeNode
  exact (mirrors_has base _).bind_same fun inherited _ => .pure rfl

theorem mirrors_mergeNodeEntry {baseNodes : Record Json} {label owner : JSString} {merged : Record Json}
    {entry : JSString × Json} (plain : entry.1 ∉ objectPrototypeNames) :
    Mirrors Eq (mergeNodeEntry runtimePolicy baseNodes label owner merged entry)
      (mergeNodeEntry validatorPolicy baseNodes label owner merged entry) := by
  unfold mergeNodeEntry
  rw [lookup_plain plain]
  cases runtimePolicy.lookup baseNodes entry.1 with
  | none => exact .pure rfl
  | some base =>
    dsimp only
    split
    · split
      · exact (mirrors_mergeNode base _).bind_same fun made _ => .pure rfl
      · exact mirrors_conflict
    · exact mirrors_conflict

theorem mirrors_mergeNodes {base child : Option Json} {label owner : JSString} (plain : PlainKeys (objectOr child)) :
    Mirrors Eq (mergeNodes runtimePolicy base child label owner) (mergeNodes validatorPolicy base child label owner) := by
  unfold mergeNodes
  exact Mirrors.foldlM_each (fun merged entry member =>
    mirrors_mergeNodeEntry (plain entry.1 (List.mem_map_of_mem member))) _

theorem mirrors_mergeDeclaration {label : JSString} {base : Member} {child : Record Json} {owner : JSString}
    (plain : ∀ name ∈ nodeNames child, name ∉ objectPrototypeNames) :
    Mirrors Eq (mergeDeclaration runtimePolicy label base child owner)
      (mergeDeclaration validatorPolicy label base child owner) := by
  unfold mergeDeclaration
  refine (mirrors_has base _).bind_same fun inherited _ => ?_
  split
  · exact (mirrors_mergeNodes plain).bind_same fun nodes _ => .pure rfl
  · exact .pure rfl

section

variable {mergeR : Member → Record Json → JSString → RuntimeMerge (Record Json)}
variable {mergeV : Member → Record Json → JSString → Except ManifestError (Record Json)}

/-- The two merges of one declaration mirror each other where the node names are plain. -/
def MergesAlike (mergeR : Member → Record Json → JSString → RuntimeMerge (Record Json))
    (mergeV : Member → Record Json → JSString → Except ManifestError (Record Json)) : Prop :=
  ∀ base child id, (∀ name ∈ nodeNames child, name ∉ objectPrototypeNames) →
    Mirrors Eq (mergeR base child id) (mergeV base child id)

theorem mirrors_admitDeclaration (alike : MergesAlike mergeR mergeV) {r : Record Json} (plain : PlainDeclarations r)
    (merged : Record Json) {entry : JSString × Json} (inside : entry ∈ r) :
    Mirrors Eq (admitDeclaration mergeR merged entry) (admitDeclaration mergeV merged entry) := by
  obtain ⟨id, value⟩ := entry
  cases value with
  | obj declaration =>
    exact (alike _ declaration id (plain.nodes id declaration inside)).bind_same fun made _ => .pure rfl
  | _ => exact .pure rfl

theorem mirrors_mergeDeclarationEntry (alike : MergesAlike mergeR mergeV) {r : Record Json}
    (plain : PlainDeclarations r) (label block : JSString) (base merged : Record Json) {entry : JSString × Json}
    (inside : entry ∈ r) :
    Mirrors Eq (mergeDeclarationEntry runtimePolicy label block mergeR base merged entry)
      (mergeDeclarationEntry validatorPolicy label block mergeV base merged entry) := by
  unfold mergeDeclarationEntry
  rw [lookup_plain (plain.ids entry.1 (List.mem_map_of_mem inside))]
  cases runtimePolicy.lookup base entry.1 with
  | none => exact mirrors_admitDeclaration alike plain merged inside
  | some known =>
    obtain ⟨id, value⟩ := entry
    cases value with
    | obj declaration =>
      show Mirrors Eq (if hasMark declaration (js "refines") then _ else _)
        (if hasMark declaration (js "refines") then _ else _)
      split
      · exact (alike known declaration id (plain.nodes id declaration inside)).bind_same fun made _ => .pure rfl
      · exact mirrors_conflict
    | _ => exact mirrors_conflict

theorem mirrors_mergeDeclarations (alike : MergesAlike mergeR mergeV) {label block : JSString}
    {base child : Option Json} (plainBase : PlainDeclarations (objectOr base))
    (plainChild : PlainDeclarations (objectOr child)) :
    Mirrors Eq (mergeDeclarations runtimePolicy label block mergeR base child)
      (mergeDeclarations validatorPolicy label block mergeV base child) := by
  unfold mergeDeclarations
  refine (Mirrors.foldlM_each (fun made entry inside => mirrors_admitDeclaration alike plainBase made inside) _).bind_same
    fun kept _ => ?_
  exact Mirrors.foldlM_each (fun made entry inside =>
    mirrors_mergeDeclarationEntry alike plainChild label block _ made inside) _

end

theorem mergesAlike_format : MergesAlike (mergeFormat runtimePolicy) (mergeFormat validatorPolicy) :=
  fun _ _ _ plain => mirrors_mergeDeclaration plain

theorem mergesAlike_vocabulary : MergesAlike (mergeVocabulary runtimePolicy) (mergeVocabulary validatorPolicy) :=
  fun _ _ _ plain => mirrors_mergeDeclaration plain

end Xript
