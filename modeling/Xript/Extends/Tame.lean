import Xript.Extends.Mirror
import Xript.Json.RoundTrip
import Xript.Number.Decimal

namespace Xript

open Collecting

theorem get_overlay_skipped {skip : List JSString} {key : JSString} (skipped : key ∈ skip) (base child : Record Json) :
    Record.get (overlay skip base child) key = Record.get base key := by
  unfold overlay
  induction child generalizing base with
  | nil => rfl
  | cons entry child ih =>
    rw [List.foldl_cons, ih]
    by_cases inSkip : entry.1 ∈ skip
    · rw [if_pos inSkip]
    · have apart : key ≠ entry.1 := fun same => inSkip (same ▸ skipped)
      rw [if_neg inSkip, Record.get_assign_of_ne apart]

theorem get_overlay {skip : List JSString} {key : JSString} (unskipped : key ∉ skip) (base : Record Json)
    {child : Record Json} (distinct : (Record.keys child).Nodup) (own : js "__proto__" ∉ Record.keys child) :
    Record.get (overlay skip base child) key = (Record.get child key).or (Record.get base key) := by
  unfold overlay
  induction child generalizing base with
  | nil => rfl
  | cons entry child ih =>
    rw [Record.keys, List.map_cons] at distinct own
    have ⟨absent, rest⟩ := List.nodup_cons.mp distinct
    rw [List.foldl_cons, ih _ rest fun inside => own (List.mem_cons_of_mem _ inside), Record.get_cons]
    by_cases here : key = entry.1
    · have gone : Record.get child key = none := Record.get_eq_none.2 (here ▸ absent)
      have plain : entry.1 ≠ js "__proto__" := fun proto => own (proto ▸ List.mem_cons_self ..)
      rw [gone, if_pos here, here, if_neg (here ▸ unskipped), Record.get_assign_self plain]
      rfl
    · rw [if_neg here]
      split
      · rfl
      · rw [Record.get_assign_of_ne here]

theorem decimal_ne_nodes (n : Nat) : decimal n ≠ js "nodes" := by
  intro same
  have digits := decimal_digits n
  rw [same] at digits
  exact absurd digits (by decide +kernel)

theorem get_spread_nodes {base : Member} (absent : base.has (js "nodes") = some false) :
    Record.get base.spread (js "nodes") = none := by
  match base with
  | .own (.obj members) =>
    have missing : js "nodes" ∉ Record.keys members := by simpa [Member.has] using absent
    exact Record.get_eq_none.2 missing
  | .own (.arr items) =>
    refine Record.get_eq_none.2 fun inside => ?_
    obtain ⟨entry, member, named⟩ := List.mem_map.mp inside
    obtain ⟨item, -, made⟩ := List.mem_map.mp member
    rw [← made] at named
    exact decimal_ne_nodes _ named
  | .own .null | .own (.bool _) | .own (.num _) | .own (.str _) => cases absent
  | .prototype | .other => rfl

theorem returns_mergeNodeEntry {baseNodes : Record Json} {label owner : JSString} {merged next : Record Json}
    {entry : JSString × Json} (returns : Returns (mergeNodeEntry runtimePolicy baseNodes label owner merged entry) next) :
    next = merged ∨ ∃ value, next = Record.assign merged entry.1 value := by
  unfold mergeNodeEntry at returns
  split at returns
  · exact Or.inr ⟨_, returns_pure returns⟩
  · split at returns
    · split at returns
      · obtain ⟨made, -, rest⟩ := returns_bind returns
        exact Or.inr ⟨_, returns_pure rest⟩
      · obtain ⟨-, -, rest⟩ := returns_bind returns
        exact Or.inl (returns_pure rest)
    · obtain ⟨-, -, rest⟩ := returns_bind returns
      exact Or.inl (returns_pure rest)

theorem keys_foldl_assign {f : JSString × Json → Json} {entries start : Record Json} {key : JSString}
    (member : key ∈ Record.keys (entries.foldl (fun made entry => Record.assign made entry.1 (f entry)) start)) :
    key ∈ Record.keys start ∨ key ∈ Record.keys entries := by
  induction entries generalizing start with
  | nil => exact Or.inl member
  | cons entry entries ih =>
    rcases ih member with made | later
    · rcases Record.mem_keys_assign made with rfl | old
      · exact Or.inr (List.mem_cons_self ..)
      · exact Or.inl old
    · exact Or.inr (List.mem_cons_of_mem _ later)

/-- Merging nodes brings in no name of its own. -/
theorem returns_mergeNodes {base child : Option Json} {label owner : JSString} {nodes : Record Json}
    (returns : Returns (mergeNodes runtimePolicy base child label owner) nodes) :
    ∀ name ∈ Record.keys nodes, name ∈ Record.keys (objectOr base) ∨ name ∈ Record.keys (objectOr child) := by
  unfold mergeNodes at returns
  refine foldlM_keeps (fun made => ∀ name ∈ Record.keys made,
    name ∈ Record.keys (objectOr base) ∨ name ∈ Record.keys (objectOr child)) ?_ ?_ returns
  · intro made entry inside old next step
    rcases returns_mergeNodeEntry step with rfl | ⟨value, rfl⟩
    · exact old
    · exact Record.keys_assign (Or.inr (List.mem_map_of_mem inside)) old
  · intro name member
    rcases keys_foldl_assign member with none | inside
    · cases none
    · exact Or.inl inside

/-- The nodes of a merged declaration are merged nodes, or it has none. -/
theorem returns_mergeDeclaration_nodes {label : JSString} {base : Member} {child made : Record Json} {owner : JSString}
    (returns : Returns (mergeDeclaration runtimePolicy label base child owner) made) :
    (∃ nodes, Record.get made (js "nodes") = some (.obj nodes) ∧
      Returns (mergeNodes runtimePolicy (base.get (js "nodes")) (Record.get child (js "nodes")) label owner) nodes) ∨
    (Record.get made (js "nodes") = none ∧ base.has (js "nodes") = some false ∧ js "nodes" ∉ Record.keys child) := by
  have nodesOf : ∀ merged : Record Json,
      Record.get (merged.erase (js "refines")) (js "nodes") = Record.get merged (js "nodes") := by
    intro merged
    rw [Record.get_erase, if_neg (by decide +kernel)]
  unfold mergeDeclaration at returns
  obtain ⟨inherited, has, returns⟩ := returns_bind returns
  simp only at returns
  split at returns
  · obtain ⟨nodes, merging, returns⟩ := returns_bind returns
    obtain ⟨merged, pures, returns⟩ := returns_bind returns
    obtain rfl := returns_pure pures
    obtain rfl := returns_pure returns
    exact Or.inl ⟨nodes, by rw [nodesOf, Record.get_assign_self (by decide +kernel)], merging⟩
  · rename_i neither
    obtain ⟨merged, pures, returns⟩ := returns_bind returns
    obtain rfl := returns_pure pures
    obtain rfl := returns_pure returns
    have absent : base.has (js "nodes") = some false := by
      unfold MergePolicy.has at has
      split at has
      · rename_i found at_
        obtain rfl := returns_pure has
        rw [at_]
        have uninherited : inherited ≠ true := fun isTrue => neither (Or.inl isTrue)
        simpa using uninherited
      · obtain ⟨_, run⟩ := has
        cases run
    exact Or.inr ⟨by rw [nodesOf, get_overlay_skipped (by decide +kernel), get_spread_nodes absent], absent,
      fun stated => neither (Or.inr stated)⟩

/-- Merging declarations brings in no node name of its own. -/
theorem returns_mergeDeclaration {label : JSString} {base : Member} {child made : Record Json} {owner : JSString}
    (returns : Returns (mergeDeclaration runtimePolicy label base child owner) made) :
    ∀ name ∈ nodeNames made, name ∈ Record.keys (objectOr (base.get (js "nodes"))) ∨ name ∈ nodeNames child := by
  rcases returns_mergeDeclaration_nodes returns with ⟨nodes, found, merging⟩ | ⟨none, -, -⟩
  · rw [nodeNames, found]
    exact returns_mergeNodes merging
  · rw [nodeNames, none]
    exact fun name member => (nomatch member)

theorem PlainDeclarations.nil : PlainDeclarations [] :=
  ⟨fun _ member => (nomatch member), fun _ _ member => (nomatch member)⟩

theorem PlainDeclarations.assign {r : Record Json} (plain : PlainDeclarations r) {id : JSString} {value : Json}
    (plainId : id ∉ objectPrototypeNames)
    (nodes : ∀ declaration, value = .obj declaration → ∀ name ∈ nodeNames declaration, name ∉ objectPrototypeNames) :
    PlainDeclarations (Record.assign r id value) := by
  refine ⟨Record.keys_assign plainId plain.ids, fun other declaration member => ?_⟩
  rcases Record.mem_assign member with same | old
  · cases same
    exact nodes declaration rfl
  · exact plain.nodes other declaration old

section

variable {merge : Member → Record Json → JSString → RuntimeMerge (Record Json)}

/-- A merge of one declaration that brings in no node name of its own. -/
def BringsNoName (merge : Member → Record Json → JSString → RuntimeMerge (Record Json)) : Prop :=
  ∀ base child id made, Returns (merge base child id) made →
    ∀ name ∈ nodeNames made, name ∈ Record.keys (objectOr (base.get (js "nodes"))) ∨ name ∈ nodeNames child

theorem returns_admitDeclaration (brings : BringsNoName merge) {r made next : Record Json} (plain : PlainDeclarations r)
    {entry : JSString × Json} (inside : entry ∈ r) (old : PlainDeclarations made)
    (returns : Returns (admitDeclaration merge made entry) next) : PlainDeclarations next := by
  have plainId := plain.ids entry.1 (List.mem_map_of_mem inside)
  unfold admitDeclaration at returns
  split at returns
  · rename_i declaration value
    obtain ⟨admitted, merging, returns⟩ := returns_bind returns
    obtain rfl := returns_pure returns
    refine old.assign plainId fun _ same name member => ?_
    cases same
    rcases brings _ _ _ _ merging name member with none | inChild
    · cases none
    · exact plain.nodes entry.1 declaration (value ▸ inside) name inChild
  · rename_i value noObject
    obtain rfl := returns_pure returns
    exact old.assign plainId fun declaration same => absurd same (noObject declaration)

theorem returns_mergeDeclarationEntry (brings : BringsNoName merge) {label block : JSString} {base r made next : Record Json}
    (plainBase : PlainDeclarations base) (plain : PlainDeclarations r) {entry : JSString × Json} (inside : entry ∈ r)
    (old : PlainDeclarations made)
    (returns : Returns (mergeDeclarationEntry runtimePolicy label block merge base made entry) next) :
    PlainDeclarations next := by
  have plainId := plain.ids entry.1 (List.mem_map_of_mem inside)
  unfold mergeDeclarationEntry at returns
  split at returns
  · exact returns_admitDeclaration brings plain inside old returns
  · rename_i known found
    split at returns
    · rename_i declaration value
      split at returns
      · obtain ⟨merged, merging, returns⟩ := returns_bind returns
        obtain rfl := returns_pure returns
        refine old.assign plainId fun _ same name member => ?_
        cases same
        rcases brings _ _ _ _ merging name member with inBase | inChild
        · obtain ⟨baseValue, atId, rfl⟩ := Option.map_eq_some_iff.mp found
          cases baseValue with
          | obj declaration => exact plainBase.nodes entry.1 declaration (Record.mem_of_get atId) name inBase
          | _ => cases inBase
        · exact plain.nodes entry.1 declaration (value ▸ inside) name inChild
      · obtain ⟨-, -, returns⟩ := returns_bind returns
        exact returns_pure returns ▸ old
    · obtain ⟨-, -, returns⟩ := returns_bind returns
      exact returns_pure returns ▸ old

theorem returns_mergeDeclarations (brings : BringsNoName merge) {label block : JSString} {base child : Option Json}
    {made : Record Json} (plainBase : PlainDeclarations (objectOr base)) (plainChild : PlainDeclarations (objectOr child))
    (returns : Returns (mergeDeclarations runtimePolicy label block merge base child) made) : PlainDeclarations made := by
  unfold mergeDeclarations at returns
  obtain ⟨kept, keeping, returns⟩ := returns_bind returns
  have plainKept : PlainDeclarations kept :=
    foldlM_keeps PlainDeclarations
      (fun _ _ inside old _ step => returns_admitDeclaration brings plainBase inside old step) .nil keeping
  exact foldlM_keeps PlainDeclarations
    (fun _ _ inside old _ step => returns_mergeDeclarationEntry brings plainBase plainChild inside old step)
    plainKept returns

end

end Xript
