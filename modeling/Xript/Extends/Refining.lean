import Xript.Extends.Consumed

namespace Xript

open Collecting

/-- What a map of types has of an id a child redeclares with `value`. -/
def admits (known : Option Json) (id : JSString) (value : Json) : Option Json :=
  match known with
  | none => if id = js "__proto__" then none else some value
  | some known => typeRefinement (.own known) value

/-- What a map of types has of an id, once a child's types are merged onto it. -/
def admitted (base child : Record Json) (id : JSString) : Option Json :=
  match Record.get child id with
  | none => Record.get base id
  | some value => admits (Record.get base id) id value

/-- A type with `abstract: true`. -/
def isAbstractType (value : Json) : Prop := ∃ members, value = .obj members ∧ hasMark members (js "abstract")

theorem typeRefinement_abstract {known value result : Json} (abstracted : isAbstractType known)
    (refined : typeRefinement (.own known) value = some result) : result = value := by
  obtain ⟨members, rfl, marked⟩ := abstracted
  cases value with
  | obj child =>
    simp only [typeRefinement, Member.object?, if_pos marked] at refined
    exact (Option.some.inj refined).symm
  | _ => cases refined

theorem typeRefinement_concrete {known value result : Json} (concrete : ¬ isAbstractType known)
    (refined : typeRefinement (.own known) value = some result) :
    (∃ members, known = .obj members) ∧ (Unmarked result ↔ Unmarked known) := by
  cases known with
  | obj members =>
    cases value with
    | obj child =>
      have plain : ¬ hasMark members (js "abstract") = true := fun marked => concrete ⟨members, rfl, marked⟩
      simp only [typeRefinement, Member.object?, if_neg plain] at refined
      split at refined
      · obtain rfl := Option.some.inj refined
        exact ⟨⟨members, rfl⟩, unmarked_deepMerge⟩
      · cases refined
    | _ => cases refined
  | _ => cases refined

section

variable {target source : Json} {merged next : Record Json} {entry : JSString × Json}

/-- What one entry of a child's types leaves under every id. -/
theorem get_typeEntry
    (gives : Gives (mergeEntry runtimePolicy (js "types") (if entry.1 ∈ Record.keys merged then
      some ((Record.get (spread target) entry.1).elim .other .own) else none) merged entry) next [])
    (same : Record.get merged entry.1 = Record.get (spread target) entry.1) (id : JSString) :
    Record.get next id = (if id = entry.1 then admits (Record.get (spread target) entry.1) entry.1 entry.2
      else Record.get merged id) ∧
    ((Record.get (spread target) entry.1).isSome → (admits (Record.get (spread target) entry.1) entry.1 entry.2).isSome) := by
  cases known : Record.get (spread target) entry.1 with
  | none =>
    have absent : entry.1 ∉ Record.keys merged := Record.get_eq_none.1 (same.trans known)
    rw [if_neg absent] at gives
    obtain rfl := gives_nil_pure gives
    refine ⟨?_, nofun⟩
    by_cases here : id = entry.1
    · rw [if_pos here, here, admits]
      by_cases proto : entry.1 = js "__proto__"
      · rw [if_pos proto, Record.assign, if_pos ⟨proto, absent⟩, same, known]
      · rw [if_neg proto, Record.get_assign_self proto]
    · rw [if_neg here, Record.get_assign_of_ne here]
  | some value =>
    have present : entry.1 ∈ Record.keys merged := Record.mem_keys_of_get (same.trans known)
    rw [if_pos present, known] at gives
    cases refined : typeRefinement (.own value) entry.2 with
    | none =>
      simp only [mergeEntry, Option.elim_some, if_true, refined] at gives
      exact (conflict_not_nil gives).elim
    | some result =>
      simp only [mergeEntry, Option.elim_some, if_true, refined] at gives
      obtain rfl := gives_nil_pure gives
      refine ⟨?_, fun _ => ?_⟩
      · by_cases here : id = entry.1
        · rw [if_pos here, here, admits, refined, Record.assign, if_neg fun proto => proto.2 present, Record.get_set,
            if_pos rfl]
        · rw [if_neg here, Record.get_assign_of_ne here]
      · rw [admits, refined]
        rfl

/-- What a merge has made of the types under each id, while `rest` of the child's are left. -/
def TypesMade (base child made rest : Record Json) : Prop :=
  (Record.keys rest).Nodup ∧ (∀ entry ∈ rest, Record.get child entry.1 = some entry.2) ∧
    ∀ id, Record.get made id = (if id ∈ Record.keys rest then Record.get base id else admitted base child id) ∧
      (id ∉ Record.keys rest → (Record.get base id).isSome → (admitted base child id).isSome)

theorem typesMade_step {rest : Record Json} (made : TypesMade (spread target) (spread source) merged (entry :: rest))
    (gives : Gives (mergeEntry runtimePolicy (js "types") (if entry.1 ∈ Record.keys merged then
      some ((Record.get (spread target) entry.1).elim .other .own) else none) merged entry) next []) :
    TypesMade (spread target) (spread source) next rest := by
  obtain ⟨distinct, inside, each⟩ := made
  have apart := List.nodup_cons.mp (show (entry.1 :: Record.keys rest).Nodup from distinct)
  have stated := inside entry (List.mem_cons_self ..)
  have same : Record.get merged entry.1 = Record.get (spread target) entry.1 :=
    ((each entry.1).1).trans (if_pos (List.mem_cons_self ..))
  refine ⟨apart.2, fun other member => inside other (List.mem_cons_of_mem _ member), fun id => ?_⟩
  obtain ⟨left, stays⟩ := get_typeEntry gives same id
  by_cases here : id = entry.1
  · obtain rfl := here
    have known : admitted (spread target) (spread source) entry.1 =
        admits (Record.get (spread target) entry.1) entry.1 entry.2 := by rw [admitted, stated]
    rw [left, if_pos rfl, if_neg apart.1, known]
    exact ⟨rfl, fun _ => stays⟩
  · have keys : id ∈ Record.keys (entry :: rest) ↔ id ∈ Record.keys rest := by
      show id ∈ entry.1 :: Record.keys rest ↔ _
      rw [List.mem_cons, or_iff_right here]
    rw [left, if_neg here, (each id).1]
    simp only [keys]
    exact ⟨trivial, fun absent => (each id).2 (fun member => absent (keys.mp member))⟩

/-- The types of a merge that succeeds, id by id. -/
theorem get_mergeTypes (distinct : (Record.keys (spread source)).Nodup)
    (gives : Gives (runtimeMergeMaps target source (js "types")) merged []) (id : JSString) :
    Record.get merged id = admitted (spread target) (spread source) id ∧
      ((Record.get (spread target) id).isSome → (admitted (spread target) (spread source) id).isSome) := by
  have made : TypesMade (spread target) (spread source) merged [] := by
    unfold runtimeMergeMaps at gives
    split at gives
    · cases gives
    · refine foldlM_gives_nil (TypesMade (spread target) (spread source)) ?_ ?_ gives
      · exact fun made entry rest next before gives => typesMade_step before gives
      · refine ⟨distinct, fun entry inside => Record.get_of_mem distinct inside, fun id => ⟨?_, ?_⟩⟩
        · by_cases inside : id ∈ Record.keys (spread source)
          · rw [if_pos inside]
          · rw [if_neg inside, admitted, Record.get_eq_none.2 inside]
        · intro outside known
          rwa [admitted, Record.get_eq_none.2 outside]
  exact ⟨((made.2.2 id).1).trans (if_neg (nomatch ·)), (made.2.2 id).2 (nomatch ·)⟩

end

section

variable {base child merged : Record Json}

/-- A child's type carries `refines` only where the base has a concrete type of its id. -/
def TypeRefines (base : Record Json) (entry : JSString × Json) : Prop :=
  Unmarked entry.2 ∨
    match Record.get (mapOf (js "types") base) entry.1 with
    | some known => ¬ isAbstractType known
    -- assigned onto the types of a base, `__proto__` makes no type
    | none => js "types" ∈ Record.keys base ∧ entry.1 = js "__proto__"

/-- A child's slots carry `refines` only where a slot of their id came before. -/
def SlotsRefine : List JSString → List Json → Prop
  | _, [] => True
  | seen, slot :: slots =>
    match slotId slot with
    | none => Unmarked slot ∧ SlotsRefine seen slots
    | some id => (Unmarked slot ∨ id ∈ seen) ∧ SlotsRefine (if id ∈ seen then seen else id :: seen) slots

/-- Every `refines` marker of a child's types and slots refines something of the base. -/
structure Refining (base child : Record Json) : Prop where
  types : ∀ entry ∈ mapOf (js "types") child, TypeRefines base entry
  slots : SlotsRefine ((slotsOf base).filterMap slotId) (slotsOf child)

/-- The markers a merge consumes: the child's refine, and the base's are gone or stand on abstract types the child
fills. -/
structure Consumes (base child : Record Json) : Prop where
  refining : Refining base child
  types : ∀ id value, Record.get (mapOf (js "types") base) id = some value →
    Unmarked value ∨ (isAbstractType value ∧ id ∈ Record.keys (mapOf (js "types") child))
  slots : ∀ slot ∈ slotsOf base, Unmarked slot

theorem Consumed.consumes (consumed : Consumed base) (refining : Refining base child) : Consumes base child :=
  ⟨refining, fun id value known => Or.inl (consumed.types id value known), consumed.slots⟩

theorem Consumed.nil : Consumed [] where
  types _ _ found := nomatch found
  slots _ inside := nomatch inside
  formats _ inside := nomatch inside
  vocabularies _ inside := nomatch inside

theorem unmarked_of_spread_slot {slot : Json} {id : JSString} (named : slotId slot = some id) {members : Record Json} :
    Unmarked (.obj (deepMerge (spread slot) members)) ↔ Unmarked slot := by
  cases slot with
  | obj known => exact unmarked_deepMerge
  | _ => cases named

/-- What a merge of slots still has to consume. -/
def SlotsPending (made : List Json × List JSString) (rest : List Json) : Prop :=
  (∀ slot ∈ made.1, Unmarked slot) ∧ SlotsRefine made.2 rest

theorem unmarked_modify {slots : List Json} {id : JSString} {members : Record Json} {i : Nat}
    (found : slots.findIdx? (fun other => slotId other = some id) = some i) :
    (∀ slot ∈ slots.modify i fun other => .obj (deepMerge (spread other) members), Unmarked slot) ↔
      ∀ slot ∈ slots, Unmarked slot := by
  obtain ⟨inside, named, -⟩ := List.findIdx?_eq_some_iff_getElem.mp found
  have named : slotId slots[i] = some id := of_decide_eq_true named
  have each : ∀ P : Json → Prop, ∀ l : List Json, (∀ slot ∈ l, P slot) ↔ ∀ (k : Nat) (here : k < l.length), P l[k] := by
    intro P l
    refine ⟨fun all k here => all _ (List.getElem_mem here), fun all slot inside => ?_⟩
    obtain ⟨k, here, rfl⟩ := List.mem_iff_getElem.mp inside
    exact all k here
  rw [each, each]
  have length := List.length_modify (fun other => .obj (deepMerge (spread other) members)) slots i
  constructor
  · intro all k here
    have made := all k (by omega)
    rw [List.getElem_modify] at made
    split at made
    · rename_i same
      subst same
      exact (unmarked_of_spread_slot named).mp made
    · exact made
  · intro all k here
    rw [List.getElem_modify]
    split
    · rename_i same
      subst same
      exact (unmarked_of_spread_slot named).mpr (all i inside)
    · exact all k (by omega)

theorem slotsPending_step {made next : List Json × List JSString} {slot : Json} {rest : List Json}
    (gives : Gives (mergeSlot runtimePolicy made slot) next []) :
    SlotsPending next rest ↔ SlotsPending made (slot :: rest) := by
  have appended : (∀ other ∈ made.1 ++ [slot], Unmarked other) ↔ (∀ other ∈ made.1, Unmarked other) ∧ Unmarked slot := by
    simp [or_imp, forall_and]
  unfold mergeSlot at gives
  split at gives
  · rename_i unnamed
    obtain rfl := gives_nil_pure gives
    simp only [SlotsPending, SlotsRefine, unnamed, appended, and_assoc]
  · rename_i id named
    split at gives
    · rename_i seen
      split at gives
      · rename_i slots refined
        obtain rfl := gives_nil_pure gives
        have same : (∀ other ∈ slots, Unmarked other) ↔ ∀ other ∈ made.1, Unmarked other := by
          unfold refineSlot at refined
          split at refined
          · split at refined
            · obtain ⟨i, found, rfl⟩ := Option.map_eq_some_iff.mp refined
              exact unmarked_modify found
            · cases refined
          · cases refined
        simp only [SlotsPending, SlotsRefine, named, same, seen, true_and, or_true, if_true]
      · exact (conflict_not_nil gives).elim
    · rename_i unseen
      obtain rfl := gives_nil_pure gives
      simp only [SlotsPending, SlotsRefine, named, appended, unseen, or_false, if_false, and_assoc]

/-- The slots of a merge that succeeds are unmarked if and only if the base's were and the child's refine. -/
theorem unmarked_mergeSlots {slots more made : List Json} (gives : Gives (mergeSlots runtimePolicy slots more) made []) :
    (∀ slot ∈ made, Unmarked slot) ↔
      (∀ slot ∈ slots, Unmarked slot) ∧ SlotsRefine (slots.filterMap slotId) more := by
  obtain ⟨last, loop, gives⟩ := gives_nil_bind gives
  obtain rfl := gives_nil_pure gives
  have pending := foldlM_gives_nil (fun made rest =>
    SlotsPending made rest ↔ SlotsPending (slots, slots.filterMap slotId) more)
    (fun _ _ _ _ before gives => (slotsPending_step gives).trans before) Iff.rfl loop
  exact ⟨fun unmarked => pending.mp ⟨unmarked, trivial⟩, fun all => (pending.mpr all).1⟩

theorem mapOf_some {key : JSString} {manifest : Record Json} {value : Json} (stated : Record.get manifest key = some value) :
    mapOf key manifest = spread value := by
  rw [mapOf, stated]
  rfl

theorem mapOf_none {key : JSString} {manifest : Record Json} (absent : Record.get manifest key = none) :
    mapOf key manifest = [] := by
  rw [mapOf, absent]
  rfl

/-- One id of the types of a merge that succeeds. -/
theorem unmarked_admitted {base child types : Record Json} {id : JSString} (stated : js "types" ∈ Record.keys base)
    (isMap : mapOf (js "types") base = types)
    (stays : (Record.get types id).isSome → (admitted types child id).isSome) :
    (∀ value, admitted types child id = some value → Unmarked value) ↔
      (∀ value, Record.get child id = some value → TypeRefines base (id, value)) ∧
        ∀ value, Record.get types id = some value →
          Unmarked value ∨ (isAbstractType value ∧ id ∈ Record.keys child) := by
  subst isMap
  simp only [TypeRefines, ← Record.get_isSome (r := child)]
  unfold admitted at stays ⊢
  cases new : Record.get child id with
  | none => simp
  | some value =>
    rw [new] at stays
    cases known : Record.get (mapOf (js "types") base) id with
    | none =>
      by_cases proto : id = js "__proto__"
      · simp [admits, proto, stated]
      · simp [admits, proto]
    | some old =>
      rw [known] at stays
      obtain ⟨result, refined⟩ := Option.isSome_iff_exists.mp (stays rfl)
      replace refined : typeRefinement (.own old) value = some result := refined
      simp only [admits, refined, Option.some.injEq, forall_eq', Option.isSome_some, and_true]
      by_cases abstracted : isAbstractType old
      · obtain rfl := typeRefinement_abstract abstracted refined
        simp [abstracted]
      · simp [abstracted, (typeRefinement_concrete abstracted refined).2]

/-- The types of a merge that succeeds are unmarked if and only if the child's refine and the base's were unmarked or
are filled. -/
theorem unmarked_mergeTypes (ok : runtimeMerge base child = .ok merged)
    (distinct : (Record.keys (mapOf (js "types") child)).Nodup) :
    (∀ id value, Record.get (mapOf (js "types") merged) id = some value → Unmarked value) ↔
      (∀ entry ∈ mapOf (js "types") child, TypeRefines base entry) ∧
        ∀ id value, Record.get (mapOf (js "types") base) id = some value →
          Unmarked value ∨ (isAbstractType value ∧ id ∈ Record.keys (mapOf (js "types") child)) := by
  have entries : (∀ entry ∈ mapOf (js "types") child, TypeRefines base entry) ↔
      ∀ id value, Record.get (mapOf (js "types") child) id = some value → TypeRefines base (id, value) :=
    ⟨fun all id value found => all _ (Record.mem_of_get found),
      fun all entry inside => all entry.1 entry.2 (Record.get_of_mem distinct inside)⟩
  rw [entries, ← forall_and]
  refine forall_congr' fun id => ?_
  obtain ⟨block, gives, found⟩ := (runtimeMerge_blocks ok).maps (js "types") (by decide)
  unfold runtimeMap at gives
  split at gives
  · rename_i baseMap childMap inBase inChild
    obtain ⟨made, merging, gives⟩ := gives_nil_bind gives
    obtain rfl := gives_nil_pure gives
    rw [mapOf_some inChild] at distinct ⊢
    obtain ⟨left, stays⟩ := get_mergeTypes distinct merging id
    have isMerged : mapOf (js "types") merged = made := mapOf_some found
    have isBase : mapOf (js "types") base = spread baseMap := mapOf_some inBase
    rw [isMerged, left, isBase]
    exact unmarked_admitted (Record.mem_keys_of_get inBase) isBase stays
  · rename_i childMap notInBase inChild
    obtain rfl := gives_nil_pure gives
    have isMerged : mapOf (js "types") merged = spread childMap := mapOf_some found
    rw [isMerged, mapOf_some inChild, mapOf_none notInBase]
    simp [TypeRefines, mapOf_none notInBase, Record.get_eq_none.1 notInBase]
  · rename_i notInChild
    obtain rfl := gives_nil_pure gives
    have isMerged : mapOf (js "types") merged = mapOf (js "types") base := by rw [mapOf, found]; rfl
    rw [isMerged, mapOf_none notInChild]
    simp [Record.keys]

/-- What every type has so far, with the base's among them. -/
def TypesUnmarked (base made : Record Json) : Prop :=
  (∀ id value, Record.get made id = some value → Unmarked value) ∧ ∀ id ∈ Record.keys base, id ∈ Record.keys made

theorem TypesUnmarked.assign {types made : Record Json} {id : JSString} {value : Json} (unmarked : TypesUnmarked types made)
    (new : (id = js "__proto__" ∧ id ∉ Record.keys made) ∨ Unmarked value) :
    TypesUnmarked types (Record.assign made id value) := by
  unfold Record.assign
  split
  · exact unmarked
  · rename_i kept
    have consumed := new.resolve_left kept
    refine ⟨fun other found stated => ?_, fun other inside => Record.mem_keys_set.2 (Or.inr (unmarked.2 other inside))⟩
    rw [Record.get_set] at stated
    split at stated
    · exact Option.some.inj stated ▸ consumed
    · exact unmarked.1 other found stated

/-- Types stay unmarked where the base's are and the child's refine. -/
theorem unmarked_types (consumed : ∀ id value, Record.get (mapOf (js "types") base) id = some value → Unmarked value)
    (refining : ∀ entry ∈ mapOf (js "types") child, TypeRefines base entry)
    (ok : runtimeMerge base child = .ok merged) :
    ∀ id value, Record.get (mapOf (js "types") merged) id = some value → Unmarked value := by
  obtain ⟨block, gives, found⟩ := (runtimeMerge_blocks ok).maps (js "types") (by decide)
  unfold runtimeMap at gives
  split at gives
  · rename_i baseMap childMap inBase inChild
    obtain ⟨made, merging, gives⟩ := gives_nil_bind gives
    obtain rfl := gives_nil_pure gives
    have isMerged : mapOf (js "types") merged = made := mapOf_some found
    have isBase : mapOf (js "types") base = spread baseMap := mapOf_some inBase
    rw [isBase] at consumed
    rw [mapOf_some inChild] at refining
    rw [isMerged]
    unfold runtimeMergeMaps at merging
    split at merging
    · cases merging
    · refine (foldlM_keeps (TypesUnmarked (spread baseMap)) ?_ ⟨consumed, fun _ inside => inside⟩ ⟨[], merging⟩).1
      intro made entry inside unmarked next step
      have refines := refining entry inside
      rw [TypeRefines, isBase] at refines
      simp only at step
      split at step
      · cases known : Record.get (spread baseMap) entry.1 with
        | none =>
          rw [known] at step
          obtain ⟨-, -, step⟩ := returns_bind (step : Returns (runtimePolicy.conflict _ _ _ >>= fun _ => pure made) next)
          exact returns_pure step ▸ unmarked
        | some old =>
          rw [known] at step refines
          cases refined : typeRefinement (.own old) entry.2 with
          | none =>
            simp only [mergeEntry, Option.elim_some, if_true, refined] at step
            obtain ⟨-, -, step⟩ := returns_bind step
            exact returns_pure step ▸ unmarked
          | some result =>
            simp only [mergeEntry, Option.elim_some, if_true, refined] at step
            refine returns_pure step ▸ unmarked.assign (Or.inr ?_)
            by_cases abstracted : isAbstractType old
            · obtain rfl := typeRefinement_abstract abstracted refined
              exact refines.resolve_right fun concrete => concrete abstracted
            · exact (typeRefinement_concrete abstracted refined).2.mpr (consumed _ _ known)
      · rename_i absent
        refine returns_pure step ▸ unmarked.assign ?_
        have unknown : Record.get (spread baseMap) entry.1 = none :=
          Record.get_eq_none.2 fun inBase => absent (unmarked.2 _ inBase)
        rw [unknown] at refines
        exact refines.symm.imp (fun proto => ⟨proto.2, absent⟩) id
  · rename_i childMap notInBase inChild
    obtain rfl := gives_nil_pure gives
    have isMerged : mapOf (js "types") merged = spread childMap := mapOf_some found
    rw [mapOf_some inChild] at refining
    rw [isMerged]
    intro id value stated
    have refines := refining _ (Record.mem_of_get stated)
    rw [TypeRefines, mapOf_none notInBase] at refines
    exact refines.resolve_right fun lost => Record.get_eq_none.1 notInBase lost.1
  · obtain rfl := gives_nil_pure gives
    have isMerged : mapOf (js "types") merged = mapOf (js "types") base := by rw [mapOf, found]; rfl
    rwa [isMerged]

theorem unmarked_slots (ok : runtimeMerge base child = .ok merged) :
    (∀ slot ∈ slotsOf merged, Unmarked slot) ↔
      (∀ slot ∈ slotsOf base, Unmarked slot) ∧ SlotsRefine ((slotsOf base).filterMap slotId) (slotsOf child) := by
  obtain ⟨block, gives, found⟩ := (runtimeMerge_blocks ok).slots
  unfold runtimeSlots at gives
  simp only at gives
  split at gives
  · obtain ⟨slots, merging, gives⟩ := gives_nil_bind gives
    obtain rfl := gives_nil_pure gives
    have made : slotsOf merged = slots := by rw [slotsOf, found]; rfl
    rw [made]
    exact unmarked_mergeSlots merging
  · rename_i neither
    obtain rfl := gives_nil_pure gives
    obtain ⟨noBase, noChild⟩ := not_or.mp neither
    have made : slotsOf merged = [] := by rw [slotsOf, found]; exact arrayOr_of_not noBase
    have inBase : slotsOf base = [] := arrayOr_of_not noBase
    have inChild : slotsOf child = [] := arrayOr_of_not noChild
    rw [made, inBase, inChild]
    simp [SlotsRefine]

theorem unmarked_declarations (ok : runtimeMerge base child = .ok merged) :
    Values DeclarationUnmarked (objectOr (Record.get merged (js "formats"))) ∧
      Values DeclarationUnmarked (objectOr (Record.get merged (js "vocabularies"))) := by
  have blocks := runtimeMerge_blocks ok
  obtain ⟨formats, givesFormats, foundFormats⟩ := blocks.formats
  obtain ⟨vocabularies, givesVocabularies, foundVocabularies⟩ := blocks.vocabularies
  rw [foundFormats, foundVocabularies]
  exact ⟨values_declarations (fun _ _ _ _ returns => unmarked_mergeDeclaration returns) ⟨[], givesFormats⟩,
    values_declarations (fun _ _ _ _ returns => unmarked_mergeDeclaration returns) ⟨[], givesVocabularies⟩⟩

/-- A merge that succeeds consumes every marker if and only if the markers of the child's types and slots refine, and
those of the base's types are filled. -/
theorem consumed_merge_iff (ok : runtimeMerge base child = .ok merged)
    (distinct : (Record.keys (mapOf (js "types") child)).Nodup) : Consumed merged ↔ Consumes base child := by
  have types := unmarked_mergeTypes ok distinct
  have slots := unmarked_slots ok
  obtain ⟨formats, vocabularies⟩ := unmarked_declarations ok
  constructor
  · intro consumed
    obtain ⟨refineTypes, kept⟩ := types.mp consumed.types
    obtain ⟨baseSlots, refineSlots⟩ := slots.mp consumed.slots
    exact ⟨⟨refineTypes, refineSlots⟩, kept, baseSlots⟩
  · intro consumes
    exact ⟨types.mpr ⟨consumes.refining.types, consumes.types⟩, slots.mpr ⟨consumes.slots, consumes.refining.slots⟩,
      formats, vocabularies⟩

/-- What a merge leaves unmarked stays so while every marker refines. -/
theorem Consumed.merge (consumed : Consumed base) (refining : Refining base child)
    (ok : runtimeMerge base child = .ok merged) : Consumed merged := by
  obtain ⟨formats, vocabularies⟩ := unmarked_declarations ok
  exact ⟨unmarked_types consumed.types refining.types ok, (unmarked_slots ok).mpr ⟨consumed.slots, refining.slots⟩,
    formats, vocabularies⟩

end

section

variable {manifests : Manifests} {dir : JSString} {refs : List JSString}

/-- Bases whose every marker refines something compose a manifest without markers. -/
theorem consumed_of_refining {wording : JSString → JSString} {composed : Record Json}
    (resolving : Resolving (runtimeResolver wording) manifests Refining (.bases [] dir [] refs) composed) :
    Consumed composed := by
  have kept := resolving.keeps (Q := fun _ _ => True) (I := Consumed) Consumed.nil
    fun base child merged consumed ok refining => ⟨trivial, consumed.merge refining ok⟩
  exact (kept Consumed.nil).2

theorem resolve_of_resolveExtends {wording : JSString → JSString} {manifest result : Record Json}
    (resolves : runtimeResolveExtends wording manifests (.obj manifest) dir = .ok (.obj result)) :
    (runtimeResolver wording).resolve manifests manifests.depth manifest dir [] = .ok result := by
  replace resolves : ((runtimeResolver wording).resolve manifests manifests.depth manifest dir []).map Json.obj =
      .ok (.obj result) := resolves
  cases run : (runtimeResolver wording).resolve manifests manifests.depth manifest dir [] with
  | error e =>
    rw [run] at resolves
    cases resolves
  | ok made =>
    rw [run] at resolves
    cases resolves
    rfl

/-- A manifest resolves to one without `refines` markers if and only if its own markers refine what its bases compose
and theirs are filled; where every marker of the bases refines something, if and only if its own do. -/
theorem resolveExtends_consumes_iff (wording : JSString → JSString) {manifest result : Record Json}
    (extending : (runtimeResolver wording).refs manifest = .ok (some refs))
    (distinct : (Record.keys (mapOf (js "types") manifest)).Nodup)
    (resolves : runtimeResolveExtends wording manifests (.obj manifest) dir = .ok (.obj result)) :
    ∃ composed,
      Resolving (runtimeResolver wording) manifests (fun _ _ => True) (.bases [] dir [] refs) composed ∧
      (Consumed result ↔ Consumes composed manifest) ∧
      (Resolving (runtimeResolver wording) manifests Refining (.bases [] dir [] refs) composed →
        (Consumed result ↔ Refining composed manifest)) := by
  cases resolving_of_resolve (resolve_of_resolveExtends resolves) with
  | flat flat => cases extending.symm.trans flat
  | extending found bases merges =>
    obtain rfl := Option.some.inj (Except.ok.inj (found.symm.trans extending))
    have types : mapOf (js "types") ((runtimeResolver wording).own manifest) = mapOf (js "types") manifest := by
      rw [mapOf, mapOf]
      exact congrArg (fun value => (Option.map spread value).getD [])
        ((Record.get_erase manifest (js "extends") (js "types")).trans (if_neg (by decide)))
    have slots : slotsOf ((runtimeResolver wording).own manifest) = slotsOf manifest :=
      congrArg arrayOr ((Record.get_erase manifest (js "extends") (js "slots")).trans (if_neg (by decide)))
    have refines : ∀ base, Refining base ((runtimeResolver wording).own manifest) ↔ Refining base manifest :=
      fun base => ⟨fun r => ⟨types ▸ r.types, slots ▸ r.slots⟩, fun r => ⟨types.symm ▸ r.types, slots.symm ▸ r.slots⟩⟩
    have exact : Consumed result ↔ Consumes _ manifest :=
      (consumed_merge_iff merges (types.symm ▸ distinct)).trans
        ⟨fun c => ⟨(refines _).mp c.refining, types ▸ c.types, c.slots⟩,
          fun c => ⟨(refines _).mpr c.refining, types.symm ▸ c.types, c.slots⟩⟩
    refine ⟨_, bases, exact, fun refining => ⟨fun consumed => (exact.mp consumed).refining, fun own => ?_⟩⟩
    exact exact.mpr ((consumed_of_refining refining).consumes own)

end

/-- A base without the type its child marks. -/
def noteBase : Json := .obj [(js "types", .obj [(js "Note", .obj [(js "fields", .obj [])])])]

def envelopeChild : Record Json := [(js "extends", .str (js "./base.json")),
  (js "types", .obj [(js "Envelope", .obj [(js "refines", .bool true), (js "fields", .obj [])])])]

def envelopeResolved : Record Json := [(js "types", .obj [(js "Note", .obj [(js "fields", .obj [])]),
  (js "Envelope", .obj [(js "refines", .bool true), (js "fields", .obj [])])])]

theorem envelope_resolves : runtimeResolveExtends id [(js "/app/base.json", some noteBase)] (.obj envelopeChild)
    (js "/app") = .ok (.obj envelopeResolved) := by rfl

/-- A type that refines nothing keeps its marker. -/
theorem added_type_marked : runtimeResolveExtends id [(js "/app/base.json", some noteBase)] (.obj envelopeChild)
    (js "/app") = .ok (.obj envelopeResolved) ∧ ¬ Consumed envelopeResolved := by
  refine ⟨envelope_resolves, fun consumed => ?_⟩
  have unmarked := consumed.types (js "Envelope") _ rfl
  exact unmarked (by decide)

theorem resolveExtends_consumes_iff_envelope : ∃ composed,
    Resolving (runtimeResolver id) [(js "/app/base.json", some noteBase)] (fun _ _ => True)
      (.bases [] (js "/app") [] [js "./base.json"]) composed ∧
    (Consumed envelopeResolved ↔ Consumes composed envelopeChild) ∧
    (Resolving (runtimeResolver id) [(js "/app/base.json", some noteBase)] Refining
      (.bases [] (js "/app") [] [js "./base.json"]) composed →
        (Consumed envelopeResolved ↔ Refining composed envelopeChild)) :=
  resolveExtends_consumes_iff id (by rfl) (by decide +kernel) envelope_resolves

end Xript
