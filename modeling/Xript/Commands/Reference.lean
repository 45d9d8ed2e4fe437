import Xript.Capability.Match
import Xript.Commands.Lookup

namespace Xript

namespace Commands

section

variable {α β : Type} {R : α → β → Prop} {l : List α} {other : List β}

theorem forall₂_find (same : List.Forall₂ R l other) {p : α → Bool} {q : β → Bool} (alike : ∀ a b, R a b → p a = q b) :
    Option.Rel R (l.find? p) (other.find? q) := by
  induction same with
  | nil => exact .none
  | cons head _ ih =>
    rw [List.find?_cons, List.find?_cons, alike _ _ head]
    split
    · exact .some head
    · exact ih

theorem forall₂_head (same : List.Forall₂ R l other) : Option.Rel R l.head? other.head? := by
  cases same with
  | nil => exact .none
  | cons head _ => exact .some head

theorem rel_or {a c : Option α} {b d : Option β} (first : Option.Rel R a b) (second : Option.Rel R c d) :
    Option.Rel R (a.or c) (b.or d) := by
  cases first with
  | none => exact second
  | some same => exact .some same

theorem flatMap_filter {γ : Type} (p : γ → Bool) {g : γ → List α} {l : List γ} (empty : ∀ a ∈ l, p a = false → g a = []) :
    (l.filter p).flatMap g = l.flatMap g := by
  induction l with
  | nil => rfl
  | cons a l ih =>
    have rest := ih fun b inside => empty b (List.mem_cons_of_mem _ inside)
    rw [List.filter_cons]
    split
    · rw [List.flatMap_cons, List.flatMap_cons, rest]
    · rename_i dropped
      rw [List.flatMap_cons, empty a (List.mem_cons_self ..) (Bool.not_eq_true _ ▸ dropped), List.nil_append, rest]

end

section

variable {slots : List Rust.Slot} {mods : List ModInstance} {fills : List Rust.CommandFill}

theorem resolveCommands_empty (order : StableSort compareCommands) {slotId : JSString}
    (unfilled : (mods.any fun mod => mod.commandFills.any fun fill => fill.slot = slotId) = false)
    (declared : List SlotDeclaration) : resolveCommands order slotId mods declared = [] := by
  have gathered : mods.flatMap (commandsOf slotId) = [] := by
    refine List.flatMap_eq_nil_iff.mpr fun mod inside => ?_
    have none := List.any_eq_false.mp unfilled mod inside
    rw [commandsOf, List.map_eq_nil_iff, List.filter_eq_nil_iff]
    exact fun fill member holds => none (List.any_eq_true.mpr ⟨fill, member, holds⟩)
  have sorted : order.sort [] = [] := List.perm_nil.mp (order.perm [])
  rw [resolveCommands, resolveCommandsAll, gathered, sorted]
  split <;> rfl

/-- What JavaScript searches is what Rust resolves, slot by slot as they are declared. -/
theorem Contributed.available (contributed : Contributed slots mods fills) (order : StableSort compareCommands)
    (capabilityFor : Rust.CommandFill → Option (List Char)) :
    List.Forall₂ Mirrors (((slots.map declaredSlot).filter fun slot =>
        mods.any fun mod => mod.commandFills.any fun fill => fill.slot = slot.id).flatMap fun slot =>
          resolveCommands order slot.id mods (slots.map declaredSlot))
      ((Rust.declaredCandidates slots fills).map (Rust.marked fills capabilityFor)) := by
  rw [flatMap_filter _ fun slot _ unfilled => resolveCommands_empty order unfilled _, List.flatMap_map,
    Rust.declaredCandidates, List.map_flatMap]
  refine List.rel_flatMap (R := Eq) (List.forall₂_refl slots) fun slot _ same => ?_
  subst same
  rw [← Rust.resolveCommandsWith_eq]
  exact contributed.offered_alike order slot.id capabilityFor

/-- The preferences as JavaScript holds them. -/
def preferenceRecord (preferences : List (List Char × List Char)) : Record JSString :=
  preferences.map fun entry => (utf16 entry.1, utf16 entry.2)

theorem preferenceRecord_get (preferences : List (List Char × List Char)) (key : List Char) :
    Record.get (preferenceRecord preferences) (utf16 key) = (preferences.lookup key).map utf16 := by
  induction preferences with
  | nil => rfl
  | cons entry preferences ih =>
    rw [Record.get] at ih ⊢
    rw [preferenceRecord, List.map_cons, List.lookup_cons, List.lookup_cons]
    have same : (utf16 key == utf16 entry.1) = (key == entry.1) := by
      rw [Bool.eq_iff_iff, beq_iff_eq, beq_iff_eq, utf16_inj]
    rw [same]
    split
    · rfl
    · exact ih

/-- A bare reference that JavaScript finds among what every object inherits. -/
def Inherited (preferences : List (List Char × List Char)) (ref : List Char) : Prop :=
  preferences.lookup ref = none ∧ utf16 ref ∈ objectPrototypeNames

/-- The mod a host prefers for a bare reference whose first match is the given one. -/
def preferredMod (preferences : List (List Char × List Char)) (ref : List Char) (first : Rust.CommandFill) :
    Option (List Char) :=
  (preferences.lookup ref).or (preferences.lookup first.slot)

theorem preferenceOf_join (preferences : List (List Char × List Char)) (key : List Char) :
    (preferenceOf (some (preferenceRecord preferences)) (utf16 key)).join = (preferences.lookup key).map utf16 := by
  rw [preferenceOf, Option.bind_some, preferenceRecord_get]
  cases preferences.lookup key with
  | some name => rfl
  | none =>
    show (if _ then _ else _ : Option (Option JSString)).join = none
    split <;> rfl

theorem preferred_inherited {preferences : List (List Char × List Char)} {ref : List Char}
    (inherited : Inherited preferences ref) (fallback : Option (Option JSString)) :
    ((preferenceOf (some (preferenceRecord preferences)) (utf16 ref)).or fallback).join = none := by
  rw [preferenceOf, Option.bind_some, preferenceRecord_get, inherited.1]
  show ((if _ then _ else _ : Option (Option JSString)).or fallback).join = none
  rw [if_pos inherited.2]
  rfl

/-- The preference JavaScript reads of a reference it does not find among what every object inherits. -/
theorem preferred_own {preferences : List (List Char × List Char)} {ref : List Char} (own : ¬ Inherited preferences ref)
    {command : ResolvedCommand} {first : Rust.CommandFill} (slot : command.slot = utf16 first.slot) :
    ((preferenceOf (some (preferenceRecord preferences)) (utf16 ref)).or
      (preferenceOf (some (preferenceRecord preferences)) command.slot)).join =
        (preferredMod preferences ref first).map utf16 := by
  have slotJoin := preferenceOf_join preferences first.slot
  rw [preferredMod, slot]
  cases found : preferences.lookup ref with
  | some name =>
    have present : preferenceOf (some (preferenceRecord preferences)) (utf16 ref) = some (some (utf16 name)) := by
      rw [preferenceOf, Option.bind_some, preferenceRecord_get, found]
      rfl
    rw [present]
    rfl
  | none =>
    have unhidden : utf16 ref ∉ objectPrototypeNames := fun inside => own ⟨found, inside⟩
    have absent : preferenceOf (some (preferenceRecord preferences)) (utf16 ref) = none := by
      rw [preferenceOf, Option.bind_some, preferenceRecord_get, found]
      exact if_neg unhidden
    rw [absent, Option.none_or, slotJoin, Option.none_or]

theorem preferCandidate_nil {α : Type} (modOf : α → JSString) (preferred : Option (Option JSString)) :
    preferCandidate modOf preferred [] = none := by
  rw [preferCandidate]
  cases preferred.join with
  | none => rfl
  | some name =>
    show (if name = [] then none else none).or none = none
    rw [ite_self, Option.or_none]

/-- A candidate is preferred as the fill it is of is chosen. -/
theorem preferCandidate_alike {candidates : List ResolvedCommand} {l : List Rust.CommandFill}
    {mark : Rust.CommandFill → Rust.ResolvedCommand} (same : List.Forall₂ Mirrors candidates (l.map mark))
    (keeps : ∀ fill, (mark fill).toCommandFill = fill) (named : ∀ fill ∈ l, fill.modName ≠ [])
    {preferred : Option (Option JSString)} {name : Option (List Char)} (alike : preferred.join = name.map utf16) :
    Option.Rel Mirrors (preferCandidate (fun command => command.mod) preferred candidates)
      ((Rust.choose name l).map mark) := by
  have first : Option.Rel Mirrors candidates.head? (l.head?.map mark) := by
    rw [← List.head?_map]
    exact forall₂_head same
  rw [preferCandidate, alike, Rust.choose, Option.map_or]
  refine rel_or ?_ first
  cases name with
  | none => exact .none
  | some name =>
    show Option.Rel Mirrors (if utf16 name = [] then none else _) ((l.find? fun fill => fill.modName = name).map mark)
    split
    · rename_i empty
      have none : (l.find? fun fill => fill.modName = name) = none := by
        refine List.find?_eq_none.mpr fun fill inside => ?_
        rw [utf16_eq_nil.mp empty, decide_eq_true_iff]
        exact named fill inside
      rw [none]
      exact .none
    · have found := forall₂_find same (p := fun command => command.mod = utf16 name)
        (q := fun made => made.modName = name) fun a b related => by simp only [related.mod, utf16_inj]
      rw [List.find?_map] at found
      have passes : (fun made : Rust.ResolvedCommand => decide (made.modName = name)) ∘ mark =
          fun fill : Rust.CommandFill => decide (fill.modName = name) := by
        funext fill
        simp only [Function.comp_apply, keeps]
      rwa [passes] at found

/-- Two fills of one id resolve to the same command only where they are one fill. -/
theorem Contributed.resolved_iff (contributed : Contributed slots mods fills)
    {capabilityFor : Rust.CommandFill → Option (List Char)} {command : Option ResolvedCommand}
    {own other : Option Rust.CommandFill}
    (mirrors : Option.Rel Mirrors command (own.map (Rust.marked fills capabilityFor)))
    (inOwn : ∀ fill, own = some fill → fill ∈ fills) (inOther : ∀ fill, other = some fill → fill ∈ fills)
    (ids : ∀ a b, own = some a → other = some b → a.id = b.id) :
    Option.Rel SameResolved command (other.map (Rust.marked fills capabilityFor)) ↔ own = other := by
  constructor
  · intro same
    cases own with
    | none =>
      cases mirrors
      cases other with
      | none => rfl
      | some b => cases same
    | some a =>
      cases other with
      | none =>
        cases mirrors
        cases same
      | some b =>
        cases mirrors with
        | some first =>
          cases same with
          | some second =>
            have inA := inOwn a rfl
            have inB := inOther b rfl
            have addresses : a.qualifiedId = b.qualifiedId :=
              utf16_inj.mp (first.toSameResolved.qualifiedId.symm.trans second.qualifiedId)
            have slotsSame : a.slot = b.slot := utf16_inj.mp (first.toSameResolved.slot.symm.trans second.slot)
            have idsSame := ids a b rfl rfl
            rw [contributed.qualified a inA, contributed.qualified b inB, idsSame] at addresses
            exact congrArg some (contributed.unique inA inB slotsSame (List.append_cancel_right addresses) idsSame)
  · rintro rfl
    cases own with
    | none =>
      cases mirrors
      exact .none
    | some a =>
      cases mirrors with
      | some related => exact .some related.toSameResolved

theorem splitReference_colon {owner : List Char} (plain : ':' ∉ owner) (id : List Char) :
    Rust.splitReference (owner ++ ':' :: id) = some (owner, id) := by
  have first : (owner ++ ':' :: id).idxOf? ':' = some owner.length := by
    induction owner with
    | nil => rfl
    | cons c owner ih =>
      rw [List.mem_cons, not_or] at plain
      rw [List.cons_append, List.idxOf?_cons, if_neg (by simpa using Ne.symm plain.1), ih plain.2]
      rfl
  rw [Rust.splitReference, first]
  simp

theorem splitReference_plain {ref : List Char} (plain : ':' ∉ ref) : Rust.splitReference ref = none := by
  rw [Rust.splitReference, List.idxOf?_eq_none_iff.mpr plain]
  rfl

end

section

variable (slots : List Rust.Slot) (fills : List Rust.CommandFill)

/-- The fills offered under an id. -/
def Matches (id : List Char) (fill : Rust.CommandFill) : Prop := Rust.Offered slots fills fill ∧ fill.id = id

/-- The fills offered at an address. -/
def Addressed (owner id : List Char) (fill : Rust.CommandFill) : Prop :=
  Rust.Offered slots fills fill ∧ fill.modName = owner ∧ fill.id = id

variable (preferences : List (List Char × List Char)) (ref : List Char)

/-- The fill a bare reference stands for: the preferred mod's, or the first match in the slots as they are declared. -/
def Designated (fill : Rust.CommandFill) : Prop :=
  ∃ first, Leads (Rust.DeclaredBefore slots) (Matches slots fills ref) first ∧
    Leads (Rust.DeclaredBefore slots) (Rust.Asked (preferredMod preferences ref first) (Matches slots fills ref)) fill

/-- Where slots offer an address, the first declared of them has the least id. -/
def AddressSettled (owner id : List Char) : Prop :=
  ∀ fill, Leads (Rust.DeclaredBefore slots) (Addressed slots fills owner id) fill →
    Leads Rust.SlotBefore (Addressed slots fills owner id) fill

/-- The fill a bare reference stands for is also first in the shared order, of what the first match in that order has
the host prefer; and no inherited name hides a preference for another mod. -/
def BareSettled : Prop :=
  ∀ first top fill, Leads (Rust.DeclaredBefore slots) (Matches slots fills ref) first →
    Leads Rust.RankedBefore (Matches slots fills ref) top →
    Leads (Rust.DeclaredBefore slots) (Rust.Asked (preferredMod preferences ref first) (Matches slots fills ref)) fill →
    Leads Rust.RankedBefore (Rust.Asked (preferredMod preferences ref top) (Matches slots fills ref)) fill ∧
      (Inherited preferences ref → fill = first)

/-- The declaration order of the slots and the orders Rust searches them in agree on a reference. -/
def ReferenceSettled : Prop :=
  match Rust.splitReference ref with
  | some (owner, id) => AddressSettled slots fills owner id
  | none => BareSettled slots fills preferences ref

variable (order : StableSort compareCommands) (mods : List ModInstance)

/-- The resolvers of the two runtimes agree, and a bare reference resolves to the fill it stands for. -/
structure CommandsAlike : Prop where
  all : ∀ slotId, List.Forall₂ SameResolved (resolveCommandsAll order (utf16 slotId) mods)
    (Rust.resolveCommandsAll slotId fills slots)
  offered : ∀ slotId, List.Forall₂ SameResolved (resolveCommands order (utf16 slotId) mods (slots.map declaredSlot))
    (Rust.resolveCommands slotId fills slots)
  found : Option.Rel SameResolved
    (resolveCommand order (utf16 ref) mods (slots.map declaredSlot) (some (preferenceRecord preferences)))
    (Rust.resolveCommand ref fills slots preferences)
  bare : ':' ∉ ref → ∀ fill, (Rust.resolveCommand ref fills slots preferences).map Rust.ResolvedCommand.toCommandFill =
    some fill ↔ Designated slots fills preferences ref fill

end

section

variable {slots : List Rust.Slot} {mods : List ModInstance} {fills : List Rust.CommandFill}

theorem colon_notMem_id (contributed : Contributed slots mods fills) {fill : Rust.CommandFill}
    (offered : Rust.Offered slots fills fill) : ':' ∉ fill.id :=
  fun inside => (valid_chars (contributed.wellFormed fill offered.1) ':' inside).2 rfl

/-- The matches of an id, as JavaScript and the fills offered have them. -/
theorem matches_alike {searched : List ResolvedCommand} {l : List Rust.CommandFill}
    {mark : Rust.CommandFill → Rust.ResolvedCommand} (same : List.Forall₂ Mirrors searched (l.map mark))
    (keeps : ∀ fill, (mark fill).toCommandFill = fill) (ref : List Char) :
    List.Forall₂ Mirrors (searched.filter fun command => command.id = utf16 ref)
      ((l.filter fun fill => fill.id = ref).map mark) := by
  have kept := List.rel_filter (p := fun command => command.id = utf16 ref) (q := fun made => made.id = ref)
    (fun a b related => by simp only [related.id, utf16_inj]) same
  rw [List.filter_map] at kept
  have passes : (fun made : Rust.ResolvedCommand => decide (made.id = ref)) ∘ mark =
      fun fill : Rust.CommandFill => decide (fill.id = ref) := by
    funext fill
    simp only [Function.comp_apply, keeps]
  rwa [passes] at kept

/-- What JavaScript finds at an address, as the fill it is of. -/
theorem Contributed.addressed_alike (contributed : Contributed slots mods fills) (order : StableSort compareCommands)
    (preferences : List (List Char × List Char)) {owner : List Char} (plain : ':' ∉ owner) (id : List Char)
    (capabilityFor : Rust.CommandFill → Option (List Char)) :
    Option.Rel Mirrors (resolveCommand order (utf16 (owner ++ ':' :: id)) mods (slots.map declaredSlot)
        (some (preferenceRecord preferences)))
      (((Rust.declaredCandidates slots fills).find? fun fill => fill.modName = owner ∧ fill.id = id).map
        (Rust.marked fills capabilityFor)) := by
  have available := contributed.available order capabilityFor
  have units : utf16 (owner ++ ':' :: id) = utf16 owner ++ 58 :: utf16 id := utf16_append _ _
  have separator : (utf16 owner ++ 58 :: utf16 id).idxOf 58 = (utf16 owner).length := by
    rw [List.idxOf_append_of_notMem (Xript.Rust.not_mem_utf16 plain), List.idxOf_cons_self, Nat.add_zero]
  unfold resolveCommand
  rw [units, separator]
  generalize List.flatMap _ (List.filter _ (slots.map declaredSlot)) = searched at available ⊢
  by_cases empty : owner = []
  · subst empty
    have unfound : ((Rust.declaredCandidates slots fills).find? fun fill => fill.modName = [] ∧ fill.id = id) = none := by
      refine List.find?_eq_none.mpr fun fill inside holds => ?_
      have offered := (Rust.mem_declared contributed).mp inside
      exact contributed.named fill offered.1 (of_decide_eq_true holds).1
    have unmatched : (Rust.declaredCandidates slots fills).filter (fun fill => fill.id = ':' :: id) = [] := by
      refine List.filter_eq_nil_iff.mpr fun fill inside same => ?_
      refine colon_notMem_id contributed ((Rust.mem_declared contributed).mp inside) ?_
      rw [of_decide_eq_true same]
      exact List.mem_cons_self ..
    have candidates := matches_alike available (fun _ => rfl) (':' :: id)
    rw [unmatched, List.map_nil, List.forall₂_nil_right_iff] at candidates
    have bare : utf16 (':' :: id) = utf16 [] ++ 58 :: utf16 id := rfl
    rw [unfound, if_neg (fun both => absurd both.1 (Nat.lt_irrefl 0)), ← bare, candidates]
    show Option.Rel Mirrors (preferCandidate _ _ []) none
    rw [preferCandidate_nil]
    exact .none
  · have inside : 0 < (utf16 owner).length ∧ (utf16 owner).length < (utf16 owner ++ 58 :: utf16 id).length := by
      refine ⟨List.length_pos_iff.mpr (utf16_eq_nil.not.mpr empty), ?_⟩
      rw [List.length_append, List.length_cons]
      omega
    have found := forall₂_find available (p := fun command => command.mod = utf16 owner ∧ command.id = utf16 id)
      (q := fun made => made.modName = owner ∧ made.id = id) fun a b related => by
        simp only [related.mod, related.id, utf16_inj]
    rw [List.find?_map] at found
    have rest : (utf16 owner ++ 58 :: utf16 id).drop ((utf16 owner).length + 1) = utf16 id := by
      rw [List.drop_append, List.drop_eq_nil_of_le (Nat.le_succ _), Nat.add_sub_cancel_left]
      rfl
    rw [if_pos inside, List.take_left, rest]
    exact found

/-- What JavaScript finds under an id, as the fills offered under it have it. -/
theorem Contributed.bare_alike (contributed : Contributed slots mods fills) (order : StableSort compareCommands)
    (preferences : List (List Char × List Char)) {ref : List Char} (plain : ':' ∉ ref)
    (capabilityFor : Rust.CommandFill → Option (List Char)) {name : Option (List Char)}
    (hidden : Inherited preferences ref → name = none)
    (own : ¬ Inherited preferences ref → ∀ first ∈ (Rust.declaredMatches slots fills ref).head?,
      name = preferredMod preferences ref first) :
    Option.Rel Mirrors (resolveCommand order (utf16 ref) mods (slots.map declaredSlot)
        (some (preferenceRecord preferences)))
      ((Rust.choose name (Rust.declaredMatches slots fills ref)).map (Rust.marked fills capabilityFor)) := by
  have available := contributed.available order capabilityFor
  have separator : (utf16 ref).idxOf 58 = (utf16 ref).length :=
    List.idxOf_eq_length_iff.mpr (Xript.Rust.not_mem_utf16 plain)
  unfold resolveCommand
  rw [separator]
  generalize List.flatMap _ (List.filter _ (slots.map declaredSlot)) = searched at available ⊢
  rw [if_neg fun both => absurd both.2 (Nat.lt_irrefl _)]
  have candidates := matches_alike available (fun _ => rfl) ref
  have inFills : ∀ fill ∈ Rust.declaredMatches slots fills ref, fill.modName ≠ [] := by
    intro fill inside
    have offered := (Rust.mem_declared contributed).mp (List.mem_filter.mp inside).1
    exact contributed.named fill offered.1
  rw [Rust.declaredMatches] at own inFills ⊢
  generalize (Rust.declaredCandidates slots fills).filter (fun fill => fill.id = ref) = found at candidates own inFills ⊢
  generalize searched.filter (fun command => command.id = utf16 ref) = matching at candidates ⊢
  cases found with
  | nil =>
    rw [List.map_nil, List.forall₂_nil_right_iff] at candidates
    subst candidates
    show Option.Rel Mirrors (preferCandidate _ _ []) _
    rw [preferCandidate_nil]
    cases name <;> exact .none
  | cons first rest =>
    refine preferCandidate_alike candidates (fun _ => rfl) inFills ?_
    by_cases inherited : Inherited preferences ref
    · rw [hidden inherited]
      exact preferred_inherited inherited _
    · rw [own inherited first rfl]
      cases candidates with
      | cons head _ => exact preferred_own inherited head.toSameCommand.slot

/-- The runtimes agree on an address if and only if its slots are declared in the order of their ids. -/
theorem addressSettled_iff (contributed : Contributed slots mods fills) (order : StableSort compareCommands)
    (preferences : List (List Char × List Char)) {owner : List Char} (plain : ':' ∉ owner) (id : List Char) :
    Option.Rel SameResolved
      (resolveCommand order (utf16 (owner ++ ':' :: id)) mods (slots.map declaredSlot) (some (preferenceRecord preferences)))
      (Rust.resolveCommand (owner ++ ':' :: id) fills slots preferences) ↔ AddressSettled slots fills owner id := by
  have declared : ∀ fill, (Rust.declaredCandidates slots fills).find? (fun fill => fill.modName = owner ∧ fill.id = id) =
      some fill ↔ Leads (Rust.DeclaredBefore slots) (Addressed slots fills owner id) fill := fun fill =>
    find_leads_iff Rust.declaredBefore_asymm (Rust.declared_ordered contributed) fun a => by
      rw [Rust.mem_declared contributed, decide_eq_true_iff]
      rfl
  have bySlot : ∀ fill, (Rust.candidatesOf slots fills).find? (fun fill => fill.modName = owner ∧ fill.id = id) =
      some fill ↔ Leads Rust.SlotBefore (Addressed slots fills owner id) fill := fun fill =>
    find_leads_iff Rust.slotBefore_asymm (Rust.candidates_ordered contributed) fun a => by
      rw [Rust.mem_candidates contributed, decide_eq_true_iff]
      rfl
  rw [Rust.resolveCommand, Rust.addressed_eq (splitReference_colon plain id), contributed.resolved_iff
    (contributed.addressed_alike order preferences plain id _) (fun fill found => ((declared fill).mp found).wanted.1.1)
    (fun fill found => ((bySlot fill).mp found).wanted.1.1)
    fun a b first second => ((declared a).mp first).wanted.2.2.trans ((bySlot b).mp second).wanted.2.2.symm]
  constructor
  · intro same fill leads
    exact (bySlot fill).mp (same ▸ (declared fill).mpr leads)
  · intro settled
    cases found : (Rust.declaredCandidates slots fills).find? fun fill => fill.modName = owner ∧ fill.id = id with
    | some fill => exact ((bySlot fill).mpr (settled fill ((declared fill).mp found))).symm
    | none =>
      refine (List.find?_eq_none.mpr fun fill inside holds => ?_).symm
      exact List.find?_eq_none.mp found fill
        ((Rust.mem_declared contributed).mpr ((Rust.mem_candidates contributed).mp inside)) holds

/-- The runtimes agree on a bare reference, and on what it stands for, if and only if its matches are settled. -/
theorem bareSettled_iff (contributed : Contributed slots mods fills) (order : StableSort compareCommands)
    (preferences : List (List Char × List Char)) {ref : List Char} (plain : ':' ∉ ref) :
    (Option.Rel SameResolved
        (resolveCommand order (utf16 ref) mods (slots.map declaredSlot) (some (preferenceRecord preferences)))
        (Rust.resolveCommand ref fills slots preferences) ∧
      ∀ fill, (Rust.resolveCommand ref fills slots preferences).map Rust.ResolvedCommand.toCommandFill = some fill ↔
        Designated slots fills preferences ref fill) ↔ BareSettled slots fills preferences ref := by
  have members := Rust.mem_declaredMatches contributed ref
  have ordered : (Rust.declaredMatches slots fills ref).Pairwise (Rust.DeclaredBefore slots) :=
    (Rust.declared_ordered contributed).filter _
  have rankedMembers := Rust.mem_rankedMatches contributed ref
  have rankedOrdered := Rust.rankedMatches_ordered contributed ref
  have alike := fun name hidden own => @Contributed.bare_alike _ _ _ contributed order preferences _ plain
    (fun fill => Rust.slotCapability fill.slot slots) name hidden own
  rw [Rust.resolveCommand, Rust.bare_eq (splitReference_plain plain)]
  generalize Rust.declaredMatches slots fills ref = found at members ordered alike
  generalize Rust.rankedMatches slots fills ref = ranked at rankedMembers rankedOrdered ⊢
  cases found with
  | nil =>
    have unmatched : ∀ fill, ¬ Matches slots fills ref fill := fun fill inside =>
      List.not_mem_nil ((members fill).mpr inside)
    have empty : ranked = [] := List.eq_nil_iff_forall_not_mem.mpr fun fill inside =>
      unmatched fill ((rankedMembers fill).mp inside)
    subst empty
    refine iff_of_true ⟨?_, fun fill => iff_of_false ?_ ?_⟩ fun first top fill leads => absurd leads.wanted (unmatched first)
    · have unfound := alike none (fun _ => rfl) fun _ first inside => absurd inside (Option.not_mem_none first)
      rw [Rust.choose_nil] at unfound ⊢
      generalize resolveCommand order _ mods _ _ = found at unfound ⊢
      cases unfound
      exact .none
    · rw [Rust.choose_nil]
      exact fun found => absurd found (Option.some_ne_none fill).symm
    · rintro ⟨first, leads, -⟩
      exact unmatched first leads.wanted
  | cons first rest =>
    have firstLeads : Leads (Rust.DeclaredBefore slots) (Matches slots fills ref) first := Rust.head_leads ordered members
    cases ranked with
    | nil => exact absurd ((rankedMembers first).mpr firstLeads.wanted) List.not_mem_nil
    | cons top others =>
      have topLeads : Leads Rust.RankedBefore (Matches slots fills ref) top := Rust.head_leads rankedOrdered rankedMembers
      obtain ⟨chosen, choice⟩ := Rust.exists_choose (preferredMod preferences ref first) first rest
      have chosenLeads := (Rust.choose_leads Rust.declaredBefore_asymm ordered members _ chosen).mp choice
      have designated : ∀ fill, Designated slots fills preferences ref fill ↔ fill = chosen := by
        intro fill
        constructor
        · rintro ⟨other, otherLeads, leads⟩
          rw [otherLeads.unique Rust.declaredBefore_asymm firstLeads] at leads
          exact leads.unique Rust.declaredBefore_asymm chosenLeads
        · rintro rfl
          exact ⟨first, firstLeads, chosenLeads⟩
      have settled : BareSettled slots fills preferences ref ↔
          Rust.choose (preferredMod preferences ref top) (top :: others) = some chosen ∧
            (Inherited preferences ref → chosen = first) := by
        rw [Rust.choose_leads Rust.rankedBefore_asymm rankedOrdered rankedMembers]
        constructor
        · exact fun all => all first top chosen firstLeads topLeads chosenLeads
        · intro both first' top' fill leads leads' asked
          obtain rfl := leads.unique Rust.declaredBefore_asymm firstLeads
          obtain rfl := leads'.unique Rust.rankedBefore_asymm topLeads
          obtain rfl := asked.unique Rust.declaredBefore_asymm chosenLeads
          exact both
      have made : ∀ fill, Rust.choose (preferredMod preferences ref top) (top :: others) = some fill →
          Matches slots fills ref fill := fun fill found =>
        ((Rust.choose_leads Rust.rankedBefore_asymm rankedOrdered rankedMembers _ fill).mp found).wanted.1
      rw [settled, Option.map_map]
      show (Option.Rel SameResolved _ ((Rust.choose (preferredMod preferences ref top) (top :: others)).map _) ∧ ∀ fill,
        (Rust.choose (preferredMod preferences ref top) (top :: others)).map id = some fill ↔ _) ↔ _
      rw [Option.map_id]
      generalize Rust.choose (preferredMod preferences ref top) (top :: others) = found at made ⊢
      simp only [designated, id]
      -- what JavaScript finds, in either reading of the preferences
      have reading : ∀ own : Rust.CommandFill, Matches slots fills ref own →
          Option.Rel Mirrors (resolveCommand order (utf16 ref) mods (slots.map declaredSlot)
            (some (preferenceRecord preferences)))
            ((some own).map (Rust.marked fills fun fill => Rust.slotCapability fill.slot slots)) →
          ((Option.Rel SameResolved (resolveCommand order (utf16 ref) mods (slots.map declaredSlot)
            (some (preferenceRecord preferences)))
            (found.map (Rust.marked fills fun fill => Rust.slotCapability fill.slot slots)) ∧
              ∀ fill, found = some fill ↔ fill = chosen) ↔ found = some chosen ∧ chosen = own) := by
        intro own matched mirrors
        rw [contributed.resolved_iff mirrors (fun fill same => Option.some.inj same ▸ matched.1.1)
          (fun fill same => (made fill same).1.1)
          fun a b first second => (Option.some.inj first ▸ matched.2).trans (made b second).2.symm]
        constructor
        · rintro ⟨rfl, only⟩
          exact ⟨(only chosen).mpr rfl, ((only own).mp rfl).symm⟩
        · rintro ⟨rfl, rfl⟩
          exact ⟨rfl, fun fill => ⟨fun same => (Option.some.inj same).symm, fun same => by rw [same]⟩⟩
      by_cases inherited : Inherited preferences ref
      · rw [reading first firstLeads.wanted (alike none (fun _ => rfl) fun own => absurd inherited own),
          forall_prop_of_true inherited]
      · have mirrors := alike (preferredMod preferences ref first) (fun hidden => absurd hidden inherited)
          fun _ other inside => by rw [Option.some.inj inside]
        rw [choice] at mirrors
        rw [reading chosen chosenLeads.wanted.1 mirrors, and_iff_left rfl, and_iff_left fun hidden => absurd hidden inherited]

/-- The runtimes resolve the commands of a slot alike; they resolve a reference alike, and a bare one to the fill it stands
for, if and only if the slots' declaration order and the orders Rust searches in agree on it. -/
theorem commandsAlike_iff (contributed : Contributed slots mods fills) (order : StableSort compareCommands)
    (preferences : List (List Char × List Char)) (ref : List Char) :
    CommandsAlike slots fills preferences ref order mods ↔ ReferenceSettled slots fills preferences ref := by
  have all : ∀ slotId, List.Forall₂ SameResolved (resolveCommandsAll order (utf16 slotId) mods)
      (Rust.resolveCommandsAll slotId fills slots) := fun slotId =>
    (contributed.all_alike order slotId _).imp fun _ _ related => related.toSameResolved
  have offered : ∀ slotId, List.Forall₂ SameResolved (resolveCommands order (utf16 slotId) mods (slots.map declaredSlot))
      (Rust.resolveCommands slotId fills slots) := fun slotId =>
    (contributed.offered_alike order slotId _).imp fun _ _ related => related.toSameResolved
  by_cases colon : ':' ∈ ref
  · obtain ⟨owner, id, rfl, plain⟩ := List.eq_append_cons_of_mem colon
    rw [ReferenceSettled, splitReference_colon plain]
    refine Iff.trans ⟨fun alike => alike.found, fun found => ⟨all, offered, found, fun bare => absurd colon bare⟩⟩
      (addressSettled_iff contributed order preferences plain id)
  · rw [ReferenceSettled, splitReference_plain colon]
    exact Iff.trans ⟨fun alike => ⟨alike.found, alike.bare colon⟩, fun both => ⟨all, offered, both.1, fun _ => both.2⟩⟩
      (bareSettled_iff contributed order preferences colon)

end

/-- A mod's command `run` in a slot. -/
def runFill (slot : List Char) : Rust.CommandFill where
  modName := ['m']
  slot := slot
  qualifiedId := ['m', ':', 'r', 'u', 'n']
  id := ['r', 'u', 'n']
  title := ['r', 'u', 'n']
  description := none
  icon := none
  group := none
  keywords := []
  handler := ['r', 'u', 'n']
  args := []
  input := none
  output := none
  priority := 0
  exposed := true

def runCommand (slot : JSString) : Xript.CommandFill where
  mod := js "m"
  slot := slot
  id := js "run"
  title := js "run"
  description := none
  icon := none
  group := none
  keywords := []
  handler := js "run"
  args := []
  input := none
  output := none
  capability := none
  capabilities := []
  priority := .finite (.zero false)
  exposed := true
  numeric := rfl

/-- Two slots, declared against the order of their ids, that one mod fills with commands of one id. -/
def paletteSlots : List Rust.Slot := [⟨['z'], none, some true⟩, ⟨['a'], none, some true⟩]

def paletteMod : ModInstance where
  name := js "m"
  fragments := []
  provides := []
  commandFills := [runCommand (js "z"), runCommand (js "a")]
  stamped := by simp [runCommand]

theorem palette_contributed : Contributed paletteSlots [paletteMod] [runFill ['z'], runFill ['a']] where
  slotIds := by decide
  alike := by
    refine ⟨_, .cons ?_ (.cons ?_ .nil), .refl _⟩
    all_goals exact ⟨rfl, rfl, rfl, .zero false, rfl, by simp [Binary64.value, Binary64.magnitude, Binary64.zero, runFill]⟩
  declared := by decide
  wellFormed := by decide
  named := by decide
  ascii := by simp [runFill]
  qualified := by decide
  distinct := by decide

theorem commandsAlike_iff_palette :
    CommandsAlike paletteSlots [runFill ['z'], runFill ['a']] [] ['r', 'u', 'n'] (.merge _) [paletteMod] ↔
      ReferenceSettled paletteSlots [runFill ['z'], runFill ['a']] [] ['r', 'u', 'n'] :=
  commandsAlike_iff palette_contributed (.merge _) [] ['r', 'u', 'n']

end Commands

end Xript
