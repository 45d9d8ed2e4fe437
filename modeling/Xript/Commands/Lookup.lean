import Mathlib.Data.Char
import Mathlib.Data.List.Lex
import Xript.Commands.Fills
import Xript.Commands.Loads
import Xript.Mods.LoadOrder
import Xript.Order.Stable

namespace Xript

namespace Commands

namespace Rust

/-- What the resolvers read of a slot the host declares. -/
structure Slot where
  id : List Char
  capability : Option (List Char)
  multiple : Option Bool

structure ResolvedCommand extends CommandFill where
  capability : Option (List Char)
  collides : Bool

def ResolvedCommand.fromFill (fill : CommandFill) (capability : Option (List Char)) (collides : Bool) : ResolvedCommand :=
  { fill with capability, collides }

/-- The shared slot ordering: priority descending, then fill id, then owning mod name. -/
def commandOrder (a b : CommandFill) : Ordering :=
  (orderOf b.priority.toInt a.priority.toInt).then ((orderOf a.id b.id).then (orderOf a.modName b.modName))

/-- The ids more than one of the fills has. -/
def collidingIds (fills : List CommandFill) : List (List Char) :=
  (fills.map CommandFill.id).filter fun id => 1 < fills.countP fun fill => fill.id = id

/-- `slice::sort_by`, which keeps ties in place. -/
def sortBy {α : Type} (compare : α → α → Ordering) (l : List α) : List α := l.mergeSort fun a b => (compare a b).isLE

def resolveCommandsAllWith (slotId : List Char) (fills : List CommandFill)
    (capabilityFor : CommandFill → Option (List Char)) : List ResolvedCommand :=
  let matching := sortBy commandOrder (fills.filter fun fill => fill.slot = slotId)
  let collisions := collidingIds matching
  matching.map fun fill => .fromFill fill (capabilityFor fill) (fill.id ∈ collisions)

def slotCapability (slotId : List Char) (slots : List Slot) : Option (List Char) :=
  (slots.find? fun slot => slot.id = slotId).bind Slot.capability

def slotIsMultiple (slotId : List Char) (slots : List Slot) : Bool :=
  ((slots.find? fun slot => slot.id = slotId).bind Slot.multiple).getD false

def resolveCommandsAll (slotId : List Char) (fills : List CommandFill) (slots : List Slot) : List ResolvedCommand :=
  let gate := slotCapability slotId slots
  resolveCommandsAllWith slotId fills fun _ => gate

def resolveCommandsWith (slotId : List Char) (fills : List CommandFill) (slots : List Slot)
    (capabilityFor : CommandFill → Option (List Char)) : List ResolvedCommand :=
  let resolved := resolveCommandsAllWith slotId fills capabilityFor
  if slotIsMultiple slotId slots then resolved else resolved.take 1

def resolveCommands (slotId : List Char) (fills : List CommandFill) (slots : List Slot) : List ResolvedCommand :=
  let gate := slotCapability slotId slots
  resolveCommandsWith slotId fills slots fun _ => gate

/-- `split_once(':')`. -/
def splitReference (reference : List Char) : Option (List Char × List Char) :=
  (reference.idxOf? ':').map fun colon => (reference.take colon, reference.drop (colon + 1))

/-- The slots the fills go into, each where it is first met. -/
def filledSlots (fills : List CommandFill) : List (List Char) :=
  fills.foldl (fun slotIds fill => if fill.slot ∈ slotIds then slotIds else slotIds ++ [fill.slot]) []

def resolveCommandWith (reference : List Char) (fills : List CommandFill) (slots : List Slot)
    (preferences : List (List Char × List Char)) (capabilityFor : CommandFill → Option (List Char)) :
    Option ResolvedCommand :=
  let slotIds := sortBy orderOf (filledSlots fills)
  let candidates := slotIds.flatMap fun slotId => resolveCommandsWith slotId fills slots capabilityFor
  match splitReference reference with
  | some (owner, id) => candidates.find? fun command => command.modName = owner ∧ command.id = id
  | none =>
    let found := sortBy (fun a b => commandOrder a.toCommandFill b.toCommandFill)
      (candidates.filter fun command => command.id = reference)
    let preferred := (preferences.lookup reference).or
      (found.head?.bind fun command => preferences.lookup command.slot)
    (preferred.bind fun name => found.find? fun command => command.modName = name).or found.head?

def resolveCommand (reference : List Char) (fills : List CommandFill) (slots : List Slot)
    (preferences : List (List Char × List Char)) : Option ResolvedCommand :=
  resolveCommandWith reference fills slots preferences fun fill => slotCapability fill.slot slots

end Rust

end Commands

theorem orderOf_toDual {β : Type} [LinearOrder β] (a b : β) :
    orderOf (OrderDual.toDual a) (OrderDual.toDual b) = orderOf b a := by
  simp only [orderOf, OrderDual.toDual_lt_toDual]

/-- Values are ordered as what they are mapped to, where the mapping keeps which is less. -/
theorem orderOf_congr {β γ : Type} [LinearOrder β] [LinearOrder γ] {a b : β} {x y : γ} (less : a < b ↔ x < y)
    (greater : b < a ↔ y < x) : orderOf a b = orderOf x y := by
  simp only [orderOf, less, greater]

theorem orderOf_isLE {β : Type} [LinearOrder β] {a b : β} : (orderOf a b).isLE = true ↔ a ≤ b := by
  rcases lt_trichotomy a b with less | rfl | greater
  · simp [orderOf_lt.2 less, less.le]
  · simp [orderOf_eq.2 rfl]
  · simp [orderOf_gt.2 greater, greater]

theorem utf16_ascii {s : List Char} (ascii : ∀ c ∈ s, c.toNat < 128) : utf16 s = s.map Char.toNat := by
  induction s with
  | nil => rfl
  | cons c s ih =>
    rw [utf16_cons_ascii (ascii c (List.mem_cons_self ..)), ih fun d inside => ascii d (List.mem_cons_of_mem _ inside)]
    rfl

theorem map_toNat_lt {s t : List Char} : s.map Char.toNat < t.map Char.toNat ↔ s < t := by
  induction s generalizing t with
  | nil => cases t <;> simp
  | cons c s ih =>
    cases t with
    | nil => simp
    | cons d t =>
      have heads : c.toNat < d.toNat ↔ c < d := UInt32.lt_iff_toNat_lt.symm
      rw [List.map_cons, List.map_cons, List.cons_lt_cons_iff, List.cons_lt_cons_iff, ih, heads, Char.toNat_inj]

/-- ASCII names stand in one order in both languages. -/
theorem orderOf_ascii {s t : List Char} (plain : ∀ c ∈ s, c.toNat < 128) (plain' : ∀ c ∈ t, c.toNat < 128) :
    orderOf (utf16 s) (utf16 t) = orderOf s t := by
  rw [utf16_ascii plain, utf16_ascii plain']
  exact orderOf_congr map_toNat_lt map_toNat_lt

namespace Commands

theorem SameNumber.numeric {x : F64} {n : Int64} (same : SameNumber x n) : x.isNaN = false := by
  obtain ⟨b, rfl, -⟩ := same
  rfl

theorem SameNumber.orderOf {x y : F64} {m n : Int64} (first : SameNumber x m) (second : SameNumber y n) :
    orderOf x.place y.place = orderOf m.toInt n.toInt := by
  obtain ⟨b, rfl, valueB⟩ := first
  obtain ⟨c, rfl, valueC⟩ := second
  refine orderOf_congr ?_ ?_ <;> simp [F64.place, valueB, valueC]

/-- Where a fill stands in the shared ordering. -/
def Rust.CommandFill.rank (fill : Rust.CommandFill) : Intᵒᵈ ×ₗ List Char ×ₗ List Char :=
  toLex (OrderDual.toDual fill.priority.toInt, toLex (fill.id, fill.modName))

theorem Rust.commandOrder_eq (a b : Rust.CommandFill) : Rust.commandOrder a b = orderOf a.rank b.rank := by
  rw [Rust.CommandFill.rank, Rust.CommandFill.rank, orderOf_toLex, orderOf_toLex, orderOf_toDual]
  rfl

theorem Rust.commandOrder_consistent (l : List Rust.CommandFill) : Consistent (fun a b => some (Rust.commandOrder a b)) l :=
  .of_key Rust.CommandFill.rank l fun a _ b _ => congrArg some (Rust.commandOrder_eq a b)

theorem Rust.sortBy_eq {α : Type} (compare : α → α → Ordering) (l : List α) :
    Rust.sortBy compare l = (StableSort.merge fun a b => some (compare a b)).sort l := by
  have same : (fun a b => (compare a b).isLE) = mayPrecede fun a b => some (compare a b) := by
    funext a b
    rw [mayPrecede]
    cases compare a b <;> rfl
  rw [Rust.sortBy, same]
  rfl

/-- What the two runtimes hold of one fill. -/
structure SameCommand (command : Xript.CommandFill) (made : Rust.CommandFill) : Prop where
  mod : command.mod = utf16 made.modName
  slot : command.slot = utf16 made.slot
  id : command.id = utf16 made.id
  priority : SameNumber command.priority made.priority

/-- The fills of mods into the slots a host declares, as the two runtimes hold them. A mod has one fill of an id in a
slot. -/
structure Contributed (slots : List Rust.Slot) (mods : List ModInstance) (fills : List Rust.CommandFill) : Prop where
  slotIds : (slots.map Rust.Slot.id).Nodup
  alike : ∃ listed, List.Forall₂ SameCommand (mods.flatMap ModInstance.commandFills) listed ∧ listed.Perm fills
  declared : ∀ fill ∈ fills, fill.slot ∈ slots.map Rust.Slot.id
  wellFormed : ∀ fill ∈ fills, Rust.isValidCommandId fill.id = true
  named : ∀ fill ∈ fills, fill.modName ≠ []
  ascii : ∀ fill ∈ fills, ∀ c ∈ fill.modName, c.toNat < 128
  qualified : ∀ fill ∈ fills, fill.qualifiedId = fill.modName ++ ':' :: fill.id
  distinct : (fills.map fun fill => (fill.slot, fill.modName, fill.id)).Nodup

/-- The slots as JavaScript holds them. -/
def declaredSlot (slot : Rust.Slot) : SlotDeclaration := ⟨utf16 slot.id, slot.multiple.getD false⟩

/-- One resolved command, as its address, its slot and its mark have it. -/
structure SameResolved (command : ResolvedCommand) (made : Rust.ResolvedCommand) : Prop where
  qualifiedId : command.qualifiedId = utf16 made.qualifiedId
  slot : command.slot = utf16 made.slot
  collides : command.collides = made.collides

/-- One command as the two runtimes resolve it. -/
structure Mirrors (command : ResolvedCommand) (made : Rust.ResolvedCommand) : Prop extends
    SameCommand command.toCommandFill made.toCommandFill, SameResolved command made

/-- A command not marked yet, and the fill it is of. -/
structure Listed (fills : List Rust.CommandFill) (command : ResolvedCommand) (fill : Rust.CommandFill) : Prop extends
    SameCommand command.toCommandFill fill where
  qualifiedId : command.qualifiedId = utf16 fill.qualifiedId
  member : fill ∈ fills

theorem valid_chars {id : List Char} (valid : Rust.isValidCommandId id = true) : ∀ c ∈ id, c.toNat < 128 ∧ c ≠ ':' := by
  have rest : ∀ c, Rust.isIdRest c = true → c.toNat < 128 ∧ c ≠ ':' := by
    intro c inRest
    rw [← isIdRest_char] at inRest
    refine ⟨isIdRest_ascii c.toNat inRest, fun colon => ?_⟩
    rw [colon] at inRest
    cases inRest
  cases id with
  | nil => simp
  | cons d id =>
    obtain ⟨first, others⟩ := Bool.and_eq_true_iff.mp valid
    intro c inside
    rcases List.mem_cons.mp inside with rfl | later
    · exact rest c (by simp [Rust.isIdRest, first])
    · exact rest c (List.all_eq_true.mp others c later)

theorem forall₂_members {α β : Type} {R : α → β → Prop} {l : List α} {other : List β} (same : List.Forall₂ R l other) :
    List.Forall₂ (fun a b => b ∈ other ∧ R a b) l other :=
  ((List.forall₂_and_left _ _).mpr ⟨fun _ inside => inside, same.flip⟩).flip

theorem forall₂_countP {α β : Type} {R : α → β → Prop} {l : List α} {other : List β} (same : List.Forall₂ R l other)
    {p : α → Bool} {q : β → Bool} (alike : ∀ a b, R a b → p a = q b) : l.countP p = other.countP q := by
  rw [List.countP_eq_length_filter, List.countP_eq_length_filter]
  exact (List.rel_filter (fun a b related => Bool.eq_iff_iff.mp (alike a b related)) same).length_eq

theorem Rust.mem_collidingIds {fills : List Rust.CommandFill} {id : List Char} :
    id ∈ Rust.collidingIds fills ↔ 1 < fills.countP fun fill => fill.id = id := by
  rw [Rust.collidingIds, List.mem_filter, decide_eq_true_iff, and_iff_right_iff_imp]
  intro several
  obtain ⟨fill, inside, same⟩ := List.countP_pos_iff.mp (Nat.zero_lt_of_lt several)
  exact List.mem_map.mpr ⟨fill, inside, of_decide_eq_true same⟩

section

variable {slots : List Rust.Slot} {mods : List ModInstance} {fills : List Rust.CommandFill}

theorem Contributed.unique (contributed : Contributed slots mods fills) {a b : Rust.CommandFill} (inA : a ∈ fills)
    (inB : b ∈ fills) (slot : a.slot = b.slot) (mod : a.modName = b.modName) (id : a.id = b.id) : a = b :=
  List.inj_on_of_nodup_map contributed.distinct inA inB (by rw [slot, mod, id])

theorem Contributed.eq_of_tie (contributed : Contributed slots mods fills) {a b : Rust.CommandFill} (inA : a ∈ fills)
    (inB : b ∈ fills) (slot : a.slot = b.slot) (tie : Rust.commandOrder a b = .eq) : a = b := by
  rw [Rust.commandOrder_eq, orderOf_eq] at tie
  have keys := toLex.injective tie
  have names := toLex.injective (Prod.mk.inj keys).2
  exact contributed.unique inA inB slot (Prod.mk.inj names).2 (Prod.mk.inj names).1

theorem Contributed.compare (contributed : Contributed slots mods fills) {a b : ResolvedCommand} {c d : Rust.CommandFill}
    (first : Listed fills a c) (second : Listed fills b d) : compareCommands a b = some (Rust.commandOrder c d) := by
  have ids := orderOf_ascii (fun x inside => (valid_chars (contributed.wellFormed c first.member) x inside).1)
    fun x inside => (valid_chars (contributed.wellFormed d second.member) x inside).1
  have names := orderOf_ascii (contributed.ascii c first.member) (contributed.ascii d second.member)
  rw [compareCommands_eq, threeKeys, threeKeys, orderOf_toLex, orderOf_toLex, orderOf_toDual, Rust.commandOrder,
    first.id, second.id, first.mod, second.mod, ids, names, second.priority.orderOf first.priority]

/-- What a slot gathers is the fills into it. -/
theorem Contributed.gathered (contributed : Contributed slots mods fills) (slotId : List Char) :
    ∃ listed, List.Forall₂ (Listed fills) (mods.flatMap (commandsOf (utf16 slotId))) listed ∧
      listed.Perm (fills.filter fun fill => fill.slot = slotId) := by
  obtain ⟨listed, same, perm⟩ := contributed.alike
  refine ⟨listed.filter fun fill => fill.slot = slotId, ?_, perm.filter _⟩
  have gathers : mods.flatMap (commandsOf (utf16 slotId)) =
      ((mods.flatMap ModInstance.commandFills).filter fun fill => fill.slot = utf16 slotId).map fun fill =>
        { fill with qualifiedId := fill.mod ++ 58 :: fill.id, collides := false } := by
    rw [List.filter_flatMap, List.map_flatMap]
    rfl
  rw [gathers, List.forall₂_map_left_iff]
  have kept := List.rel_filter (p := fun fill : Xript.CommandFill => fill.slot = utf16 slotId)
    (q := fun fill : Rust.CommandFill => fill.slot = slotId) (fun a b related => ?_) (forall₂_members same)
  · refine kept.imp fun command fill related => ⟨related.2, ?_, perm.subset related.1⟩
    rw [contributed.qualified fill (perm.subset related.1), related.2.mod, related.2.id, utf16_append]
    rfl
  · simp only [related.2.slot, utf16_inj]

/-- Every command of a slot: in one order, with the same marks. -/
theorem Contributed.all_alike (contributed : Contributed slots mods fills) (order : StableSort compareCommands)
    (slotId : List Char) (capabilityFor : Rust.CommandFill → Option (List Char)) :
    List.Forall₂ Mirrors (resolveCommandsAll order (utf16 slotId) mods)
      (Rust.resolveCommandsAllWith slotId fills capabilityFor) := by
  obtain ⟨listed, same, perm⟩ := contributed.gathered slotId
  have consistent : Consistent compareCommands (mods.flatMap (commandsOf (utf16 slotId))) :=
    .of_key (fun command => threeKeys command.priority command.id command.mod) _ fun a _ b _ => compareCommands_eq a b
  have sorted : List.Forall₂ (Listed fills) (order.sort (mods.flatMap (commandsOf (utf16 slotId))))
      (Rust.sortBy Rust.commandOrder (fills.filter fun fill => fill.slot = slotId)) := by
    rw [Rust.sortBy_eq]
    refine order.forall₂_sort _ consistent (Rust.commandOrder_consistent _) same perm
      (fun first second => contributed.compare first second) fun a inA b inB tie => ?_
    have slots := (of_decide_eq_true (List.mem_filter.mp inA).2).trans (of_decide_eq_true (List.mem_filter.mp inB).2).symm
    exact contributed.eq_of_tie (List.mem_filter.mp inA).1 (List.mem_filter.mp inB).1 slots (Option.some.inj tie)
  unfold resolveCommandsAll Rust.resolveCommandsAllWith markCollisions
  rw [List.forall₂_map_left_iff, List.forall₂_map_right_iff]
  refine (forall₂_members sorted).imp fun command fill related => ?_
  obtain ⟨inside, alike⟩ := related
  refine ⟨⟨alike.mod, alike.slot, alike.id, alike.priority⟩, alike.qualifiedId, ?_⟩
  have counts := forall₂_countP sorted (p := fun other => other.id = command.id) (q := fun other => other.id = fill.id)
    fun a b related => by simp only [related.id, alike.id, utf16_inj]
  show decide _ = decide _
  simp only [counts, Rust.mem_collidingIds]

theorem allowsMultiple_declared (slotId : List Char) (slots : List Rust.Slot) :
    allowsMultiple (slots.map declaredSlot) (utf16 slotId) = Rust.slotIsMultiple slotId slots := by
  have same : (fun slot => decide (slot.id = utf16 slotId)) ∘ declaredSlot = fun slot : Rust.Slot => slot.id = slotId := by
    funext slot
    simp only [Function.comp_apply, declaredSlot, utf16_inj]
  rw [allowsMultiple, Rust.slotIsMultiple, List.find?_map, same]
  cases slots.find? fun slot => slot.id = slotId <;> rfl

theorem Contributed.offered_alike (contributed : Contributed slots mods fills) (order : StableSort compareCommands)
    (slotId : List Char) (capabilityFor : Rust.CommandFill → Option (List Char)) :
    List.Forall₂ Mirrors (resolveCommands order (utf16 slotId) mods (slots.map declaredSlot))
      (Rust.resolveCommandsWith slotId fills slots capabilityFor) := by
  have all := contributed.all_alike order slotId capabilityFor
  unfold resolveCommands Rust.resolveCommandsWith
  rw [allowsMultiple_declared]
  split
  · exact all
  · exact List.forall₂_take 1 all

end

end Commands

namespace Commands

namespace Rust

section

variable (slots : List Slot) (fills : List CommandFill)

/-- The fills a host is offered: all of a slot that takes several, or the first of its slot. -/
def Offered (fill : CommandFill) : Prop :=
  fill ∈ fills ∧ (slotIsMultiple fill.slot slots = true ∨
    ∀ other ∈ fills, other.slot = fill.slot → commandOrder fill other ≠ .gt)

def position (slotId : List Char) : Nat := slots.findIdx fun slot => slot.id = slotId

/-- The order of the slots as they are declared, and in a slot the shared one. -/
def DeclaredBefore (a b : CommandFill) : Prop :=
  position slots a.slot < position slots b.slot ∨ (a.slot = b.slot ∧ commandOrder a b = .lt)

/-- The order of the slots' ids, and in a slot the shared one. -/
def SlotBefore (a b : CommandFill) : Prop := a.slot < b.slot ∨ (a.slot = b.slot ∧ commandOrder a b = .lt)

/-- The shared order, and among what it ties that of the slots' ids. -/
def RankedBefore (a b : CommandFill) : Prop := commandOrder a b = .lt ∨ (commandOrder a b = .eq ∧ a.slot < b.slot)

/-- The fills offered of a slot, in order. -/
def offeredTo (slotId : List Char) : List CommandFill :=
  let sorted := sortBy commandOrder (fills.filter fun fill => fill.slot = slotId)
  if slotIsMultiple slotId slots then sorted else sorted.take 1

/-- The fills Rust searches for an address, in its order. -/
def candidatesOf : List CommandFill := (sortBy orderOf (filledSlots fills)).flatMap (offeredTo slots fills)

/-- The matches of an id, in the order Rust searches them. -/
def rankedMatches (id : List Char) : List CommandFill :=
  sortBy commandOrder ((candidatesOf slots fills).filter fun fill => fill.id = id)

/-- The fills JavaScript searches, in its order. -/
def declaredCandidates : List CommandFill := slots.flatMap fun slot => offeredTo slots fills slot.id

def declaredMatches (id : List Char) : List CommandFill :=
  (declaredCandidates slots fills).filter fun fill => fill.id = id

/-- A fill with the mark it carries in its slot. -/
def marked (capabilityFor : CommandFill → Option (List Char)) (fill : CommandFill) : ResolvedCommand :=
  .fromFill fill (capabilityFor fill)
    (1 < (fills.filter fun other => other.slot = fill.slot).countP fun other => other.id = fill.id)

/-- The preferred mod's fill, or the first. -/
def choose (preferred : Option (List Char)) (l : List CommandFill) : Option CommandFill :=
  (preferred.bind fun name => l.find? fun fill => fill.modName = name).or l.head?

/-- Of some fills those of the preferred mod, or all of them if it has none. -/
def Asked (preferred : Option (List Char)) (matching : CommandFill → Prop) (fill : CommandFill) : Prop :=
  matching fill ∧ ∀ name, preferred = some name → (∃ other, matching other ∧ other.modName = name) → fill.modName = name

end

section

variable {slots : List Slot} {mods : List ModInstance} {fills : List CommandFill}

theorem perm_sortBy {α : Type} (compare : α → α → Ordering) (l : List α) : (sortBy compare l).Perm l :=
  List.mergeSort_perm l _

/-- The marks aside, a slot resolves to the fills offered of it. -/
theorem resolveCommandsWith_eq (slotId : List Char) (capabilityFor : CommandFill → Option (List Char)) :
    resolveCommandsWith slotId fills slots capabilityFor =
      (offeredTo slots fills slotId).map (marked fills capabilityFor) := by
  have all : resolveCommandsAllWith slotId fills capabilityFor =
      (sortBy commandOrder (fills.filter fun fill => fill.slot = slotId)).map (marked fills capabilityFor) := by
    unfold resolveCommandsAllWith
    refine List.map_congr_left fun fill inside => ?_
    have perm := perm_sortBy commandOrder (fills.filter fun fill => fill.slot = slotId)
    have slot : fill.slot = slotId := of_decide_eq_true (List.mem_filter.mp (perm.subset inside)).2
    rw [marked, slot]
    simp only [mem_collidingIds, perm.countP_eq]
  unfold resolveCommandsWith offeredTo
  rw [all]
  split
  · rfl
  · rw [List.map_take]

theorem offeredTo_sublist (slotId : List Char) :
    (offeredTo slots fills slotId).Sublist (sortBy commandOrder (fills.filter fun fill => fill.slot = slotId)) := by
  unfold offeredTo
  split
  · exact .refl _
  · exact List.take_sublist 1 _

theorem slot_of_offeredTo {slotId : List Char} {fill : CommandFill} (inside : fill ∈ offeredTo slots fills slotId) :
    fill ∈ fills ∧ fill.slot = slotId := by
  have kept := List.mem_filter.mp ((perm_sortBy commandOrder _).subset ((offeredTo_sublist slotId).subset inside))
  exact ⟨kept.1, of_decide_eq_true kept.2⟩

theorem commandOrder_gt {a b : CommandFill} : commandOrder a b = .gt ↔ commandOrder b a = .lt := by
  rw [commandOrder_eq, commandOrder_eq, orderOf_gt, orderOf_lt]

theorem commandOrder_self (a : CommandFill) : commandOrder a a = .eq := by
  rw [commandOrder_eq, orderOf_eq]

theorem mem_sorted {slotId : List Char} {fill : CommandFill} :
    fill ∈ sortBy commandOrder (fills.filter fun fill => fill.slot = slotId) ↔ fill ∈ fills ∧ fill.slot = slotId := by
  rw [(perm_sortBy commandOrder _).mem_iff, List.mem_filter, decide_eq_true_iff]

theorem sorted_ordered (contributed : Contributed slots mods fills) (slotId : List Char) :
    (sortBy commandOrder (fills.filter fun fill => fill.slot = slotId)).Pairwise fun a b => commandOrder a b = .lt := by
  have once : (fills.filter fun fill => fill.slot = slotId).Nodup := (List.Nodup.of_map _ contributed.distinct).filter _
  have ordered := (StableSort.merge _).pairwise_sort (commandOrder_consistent _) once
  rw [← sortBy_eq] at ordered
  refine ordered.imp_of_mem fun {a b} inA inB may => ?_
  have keptA := mem_sorted.mp inA
  have keptB := mem_sorted.mp inB
  cases compared : commandOrder a b with
  | lt => rfl
  | eq =>
    have same := contributed.eq_of_tie keptA.1 keptB.1 (keptA.2.trans keptB.2.symm) compared
    exact absurd same (may.2 (congrArg some compared))
  | gt => simp [mayPrecede, compared] at may

theorem offeredTo_ordered (contributed : Contributed slots mods fills) (slotId : List Char) :
    (offeredTo slots fills slotId).Pairwise fun a b => commandOrder a b = .lt :=
  (sorted_ordered contributed slotId).sublist (offeredTo_sublist slotId)

theorem mem_offeredTo (contributed : Contributed slots mods fills) {slotId : List Char} {fill : CommandFill} :
    fill ∈ offeredTo slots fills slotId ↔ Offered slots fills fill ∧ fill.slot = slotId := by
  have ordered := sorted_ordered contributed slotId
  have members : ∀ fill, fill ∈ sortBy commandOrder (fills.filter fun fill => fill.slot = slotId) ↔
      fill ∈ fills ∧ fill.slot = slotId := fun fill => mem_sorted
  unfold offeredTo
  generalize sortBy commandOrder (fills.filter fun fill => fill.slot = slotId) = sorted at ordered members
  split
  · rename_i multiple
    rw [members fill]
    constructor
    · rintro ⟨inside, rfl⟩
      exact ⟨⟨inside, Or.inl multiple⟩, rfl⟩
    · exact fun offered => ⟨offered.1.1, offered.2⟩
  · rename_i single
    cases sorted with
    | nil =>
      refine iff_of_false (List.not_mem_nil) fun offered => ?_
      exact List.not_mem_nil ((members fill).mpr ⟨offered.1.1, offered.2⟩)
    | cons first rest =>
      have inFills := (members first).mp (List.mem_cons_self ..)
      rw [List.take_one, List.head?_cons, Option.toList_some, List.mem_singleton]
      constructor
      · rintro rfl
        refine ⟨⟨inFills.1, Or.inr fun other inside same greater => ?_⟩, inFills.2⟩
        rcases List.mem_cons.mp ((members other).mpr ⟨inside, same.trans inFills.2⟩) with rfl | later
        · cases (commandOrder_self other).symm.trans greater
        · cases ((List.pairwise_cons.mp ordered).1 other later).symm.trans greater
      · rintro ⟨⟨inside, several | least⟩, rfl⟩
        · exact absurd several single
        · rcases List.mem_cons.mp ((members fill).mpr ⟨inside, rfl⟩) with same | later
          · exact same
          · have less := (List.pairwise_cons.mp ordered).1 fill later
            exact absurd (commandOrder_gt.mpr less) (least first inFills.1 inFills.2)

theorem filledSlots_from (fills : List CommandFill) {known : List (List Char)} (distinct : known.Nodup) :
    let slotIds := fills.foldl (fun slotIds fill => if fill.slot ∈ slotIds then slotIds else slotIds ++ [fill.slot]) known
    slotIds.Nodup ∧ ∀ slotId, slotId ∈ slotIds ↔ slotId ∈ known ∨ ∃ fill ∈ fills, fill.slot = slotId := by
  induction fills generalizing known with
  | nil => simpa using distinct
  | cons fill fills ih =>
    rw [List.foldl_cons]
    split
    · rename_i seen
      obtain ⟨once, members⟩ := ih distinct
      refine ⟨once, fun slotId => (members slotId).trans ?_⟩
      rw [List.exists_mem_cons_iff]
      constructor
      · exact Or.imp_right Or.inr
      · rintro (old | rfl | later)
        · exact Or.inl old
        · exact Or.inl seen
        · exact Or.inr later
    · rename_i new
      have apart : (known ++ [fill.slot]).Nodup := by
        refine List.nodup_append.mpr ⟨distinct, List.nodup_singleton _, fun a old b single same => new ?_⟩
        rwa [← List.mem_singleton.mp single, ← same]
      obtain ⟨once, members⟩ := ih apart
      refine ⟨once, fun slotId => (members slotId).trans ?_⟩
      rw [List.exists_mem_cons_iff, List.mem_append, List.mem_singleton, or_assoc, @eq_comm _ slotId]

theorem mem_filledSlots {slotId : List Char} : slotId ∈ filledSlots fills ↔ ∃ fill ∈ fills, fill.slot = slotId := by
  rw [filledSlots, (filledSlots_from fills List.nodup_nil).2, or_iff_right List.not_mem_nil]

/-- The slots stand in the order of their ids. -/
theorem filledSlots_sorted : (sortBy orderOf (filledSlots fills)).Pairwise (· < ·) := by
  have consistent : Consistent (fun a b => some (orderOf a b)) (filledSlots fills) := .of_key id _ fun a _ b _ => rfl
  have once : (filledSlots fills).Nodup := (filledSlots_from fills List.nodup_nil).1
  have ordered := (StableSort.merge _).pairwise_sort consistent once
  rw [← sortBy_eq] at ordered
  refine ordered.imp fun {a b} may => ?_
  rcases lt_trichotomy a b with less | same | greater
  · exact less
  · exact absurd same (may.2 (congrArg some (orderOf_eq.2 same)))
  · simp [mayPrecede, orderOf_gt.2 greater] at may

theorem mem_candidates (contributed : Contributed slots mods fills) {fill : CommandFill} :
    fill ∈ candidatesOf slots fills ↔ Offered slots fills fill := by
  rw [candidatesOf, List.mem_flatMap]
  constructor
  · rintro ⟨slotId, -, inside⟩
    exact ((mem_offeredTo contributed).mp inside).1
  · intro offered
    have filled : fill.slot ∈ filledSlots fills := mem_filledSlots.mpr ⟨fill, offered.1, rfl⟩
    exact ⟨fill.slot, (perm_sortBy _ _).symm.subset filled, (mem_offeredTo contributed).mpr ⟨offered, rfl⟩⟩

theorem candidates_ordered (contributed : Contributed slots mods fills) :
    (candidatesOf slots fills).Pairwise SlotBefore := by
  refine List.pairwise_flatMap.mpr ⟨fun slotId _ => ?_, filledSlots_sorted.imp fun {s t} less a inA b inB => ?_⟩
  · refine (offeredTo_ordered contributed slotId).imp_of_mem fun {a b} inA inB less => Or.inr ⟨?_, less⟩
    exact (slot_of_offeredTo inA).2.trans (slot_of_offeredTo inB).2.symm
  · refine Or.inl ?_
    rwa [(slot_of_offeredTo inA).2, (slot_of_offeredTo inB).2]

theorem mem_declared (contributed : Contributed slots mods fills) {fill : CommandFill} :
    fill ∈ declaredCandidates slots fills ↔ Offered slots fills fill := by
  rw [declaredCandidates, List.mem_flatMap]
  constructor
  · rintro ⟨slot, -, inside⟩
    exact ((mem_offeredTo contributed).mp inside).1
  · intro offered
    obtain ⟨slot, declared, same⟩ := List.mem_map.mp (contributed.declared fill offered.1)
    exact ⟨slot, declared, (mem_offeredTo contributed).mpr ⟨offered, same.symm⟩⟩

theorem positions_ordered (distinct : (slots.map Slot.id).Nodup) :
    slots.Pairwise fun s t => position slots s.id < position slots t.id := by
  have at_index : ∀ i (bound : i < slots.length), position slots slots[i].id = i := by
    intro i bound
    refine (List.findIdx_eq bound).mpr ⟨decide_eq_true rfl, fun j less => decide_eq_false fun same => ?_⟩
    have boundI : i < (slots.map Slot.id).length := by rwa [List.length_map]
    have boundJ : j < (slots.map Slot.id).length := less.trans boundI
    have equal : (slots.map Slot.id)[j] = (slots.map Slot.id)[i] := by simpa using same
    exact less.ne ((List.Nodup.getElem_inj_iff distinct).mp equal)
  refine List.pairwise_iff_getElem.mpr fun i j boundI boundJ less => ?_
  rwa [at_index i boundI, at_index j boundJ]

theorem declared_ordered (contributed : Contributed slots mods fills) :
    (declaredCandidates slots fills).Pairwise (DeclaredBefore slots) := by
  refine List.pairwise_flatMap.mpr ⟨fun slot _ => ?_, (positions_ordered contributed.slotIds).imp
    fun {s t} less a inA b inB => ?_⟩
  · refine (offeredTo_ordered contributed slot.id).imp_of_mem fun {a b} inA inB less => Or.inr ⟨?_, less⟩
    exact (slot_of_offeredTo inA).2.trans (slot_of_offeredTo inB).2.symm
  · refine Or.inl ?_
    rwa [(slot_of_offeredTo inA).2, (slot_of_offeredTo inB).2]

theorem commandOrder_asymm {a b : CommandFill} (less : commandOrder a b = .lt) : commandOrder b a ≠ .lt := by
  rw [commandOrder_eq, orderOf_lt] at less
  rw [commandOrder_eq, Ne, orderOf_lt]
  exact less.asymm

theorem declaredBefore_asymm (a b : CommandFill) (first : DeclaredBefore slots a b) : ¬ DeclaredBefore slots b a := by
  rintro (back | ⟨slot, back⟩) <;> rcases first with forth | ⟨slot', forth⟩
  · exact back.asymm forth
  · exact back.ne (by rw [slot'])
  · exact forth.ne (by rw [slot])
  · exact commandOrder_asymm forth back

theorem slotBefore_asymm (a b : CommandFill) (first : SlotBefore a b) : ¬ SlotBefore b a := by
  rintro (back | ⟨slot, back⟩) <;> rcases first with forth | ⟨slot', forth⟩
  · exact back.asymm forth
  · exact back.ne slot'.symm
  · exact forth.ne slot.symm
  · exact commandOrder_asymm forth back

theorem rankedBefore_asymm (a b : CommandFill) (first : RankedBefore a b) : ¬ RankedBefore b a := by
  rintro (back | ⟨tie, back⟩) <;> rcases first with forth | ⟨tie', forth⟩
  · exact commandOrder_asymm forth back
  · cases (commandOrder_gt.mpr back).symm.trans tie'
  · cases (commandOrder_gt.mpr forth).symm.trans tie
  · exact forth.asymm back

theorem head_leads {before : CommandFill → CommandFill → Prop} {matching : CommandFill → Prop}
    {first : CommandFill} {rest : List CommandFill} (ordered : (first :: rest).Pairwise before)
    (members : ∀ fill, fill ∈ first :: rest ↔ matching fill) : Leads before matching first := by
  refine ⟨(members first).mp (List.mem_cons_self ..), fun other inside => ?_⟩
  rcases List.mem_cons.mp ((members other).mpr inside) with same | later
  · exact Or.inl same
  · exact Or.inr ((List.pairwise_cons.mp ordered).1 other later)

theorem choose_nil (preferred : Option (List Char)) : choose preferred [] = none := by
  cases preferred <;> rfl

theorem exists_choose (preferred : Option (List Char)) (first : CommandFill) (rest : List CommandFill) :
    ∃ fill, choose preferred (first :: rest) = some fill := by
  unfold choose
  cases preferred.bind fun name => (first :: rest).find? fun fill => fill.modName = name with
  | none => exact ⟨first, rfl⟩
  | some fill => exact ⟨fill, rfl⟩

/-- A choice from a list in order is what leads the fills asked for. -/
theorem choose_leads {before : CommandFill → CommandFill → Prop} {matching : CommandFill → Prop}
    (asymmetric : ∀ a b, before a b → ¬ before b a) {l : List CommandFill} (ordered : l.Pairwise before)
    (members : ∀ fill, fill ∈ l ↔ matching fill) (preferred : Option (List Char)) (fill : CommandFill) :
    choose preferred l = some fill ↔ Leads before (Asked preferred matching) fill := by
  have all : ∀ l : List CommandFill, l.head? = l.find? fun _ => true := fun l => by cases l <;> rfl
  cases preferred with
  | none =>
    show l.head? = some fill ↔ _
    rw [all]
    exact find_leads_iff asymmetric ordered fun a => by simp [Asked, members]
  | some name =>
    show ((l.find? fun fill => fill.modName = name).or l.head?) = some fill ↔ _
    cases found : l.find? fun fill => fill.modName = name with
    | none =>
      have absent : ∀ other, matching other → other.modName ≠ name := fun other inside => by
        simpa using List.find?_eq_none.mp found other ((members other).mpr inside)
      rw [Option.none_or, all]
      refine find_leads_iff asymmetric ordered fun a => ?_
      rw [members a]
      refine ⟨fun asked => ⟨asked.1, rfl⟩, fun inside => ⟨inside.1, fun other same present => ?_⟩⟩
      obtain ⟨fill, inside, named⟩ := present
      exact absurd (named.trans (Option.some.inj same).symm) (absent fill inside)
    | some first =>
      rw [Option.some_or, ← found]
      refine find_leads_iff asymmetric ordered fun a => ?_
      rw [members a, decide_eq_true_iff]
      refine and_congr_right fun inside => ⟨fun only => ?_, fun named other same _ => named.trans (Option.some.inj same)⟩
      have named : decide (first.modName = name) = true :=
        List.find?_some (p := fun fill : CommandFill => fill.modName = name) found
      exact only name rfl ⟨first, (members first).mp (List.mem_of_find?_eq_some found), of_decide_eq_true named⟩

theorem mem_rankedMatches (contributed : Contributed slots mods fills) (id : List Char) (fill : CommandFill) :
    fill ∈ rankedMatches slots fills id ↔ Offered slots fills fill ∧ fill.id = id := by
  rw [rankedMatches, (perm_sortBy commandOrder _).mem_iff, List.mem_filter, mem_candidates contributed, decide_eq_true_iff]

theorem mem_declaredMatches (contributed : Contributed slots mods fills) (id : List Char) (fill : CommandFill) :
    fill ∈ declaredMatches slots fills id ↔ Offered slots fills fill ∧ fill.id = id := by
  rw [declaredMatches, List.mem_filter, mem_declared contributed, decide_eq_true_iff]

theorem rankedMatches_ordered (contributed : Contributed slots mods fills) (id : List Char) :
    (rankedMatches slots fills id).Pairwise RankedBefore := by
  have ordered := (StableSort.merge _).pairwise_sort (commandOrder_consistent _)
    ((candidates_ordered contributed).filter fun fill => fill.id = id)
  rw [← sortBy_eq] at ordered
  refine ordered.imp fun {a b} may => ?_
  cases compared : commandOrder a b with
  | lt => exact Or.inl compared
  | eq =>
    rcases may.2 (congrArg some compared) with less | ⟨-, less⟩
    · exact Or.inr ⟨compared, less⟩
    · exact Or.inl less
  | gt => simp [mayPrecede, compared] at may

theorem candidates_eq (capabilityFor : CommandFill → Option (List Char)) :
    ((sortBy orderOf (filledSlots fills)).flatMap fun slotId => resolveCommandsWith slotId fills slots capabilityFor) =
      (candidatesOf slots fills).map (marked fills capabilityFor) := by
  simp only [candidatesOf, resolveCommandsWith_eq, List.map_flatMap]

theorem addressed_eq {ref owner id : List Char} (split : splitReference ref = some (owner, id))
    (preferences : List (List Char × List Char)) (capabilityFor : CommandFill → Option (List Char)) :
    resolveCommandWith ref fills slots preferences capabilityFor =
      ((candidatesOf slots fills).find? fun fill => fill.modName = owner ∧ fill.id = id).map
        (marked fills capabilityFor) := by
  unfold resolveCommandWith
  simp only [candidates_eq, split, List.find?_map]
  rfl

theorem bare_eq {ref : List Char} (split : splitReference ref = none) (preferences : List (List Char × List Char))
    (capabilityFor : CommandFill → Option (List Char)) :
    resolveCommandWith ref fills slots preferences capabilityFor =
      (choose ((preferences.lookup ref).or ((rankedMatches slots fills ref).head?.bind fun first =>
        preferences.lookup first.slot)) (rankedMatches slots fills ref)).map (marked fills capabilityFor) := by
  have commutes : ∀ l : List CommandFill, (sortBy commandOrder l).map (marked fills capabilityFor) =
      sortBy (fun a b => commandOrder a.toCommandFill b.toCommandFill) (l.map (marked fills capabilityFor)) := by
    intro l
    unfold sortBy
    exact List.map_mergeSort fun _ _ _ _ => rfl
  have sorted : sortBy (fun a b : ResolvedCommand => commandOrder a.toCommandFill b.toCommandFill)
      (((candidatesOf slots fills).map (marked fills capabilityFor)).filter fun command => command.id = ref) =
        (rankedMatches slots fills ref).map (marked fills capabilityFor) := by
    rw [List.filter_map, rankedMatches, commutes]
    rfl
  unfold resolveCommandWith
  simp only [candidates_eq, split, sorted, choose]
  generalize rankedMatches slots fills ref = found
  have first : ((found.map (marked fills capabilityFor)).head?.bind fun command => preferences.lookup command.slot) =
      found.head?.bind fun fill => preferences.lookup fill.slot := by
    rw [List.head?_map]
    cases found.head? <;> rfl
  rw [first, Option.map_or, Option.map_bind, List.head?_map]
  simp only [List.find?_map]
  rfl

end

end Rust

end Commands

end Xript
