import Mathlib.Data.List.Lex
import Mathlib.Data.Prod.Lex
import Xript.Mods.Resolve

namespace Xript

theorem compareNames_eq (a b : JSString) : compareNames a b = orderOf a b := by
  rcases lt_trichotomy a b with less | rfl | greater
  · rw [compareNames, if_pos less, orderOf_lt.2 less]
  · rw [compareNames, if_neg (lt_irrefl a), if_neg (lt_irrefl a), orderOf_eq.2 rfl]
  · rw [compareNames, if_neg greater.asymm, if_pos greater, orderOf_gt.2 greater]

/-- Where a number and two names stand in the three-key order. -/
def threeKeys (priority : F64) (id mod : JSString) : (WithBot (WithTop ℚ))ᵒᵈ ×ₗ JSString ×ₗ JSString :=
  toLex (OrderDual.toDual priority.place, toLex (id, mod))

theorem orderOf_toLex {β γ : Type} [LinearOrder β] [LinearOrder γ] (a b : β) (x y : γ) :
    orderOf (toLex (a, x)) (toLex (b, y)) = (orderOf a b).then (orderOf x y) := by
  rcases lt_trichotomy a b with less | rfl | greater
  · rw [orderOf_lt.2 less, orderOf_lt.2 (Prod.Lex.toLex_lt_toLex.mpr (Or.inl less))]
    rfl
  · rw [orderOf_eq.2 (rfl : a = a)]
    show _ = orderOf x y
    rcases lt_trichotomy x y with less | rfl | greater
    · have below : toLex (a, x) < toLex (a, y) := Prod.Lex.toLex_lt_toLex.mpr (Or.inr ⟨rfl, less⟩)
      rw [orderOf_lt.2 less, orderOf_lt.2 below]
    · rw [orderOf_eq.2 rfl, orderOf_eq.2 rfl]
    · have above : toLex (a, y) < toLex (a, x) := Prod.Lex.toLex_lt_toLex.mpr (Or.inr ⟨rfl, greater⟩)
      rw [orderOf_gt.2 greater, orderOf_gt.2 above]
  · rw [orderOf_gt.2 greater, orderOf_gt.2 (Prod.Lex.toLex_lt_toLex.mpr (Or.inl greater))]
    rfl

/-- Numbers are compared as the order of the three keys has them. -/
theorem threeKeyOrder_numbers {p q : F64} (numberP : p.isNaN = false) (numberQ : q.isNaN = false)
    (idA idB modA modB : JSString) :
    threeKeyOrder (!F64.eq q p) (F64.sub q p) idA idB modA modB =
      some (orderOf (threeKeys p idA modA) (threeKeys q idB modB)) := by
  rw [threeKeys, threeKeys, orderOf_toLex, orderOf_toLex, threeKeyOrder]
  cases equal : F64.eq q p with
  | true =>
    have same := (F64.eq_place numberQ numberP).mp equal
    rw [same, orderOf_eq.2 rfl]
    show (if idA ≠ idB then _ else _) = some ((orderOf idA idB).then (orderOf modA modB))
    split
    · rename_i apart
      rcases lt_or_gt_of_ne apart with less | greater
      · rw [if_pos less, orderOf_lt.2 less]
        rfl
      · rw [if_neg greater.asymm, orderOf_gt.2 greater]
        rfl
    · rename_i same
      rw [orderOf_eq.2 (not_not.mp same), compareNames_eq]
      rfl
  | false =>
    show (F64.sub q p).sign = _
    rw [F64.sign_sub numberQ numberP equal]
    have apart : q.place ≠ p.place := fun same => by
      rw [(F64.eq_place numberQ numberP).mpr same] at equal
      cases equal
    cases less : F64.lt q p with
    | true =>
      have below : OrderDual.toDual p.place < OrderDual.toDual q.place := (F64.lt_place numberQ numberP).mp less
      rw [orderOf_lt.2 below]
      rfl
    | false =>
      have notBelow : ¬ q.place < p.place := fun below => by
        rw [(F64.lt_place numberQ numberP).mpr below] at less
        cases less
      have past : p.place < q.place := lt_of_le_of_ne (not_lt.mp notBelow) apart.symm
      have above : OrderDual.toDual q.place < OrderDual.toDual p.place := past
      rw [orderOf_gt.2 above]
      rfl

theorem threeKeys_mod {p q : F64} {idA idB modA modB : JSString}
    (same : some (orderOf (threeKeys p idA modA) (threeKeys q idB modB)) = some .eq) : modA = modB := by
  have keys := toLex.injective (orderOf_eq.1 (Option.some.inj same))
  exact congrArg (fun pair => (ofLex pair).2) (Prod.mk.inj keys).2

section

variable {slotId : JSString} {mods : List ModInstance}

theorem gathers_contributions (names : (mods.map ModInstance.name).Nodup) :
    Gathers ModInstance.name SlotContribution.modName (contributionsTo slotId) mods := by
  refine ⟨names, fun mod contribution inside => ?_⟩
  obtain ⟨fragment, -, rfl⟩ := List.mem_map.mp inside
  rfl

theorem gathers_commands (names : (mods.map ModInstance.name).Nodup) :
    Gathers ModInstance.name (fun command : ResolvedCommand => command.mod) (commandsOf slotId) mods := by
  refine ⟨names, fun mod command inside => ?_⟩
  obtain ⟨fill, member, rfl⟩ := List.mem_map.mp inside
  exact mod.stamped fill (List.mem_filter.mp member).1

theorem gathers_roles {role : JSString} (names : (mods.map ModInstance.name).Nodup) :
    Gathers ModInstance.name RoleResolution.addon (rolesOf role) mods := by
  refine ⟨names, fun mod resolution inside => ?_⟩
  obtain ⟨entry, -, rfl⟩ := List.mem_map.mp inside
  rfl

theorem compareCommands_eq (a b : ResolvedCommand) :
    compareCommands a b = some (orderOf (threeKeys a.priority a.id a.mod) (threeKeys b.priority b.id b.mod)) :=
  threeKeyOrder_numbers a.numeric b.numeric a.id b.id a.mod b.mod

/-- Commands are ordered alike whatever order their mods were loaded in. -/
theorem sort_commands (order : StableSort compareCommands) (names : (mods.map ModInstance.name).Nodup)
    {other : List ModInstance} (perm : other.Perm mods) :
    order.sort (other.flatMap (commandsOf slotId)) = order.sort (mods.flatMap (commandsOf slotId)) := by
  refine (gathers_commands names).sort_free_iff.mpr (Or.inr ⟨?_, fun a _ b _ tie => ?_⟩) order other perm
  · exact .of_key (fun command => threeKeys command.priority command.id command.mod) _
      fun a _ b _ => compareCommands_eq a b
  · exact threeKeys_mod ((compareCommands_eq a b).symm.trans tie)

theorem sort_roles {role : JSString} (order : StableSort compareRoles) (names : (mods.map ModInstance.name).Nodup)
    {other : List ModInstance} (perm : other.Perm mods) :
    order.sort (other.flatMap (rolesOf role)) = order.sort (mods.flatMap (rolesOf role)) := by
  refine (gathers_roles names).sort_free_iff.mpr (Or.inr ⟨?_, fun a _ b _ tie => ?_⟩) order other perm
  · exact .of_key RoleResolution.addon _ fun a _ b _ => congrArg some (compareNames_eq a.addon b.addon)
  · exact orderOf_eq.1 ((compareNames_eq a.addon b.addon).symm.trans (Option.some.inj tie))

end

section

variable (toNumber : Json → F64) (slots : List SlotDeclaration) (mods : List ModInstance)

/-- No resolver's result depends on the order the mods were loaded in, however the engine sorts. -/
structure LoadOrderFree : Prop where
  contributions : ∀ (order : StableSort (compareContributions toNumber)) (other : List ModInstance), other.Perm mods →
    ∀ slotId, resolveSlotContributions order slotId other slots = resolveSlotContributions order slotId mods slots
  commandsAll : ∀ (order : StableSort compareCommands) (other : List ModInstance), other.Perm mods →
    ∀ slotId, resolveCommandsAll order slotId other = resolveCommandsAll order slotId mods
  commands : ∀ (order : StableSort compareCommands) (other : List ModInstance), other.Perm mods →
    ∀ slotId, resolveCommands order slotId other slots = resolveCommands order slotId mods slots
  command : ∀ (order : StableSort compareCommands) (other : List ModInstance), other.Perm mods →
    ∀ ref preferences, resolveCommand order ref other slots preferences = resolveCommand order ref mods slots preferences
  roleAll : ∀ (order : StableSort compareRoles) (other : List ModInstance), other.Perm mods →
    ∀ role, resolveRoleAll order role other = resolveRoleAll order role mods
  role : ∀ (order : StableSort compareRoles) (other : List ModInstance), other.Perm mods →
    ∀ role preferences, resolveRole order role other preferences = resolveRole order role mods preferences

/-- The contributions to a slot are one mod's, or their priorities compare and none of another mod ties with one that
the slot shows. -/
def SlotSettled (slotId : JSString) : Prop :=
  OneOwner SlotContribution.modName (mods.flatMap (contributionsTo slotId)) ∨
    (Consistent (compareContributions toNumber) (mods.flatMap (contributionsTo slotId)) ∧
      if allowsMultiple slots slotId then
        OwnersApart (compareContributions toNumber) SlotContribution.modName (mods.flatMap (contributionsTo slotId))
      else FirstApart (compareContributions toNumber) SlotContribution.modName (mods.flatMap (contributionsTo slotId)))

variable {toNumber slots mods}

/-- Priorities that are numbers always settle a slot. -/
theorem slotSettled_numbers (numbers : ∀ x, toNumber (.num x) = x) (slotId : JSString)
    (numeric : ∀ mod ∈ mods, ∀ fragment ∈ mod.fragments, fragment.slot = slotId →
      ∃ x, fragment.priority = .num x ∧ x.isNaN = false) : SlotSettled toNumber slots mods slotId := by
  have isNumber : ∀ a ∈ mods.flatMap (contributionsTo slotId), ∃ x, a.priority = .num x ∧ x.isNaN = false := by
    intro a inside
    obtain ⟨mod, member, gathered⟩ := List.mem_flatMap.mp inside
    obtain ⟨fragment, kept, rfl⟩ := List.mem_map.mp gathered
    obtain ⟨inMod, targets⟩ := List.mem_filter.mp kept
    exact numeric mod member fragment inMod (of_decide_eq_true targets)
  have agrees : ∀ a ∈ mods.flatMap (contributionsTo slotId), ∀ b ∈ mods.flatMap (contributionsTo slotId),
      compareContributions toNumber a b = some (orderOf
        (threeKeys (toNumber a.priority) a.fragmentId a.modName) (threeKeys (toNumber b.priority) b.fragmentId b.modName)) := by
    intro a ha b hb
    obtain ⟨x, isX, numberX⟩ := isNumber a ha
    obtain ⟨y, isY, numberY⟩ := isNumber b hb
    rw [compareContributions, isX, isY, numbers, numbers]
    exact threeKeyOrder_numbers numberX numberY _ _ _ _
  have apart : OwnersApart (compareContributions toNumber) SlotContribution.modName (mods.flatMap (contributionsTo slotId)) :=
    fun a ha b hb tie => threeKeys_mod ((agrees a ha b hb).symm.trans tie)
  refine Or.inr ⟨.of_key (fun a => threeKeys (toNumber a.priority) a.fragmentId a.modName) _ agrees, ?_⟩
  split
  · exact apart
  · exact fun a ha b hb _ tie => apart a ha b hb tie

theorem take_one_inj {α : Type} {l other : List α} : l.take 1 = other.take 1 ↔ l.head? = other.head? := by
  cases l <;> cases other <;> simp

/-- The contributions to a slot are resolved alike in every load order if and only if the slot is settled. -/
theorem contributions_free_iff (names : (mods.map ModInstance.name).Nodup) (slotId : JSString) :
    (∀ (order : StableSort (compareContributions toNumber)) (other : List ModInstance), other.Perm mods →
      resolveSlotContributions order slotId other slots = resolveSlotContributions order slotId mods slots) ↔
    SlotSettled toNumber slots mods slotId := by
  have gathers := @gathers_contributions slotId _ names
  unfold SlotSettled resolveSlotContributions
  cases allowsMultiple slots slotId with
  | true => exact gathers.sort_free_iff
  | false => simpa [take_one_inj] using gathers.head_free_iff

/-- Resolution does not depend on load order if and only if every slot is settled. -/
theorem loadOrderFree_iff (names : (mods.map ModInstance.name).Nodup) :
    LoadOrderFree toNumber slots mods ↔ ∀ slotId, SlotSettled toNumber slots mods slotId := by
  constructor
  · intro free slotId
    exact (contributions_free_iff names slotId).mp fun order other perm => free.contributions order other perm slotId
  · intro settled
    have all : ∀ (order : StableSort compareCommands) (other : List ModInstance), other.Perm mods →
        ∀ slotId, resolveCommandsAll order slotId other = resolveCommandsAll order slotId mods :=
      fun order other perm slotId => congrArg markCollisions (sort_commands order names perm)
    have offered : ∀ (order : StableSort compareCommands) (other : List ModInstance), other.Perm mods →
        ∀ slotId, resolveCommands order slotId other slots = resolveCommands order slotId mods slots := by
      intro order other perm slotId
      rw [resolveCommands, resolveCommands, all order other perm slotId]
    have roles : ∀ (order : StableSort compareRoles) (other : List ModInstance), other.Perm mods →
        ∀ role, resolveRoleAll order role other = resolveRoleAll order role mods :=
      fun order other perm role => sort_roles order names perm
    refine ⟨fun order other perm slotId => ?_, all, offered, fun order other perm ref preferences => ?_, roles,
      fun order other perm role preferences => ?_⟩
    · exact (contributions_free_iff names slotId).mpr (settled slotId) order other perm
    · have filled : ∀ slot : SlotDeclaration,
          (other.any fun mod => mod.commandFills.any fun fill => fill.slot = slot.id) =
            mods.any fun mod => mod.commandFills.any fun fill => fill.slot = slot.id :=
        fun slot => perm.any_eq
      simp only [resolveCommand, filled, offered order other perm]
    · rw [resolveRole, resolveRole, roles order other perm role]

end

/-- `Number(value)` of the primitive values of a manifest. -/
def numberOfPrimitive : Json → F64
  | .null => .finite (.zero false)
  | .bool b => .ofNat (if b then 1 else 0)
  | .num x => x
  | .str s => .ofText s
  | _ => .nan

def panelSlot : SlotDeclaration := ⟨js "panel", false⟩

/-- A mod whose one fragment fills the panel. -/
def panelMod (name : JSString) (priority : Json) : ModInstance :=
  ⟨name, [⟨js "panel-fill-0", js "panel", js "text/html", priority⟩], [], [], fun _ none => nomatch none⟩

def numberMod : ModInstance := panelMod (js "anchor") (.num (.ofNat 1))

def textMod : ModInstance := panelMod (js "beacon") (.str (js "1"))

/-- A priority spelled as text ties with the number it spells, and then the mod loaded first wins. -/
theorem text_priority_ties : ¬ LoadOrderFree numberOfPrimitive [panelSlot] [numberMod, textMod] := by
  intro free
  have same := free.contributions (.merge _) [textMod, numberMod] (.swap _ _ _) (js "panel")
  have single : allowsMultiple [panelSlot] (js "panel") = false := by decide +kernel
  have consistent : Consistent (compareContributions numberOfPrimitive)
      ([numberMod, textMod].flatMap (contributionsTo (js "panel"))) :=
    ⟨by decide +kernel, by decide +kernel, by decide +kernel, by decide +kernel, by decide +kernel, by decide +kernel⟩
  have swapped : Consistent (compareContributions numberOfPrimitive)
      ([textMod, numberMod].flatMap (contributionsTo (js "panel"))) :=
    consistent.mono ((List.Perm.swap _ _ _).flatMap_right _).subset
  simp only [resolveSlotContributions, single] at same
  have heads := take_one_inj.mp same
  rw [StableSort.head_sort _ consistent, StableSort.head_sort _ swapped] at heads
  have names := congrArg (Option.map SlotContribution.modName) heads
  exact absurd names (by decide +kernel)

theorem loadOrderFree_iff_panel : LoadOrderFree numberOfPrimitive [panelSlot] [numberMod, textMod] ↔
    ∀ slotId, SlotSettled numberOfPrimitive [panelSlot] [numberMod, textMod] slotId :=
  loadOrderFree_iff (by decide +kernel)

end Xript
