import Mathlib.Data.List.InsertIdx
import Mathlib.Data.List.Nodup
import Xript.Repeat.Diff

namespace Xript

namespace RepeatPatchOp

/-- The `from` of an operation. -/
def source? : RepeatPatchOp → Option Nat
  | .remove _ fromIndex => some fromIndex
  | .insert _ _ => none
  | .reuse _ fromIndex _ => some fromIndex
  | .move _ fromIndex _ => some fromIndex

/-- The `to` of an operation. -/
def target? : RepeatPatchOp → Option Nat
  | .remove _ _ => none
  | .insert _ toIndex => some toIndex
  | .reuse _ _ toIndex => some toIndex
  | .move _ _ toIndex => some toIndex

/-- The previous index of a copy that stays where it is. -/
def reused? : RepeatPatchOp → Option Nat
  | .reuse _ fromIndex _ => some fromIndex
  | _ => none

def isRemove : RepeatPatchOp → Bool
  | .remove _ _ => true
  | _ => false

def isMove : RepeatPatchOp → Bool
  | .move _ _ _ => true
  | _ => false

/-- The positions an operation names hold its key. -/
def Fits (previous next : List RepeatKey) : RepeatPatchOp → Prop
  | .remove key fromIndex => previous[fromIndex]? = some key
  | .insert key toIndex => next[toIndex]? = some key
  | .reuse key fromIndex toIndex | .move key fromIndex toIndex =>
    next[toIndex]? = some key ∧ ∃ old, previous[fromIndex]? = some old ∧ RepeatKey.same old key = true

end RepeatPatchOp

/-- The copies a patch leaves in place, in their previous order. -/
def copiesInPlace (copies : List RepeatKey) (ops : List RepeatPatchOp) : List RepeatKey :=
  copies.zipIdx.filterMap fun entry =>
    if entry.2 ∈ ops.filterMap RepeatPatchOp.reused? then some entry.1 else none

/-- Puts a moved or an inserted copy at its position. -/
def placeCopy (copies shown : List RepeatKey) : RepeatPatchOp → List RepeatKey
  | .remove _ _ | .reuse _ _ _ => shown
  | .insert key toIndex => shown.insertIdx toIndex key
  | .move _ fromIndex toIndex =>
    match copies[fromIndex]? with
    | some old => shown.insertIdx toIndex old
    | none => shown

/-- What a host shows once it has followed a patch: the reused copies stay, and each moved or inserted one
is placed in turn. -/
def applyPatch (copies : List RepeatKey) (ops : List RepeatPatchOp) : List RepeatKey :=
  ops.foldl (placeCopy copies) (copiesInPlace copies ops)

/-- A patch from one list of keys to another: it accounts for every copy of both, in order, and the host
that follows it shows the next keys. -/
structure IsPatch (previous next : List RepeatKey) (ops : List RepeatPatchOp) : Prop where
  sources : (ops.filterMap RepeatPatchOp.source?).Perm (List.range previous.length)
  targets : ops.filterMap RepeatPatchOp.target? = List.range next.length
  fits : ∀ op ∈ ops, op.Fits previous next
  ordered : ∃ removes rest, ops = removes ++ rest ∧ (∀ op ∈ removes, op.isRemove = true) ∧
    (∀ op ∈ rest, op.isRemove = false) ∧ (removes.filterMap RepeatPatchOp.source?).Pairwise (· < ·)
  rebuilt : List.Forall₂ (fun shown key => RepeatKey.same shown key = true) (applyPatch previous ops) next

/-- Picking the entries at increasing positions. -/
theorem filterMap_zipIdx_mem {β : Type} {l : List β} {k : Nat} {picked : List Nat}
    (increasing : picked.Pairwise (· < ·)) (bounds : ∀ i ∈ picked, k ≤ i ∧ i < k + l.length) :
    ((l.zipIdx k).filterMap fun entry => if entry.2 ∈ picked then some entry.1 else none) =
      picked.filterMap fun i => l[i - k]? := by
  induction l generalizing k picked with
  | nil =>
    have none : picked = [] := by
      refine List.eq_nil_iff_forall_not_mem.mpr fun i member => ?_
      have := bounds i member
      simp at this
      omega
    subst none
    rfl
  | cons x l ih =>
    cases picked with
    | nil => simp
    | cons i picked =>
      obtain ⟨first, rest⟩ := List.pairwise_cons.mp increasing
      have head := bounds i (List.mem_cons_self ..)
      rw [List.zipIdx_cons]
      by_cases here : i = k
      · subst here
        have shifted : ∀ j ∈ picked, i + 1 ≤ j ∧ j < i + 1 + l.length := by
          intro j member
          have := bounds j (List.mem_cons_of_mem _ member)
          have := first j member
          simp only [List.length_cons] at *
          omega
        have tail := ih rest shifted
        simp only [List.filterMap_cons, List.mem_cons_self, if_true, Nat.sub_self, List.getElem?_cons_zero]
        congr 1
        have dropped : ((l.zipIdx (i + 1)).filterMap fun entry =>
            if entry.2 ∈ i :: picked then some entry.1 else none) =
            (l.zipIdx (i + 1)).filterMap fun entry => if entry.2 ∈ picked then some entry.1 else none := by
          refine List.filterMap_congr fun entry member => ?_
          have := (List.mem_zipIdx member).1
          have different : entry.2 ≠ i := by omega
          simp [different]
        rw [dropped, tail]
        refine List.filterMap_congr fun j member => ?_
        have := shifted j member
        rw [show j - i = (j - (i + 1)) + 1 by omega, List.getElem?_cons_succ]
      · have later : ∀ j ∈ i :: picked, k + 1 ≤ j ∧ j < k + 1 + l.length := by
          intro j member
          have := bounds j member
          have : i ≤ j := by
            rcases List.mem_cons.mp member with rfl | inside
            · exact Nat.le_refl _
            · exact (first j inside).le
          simp only [List.length_cons] at *
          omega
        have absent : k ∉ i :: picked := fun member => by
          have := later k member
          omega
        rw [List.filterMap_cons]
        simp only [if_neg absent]
        rw [ih increasing later]
        refine List.filterMap_congr fun j member => ?_
        have := later j member
        rw [show j - k = (j - (k + 1)) + 1 by omega, List.getElem?_cons_succ]

theorem insertIdx_length_append {β : Type} (front back : List β) (x : β) :
    (front ++ back).insertIdx front.length x = front ++ x :: back := by
  induction front with
  | nil => simp
  | cons y front ih => simp [ih]

/-- The copy an operation of the next render shows. -/
def shownCopy (copies : List RepeatKey) : RepeatPatchOp → Option RepeatKey
  | .remove _ _ => none
  | .insert key _ => some key
  | .reuse _ fromIndex _ | .move _ fromIndex _ => copies[fromIndex]?

/-- Following the operations of the next render in order: what is done stands in front of the copies still
in place. -/
theorem placeCopies {copies : List RepeatKey} {todo : List RepeatPatchOp} {shown : List RepeatKey}
    (rest : ∀ op ∈ todo, op.isRemove = false)
    (targets : todo.filterMap RepeatPatchOp.target? = (List.range todo.length).map (shown.length + ·))
    (known : ∀ op ∈ todo, ∀ i ∈ op.source?, i < copies.length) :
    todo.foldl (placeCopy copies)
        (shown ++ (todo.filterMap RepeatPatchOp.reused?).filterMap fun i => copies[i]?) =
      shown ++ todo.filterMap (shownCopy copies) := by
  induction todo generalizing shown with
  | nil => rfl
  | cons op todo ih =>
    have restTail : ∀ op ∈ todo, op.isRemove = false := fun o member => rest o (List.mem_cons_of_mem _ member)
    have knownTail : ∀ op ∈ todo, ∀ i ∈ op.source?, i < copies.length :=
      fun o member => known o (List.mem_cons_of_mem _ member)
    have hereKnown := known op (List.mem_cons_self ..)
    have shape : (List.range (op :: todo).length).map (shown.length + ·) =
        shown.length :: (List.range todo.length).map (shown.length + 1 + ·) := by
      rw [List.length_cons, List.range_succ_eq_map, List.map_cons, List.map_map, Nat.add_zero]
      congr 1
      refine List.map_congr_left fun i _ => ?_
      simp only [Function.comp_apply]
      omega
    rw [shape] at targets
    have next : ∀ key : RepeatKey, todo.filterMap RepeatPatchOp.target? =
        (List.range todo.length).map (shown.length + 1 + ·) →
        todo.foldl (placeCopy copies) (shown ++ key ::
          (todo.filterMap RepeatPatchOp.reused?).filterMap fun i => copies[i]?) =
        shown ++ key :: todo.filterMap (shownCopy copies) := by
      intro key tail
      have applied := @ih (shown ++ [key]) restTail (by simpa using tail) knownTail
      simpa using applied
    cases op with
    | remove key fromIndex => cases rest _ (List.mem_cons_self ..)
    | insert key toIndex =>
      simp only [List.filterMap_cons, RepeatPatchOp.target?] at targets
      obtain ⟨here, tail⟩ := List.cons.inj targets
      simp only [List.foldl_cons, List.filterMap_cons, RepeatPatchOp.reused?, placeCopy, shownCopy, here,
        insertIdx_length_append]
      exact next key tail
    | reuse key fromIndex toIndex =>
      simp only [List.filterMap_cons, RepeatPatchOp.target?] at targets
      obtain ⟨old, present⟩ : ∃ old, copies[fromIndex]? = some old :=
        ⟨_, List.getElem?_eq_getElem (hereKnown fromIndex rfl)⟩
      simp only [List.foldl_cons, List.filterMap_cons, RepeatPatchOp.reused?, placeCopy, shownCopy, present]
      exact next _ (List.cons.inj targets).2
    | move key fromIndex toIndex =>
      simp only [List.filterMap_cons, RepeatPatchOp.target?] at targets
      obtain ⟨here, tail⟩ := List.cons.inj targets
      obtain ⟨old, present⟩ : ∃ old, copies[fromIndex]? = some old :=
        ⟨_, List.getElem?_eq_getElem (hereKnown fromIndex rfl)⟩
      simp only [List.foldl_cons, List.filterMap_cons, RepeatPatchOp.reused?, placeCopy, shownCopy, present, here,
        insertIdx_length_append]
      exact next _ tail

end Xript
