import Mathlib.Data.List.Basic
import Mathlib.Data.List.Forall2
import Mathlib.Data.List.Perm.Basic
import Mathlib.Order.Basic
import Mathlib.Order.Lattice
import Mathlib.Tactic.Common

namespace Xript

variable {α : Type}

/-- The order of two values. -/
def orderOf {β : Type} [LinearOrder β] (a b : β) : Ordering := if a < b then .lt else if b < a then .gt else .eq

theorem orderOf_lt {β : Type} [LinearOrder β] {a b : β} : orderOf a b = .lt ↔ a < b := by
  unfold orderOf
  split
  · exact iff_of_true rfl ‹_›
  · rename_i notLess
    split <;> exact iff_of_false nofun notLess

theorem orderOf_gt {β : Type} [LinearOrder β] {a b : β} : orderOf a b = .gt ↔ b < a := by
  unfold orderOf
  split
  · rename_i less
    exact iff_of_false nofun less.asymm
  · split
    · exact iff_of_true rfl ‹_›
    · rename_i notGreater
      exact iff_of_false nofun notGreater

theorem orderOf_eq {β : Type} [LinearOrder β] {a b : β} : orderOf a b = .eq ↔ a = b := by
  unfold orderOf
  split
  · rename_i less
    exact iff_of_false nofun less.ne
  · rename_i notLess
    split
    · rename_i greater
      exact iff_of_false nofun greater.ne'
    · rename_i notGreater
      exact iff_of_true rfl (le_antisymm (not_lt.mp notGreater) (not_lt.mp notLess))

/-- A comparator that orders the values of a list: it answers every pair, and its answers agree. -/
structure Consistent (cmp : α → α → Option Ordering) (l : List α) : Prop where
  total : ∀ a ∈ l, ∀ b ∈ l, cmp a b ≠ none
  refl : ∀ a ∈ l, cmp a a = some .eq
  symm : ∀ a ∈ l, ∀ b ∈ l, cmp a b = some .eq → cmp b a = some .eq
  eqTrans : ∀ a ∈ l, ∀ b ∈ l, ∀ c ∈ l, cmp a b = some .eq → cmp b c = some .eq → cmp a c = some .eq
  ltTrans : ∀ a ∈ l, ∀ b ∈ l, ∀ c ∈ l, cmp a b = some .lt → cmp b c = some .lt → cmp a c = some .lt
  gtTrans : ∀ a ∈ l, ∀ b ∈ l, ∀ c ∈ l, cmp a b = some .gt → cmp b c = some .gt → cmp a c = some .gt

/-- Whether a comparator finds two values equal. -/
def tied (cmp : α → α → Option Ordering) (a b : α) : Bool := cmp a b = some .eq

/-- Whether a comparator lets a value stand before another. -/
def mayPrecede (cmp : α → α → Option Ordering) (a b : α) : Bool := cmp a b ≠ some .gt

/-- A sort that keeps ties in place; a comparator that does not order the values leaves it any order. -/
structure StableSort (cmp : α → α → Option Ordering) where
  sort : List α → List α
  perm : ∀ l, (sort l).Perm l
  ordered : ∀ l, Consistent cmp l → (sort l).Pairwise fun a b => mayPrecede cmp a b
  stable : ∀ l, Consistent cmp l → ∀ a ∈ l, (sort l).filter (tied cmp a) = l.filter (tied cmp a)

section

variable {cmp : α → α → Option Ordering} {l : List α}

namespace Consistent

theorem mono {other : List α} (consistent : Consistent cmp l) (inside : other ⊆ l) : Consistent cmp other where
  total a ha b hb := consistent.total a (inside ha) b (inside hb)
  refl a ha := consistent.refl a (inside ha)
  symm a ha b hb := consistent.symm a (inside ha) b (inside hb)
  eqTrans a ha b hb c hc := consistent.eqTrans a (inside ha) b (inside hb) c (inside hc)
  ltTrans a ha b hb c hc := consistent.ltTrans a (inside ha) b (inside hb) c (inside hc)
  gtTrans a ha b hb c hc := consistent.gtTrans a (inside ha) b (inside hb) c (inside hc)

/-- Two values that may each precede the other tie. -/
theorem tie {a b : α} (consistent : Consistent cmp l) (ha : a ∈ l) (hb : b ∈ l) (first : mayPrecede cmp a b = true)
    (second : mayPrecede cmp b a = true) : cmp a b = some .eq := by
  have notFirst : cmp a b ≠ some .gt := of_decide_eq_true first
  have notSecond : cmp b a ≠ some .gt := of_decide_eq_true second
  have same := consistent.refl a ha
  cases forth : cmp a b with
  | none => exact absurd forth (consistent.total a ha b hb)
  | some order =>
    cases order with
    | eq => rfl
    | gt => exact absurd forth notFirst
    | lt =>
      cases back : cmp b a with
      | none => exact absurd back (consistent.total b hb a ha)
      | some order =>
        cases order with
        | gt => exact absurd back notSecond
        | eq => cases forth.symm.trans (consistent.symm b hb a ha back)
        | lt => cases same.symm.trans (consistent.ltTrans a ha b hb a ha forth back)

theorem mayPrecede_total {a b : α} (consistent : Consistent cmp l) (ha : a ∈ l) (hb : b ∈ l) :
    mayPrecede cmp a b = true ∨ mayPrecede cmp b a = true := by
  by_contra neither
  obtain ⟨first, second⟩ := not_or.mp neither
  have forth : cmp a b = some .gt := by simpa [mayPrecede] using first
  have back : cmp b a = some .gt := by simpa [mayPrecede] using second
  cases (consistent.refl a ha).symm.trans (consistent.gtTrans a ha b hb a ha forth back)

theorem lt_of_gt {a b : α} (consistent : Consistent cmp l) (ha : a ∈ l) (hb : b ∈ l) (greater : cmp a b = some .gt) :
    cmp b a = some .lt := by
  cases back : cmp b a with
  | none => exact absurd back (consistent.total b hb a ha)
  | some order =>
    cases order with
    | lt => rfl
    | eq => cases greater.symm.trans (consistent.symm b hb a ha back)
    | gt => cases (consistent.refl a ha).symm.trans (consistent.gtTrans a ha b hb a ha greater back)

theorem mayPrecede_trans {a b c : α} (consistent : Consistent cmp l) (ha : a ∈ l) (hb : b ∈ l) (hc : c ∈ l)
    (first : mayPrecede cmp a b = true) (second : mayPrecede cmp b c = true) : mayPrecede cmp a c = true := by
  by_contra after
  have last : cmp a c = some .gt := by simpa [mayPrecede] using after
  have back := consistent.lt_of_gt ha hc last
  have notFirst : cmp a b ≠ some .gt := of_decide_eq_true first
  have notSecond : cmp b c ≠ some .gt := of_decide_eq_true second
  cases forth : cmp a b with
  | none => exact consistent.total a ha b hb forth
  | some order =>
    cases order with
    | gt => exact notFirst forth
    | lt =>
      -- `c < a < b` contradicts `b ≤ c`
      have between := consistent.ltTrans c hc a ha b hb back forth
      have apart : mayPrecede cmp c b = true := by simp [mayPrecede, between]
      cases between.symm.trans (consistent.symm b hb c hc (consistent.tie hb hc second apart))
    | eq =>
      cases next : cmp b c with
      | none => exact consistent.total b hb c hc next
      | some order =>
        cases order with
        | gt => exact notSecond next
        | eq => cases last.symm.trans (consistent.eqTrans a ha b hb c hc forth next)
        | lt =>
          have loop := consistent.ltTrans b hb c hc a ha next back
          cases loop.symm.trans (consistent.symm a ha b hb forth)

theorem of_key {β : Type} [LinearOrder β] (key : α → β) (l : List α)
    (agrees : ∀ a ∈ l, ∀ b ∈ l, cmp a b = some (orderOf (key a) (key b))) : Consistent cmp l where
  total a ha b hb none := by cases (agrees a ha b hb).symm.trans none
  refl a ha := (agrees a ha a ha).trans (congrArg some (orderOf_eq.2 rfl))
  symm a ha b hb tie := by
    have same := orderOf_eq.1 (Option.some.inj ((agrees a ha b hb).symm.trans tie))
    exact (agrees b hb a ha).trans (congrArg some (orderOf_eq.2 same.symm))
  eqTrans a ha b hb c hc first second := by
    have left := orderOf_eq.1 (Option.some.inj ((agrees a ha b hb).symm.trans first))
    have right := orderOf_eq.1 (Option.some.inj ((agrees b hb c hc).symm.trans second))
    exact (agrees a ha c hc).trans (congrArg some (orderOf_eq.2 (left.trans right)))
  ltTrans a ha b hb c hc first second := by
    have left := orderOf_lt.1 (Option.some.inj ((agrees a ha b hb).symm.trans first))
    have right := orderOf_lt.1 (Option.some.inj ((agrees b hb c hc).symm.trans second))
    exact (agrees a ha c hc).trans (congrArg some (orderOf_lt.2 (left.trans right)))
  gtTrans a ha b hb c hc first second := by
    have left := orderOf_gt.1 (Option.some.inj ((agrees a ha b hb).symm.trans first))
    have right := orderOf_gt.1 (Option.some.inj ((agrees b hb c hc).symm.trans second))
    exact (agrees a ha c hc).trans (congrArg some (orderOf_gt.2 (right.trans left)))

end Consistent

/-- Two ordered lists of the same values agree if each group of ties stands in the same order in both. -/
theorem ordered_unique {s t : List α} (consistent : Consistent cmp s) (perm : s.Perm t)
    (first : s.Pairwise fun a b => mayPrecede cmp a b) (second : t.Pairwise fun a b => mayPrecede cmp a b)
    (same : ∀ a ∈ s, s.filter (tied cmp a) = t.filter (tied cmp a)) : s = t := by
  induction s generalizing t with
  | nil => exact (List.nil_perm.mp perm).symm
  | cons a s ih =>
    cases t with
    | nil => exact absurd perm.symm (List.nil_perm.not.mpr (List.cons_ne_nil _ _))
    | cons b t =>
      have inS : b ∈ a :: s := perm.mem_iff.mpr (List.mem_cons_self ..)
      have inT : a ∈ b :: t := perm.mem_iff.mp (List.mem_cons_self ..)
      have reflA := consistent.refl a (List.mem_cons_self ..)
      have forth : mayPrecede cmp a b = true := by
        rcases List.mem_cons.mp inS with rfl | later
        · simp [mayPrecede, reflA]
        · exact (List.pairwise_cons.mp first).1 b later
      have back : mayPrecede cmp b a = true := by
        rcases List.mem_cons.mp inT with rfl | later
        · simp [mayPrecede, reflA]
        · exact (List.pairwise_cons.mp second).1 a later
      have tie := consistent.tie (List.mem_cons_self ..) inS forth back
      have heads := same a (List.mem_cons_self ..)
      rw [List.filter_cons_of_pos (by simp [tied, reflA]), List.filter_cons_of_pos (by simp [tied, tie])] at heads
      obtain ⟨rfl, -⟩ := List.cons.inj heads
      refine congrArg (a :: ·) (ih (consistent.mono (List.subset_cons_self ..)) (List.perm_cons a |>.mp perm)
        (List.pairwise_cons.mp first).2 (List.pairwise_cons.mp second).2 fun c inside => ?_)
      have rest := same c (List.mem_cons_of_mem _ inside)
      rw [List.filter_cons, List.filter_cons] at rest
      split at rest
      · exact (List.cons.inj rest).2
      · exact rest

namespace StableSort

/-- A stable sort cannot tell apart two lists of the same values whose ties stand in the same order. -/
theorem sort_congr (s : StableSort cmp) {other : List α} (consistent : Consistent cmp l) (perm : l.Perm other)
    (same : ∀ a ∈ l, l.filter (tied cmp a) = other.filter (tied cmp a)) : s.sort l = s.sort other := by
  have consistentOther := consistent.mono perm.symm.subset
  refine ordered_unique (consistent.mono (s.perm l).subset) (((s.perm l).trans perm).trans (s.perm other).symm)
    (s.ordered l consistent) (s.ordered other consistentOther) fun a inside => ?_
  have inL := (s.perm l).subset inside
  rw [s.stable l consistent a inL, s.stable other consistentOther a (perm.subset inL), same a inL]

/-- What a stable sort puts first: the first of the values that may precede all others. -/
theorem head_sort (s : StableSort cmp) (consistent : Consistent cmp l) :
    (s.sort l).head? = (l.filter fun a => l.all fun b => mayPrecede cmp a b).head? := by
  cases sorted : s.sort l with
  | nil =>
    have perm := s.perm l
    rw [sorted] at perm
    rw [List.nil_perm.mp perm]
    rfl
  | cons a rest =>
    have inL : a ∈ l := (s.perm l).subset (by rw [sorted]; exact List.mem_cons_self ..)
    have ordered := s.ordered l consistent
    rw [sorted] at ordered
    have least : ∀ b ∈ l, mayPrecede cmp a b = true := by
      intro b inside
      have inSorted : b ∈ a :: rest := sorted ▸ (s.perm l).mem_iff.mpr inside
      rcases List.mem_cons.mp inSorted with rfl | later
      · simp [mayPrecede, consistent.refl b inL]
      · exact (List.pairwise_cons.mp ordered).1 b later
    have groups : (l.filter fun b => l.all fun c => mayPrecede cmp b c) = l.filter (tied cmp a) := by
      refine List.filter_congr fun b inside => ?_
      rw [Bool.eq_iff_iff, List.all_eq_true]
      constructor
      · exact fun first => decide_eq_true (consistent.tie inL inside (least b inside) (first a inL))
      · intro tie c other
        have back := consistent.symm a inL b inside (of_decide_eq_true tie)
        have step : mayPrecede cmp b a = true := by simp [mayPrecede, back]
        exact consistent.mayPrecede_trans inside inL other step (least c other)
    rw [groups, ← s.stable l consistent a inL, sorted,
      List.filter_cons_of_pos (by simp [tied, consistent.refl a inL])]
    rfl

/-- Merge sort on the values of a list, known to be of that list. -/
theorem mergeSort_attach (l : List α) :
    l.mergeSort (mayPrecede cmp) = (l.attach.mergeSort fun a b => mayPrecede cmp a.1 b.1).map Subtype.val := by
  rw [List.map_mergeSort (s := mayPrecede cmp) (fun _ _ _ _ => rfl), List.attach_map_subtype_val]

/-- Merge sort is such a sort. -/
def merge (cmp : α → α → Option Ordering) : StableSort cmp where
  sort l := l.mergeSort (mayPrecede cmp)
  perm l := List.mergeSort_perm l _
  ordered l consistent := by
    rw [mergeSort_attach, List.pairwise_map]
    refine List.pairwise_mergeSort (fun a b c => ?_) (fun a b => ?_) _
    · exact consistent.mayPrecede_trans a.2 b.2 c.2
    · exact Bool.or_eq_true _ _ |>.mpr (consistent.mayPrecede_total a.2 b.2)
  stable l consistent a inside := by
    have group : (l.filter (tied cmp a)).Sublist (l.mergeSort (mayPrecede cmp)) := by
      have whole : l.filter (tied cmp a) = (l.attach.filter fun b => tied cmp a b.1).map Subtype.val := by
        conv_lhs => rw [← List.attach_map_subtype_val l]
        exact List.filter_map ..
      rw [mergeSort_attach, whole]
      refine List.Sublist.map _ (List.sublist_mergeSort (fun a b c => ?_) (fun a b => ?_) ?_ List.filter_sublist)
      · exact consistent.mayPrecede_trans a.2 b.2 c.2
      · exact Bool.or_eq_true _ _ |>.mpr (consistent.mayPrecede_total a.2 b.2)
      · refine List.pairwise_of_forall_mem_list fun b hb c hc => ?_
        have first : cmp a b.1 = some .eq := of_decide_eq_true (List.mem_filter.mp hb).2
        have second : cmp a c.1 = some .eq := of_decide_eq_true (List.mem_filter.mp hc).2
        have tie := consistent.eqTrans b.1 b.2 a inside c.1 c.2 (consistent.symm a inside b.1 b.2 first) second
        simp [mayPrecede, tie]
    have kept := group.filter (tied cmp a)
    rw [List.filter_filter] at kept
    simp only [Bool.and_self] at kept
    exact (kept.eq_of_length ((List.mergeSort_perm l _).filter _).length_eq.symm).symm

end StableSort

end

section

variable {μ ν : Type} {cmp : α → α → Option Ordering} {name : μ → ν} {owner : α → ν} {gather : μ → List α}

/-- Where at most one of a list gives anything, the order of the list does not matter. -/
theorem flatMap_perm_of_one {n : ν} {give : μ → List α} (one : ∀ m, name m ≠ n → give m = []) {l other : List μ}
    (perm : l.Perm other) (distinct : (l.map name).Nodup) : l.flatMap give = other.flatMap give := by
  induction perm with
  | nil => rfl
  | cons m _ ih => rw [List.flatMap_cons, List.flatMap_cons, ih (List.nodup_cons.mp distinct).2]
  | swap m m' l =>
    have apart : name m' ≠ name m := by
      have member := (List.nodup_cons.mp distinct).1
      exact fun same => member (same ▸ List.mem_cons_self ..)
    simp only [List.flatMap_cons]
    by_cases here : name m = n
    · rw [one m' (here ▸ apart), List.nil_append, List.nil_append]
    · rw [one m here, List.nil_append, List.nil_append]
  | trans first _ left right => rw [left distinct, right ((first.map name).nodup_iff.mp distinct)]

/-- What owners gather: each owner's own. -/
structure Gathers (name : μ → ν) (owner : α → ν) (gather : μ → List α) (l : List μ) : Prop where
  distinct : (l.map name).Nodup
  owns : ∀ m, ∀ a ∈ gather m, owner a = name m

/-- Values of one owner stand in the same order however the owners are ordered. -/
theorem Gathers.filter_perm {l other : List μ} (gathers : Gathers name owner gather l) (perm : l.Perm other) {n : ν}
    {p : α → Bool} (one : ∀ a, p a = true → a ∈ l.flatMap gather → owner a = n) :
    (l.flatMap gather).filter p = (other.flatMap gather).filter p := by
  classical
  have keep : ∀ list : List μ, list ⊆ l → (list.flatMap gather).filter p =
      list.flatMap fun m => if name m = n then (gather m).filter p else [] := by
    intro list inside
    rw [List.filter_flatMap]
    refine List.flatMap_congr fun m member => ?_
    split
    · rfl
    · rename_i other
      refine List.filter_eq_nil_iff.mpr fun a inGather holds => other ?_
      rw [← gathers.owns m a inGather]
      exact one a holds (List.mem_flatMap.mpr ⟨m, inside member, inGather⟩)
  rw [keep l (List.Subset.refl l), keep other perm.symm.subset]
  exact flatMap_perm_of_one (fun m apart => if_neg apart) perm gathers.distinct

/-- The values of two owners: each can be gathered before the other. -/
theorem Gathers.first {l : List μ} (gathers : Gathers name owner gather l) {a : α} (inside : a ∈ l.flatMap gather)
    {p : α → Bool} (holds : p a = true) :
    ∃ other : List μ, other.Perm l ∧ ∃ b, ((other.flatMap gather).filter p).head? = some b ∧ owner b = owner a := by
  obtain ⟨m, member, inGather⟩ := List.mem_flatMap.mp inside
  obtain ⟨before, after, rfl⟩ := List.append_of_mem member
  refine ⟨m :: (before ++ after), List.perm_middle.symm, ?_⟩
  have some : a ∈ (gather m).filter p := List.mem_filter.mpr ⟨inGather, holds⟩
  rw [List.flatMap_cons, List.filter_append]
  cases kept : (gather m).filter p with
  | nil =>
    rw [kept] at some
    cases some
  | cons b rest =>
    have inFirst : b ∈ (gather m).filter p := kept ▸ List.mem_cons_self ..
    refine ⟨b, rfl, ?_⟩
    rw [gathers.owns m b (List.mem_filter.mp inFirst).1, gathers.owns m a inGather]

/-- Whether the values of a list are all of one owner. -/
def OneOwner (owner : α → ν) (l : List α) : Prop := ∀ a ∈ l, ∀ b ∈ l, owner a = owner b

/-- Values of different owners never tie. -/
def OwnersApart (cmp : α → α → Option Ordering) (owner : α → ν) (l : List α) : Prop :=
  ∀ a ∈ l, ∀ b ∈ l, cmp a b = some .eq → owner a = owner b

/-- Values of different owners never tie for the first place. -/
def FirstApart (cmp : α → α → Option Ordering) (owner : α → ν) (l : List α) : Prop :=
  ∀ a ∈ l, ∀ b ∈ l, (∀ c ∈ l, mayPrecede cmp a c = true) → cmp a b = some .eq → owner a = owner b

theorem OneOwner.flatMap_perm {l other : List μ} (gathers : Gathers name owner gather l)
    (one : OneOwner owner (l.flatMap gather)) (perm : l.Perm other) : l.flatMap gather = other.flatMap gather := by
  cases all : l.flatMap gather with
  | nil =>
    have none := perm.flatMap_right gather
    rw [all] at none
    exact (List.nil_perm.mp none).symm
  | cons a rest =>
    have inside : a ∈ l.flatMap gather := all ▸ List.mem_cons_self ..
    have same := gathers.filter_perm (p := fun _ => true) perm fun b _ member => one b member a inside
    rw [List.filter_true, List.filter_true, all] at same
    exact same

/-- The sort that orders what is consistently compared and leaves everything else as it is. -/
theorem exists_sort (cmp : α → α → Option Ordering) :
    ∃ s : StableSort cmp, ∀ l, ¬ Consistent cmp l → s.sort l = l := by
  classical
  refine ⟨⟨fun l => if Consistent cmp l then (StableSort.merge cmp).sort l else l, fun l => ?_, fun l consistent => ?_,
    fun l consistent => ?_⟩, fun l inconsistent => if_neg inconsistent⟩
  · split
    · exact (StableSort.merge cmp).perm l
    · exact .refl l
  · rw [if_pos consistent]
    exact (StableSort.merge cmp).ordered l consistent
  · rw [if_pos consistent]
    exact (StableSort.merge cmp).stable l consistent

theorem head_filter_true (l : List α) : l.head? = (l.filter fun _ => true).head? := by rw [List.filter_true]

/-- If a sort's result (its head at least) never depends on the order of the owners, the values are one owner's or
consistently compared. -/
theorem Gathers.consistent_of_free {l : List μ} (gathers : Gathers name owner gather l)
    (free : ∀ (s : StableSort cmp) (other : List μ), other.Perm l →
      (s.sort (other.flatMap gather)).head? = (s.sort (l.flatMap gather)).head?) :
    OneOwner owner (l.flatMap gather) ∨ Consistent cmp (l.flatMap gather) := by
  by_contra neither
  obtain ⟨apart, inconsistent⟩ := not_or.mp neither
  obtain ⟨s, leaves⟩ := exists_sort cmp
  have kept : ∀ other : List μ, other.Perm l → (other.flatMap gather).head? = (l.flatMap gather).head? := by
    intro other perm
    have same := free s other perm
    have stays : ¬ Consistent cmp (other.flatMap gather) :=
      fun consistent => inconsistent (consistent.mono (perm.flatMap_right gather).symm.subset)
    rwa [leaves _ stays, leaves _ inconsistent] at same
  refine apart fun a ha b hb => ?_
  obtain ⟨first, permFirst, a', headFirst, ownerA⟩ := gathers.first (p := fun _ => true) ha rfl
  obtain ⟨second, permSecond, b', headSecond, ownerB⟩ := gathers.first (p := fun _ => true) hb rfl
  rw [← head_filter_true, kept first permFirst] at headFirst
  rw [← head_filter_true, kept second permSecond] at headSecond
  obtain rfl := Option.some.inj (headFirst.symm.trans headSecond)
  exact ownerA.symm.trans ownerB

/-- A stable sort's result does not depend on the order of the owners if and only if the values are all of one owner, or
they are consistently compared and no two owners tie. -/
theorem Gathers.sort_free_iff {l : List μ} (gathers : Gathers name owner gather l) :
    (∀ (s : StableSort cmp) (other : List μ), other.Perm l →
      s.sort (other.flatMap gather) = s.sort (l.flatMap gather)) ↔
    OneOwner owner (l.flatMap gather) ∨
      (Consistent cmp (l.flatMap gather) ∧ OwnersApart cmp owner (l.flatMap gather)) := by
  constructor
  · intro free
    rcases gathers.consistent_of_free fun s other perm => congrArg List.head? (free s other perm) with one | consistent
    · exact Or.inl one
    · refine Or.inr ⟨consistent, fun a ha b hb tie => ?_⟩
      have group : ∀ other : List μ, other.Perm l →
          (other.flatMap gather).filter (tied cmp a) = (l.flatMap gather).filter (tied cmp a) := by
        intro other perm
        have gathered := perm.flatMap_right gather
        have same := free (StableSort.merge cmp) other perm
        rw [← (StableSort.merge cmp).stable _ consistent a ha, ← same, (StableSort.merge cmp).stable _
          (consistent.mono gathered.subset) a (gathered.symm.subset ha)]
      obtain ⟨first, permFirst, a', headFirst, ownerA⟩ :=
        gathers.first (p := tied cmp a) ha (decide_eq_true (consistent.refl a ha))
      obtain ⟨second, permSecond, b', headSecond, ownerB⟩ := gathers.first (p := tied cmp a) hb (decide_eq_true tie)
      rw [group first permFirst] at headFirst
      rw [group second permSecond] at headSecond
      obtain rfl := Option.some.inj (headFirst.symm.trans headSecond)
      exact ownerA.symm.trans ownerB
  · rintro (one | ⟨consistent, apart⟩) s other perm
    · rw [one.flatMap_perm gathers perm.symm]
    · refine (s.sort_congr consistent (perm.symm.flatMap_right gather) fun a inside => ?_).symm
      exact gathers.filter_perm perm.symm fun b tie member => (apart a inside b member (of_decide_eq_true tie)).symm

/-- What a stable sort puts first does not depend on the order of the owners if and only if the values are all of one
owner, or they are consistently compared and no two owners tie for the first place. -/
theorem Gathers.head_free_iff {l : List μ} (gathers : Gathers name owner gather l) :
    (∀ (s : StableSort cmp) (other : List μ), other.Perm l →
      (s.sort (other.flatMap gather)).head? = (s.sort (l.flatMap gather)).head?) ↔
    OneOwner owner (l.flatMap gather) ∨
      (Consistent cmp (l.flatMap gather) ∧ FirstApart cmp owner (l.flatMap gather)) := by
  have least : ∀ (p : List α) {other : List μ}, other.Perm l → p = other.flatMap gather →
      (p.filter fun a => p.all fun b => mayPrecede cmp a b) =
        (other.flatMap gather).filter fun a => (l.flatMap gather).all fun b => mayPrecede cmp a b := by
    rintro p other perm rfl
    refine List.filter_congr fun a _ => ?_
    rw [Bool.eq_iff_iff, List.all_eq_true, List.all_eq_true]
    have gathered := perm.flatMap_right gather
    exact ⟨fun all b inside => all b (gathered.symm.subset inside), fun all b inside => all b (gathered.subset inside)⟩
  constructor
  · intro free
    rcases gathers.consistent_of_free free with one | consistent
    · exact Or.inl one
    · refine Or.inr ⟨consistent, fun a ha b hb leastA tie => ?_⟩
      have heads : ∀ other : List μ, other.Perm l →
          ((other.flatMap gather).filter fun a => (l.flatMap gather).all fun b => mayPrecede cmp a b).head? =
            ((l.flatMap gather).filter fun a => (l.flatMap gather).all fun b => mayPrecede cmp a b).head? := by
        intro other perm
        have same := free (StableSort.merge cmp) other perm
        rwa [(StableSort.merge cmp).head_sort (consistent.mono (perm.flatMap_right gather).subset),
          (StableSort.merge cmp).head_sort consistent, least _ perm rfl] at same
      have leastB : ∀ c ∈ l.flatMap gather, mayPrecede cmp b c = true := by
        intro c inside
        have back : mayPrecede cmp b a = true := by simp [mayPrecede, consistent.symm a ha b hb tie]
        exact consistent.mayPrecede_trans hb ha inside back (leastA c inside)
      obtain ⟨first, permFirst, a', headFirst, ownerA⟩ := gathers.first
        (p := fun a => (l.flatMap gather).all fun b => mayPrecede cmp a b) ha (List.all_eq_true.mpr leastA)
      obtain ⟨second, permSecond, b', headSecond, ownerB⟩ := gathers.first
        (p := fun a => (l.flatMap gather).all fun b => mayPrecede cmp a b) hb (List.all_eq_true.mpr leastB)
      rw [heads first permFirst] at headFirst
      rw [heads second permSecond] at headSecond
      obtain rfl := Option.some.inj (headFirst.symm.trans headSecond)
      exact ownerA.symm.trans ownerB
  · rintro (one | ⟨consistent, apart⟩) s other perm
    · rw [one.flatMap_perm gathers perm.symm]
    · rw [s.head_sort (consistent.mono (perm.flatMap_right gather).subset), s.head_sort consistent, least _ perm rfl]
      cases some : ((l.flatMap gather).filter fun a => (l.flatMap gather).all fun b => mayPrecede cmp a b) with
      | nil =>
        have none := ((perm.flatMap_right gather).filter fun a => (l.flatMap gather).all fun b => mayPrecede cmp a b)
        rw [some] at none
        rw [List.perm_nil.mp none]
      | cons a rest =>
        have member : a ∈ (l.flatMap gather).filter fun a => (l.flatMap gather).all fun b => mayPrecede cmp a b :=
          some ▸ List.mem_cons_self ..
        obtain ⟨ha, holds⟩ := List.mem_filter.mp member
        have leastA := List.all_eq_true.mp holds
        have same := gathers.filter_perm (p := fun a => (l.flatMap gather).all fun b => mayPrecede cmp a b) perm.symm
          fun b leastB inside => (apart a ha b inside leastA
            (consistent.tie ha inside (leastA b inside) (List.all_eq_true.mp leastB a ha))).symm
        rw [← same, some]

end

section

variable {α β : Type}

/-- Of the values asked for, the one that stands before every other. -/
structure Leads (before : α → α → Prop) (asked : α → Prop) (a : α) : Prop where
  wanted : asked a
  first : ∀ b, asked b → b = a ∨ before a b

variable {before : α → α → Prop} {asked : α → Prop}

theorem Leads.unique (asymmetric : ∀ a b, before a b → ¬ before b a) {a b : α} (leads : Leads before asked a)
    (other : Leads before asked b) : a = b := by
  rcases leads.first b other.wanted with same | less
  · exact same.symm
  · exact (other.first a leads.wanted).resolve_right (asymmetric a b less)

/-- What a search finds of a list in order stands before everything else it would take. -/
theorem leads_of_find {l : List α} {p : α → Bool} {a : α} (ordered : l.Pairwise before) (found : l.find? p = some a) :
    Leads before (fun b => b ∈ l ∧ p b = true) a := by
  obtain ⟨holds, earlier, later, rfl, none⟩ := List.find?_eq_some_iff_append.mp found
  refine ⟨⟨by simp, holds⟩, fun b taken => ?_⟩
  rcases List.mem_append.mp taken.1 with inEarlier | rest
  · have fails := none b inEarlier
    rw [taken.2] at fails
    cases fails
  · rcases List.mem_cons.mp rest with same | inLater
    · exact Or.inl same
    · exact Or.inr ((List.pairwise_cons.mp (List.pairwise_append.mp ordered).2.1).1 b inLater)

/-- A search through a list in order finds what leads the values of the list that it takes. -/
theorem find_leads_iff {l : List α} {p : α → Bool} {a : α} (asymmetric : ∀ a b, before a b → ¬ before b a)
    (ordered : l.Pairwise before) (exact : ∀ a, asked a ↔ a ∈ l ∧ p a = true) :
    l.find? p = some a ↔ Leads before asked a := by
  have same : asked = fun a => a ∈ l ∧ p a = true := funext fun a => propext (exact a)
  rw [same]
  refine ⟨leads_of_find ordered, fun leads => ?_⟩
  cases found : l.find? p with
  | none => exact absurd leads.wanted.2 (List.find?_eq_none.mp found a leads.wanted.1)
  | some b => exact congrArg some ((leads_of_find ordered found).unique asymmetric leads)

theorem pairwise_related {R : α → β → Prop} {p : α → α → Prop} {q : β → β → Prop} {l : List α} {other : List β}
    (same : List.Forall₂ R l other) (carries : ∀ {a b c d}, R a c → R b d → p a b → q c d) (ordered : l.Pairwise p) :
    other.Pairwise q := by
  induction same with
  | nil => exact .nil
  | @cons a c l other head tail ih =>
    obtain ⟨first, rest⟩ := List.pairwise_cons.mp ordered
    refine List.pairwise_cons.mpr ⟨fun d inside => ?_, ih rest⟩
    obtain ⟨i, bound, rfl⟩ := List.mem_iff_getElem.mp inside
    have bound' : i < l.length := tail.length_eq ▸ bound
    exact carries head (tail.get bound' bound) (first _ (List.getElem_mem bound'))

namespace StableSort

variable {cmp : α → α → Option Ordering} {cmp' : β → β → Option Ordering}

/-- Sorting keeps two lists related where the relation keeps their orders. -/
theorem forall₂_sort (s : StableSort cmp) (t : StableSort cmp') {R : α → β → Prop} {l : List α} {listed other : List β}
    (consistent : Consistent cmp l) (consistent' : Consistent cmp' other) (same : List.Forall₂ R l listed)
    (perm : listed.Perm other) (agrees : ∀ {a b c d}, R a c → R b d → cmp a b = cmp' c d)
    (distinct : ∀ a ∈ other, ∀ b ∈ other, cmp' a b = some .eq → a = b) : List.Forall₂ R (s.sort l) (t.sort other) := by
  obtain ⟨sorted, alike, reordered⟩ := List.perm_comp_forall₂ (s.perm l) same
  have ordered : sorted.Pairwise fun a b => mayPrecede cmp' a b = true := by
    refine pairwise_related alike (fun {a b c d} first second may => ?_) (s.ordered l consistent)
    rwa [mayPrecede, agrees first second] at may
  have whole : sorted.Perm other := reordered.trans perm
  have unique : sorted = t.sort other := by
    refine List.Perm.eq_of_pairwise (fun a b inSorted inOther first second => ?_) ordered (t.ordered other consistent')
      (whole.trans (t.perm other).symm)
    have inA := whole.subset inSorted
    have inB := (t.perm other).subset inOther
    exact distinct a inA b inB (consistent'.tie inA inB first second)
  exact unique ▸ alike

/-- Sorting what is in one order by another leaves the first order among what the second ties. -/
theorem pairwise_sort (s : StableSort cmp) {l : List α} (consistent : Consistent cmp l) (ordered : l.Pairwise before) :
    (s.sort l).Pairwise fun a b => mayPrecede cmp a b = true ∧ (cmp a b = some .eq → before a b) := by
  refine List.pairwise_iff_forall_sublist.mpr fun {a b} pair => ?_
  have inSorted : a ∈ s.sort l := pair.subset (List.mem_cons_self ..)
  have inList := (s.perm l).subset inSorted
  refine ⟨List.pairwise_iff_forall_sublist.mp (s.ordered l consistent) pair, fun tie => ?_⟩
  have ties := pair.filter (tied cmp a)
  rw [s.stable l consistent a inList, List.filter_cons_of_pos (by simp [tied, consistent.refl a inList]),
    List.filter_cons_of_pos (by simp [tied, tie]), List.filter_nil] at ties
  exact List.pairwise_iff_forall_sublist.mp ordered (ties.trans List.filter_sublist)

end StableSort

end

end Xript
