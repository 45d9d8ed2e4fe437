import Mathlib.Order.Lattice
import Mathlib.Order.Basic
import Mathlib.Data.List.Basic
import Mathlib.Data.List.Pairwise
import Mathlib.Tactic.Common

namespace Xript

variable {α : Type} [LinearOrder α]

/-- `tails` bounds every increasing subsequence of `seen` from below, place by place. -/
def Covers (seen tails : List α) : Prop :=
  ∀ part : List α, part.Sublist seen → part.Pairwise (· < ·) →
    ∀ (k : Nat) (v : α), part[k]? = some v → ∃ w, tails[k]? = some w ∧ w ≤ v

/-- Where a value is placed: after every tail below it and before every other. -/
structure Placed (tails : List α) (value : α) (lo : Nat) : Prop where
  within : lo ≤ tails.length
  below : ∀ (k : Nat) (w : α), tails[k]? = some w → k < lo → w < value
  notBelow : ∀ (k : Nat) (w : α), tails[k]? = some w → lo ≤ k → value ≤ w

/-- Replacing the entry at `lo`, which may be the one past the end. -/
def replaceAt {β : Type} (tails : List β) (lo : Nat) (value : β) : List β :=
  if lo < tails.length then tails.set lo value else tails ++ [value]

theorem replaceAt_getElem? {β : Type} {tails : List β} {lo : Nat} (value : β) (within : lo ≤ tails.length)
    (k : Nat) : (replaceAt tails lo value)[k]? = if k = lo then some value else tails[k]? := by
  unfold replaceAt
  split
  · rename_i inside
    rw [List.getElem?_set]
    by_cases same : lo = k
    · simp [same, same ▸ inside]
    · simp [same, Ne.symm same]
  · rename_i outside
    have last : lo = tails.length := by omega
    subst last
    rw [List.getElem?_append]
    split
    · rename_i before
      rw [if_neg (by omega)]
    · by_cases same : k = tails.length
      · simp [same]
      · rw [if_neg same, List.getElem?_eq_none (by simp; omega), List.getElem?_eq_none (by omega)]

theorem length_replaceAt {β : Type} {tails : List β} {lo : Nat} (value : β) (within : lo ≤ tails.length) :
    (replaceAt tails lo value).length = max tails.length (lo + 1) := by
  unfold replaceAt
  split
  · simp
    omega
  · simp
    omega

theorem map_replaceAt {β γ : Type} (f : β → γ) (tails : List β) (lo : Nat) (value : β) :
    (replaceAt tails lo value).map f = replaceAt (tails.map f) lo (f value) := by
  unfold replaceAt
  simp only [List.length_map]
  split
  · exact List.map_set
  · simp

theorem covers_nil : Covers ([] : List α) [] := by
  intro part sub _ k v atK
  rw [List.sublist_nil.mp sub] at atK
  simp at atK

/-- One step of patience sorting keeps the bound. -/
theorem Covers.place {seen tails : List α} {value : α} {lo : Nat} (covers : Covers seen tails)
    (placed : Placed tails value lo) : Covers (seen ++ [value]) (replaceAt tails lo value) := by
  intro part sub increasing k v atK
  have lookup := replaceAt_getElem? value placed.within k
  -- Whatever the old tails bound, the new ones do: the replaced one only went down.
  have kept : (∃ w, tails[k]? = some w ∧ w ≤ v) → ∃ w, (replaceAt tails lo value)[k]? = some w ∧ w ≤ v := by
    rintro ⟨w, atTail, le⟩
    rw [lookup]
    split
    · rename_i same
      exact ⟨value, rfl, (placed.notBelow k w atTail (by omega)).trans le⟩
    · exact ⟨w, atTail, le⟩
  obtain ⟨front, back, rfl, frontSub, backSub⟩ := List.sublist_append_iff.mp sub
  have frontIncreasing := (List.pairwise_append.mp increasing).1
  rcases Nat.lt_or_ge k front.length with inside | outside
  · rw [List.getElem?_append_left inside] at atK
    exact kept (covers front frontSub frontIncreasing k v atK)
  · rw [List.getElem?_append_right outside] at atK
    have single : back = [value] := by
      rcases List.sublist_singleton.mp backSub with none | one
      · simp [none] at atK
      · exact one
    subst single
    have last : k = front.length := by
      by_contra different
      rw [List.getElem?_eq_none (by simp; omega)] at atK
      cases atK
    subst last
    have same : v = value := by simpa using atK.symm
    subst same
    rw [lookup]
    split
    · exact ⟨v, rfl, le_rfl⟩
    · rename_i different
      -- The tail at this place exists and is below: the part before reaches a tail below `v`.
      have reached : front.length < lo := by
        by_contra beyond
        rcases Nat.eq_zero_or_pos front.length with zero | positive
        · omega
        · have before : front[front.length - 1]? = some front[front.length - 1] :=
            List.getElem?_eq_getElem (by omega)
          obtain ⟨w, atTail, le⟩ := covers front frontSub frontIncreasing _ _ before
          have less : front[front.length - 1] < v :=
            (List.pairwise_append.mp increasing).2.2 _ (List.getElem_mem _) v (List.mem_singleton_self v)
          exact absurd (placed.notBelow _ w atTail (by omega)) (not_le.mpr (le.trans_lt less))
      have present : front.length < tails.length := by
        have := placed.within
        omega
      exact ⟨tails[front.length], List.getElem?_eq_getElem present,
        (placed.below _ _ (List.getElem?_eq_getElem present) reached).le⟩

/-- No increasing subsequence is longer than the tails. -/
theorem Covers.length_le {seen tails part : List α} (covers : Covers seen tails)
    (sub : part.Sublist seen) (increasing : part.Pairwise (· < ·)) : part.length ≤ tails.length := by
  rcases Nat.eq_zero_or_pos part.length with zero | positive
  · omega
  · obtain ⟨w, atTail, _⟩ := covers part sub increasing (part.length - 1) _
      (List.getElem?_eq_getElem (by omega))
    obtain ⟨inside, _⟩ := List.getElem?_eq_some_iff.mp atTail
    omega

/-- The tails stay in increasing order. -/
theorem Placed.increasing {tails : List α} {value : α} {lo : Nat} (placed : Placed tails value lo)
    (increasing : ∀ (j k : Nat) (v w : α), j < k → tails[j]? = some v → tails[k]? = some w → v < w) :
    ∀ (j k : Nat) (v w : α), j < k → (replaceAt tails lo value)[j]? = some v →
      (replaceAt tails lo value)[k]? = some w → v < w := by
  intro j k v w order atJ atK
  rw [replaceAt_getElem? value placed.within] at atJ atK
  split at atJ
  · rename_i same
    obtain rfl := Option.some.inj atJ
    rw [if_neg (by omega)] at atK
    by_cases equal : tails[lo]? = none
    · have := List.getElem?_eq_none_iff.mp equal
      rw [List.getElem?_eq_none (by omega)] at atK
      cases atK
    · obtain ⟨x, atLo⟩ := Option.ne_none_iff_exists'.mp equal
      exact (placed.notBelow lo x atLo (Nat.le_refl lo)).trans_lt (increasing lo k x w (by omega) atLo atK)
  · split at atK
    · rename_i _ same
      obtain rfl := Option.some.inj atK
      exact placed.below j v atJ (by omega)
    · exact increasing j k v w order atJ atK

end Xript
