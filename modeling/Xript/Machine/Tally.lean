import Mathlib.Algebra.GroupWithZero.Nat
import Mathlib.Data.List.Perm.Basic
import Mathlib.Data.List.Nodup
import Mathlib.Data.List.Perm.Lattice

namespace Xript

variable {α : Type} {l : List α} {i : Nat} {x y : α}

/-- Changing one element changes a sum by what it weighs. -/
theorem sum_set (weight : α → Nat) (here : l[i]? = some x) :
    ((l.set i y).map weight).sum + weight x = (l.map weight).sum + weight y := by
  obtain ⟨bound, rfl⟩ := List.getElem?_eq_some_iff.mp here
  have after := ((List.set_perm_cons_eraseIdx bound y).map weight).sum_nat
  have before := ((List.getElem_cons_eraseIdx_perm bound).map weight).sum_nat
  rw [List.map_cons, List.sum_cons] at after before
  omega

/-- Changing one element changes a count by whether it counts. -/
theorem countP_set_eq (counts : α → Bool) (here : l[i]? = some x) :
    (((l.set i y).countP counts : Nat) : Int) =
      l.countP counts - (if counts x then 1 else 0) + (if counts y then 1 else 0) := by
  obtain ⟨bound, rfl⟩ := List.getElem?_eq_some_iff.mp here
  have after := (List.set_perm_cons_eraseIdx bound y).countP_eq counts
  have before := (List.getElem_cons_eraseIdx_perm bound).countP_eq counts
  rw [List.countP_cons] at after
  rw [List.countP_cons] at before
  by_cases was : counts l[i] = true <;> by_cases now : counts y = true <;>
    simp only [was, now, if_true, Bool.false_eq_true, if_false] at after before ⊢ <;> omega

theorem getElem?_set_cases {j : Nat} {z : α} (here : l[i]? = some x) :
    (l.set i y)[j]? = some z ↔ if j = i then z = y else l[j]? = some z := by
  obtain ⟨bound, -⟩ := List.getElem?_eq_some_iff.mp here
  by_cases same : j = i
  · rw [if_pos same, same, List.getElem?_set_self bound]
    exact Option.some_inj.trans eq_comm
  · rw [if_neg same, List.getElem?_set_ne fun equal => same equal.symm]

/-- The places of the elements with a flag, each once. -/
structure Places (flag : α → Bool) (l : List α) (places : List Nat) : Prop where
  nodup : places.Nodup
  mem : ∀ i, i ∈ places ↔ ∃ x, l[i]? = some x ∧ flag x = true

namespace Places

variable {flag : α → Bool} {places others : List Nat}

theorem nil : Places flag [] [] :=
  ⟨List.nodup_nil, fun _ => ⟨nofun, fun ⟨_, there, _⟩ => nomatch there⟩⟩

theorem perm (held : Places flag l places) (perm : places.Perm others) : Places flag l others :=
  ⟨perm.nodup held.nodup, fun i => perm.mem_iff.symm.trans (held.mem i)⟩

theorem append (held : Places flag l places) (unflagged : flag y = false) : Places flag (l ++ [y]) places := by
  refine ⟨held.nodup, fun i => (held.mem i).trans (exists_congr fun z => and_congr_left fun flagged => ?_)⟩
  rcases Nat.lt_trichotomy i l.length with before | rfl | after
  · rw [List.getElem?_append_left before]
  · rw [List.getElem?_eq_none (Nat.le_refl _), List.getElem?_concat_length]
    refine iff_of_false nofun fun same => ?_
    rw [← Option.some.inj same, unflagged] at flagged
    cases flagged
  · rw [List.getElem?_eq_none (Nat.le_of_lt after),
      List.getElem?_eq_none (by rw [List.length_append, List.length_singleton]; omega)]

/-- Once an element is changed, its place is there if it has the flag. -/
theorem set (held : Places flag l places) (here : l[i]? = some x) (nodup : others.Nodup)
    (same : ∀ j, j ≠ i → (j ∈ others ↔ j ∈ places)) (own : i ∈ others ↔ flag y = true) :
    Places flag (l.set i y) others := by
  refine ⟨nodup, fun j => ?_⟩
  simp only [getElem?_set_cases here]
  by_cases equal : j = i
  · simp only [if_pos equal]
    rw [equal, own]
    exact ⟨fun flagged => ⟨y, rfl, flagged⟩, fun ⟨_, is, flagged⟩ => is ▸ flagged⟩
  · simp only [if_neg equal]
    rw [same j equal, held.mem]

theorem set_same (held : Places flag l places) (here : l[i]? = some x) (same : flag y = flag x) :
    Places flag (l.set i y) places := by
  refine held.set here held.nodup (fun _ _ => Iff.rfl) ?_
  rw [held.mem, same]
  exact ⟨fun ⟨z, is, flagged⟩ => Option.some.inj (here.symm.trans is) ▸ flagged, fun flagged => ⟨x, here, flagged⟩⟩

theorem not_mem (held : Places flag l places) (here : l[i]? = some x) (unflagged : flag x = false) : i ∉ places := by
  intro inside
  obtain ⟨z, is, flagged⟩ := (held.mem i).mp inside
  rw [← Option.some.inj (here.symm.trans is), unflagged] at flagged
  cases flagged

theorem raise (held : Places flag l places) (here : l[i]? = some x) (before : flag x = false) (after : flag y = true) :
    Places flag (l.set i y) (i :: places) :=
  held.set here (List.nodup_cons.mpr ⟨held.not_mem here before, held.nodup⟩)
    (fun _ apart => List.mem_cons.trans (or_iff_right apart)) (iff_of_true (List.mem_cons_self ..) after)

theorem lower (held : Places flag l places) (here : l[i]? = some x) (after : flag y = false) :
    Places flag (l.set i y) (places.filter fun j => decide (j ≠ i)) := by
  refine held.set here (held.nodup.filter _) (fun j apart => ?_) (iff_of_false ?_ (ne_of_eq_of_ne after (by decide)))
  · rw [List.mem_filter]
    exact and_iff_left (decide_eq_true apart)
  · rw [List.mem_filter]
    exact fun both => of_decide_eq_true both.2 rfl

theorem erase (held : Places flag l places) (here : l[i]? = some x) (after : flag y = false) :
    Places flag (l.set i y) (places.erase i) := by
  refine held.set here (held.nodup.erase i) (fun j apart => List.mem_erase_of_ne apart) ?_
  exact iff_of_false (held.nodup.not_mem_erase) (ne_of_eq_of_ne after (by decide))

end Places

/-- The values that some elements carry, where one of them is exchanged. -/
theorem filterMap_set_perm {β : Type} (value : α → Option β) (here : l[i]? = some x) :
    ((value x).toList ++ (l.set i y).filterMap value).Perm ((value y).toList ++ l.filterMap value) := by
  obtain ⟨bound, rfl⟩ := List.getElem?_eq_some_iff.mp here
  have front : ∀ (a : α) (rest : List α), (a :: rest).filterMap value = (value a).toList ++ rest.filterMap value := by
    intro a rest
    rw [List.filterMap_cons]
    cases value a <;> rfl
  have after := (List.set_perm_cons_eraseIdx bound y).filterMap value
  have before := (List.getElem_cons_eraseIdx_perm bound).filterMap value
  rw [front] at after before
  refine ((after.append_left _).trans ?_).trans (before.append_left _)
  rw [← List.append_assoc, ← List.append_assoc]
  exact List.perm_append_comm.append_right _

end Xript
