import Mathlib.Data.List.Sort

namespace Xript

section

variable {α β : Type} {l other : List α}

theorem mergeSort_sorted [LinearOrder β] (key : α → β) (l : List α) :
    (l.mergeSort fun a b => key a ≤ key b).Pairwise fun a b => key a ≤ key b := by
  refine (List.pairwise_mergeSort ?_ ?_ l).imp fun le => of_decide_eq_true le
  · exact fun a b c first second => decide_eq_true ((of_decide_eq_true first).trans (of_decide_eq_true second))
  · intro a b
    rcases le_total (key a) (key b) with le | le
    · simp [le]
    · simp [le]

/-- A list of distinct keys, sorted by them, ascends. -/
theorem mergeSort_ascending [LinearOrder β] (key : α → β) (distinct : (l.map key).Nodup) :
    (l.mergeSort fun a b => key a ≤ key b).Pairwise fun a b => key a < key b := by
  have apart := List.pairwise_map.mp (((List.mergeSort_perm l fun a b => key a ≤ key b).map key).nodup_iff.mpr distinct)
  exact ((mergeSort_sorted key l).and apart).imp fun ⟨le, ne⟩ => lt_of_le_of_ne le ne

/-- A list sorted by a key agrees with every strictly ascending list of the same values. -/
theorem mergeSort_unique [LinearOrder β] (key : α → β) (perm : l.Perm other)
    (ascending : other.Pairwise fun a b => key a < key b) :
    (l.mergeSort fun a b => key a ≤ key b) = other := by
  have injective : ∀ a ∈ other, ∀ b ∈ other, key a = key b → a = b := by
    intro a ha b hb
    have apart := ascending.imp (S := fun a b => key a = key b → a = b) fun lt same => absurd same lt.ne
    have flipped := ascending.imp (S := fun a b => key b = key a → b = a) fun lt same => absurd same lt.ne'
    exact apart.forall_of_forall_of_flip (fun _ _ _ => rfl) flipped ha hb
  refine List.Perm.eq_of_pairwise (fun a b inside within first second => ?_) (mergeSort_sorted key l)
    (ascending.imp le_of_lt)
    ((List.mergeSort_perm ..).trans perm)
  exact injective a ((List.mergeSort_perm ..).trans perm |>.mem_iff.mp inside) b within (le_antisymm first second)

/-- A list falls into the groups of its keys. -/
theorem perm_flatMap_filter [DecidableEq β] (key : α → β) {keys : List β} (distinct : keys.Nodup)
    (covered : ∀ a ∈ l, key a ∈ keys) : l.Perm (keys.flatMap fun k => l.filter fun a => key a = k) := by
  induction keys generalizing l with
  | nil =>
    cases l with
    | nil => exact .refl _
    | cons a l => exact nomatch covered a List.mem_cons_self
  | cons k keys ih =>
    obtain ⟨fresh, distinct⟩ := List.nodup_cons.mp distinct
    have rest := ih (l := l.filter fun a => !(key a = k)) distinct fun a inside => by
      obtain ⟨member, apart⟩ := List.mem_filter.mp inside
      exact (List.mem_cons.mp (covered a member)).resolve_left (by simpa using apart)
    rw [List.flatMap_cons]
    refine (List.filter_append_perm (fun a => key a = k) l).symm.trans ((rest.trans (.of_eq ?_)).append_left _)
    refine List.flatMap_congr fun k' member => ?_
    rw [List.filter_filter]
    refine List.filter_congr fun a _ => ?_
    by_cases same : key a = k'
    · have apart : key a ≠ k := fun is => fresh (is ▸ same ▸ member)
      simp [same, same ▸ apart]
    · simp [same]

/-- What only the members of two lists of distinct keys have comes out the same over either. -/
theorem flatMap_perm_of_support [DecidableEq β] (f : β → List α) {s t : List β} (distinctS : s.Nodup) (distinctT : t.Nodup)
    (left : ∀ b ∈ s, b ∉ t → f b = []) (right : ∀ b ∈ t, b ∉ s → f b = []) : (s.flatMap f).Perm (t.flatMap f) := by
  have drop : ∀ u : List β, u.flatMap f = (u.filter fun b => !(f b).isEmpty).flatMap f := by
    intro u
    induction u with
    | nil => rfl
    | cons b u ih =>
      rw [List.flatMap_cons, List.filter_cons, ih]
      cases empty : f b with
      | nil => rfl
      | cons a rest => simp [empty]
  rw [drop s, drop t]
  refine List.Perm.flatMap_right f ((List.perm_ext_iff_of_nodup (distinctS.filter _) (distinctT.filter _)).mpr fun b => ?_)
  rw [List.mem_filter, List.mem_filter]
  refine and_congr_left fun some => ⟨fun inside => ?_, fun inside => ?_⟩
  · by_contra outside
    simp [left b inside outside] at some
  · by_contra outside
    simp [right b inside outside] at some

theorem minOn?_eq_none [LinearOrder β] {key : α → β} : l.minOn? key = none ↔ l = [] := by
  cases l with
  | nil => exact iff_of_true rfl rfl
  | cons a l =>
    rw [List.minOn?_cons_eq_some_minOn]
    exact iff_of_false nofun nofun

theorem find?_of_distinct [DecidableEq β] (key : α → β) (distinct : (l.map key).Nodup) {a : α} (member : a ∈ l) :
    (l.find? fun b => key b = key a) = some a := by
  induction l with
  | nil => cases member
  | cons b l ih =>
    obtain ⟨fresh, distinct⟩ := List.nodup_cons.mp distinct
    rcases List.mem_cons.mp member with rfl | later
    · exact List.find?_cons_of_pos (by simp)
    · have apart : key b ≠ key a := fun same => fresh (same ▸ List.mem_map_of_mem later)
      rw [List.find?_cons_of_neg (by simpa using apart), ih distinct later]

/-- Adds a key at the end, unless it is there. -/
def addKey [DecidableEq β] (keys : List β) (k : β) : List β := if k ∈ keys then keys else keys ++ [k]

theorem mem_addKey [DecidableEq β] {keys : List β} {k j : β} : j ∈ addKey keys k ↔ j ∈ keys ∨ j = k := by
  rw [addKey]
  split
  · rename_i present
    exact (or_iff_left_of_imp fun is => is ▸ present).symm
  · rw [List.mem_append, List.mem_singleton]

theorem nodup_addKey [DecidableEq β] {keys : List β} (distinct : keys.Nodup) (k : β) : (addKey keys k).Nodup := by
  rw [addKey]
  split
  · exact distinct
  · rename_i absent
    exact List.nodup_append.mpr ⟨distinct, List.nodup_singleton k, fun j inside i only =>
      fun same => absent ((List.mem_singleton.mp only) ▸ same ▸ inside)⟩

theorem mem_foldl_addKey [DecidableEq β] {keys more : List β} {j : β} :
    j ∈ more.foldl addKey keys ↔ j ∈ keys ∨ j ∈ more := by
  induction more generalizing keys with
  | nil => simp
  | cons k more ih => rw [List.foldl_cons, ih, mem_addKey, List.mem_cons, or_assoc]

theorem nodup_foldl_addKey [DecidableEq β] {keys : List β} (distinct : keys.Nodup) (more : List β) :
    (more.foldl addKey keys).Nodup := by
  induction more generalizing keys with
  | nil => exact distinct
  | cons k more ih => exact ih (nodup_addKey distinct k)

end

end Xript
