import Mathlib.Data.List.Basic

namespace Xript

theorem mem_intercalate {α : Type} {x : α} {sep : List α} {parts : List (List α)} (member : x ∈ sep.intercalate parts) :
    x ∈ sep ∨ ∃ part ∈ parts, x ∈ part := by
  induction parts with
  | nil => cases member
  | cons part parts ih =>
    cases parts with
    | nil =>
      rw [List.intercalate_singleton] at member
      exact .inr ⟨part, List.mem_cons_self, member⟩
    | cons other parts =>
      rw [List.intercalate_cons_cons, List.mem_append, List.mem_append] at member
      rcases member with (first | separator) | later
      · exact .inr ⟨part, List.mem_cons_self, first⟩
      · exact .inl separator
      · exact (ih later).imp_right fun ⟨inner, inside, here⟩ => ⟨inner, List.mem_cons_of_mem _ inside, here⟩

section

variable {α : Type} [BEq α] [LawfulBEq α] {x : α} {ls ks : List (List α)}

/-- A joined list, cut at every separator. -/
theorem splitOn_intercalate_flatMap (some : ls ≠ []) :
    ([x].intercalate ls).splitOn x = ls.flatMap fun l => l.splitOn x := by
  induction ls with
  | nil => exact absurd rfl some
  | cons l ls ih =>
    cases ls with
    | nil => simp
    | cons k ls =>
      rw [List.intercalate_cons_cons, List.append_assoc, List.singleton_append, List.splitOn_append_cons_self,
        ih nofun, ← List.flatMap_cons]

/-- Two lists are joined to one text exactly where cutting their members gives the same pieces. -/
theorem intercalate_eq_iff (someL : ls ≠ []) (someK : ks ≠ []) :
    [x].intercalate ls = [x].intercalate ks ↔
      (ls.flatMap fun l => l.splitOn x) = ks.flatMap fun k => k.splitOn x := by
  rw [← splitOn_intercalate_flatMap someL, ← splitOn_intercalate_flatMap someK]
  constructor
  · exact congrArg _
  · intro same
    calc [x].intercalate ls = [x].intercalate (([x].intercalate ls).splitOn x) := (List.intercalate_splitOn x).symm
      _ = [x].intercalate (([x].intercalate ks).splitOn x) := by rw [same]
      _ = [x].intercalate ks := List.intercalate_splitOn x

end

end Xript
