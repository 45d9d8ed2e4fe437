import Xript.Text.Scan

namespace Xript

universe u
variable {α : Type u}

/-- A text with its seams: each unit knows whether text was removed right before it. -/
abbrev Seamed (α : Type u) := List (Bool × α)

namespace Seamed

def plain (t : Seamed α) : List α := t.map Prod.snd

/-- A text from which nothing has been removed. -/
def whole (s : List α) : Seamed α := s.map fun c => (false, c)

/-- The units up to the next seam. -/
def solid (t : Seamed α) : Seamed α := t.takeWhile fun x => !x.1

@[simp] theorem plain_nil : plain ([] : Seamed α) = [] := rfl

@[simp] theorem plain_cons (x : Bool × α) (t : Seamed α) : plain (x :: t) = x.2 :: plain t := rfl

@[simp] theorem plain_whole (s : List α) : plain (whole s) = s := by
  simp [plain, whole, Function.comp_def]

@[simp] theorem plain_append (s t : Seamed α) : plain (s ++ t) = plain s ++ plain t := List.map_append

theorem plain_solid_prefix (t : Seamed α) : plain (solid t) <+: plain t := by
  obtain ⟨rest, split⟩ : solid t <+: t := List.takeWhile_prefix _
  exact ⟨plain rest, by rw [plain, plain, ← List.map_append, split]; rfl⟩

variable (p : Pattern α)

def cutFrom : Nat → Bool → Seamed α → Seamed α
  | 0, _, t => t
  | _ + 1, _, [] => []
  | n + 1, removed, x :: t =>
    match p.matchAt (plain (x :: t)) with
    | some (m, _) => cutFrom n true ((x :: t).drop m.length)
    | none => (x.1 || removed, x.2) :: cutFrom n false t

/-- Removes the matches of a pattern and leaves a seam where each one stood. -/
def cut (t : Seamed α) : Seamed α := cutFrom p t.length false t

theorem drop_plain {t : Seamed α} {m rest : List α} (found : p.matchAt (plain t) = some (m, rest)) :
    plain (t.drop m.length) = rest ∧ (t.drop m.length).length < t.length := by
  have split := p.split found
  have some := List.length_pos_iff.mpr (p.nonempty found)
  have length := congrArg List.length split
  rw [plain, List.length_map, List.length_append] at length
  refine ⟨?_, ?_⟩
  · rw [plain, List.map_drop, ← plain, split, List.drop_left]
  · rw [List.length_drop]
    omega

/-- Cutting is removing. -/
theorem plain_cutFrom {n : Nat} {removed : Bool} {t : Seamed α} (enough : t.length ≤ n) :
    plain (cutFrom p n removed t) = p.replaceAll (fun _ => []) (plain t) := by
  induction n generalizing removed t with
  | zero =>
    obtain rfl := List.eq_nil_of_length_eq_zero (Nat.le_zero.mp enough)
    rfl
  | succ n ih =>
    cases t with
    | nil => rfl
    | cons x t =>
      rw [List.length_cons] at enough
      unfold cutFrom
      split
      · rename_i m rest found
        obtain ⟨after, shorter⟩ := drop_plain p found
        rw [List.length_cons] at shorter
        rw [ih (by omega), after, p.replaceAll_of_match _ found, List.nil_append]
      · rename_i missed
        rw [plain_cons] at missed ⊢
        rw [ih (by omega), plain_cons, p.replaceAll_of_no_match _ missed]

theorem plain_cut (t : Seamed α) : plain (cut p t) = p.replaceAll (fun _ => []) (plain t) :=
  plain_cutFrom p (Nat.le_refl _)

theorem solid_cutFrom_removed {n : Nat} {t : Seamed α} (enough : t.length ≤ n) : solid (cutFrom p n true t) = [] := by
  induction n generalizing t with
  | zero =>
    obtain rfl := List.eq_nil_of_length_eq_zero (Nat.le_zero.mp enough)
    rfl
  | succ n ih =>
    cases t with
    | nil => rfl
    | cons x t =>
      rw [List.length_cons] at enough
      unfold cutFrom
      split
      · rename_i m rest found
        have shorter := (drop_plain p found).2
        rw [List.length_cons] at shorter
        exact ih (by omega)
      · simp [solid]

/-- What is left of a text: its run up to the first seam is the start of a run of the text, and its
units are among the units of the text, in order. -/
structure Thins (t s : Seamed α) : Prop where
  run : plain (solid t) <+: plain (solid s)
  units : (plain t).Sublist (plain s)

theorem cutFrom_thins (n : Nat) (removed : Bool) (t : Seamed α) (enough : t.length ≤ n) :
    Thins (cutFrom p n removed t) t := by
  induction n generalizing removed t with
  | zero =>
    obtain rfl := List.eq_nil_of_length_eq_zero (Nat.le_zero.mp enough)
    exact ⟨List.prefix_rfl, .refl _⟩
  | succ n ih =>
    cases t with
    | nil => exact ⟨List.prefix_rfl, .refl _⟩
    | cons x t =>
      rw [List.length_cons] at enough
      unfold cutFrom
      split
      · rename_i m rest found
        have shorter := (drop_plain p found).2
        rw [List.length_cons] at shorter
        refine ⟨?_, ?_⟩
        · rw [solid_cutFrom_removed p (by omega)]
          exact List.nil_prefix
        · refine (ih true ((x :: t).drop m.length) (by omega)).units.trans ?_
          exact (List.drop_sublist _ _).map _
      · obtain ⟨run, units⟩ := ih false t (by omega)
        refine ⟨?_, units.cons_cons x.2⟩
        obtain ⟨seam, c⟩ := x
        cases seam with
        | true => exact List.nil_prefix
        | false =>
          cases removed with
          | true => exact List.nil_prefix
          | false => exact List.cons_prefix_cons.mpr ⟨rfl, run⟩

/-- Where a unit of a cut text stood in the text, the pattern did not match. -/
theorem cutFrom_origin {n : Nat} {removed : Bool} {t : Seamed α} {x : Bool × α} {rest : Seamed α}
    (enough : t.length ≤ n) (inside : x :: rest <:+ cutFrom p n removed t) :
    ∃ seam s, (seam, x.2) :: s <:+ t ∧ p.matchAt (plain ((seam, x.2) :: s)) = none ∧ Thins rest s := by
  induction n generalizing removed t with
  | zero =>
    obtain rfl := List.eq_nil_of_length_eq_zero (Nat.le_zero.mp enough)
    exact absurd (List.suffix_nil.mp inside) (List.cons_ne_nil _ _)
  | succ n ih =>
    cases t with
    | nil => exact absurd (List.suffix_nil.mp inside) (List.cons_ne_nil _ _)
    | cons y t =>
      rw [List.length_cons] at enough
      unfold cutFrom at inside
      split at inside
      · rename_i m after found
        have shorter := (drop_plain p found).2
        rw [List.length_cons] at shorter
        obtain ⟨seam, s, suffix, missed, thins⟩ := ih (by omega) inside
        exact ⟨seam, s, suffix.trans (List.drop_suffix _ _), missed, thins⟩
      · rename_i missed
        rcases List.suffix_cons_iff.mp inside with same | later
        · obtain ⟨rfl, rfl⟩ := List.cons.inj same
          exact ⟨y.1, t, List.suffix_rfl, missed, cutFrom_thins p n false t (by omega)⟩
        · obtain ⟨seam, s, suffix, missed, thins⟩ := ih (by omega) later
          exact ⟨seam, s, suffix.trans (List.suffix_cons _ _), missed, thins⟩

theorem cut_origin {t : Seamed α} {x : Bool × α} {rest : Seamed α} (inside : x :: rest <:+ cut p t) :
    ∃ seam s, (seam, x.2) :: s <:+ t ∧ p.matchAt (plain ((seam, x.2) :: s)) = none ∧ Thins rest s :=
  cutFrom_origin p (Nat.le_refl _) inside

/-- A run of a cut text is a run of the text, and the pattern does not match where it starts there. -/
theorem cut_run {t before after : Seamed α} {x : Bool × α} {run : Seamed α}
    (split : cut p t = before ++ (x :: run) ++ after) (unbroken : ∀ y ∈ run, y.1 = false) :
    ∃ before' y run' after', t = before' ++ (y :: run') ++ after' ∧ (∀ z ∈ run', z.1 = false) ∧
      plain (y :: run') = plain (x :: run) ∧ p.matchAt (plain (y :: run' ++ after')) = none ∧
      (plain after).Sublist (plain after') := by
  have inside : x :: (run ++ after) <:+ cut p t := ⟨before, by simp [split]⟩
  obtain ⟨seam, s, ⟨before', whole⟩, missed, thins⟩ := cut_origin p inside
  have whole_run : solid (run ++ after) = run ++ solid after := by
    unfold solid
    rw [List.takeWhile_append_of_pos]
    intro y member
    rw [unbroken y member]
    rfl
  obtain ⟨rest, solid_split⟩ : plain run <+: plain (solid s) := by
    refine List.IsPrefix.trans ?_ thins.run
    rw [whole_run, plain_append]
    exact List.prefix_append _ _
  have taken : plain ((solid s).take run.length) = plain run := by
    rw [plain, List.map_take, ← plain, ← solid_split, ← List.length_map (f := Prod.snd), ← plain, List.take_left]
  obtain ⟨others, solid_prefix⟩ : solid s <+: s := List.takeWhile_prefix _
  have cover : s = (solid s).take run.length ++ ((solid s).drop run.length ++ others) := by
    rw [← List.append_assoc, List.take_append_drop, solid_prefix]
  refine ⟨before', (seam, x.2), (solid s).take run.length, (solid s).drop run.length ++ others, ?_, ?_, ?_, ?_, ?_⟩
  · rw [List.append_assoc, List.cons_append, ← cover, whole]
  · intro z member
    have taken_while := List.all_takeWhile (p := fun y : Bool × α => !y.1) (l := s)
    rw [List.all_eq_true] at taken_while
    simpa using taken_while z (List.mem_of_mem_take member)
  · rw [plain_cons, plain_cons, taken]
  · rw [List.cons_append, ← cover]
    exact missed
  · have units := thins.units
    rw [cover, plain_append, plain_append, taken] at units
    exact (List.append_sublist_append_left _).mp units

/-- Every seam of a cut text is one of the text or stands right after a match. -/
theorem cutFrom_seams {P : α → Prop} (ends : ∀ {s m c rest}, p.matchAt s = some (m, c :: rest) → P c)
    {n : Nat} {removed : Bool} {t : Seamed α} (enough : t.length ≤ n) (old : ∀ y ∈ t, y.1 = true → P y.2)
    (first : removed = true → ∀ y ∈ t.head?, P y.2) :
    ∀ y ∈ cutFrom p n removed t, y.1 = true → P y.2 := by
  induction n generalizing removed t with
  | zero =>
    obtain rfl := List.eq_nil_of_length_eq_zero (Nat.le_zero.mp enough)
    exact old
  | succ n ih =>
    cases t with
    | nil => exact old
    | cons x t =>
      rw [List.length_cons] at enough
      unfold cutFrom
      split
      · rename_i m rest found
        obtain ⟨after, shorter⟩ := drop_plain p found
        rw [List.length_cons] at shorter
        refine ih (by omega) (fun y member => old y (List.mem_of_mem_drop member)) ?_
        intro _ y head
        cases tail : (x :: t).drop m.length with
        | nil => rw [tail] at head; cases head
        | cons z t' =>
          rw [tail] at head after
          cases head
          rw [← after] at found
          exact ends found
      · intro y member seam
        rcases List.mem_cons.mp member with rfl | later
        · rcases (Bool.or_eq_true _ _).mp seam with was | now
          · exact old x (List.mem_cons_self ..) was
          · exact first now x rfl
        · refine ih (by omega) (fun z inside => old z (List.mem_cons_of_mem _ inside)) ?_ y later seam
          exact fun impossible => absurd impossible Bool.false_ne_true

theorem cut_whole_seams {P : α → Prop} (ends : ∀ {s m c rest}, p.matchAt s = some (m, c :: rest) → P c)
    (s : List α) : ∀ y ∈ cut p (whole s), y.1 = true → P y.2 := by
  refine cutFrom_seams p ends (Nat.le_refl _) ?_ ?_
  · intro y member seam
    obtain ⟨c, -, rfl⟩ := List.mem_map.mp member
    cases seam
  · exact fun impossible => absurd impossible Bool.false_ne_true

/-- The suffixes of a plain text are those of the seamed one. -/
theorem suffix_plain {t : Seamed α} {s : List α} (inside : s <:+ plain t) : ∃ r, r <:+ t ∧ plain r = s := by
  obtain ⟨before, split⟩ := inside
  refine ⟨t.drop before.length, List.drop_suffix _ _, ?_⟩
  rw [plain, List.map_drop, ← plain, ← split, List.drop_left]

end Seamed

end Xript
