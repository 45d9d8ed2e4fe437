import Mathlib.Data.List.Basic

namespace Xript

universe u
variable {α : Type u}

/-- A pattern that is tried at a fixed place: `matchAt s` is the text matched at the start of `s`
and the rest of `s`. A match is never empty. -/
structure Pattern (α : Type u) where
  matchAt : List α → Option (List α × List α)
  split : ∀ {s m rest}, matchAt s = some (m, rest) → s = m ++ rest
  nonempty : ∀ {s m rest}, matchAt s = some (m, rest) → m ≠ []

namespace Pattern

/-- The pattern whose matcher gives only the text after the match. -/
def ofRest (restAt : List α → Option (List α))
    (proper : ∀ {s rest}, restAt s = some rest → rest <:+ s ∧ rest.length < s.length) : Pattern α where
  matchAt s := (restAt s).map fun rest => (s.take (s.length - rest.length), rest)
  split := by
    intro s m rest found
    obtain ⟨r, inner, equal⟩ := Option.map_eq_some_iff.mp found
    cases equal
    obtain ⟨⟨before, rfl⟩, -⟩ := proper inner
    simp
  nonempty := by
    intro s m rest found
    obtain ⟨r, inner, equal⟩ := Option.map_eq_some_iff.mp found
    cases equal
    obtain ⟨-, shorter⟩ := proper inner
    rw [Ne, List.take_eq_nil_iff, not_or]
    exact ⟨by omega, fun empty => by simp [empty] at shorter⟩

variable (p : Pattern α) (f : List α → List α)

theorem rest_length {s m rest : List α} (found : p.matchAt s = some (m, rest)) : rest.length < s.length := by
  have positive := List.length_pos_iff.mpr (p.nonempty found)
  rw [p.split found, List.length_append]
  omega

theorem matchAt_nil : p.matchAt [] = none := by
  cases found : p.matchAt [] with
  | none => rfl
  | some result => exact absurd (p.rest_length (m := result.1) found) (Nat.not_lt_zero _)

def replaceFrom : Nat → List α → List α
  | 0, s => s
  | _ + 1, [] => []
  | n + 1, c :: s =>
    match p.matchAt (c :: s) with
    | some (m, rest) => f m ++ replaceFrom n rest
    | none => c :: replaceFrom n s

/-- `s.replace(/p/g, f)`: the matches from left to right that do not overlap, each replaced by its
image under `f`. -/
def replaceAll (s : List α) : List α := p.replaceFrom f s.length s

theorem replaceFrom_enough {n k : Nat} {s : List α} (enough : s.length ≤ n) (more : s.length ≤ k) :
    p.replaceFrom f n s = p.replaceFrom f k s := by
  induction n generalizing k s with
  | zero =>
    have empty : s = [] := List.eq_nil_of_length_eq_zero (by omega)
    subst empty
    cases k <;> rfl
  | succ n ih =>
    cases s with
    | nil => cases k <;> rfl
    | cons c s =>
      rw [List.length_cons] at enough more
      obtain ⟨k, rfl⟩ : ∃ j, k = j + 1 := ⟨k - 1, by omega⟩
      simp only [replaceFrom]
      split
      · rename_i m rest found
        have shorter := p.rest_length found
        rw [List.length_cons] at shorter
        rw [ih (k := k) (by omega) (by omega)]
      · rw [ih (k := k) (by omega) (by omega)]

@[simp] theorem replaceAll_nil : p.replaceAll f [] = [] := rfl

theorem replaceAll_of_match {s m rest : List α} (found : p.matchAt s = some (m, rest)) :
    p.replaceAll f s = f m ++ p.replaceAll f rest := by
  have shorter := p.rest_length found
  unfold replaceAll
  cases s with
  | nil => exact absurd shorter (Nat.not_lt_zero _)
  | cons c s =>
    rw [List.length_cons] at shorter
    simp only [List.length_cons, replaceFrom, found]
    rw [p.replaceFrom_enough f (by omega : rest.length ≤ s.length) (Nat.le_refl _)]

theorem replaceAll_of_no_match {c : α} {s : List α} (missed : p.matchAt (c :: s) = none) :
    p.replaceAll f (c :: s) = c :: p.replaceAll f s := by
  simp only [replaceAll, List.length_cons, replaceFrom, missed]

/-- No match starts anywhere in `s`. -/
def Clean (s : List α) : Prop := ∀ t, t <:+ s → p.matchAt t = none

theorem Clean.of_suffix {p : Pattern α} {s t : List α} (clean : p.Clean s) (suffix : t <:+ s) : p.Clean t :=
  fun _ inside => clean _ (inside.trans suffix)

theorem clean_cons {c : α} {s : List α} : p.Clean (c :: s) ↔ p.matchAt (c :: s) = none ∧ p.Clean s := by
  constructor
  · intro clean
    exact ⟨clean _ List.suffix_rfl, clean.of_suffix (List.suffix_cons c s)⟩
  · rintro ⟨first, rest⟩ t suffix
    rcases List.suffix_cons_iff.mp suffix with rfl | inside
    · exact first
    · exact rest t inside

/-- Where nothing matches, replacing changes nothing. -/
theorem Clean.replaceAll_eq {p : Pattern α} {f : List α → List α} {s : List α} (clean : p.Clean s) :
    p.replaceAll f s = s := by
  induction s with
  | nil => rfl
  | cons c s ih =>
    obtain ⟨first, rest⟩ := p.clean_cons.mp clean
    rw [p.replaceAll_of_no_match f first, ih rest]

/-- The first match: replacing copies what stands before it and goes on after it. -/
theorem replaceAll_first (s : List α) :
    p.Clean s ∨ ∃ out m rest, s = out ++ m ++ rest ∧ p.matchAt (m ++ rest) = some (m, rest) ∧
      p.replaceAll f s = out ++ f m ++ p.replaceAll f rest := by
  induction s with
  | nil => exact .inl fun t inside => List.suffix_nil.mp inside ▸ p.matchAt_nil
  | cons c s ih =>
    cases found : p.matchAt (c :: s) with
    | some result =>
      have split : c :: s = result.1 ++ result.2 := p.split found
      refine .inr ⟨[], result.1, result.2, split, ?_, p.replaceAll_of_match f found⟩
      rw [← split, found]
    | none =>
      rcases ih with clean | ⟨out, m, rest, rfl, first, replaced⟩
      · exact .inl (p.clean_cons.mpr ⟨found, clean⟩)
      · refine .inr ⟨c :: out, m, rest, rfl, first, ?_⟩
        rw [p.replaceAll_of_no_match f found, replaced]
        rfl

/-- What stands in a text after replacing was there before or comes from the image of a match. -/
theorem mem_replaceAll {s : List α} {c : α} (member : c ∈ p.replaceAll f s) : c ∈ s ∨ ∃ m, m <:+: s ∧ c ∈ f m := by
  induction length : s.length using Nat.strongRecOn generalizing s with
  | _ n ih =>
    rcases p.replaceAll_first f s with clean | ⟨out, m, rest, rfl, found, replaced⟩
    · rw [clean.replaceAll_eq] at member
      exact .inl member
    · rw [replaced, List.mem_append, List.mem_append] at member
      rcases member with (before | image) | after
      · exact .inl (List.mem_append_left _ (List.mem_append_left _ before))
      · exact .inr ⟨m, ⟨out, rest, rfl⟩, image⟩
      · have some := List.length_pos_iff.mpr (p.nonempty found)
        have shorter : rest.length < n := by
          rw [← length, List.length_append, List.length_append]
          omega
        rcases ih rest.length shorter after rfl with old | ⟨m', inside, image⟩
        · exact .inl (List.mem_append_right _ old)
        · exact .inr ⟨m', inside.trans ⟨out ++ m, [], by simp⟩, image⟩

end Pattern

variable [DecidableEq α]

/-- `s.indexOf(pat)` as a cut: the text before the first occurrence of `pat` and the text after it. -/
def breakOn (pat : List α) : List α → Option (List α × List α)
  | [] => if pat = [] then some ([], []) else none
  | c :: s =>
    if pat <+: c :: s then some ([], (c :: s).drop pat.length)
    else (breakOn pat s).map fun cut => (c :: cut.1, cut.2)

theorem breakOn_split {pat s before after : List α} (found : breakOn pat s = some (before, after)) :
    s = before ++ pat ++ after := by
  induction s generalizing before with
  | nil =>
    unfold breakOn at found
    split at found
    · rename_i empty
      cases found
      simp [empty]
    · cases found
  | cons c s ih =>
    unfold breakOn at found
    split at found
    · rename_i start
      obtain ⟨t, whole⟩ := start
      cases found
      simp [← whole]
    · obtain ⟨cut, inner, equal⟩ := Option.map_eq_some_iff.mp found
      cases equal
      rw [ih inner]
      simp

theorem breakOn_eq_none {pat s : List α} : breakOn pat s = none ↔ ¬pat <:+: s := by
  induction s with
  | nil =>
    rw [breakOn, List.infix_nil]
    split <;> simp_all
  | cons c s ih =>
    rw [breakOn, List.infix_cons_iff]
    split
    · rename_i start
      exact iff_of_false nofun fun absent => absent (.inl start)
    · rename_i later
      rw [Option.map_eq_none_iff, ih, not_or]
      exact ⟨fun absent => ⟨later, absent⟩, fun absent => absent.2⟩

/-- The text before the first occurrence does not hold another one. -/
theorem breakOn_absent {pat s before after : List α} (nonempty : pat ≠ []) (found : breakOn pat s = some (before, after)) :
    ¬pat <:+: before := by
  induction s generalizing before with
  | nil =>
    rw [breakOn, if_neg nonempty] at found
    cases found
  | cons c s ih =>
    rw [breakOn] at found
    split at found
    · cases found
      exact fun inside => nonempty (List.infix_nil.mp inside)
    · rename_i later
      obtain ⟨⟨front, back⟩, inner, equal⟩ := Option.map_eq_some_iff.mp found
      cases equal
      rw [List.infix_cons_iff, not_or]
      refine ⟨fun start => later ?_, ih inner⟩
      rw [breakOn_split inner, List.append_assoc, ← List.cons_append]
      exact start.trans (List.prefix_append _ _)

/-- The first occurrence of a doubled element that the text before it neither holds nor ends in half of. -/
theorem breakOn_double {x : α} {before after : List α} (absent : ¬[x, x] <:+: before) (last : before.getLast? ≠ some x) :
    breakOn [x, x] (before ++ x :: x :: after) = some (before, after) := by
  induction before with
  | nil => simp [breakOn]
  | cons c before ih =>
    rw [List.infix_cons_iff, not_or] at absent
    have later : ¬[x, x] <+: c :: (before ++ x :: x :: after) := by
      intro start
      obtain ⟨rfl, next⟩ := List.cons_prefix_cons.mp start
      cases before with
      | nil => exact last rfl
      | cons d before =>
        obtain ⟨rfl, -⟩ := List.cons_prefix_cons.mp next
        exact absent.1 (by simp)
    have shorter : before.getLast? ≠ some x := by
      intro ends
      rw [List.getLast?_cons, ends] at last
      exact last rfl
    rw [List.cons_append, breakOn, if_neg later, ih absent.2 shorter]
    rfl

/-- The first occurrence of a single element that the text before it does not hold. -/
theorem breakOn_singleton {x : α} {before after : List α} (absent : x ∉ before) :
    breakOn [x] (before ++ x :: after) = some (before, after) := by
  induction before with
  | nil => simp [breakOn]
  | cons c before ih =>
    rw [List.mem_cons, not_or] at absent
    have later : ¬[x] <+: c :: (before ++ x :: after) := by
      simp [List.cons_prefix_cons, absent.1]
    rw [List.cons_append, breakOn, if_neg later, ih absent.2]
    rfl

theorem breakOn_length {pat s before after : List α} (found : breakOn pat s = some (before, after)) :
    after.length ≤ s.length := by
  rw [breakOn_split found]
  simp only [List.length_append]
  omega

end Xript
