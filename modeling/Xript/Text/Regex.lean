import Mathlib.Data.List.Infix

namespace Xript

/-- A regular expression over the units `α`. -/
inductive Re (α : Type) where
  | literal (units : List α)
  | unit (p : α → Bool)
  | many (p : α → Bool)
  | boundary (word : α → Bool)
  | seq (first second : Re α)
  | alt (left right : Re α)

namespace Re

variable {α : Type}

/-- The places a greedy repetition may leave off at, each with the unit before it. -/
def runs (p : α → Bool) : Option α → List α → List (Option α × List α)
  | last, [] => [(last, [])]
  | last, u :: rest => (if p u then runs p (some u) rest else []) ++ [(last, u :: rest)]

/-- Where a match that begins at a place, after the unit `last`, may end. -/
def ends [DecidableEq α] : Re α → Option α × List α → List (Option α × List α)
  | .literal units, (last, text) => if units <+: text then [(units.getLast?.or last, text.drop units.length)] else []
  | .unit p, (_, u :: rest) => if p u then [(some u, rest)] else []
  | .unit _, (_, []) => []
  | .many p, (last, text) => runs p last text
  | .boundary word, (last, text) => if last.any word ≠ text.head?.any word then [(last, text)] else []
  | .seq first second, place => (first.ends place).flatMap second.ends
  | .alt left right, place => left.ends place ++ right.ends place

def testFrom [DecidableEq α] (re : Re α) : Option α → List α → Bool
  | last, [] => (re.ends (last, [])) ≠ []
  | last, u :: rest => (re.ends (last, u :: rest)) ≠ [] || testFrom re (some u) rest

/-- Whether a text has a match. -/
def test [DecidableEq α] (re : Re α) (text : List α) : Bool := testFrom re none text

/-- `taken` matches after the unit `last` and before `rest`. -/
def Spans : Re α → Option α → List α → List α → Prop
  | .literal units, _, taken, _ => taken = units
  | .unit p, _, taken, _ => ∃ u, taken = [u] ∧ p u = true
  | .many p, _, taken, _ => taken.all p = true
  | .boundary word, last, taken, rest => taken = [] ∧ last.any word ≠ rest.head?.any word
  | .seq first second, last, taken, rest =>
    ∃ head tail, taken = head ++ tail ∧ first.Spans last head (tail ++ rest) ∧ second.Spans (head.getLast?.or last) tail rest
  | .alt left right, last, taken, rest => left.Spans last taken rest ∨ right.Spans last taken rest

theorem getLast?_append_or {s t : List α} (last : Option α) :
    (s ++ t).getLast?.or last = t.getLast?.or (s.getLast?.or last) := by
  rw [List.getLast?_append]
  cases t.getLast? <;> rfl

theorem mem_runs {p : α → Bool} {last last' : Option α} {text rest : List α} : (last', rest) ∈ runs p last text ↔
    ∃ taken, text = taken ++ rest ∧ last' = taken.getLast?.or last ∧ taken.all p = true := by
  induction text generalizing last with
  | nil =>
    simp only [runs, List.mem_singleton, Prod.mk.injEq, List.nil_eq_append_iff]
    constructor
    · rintro ⟨rfl, rfl⟩
      exact ⟨[], ⟨rfl, rfl⟩, rfl, rfl⟩
    · rintro ⟨taken, ⟨rfl, rfl⟩, rfl, -⟩
      exact ⟨rfl, rfl⟩
  | cons u text ih =>
    rw [runs, List.mem_append, List.mem_singleton, Prod.mk.injEq]
    constructor
    · rintro (further | ⟨rfl, rfl⟩)
      · split at further
        · rename_i holds
          obtain ⟨taken, rfl, rfl, all⟩ := ih.mp further
          refine ⟨u :: taken, rfl, ?_, by simp [holds, all]⟩
          exact (getLast?_append_or (s := [u]) last).symm
        · exact absurd further List.not_mem_nil
      · exact ⟨[], rfl, rfl, rfl⟩
    · rintro ⟨taken, split, rfl, all⟩
      cases taken with
      | nil => exact .inr ⟨rfl, split.symm⟩
      | cons v taken =>
        obtain ⟨rfl, rfl⟩ := List.cons.inj split
        simp only [List.all_cons, Bool.and_eq_true] at all
        rw [if_pos all.1]
        exact .inl (ih.mpr ⟨taken, rfl, getLast?_append_or (s := [u]) last, all.2⟩)

/-- The places a match may end at are those of the spans that match. -/
theorem mem_ends [DecidableEq α] {re : Re α} {last last' : Option α} {text rest : List α} :
    (last', rest) ∈ re.ends (last, text) ↔
      ∃ taken, text = taken ++ rest ∧ last' = taken.getLast?.or last ∧ re.Spans last taken rest := by
  induction re generalizing last last' text rest with
  | literal units =>
    rw [ends]
    constructor
    · intro found
      split at found
      · rename_i within
        obtain ⟨rest', rfl⟩ := within
        simp only [List.drop_left, List.mem_singleton, Prod.mk.injEq] at found
        obtain ⟨rfl, rfl⟩ := found
        exact ⟨units, rfl, rfl, rfl⟩
      · exact absurd found List.not_mem_nil
    · rintro ⟨taken, rfl, rfl, rfl⟩
      simp
  | unit p =>
    cases text with
    | nil => simp [ends, Spans]
    | cons u text =>
      rw [ends]
      constructor
      · intro found
        split at found
        · rename_i holds
          obtain ⟨rfl, rfl⟩ := Prod.mk.inj (List.mem_singleton.mp found)
          exact ⟨[u], rfl, rfl, u, rfl, holds⟩
        · exact absurd found List.not_mem_nil
      · rintro ⟨taken, split, rfl, v, rfl, holds⟩
        obtain ⟨rfl, rfl⟩ := List.cons.inj split
        simp [holds]
  | many p => exact mem_runs
  | boundary word =>
    rw [ends]
    constructor
    · intro found
      split at found
      · rename_i apart
        obtain ⟨rfl, rfl⟩ := Prod.mk.inj (List.mem_singleton.mp found)
        exact ⟨[], rfl, rfl, rfl, apart⟩
      · exact absurd found List.not_mem_nil
    · rintro ⟨taken, rfl, rfl, rfl, apart⟩
      rw [List.nil_append, if_pos apart]
      exact List.mem_singleton.mpr rfl
  | seq first second ihFirst ihSecond =>
    rw [ends, List.mem_flatMap]
    constructor
    · rintro ⟨⟨middle, between⟩, found, found'⟩
      obtain ⟨head, rfl, rfl, spans⟩ := ihFirst.mp found
      obtain ⟨tail, rfl, rfl, spans'⟩ := ihSecond.mp found'
      exact ⟨head ++ tail, (List.append_assoc _ _ _).symm, (getLast?_append_or last).symm, head, tail, rfl, spans, spans'⟩
    · rintro ⟨taken, rfl, rfl, head, tail, rfl, spans, spans'⟩
      exact ⟨(head.getLast?.or last, tail ++ rest), ihFirst.mpr ⟨head, List.append_assoc _ _ _, rfl, spans⟩,
        ihSecond.mpr ⟨tail, rfl, getLast?_append_or last, spans'⟩⟩
  | alt left right ihLeft ihRight =>
    rw [ends, List.mem_append, ihLeft, ihRight]
    constructor
    · rintro (⟨taken, split, seen, spans⟩ | ⟨taken, split, seen, spans⟩)
      · exact ⟨taken, split, seen, .inl spans⟩
      · exact ⟨taken, split, seen, .inr spans⟩
    · rintro ⟨taken, split, seen, spans | spans⟩
      · exact .inl ⟨taken, split, seen, spans⟩
      · exact .inr ⟨taken, split, seen, spans⟩

theorem ends_ne_nil [DecidableEq α] {re : Re α} {last : Option α} {text : List α} :
    re.ends (last, text) ≠ [] ↔ ∃ taken rest, text = taken ++ rest ∧ re.Spans last taken rest := by
  constructor
  · intro nonempty
    obtain ⟨⟨last', rest⟩, found⟩ := List.exists_mem_of_ne_nil _ nonempty
    obtain ⟨taken, split, -, spans⟩ := mem_ends.mp found
    exact ⟨taken, rest, split, spans⟩
  · rintro ⟨taken, rest, split, spans⟩
    exact List.ne_nil_of_mem (mem_ends.mpr ⟨taken, split, rfl, spans⟩)

theorem testFrom_iff [DecidableEq α] {re : Re α} {last : Option α} {text : List α} : re.testFrom last text = true ↔
    ∃ before taken after, text = before ++ (taken ++ after) ∧ re.Spans (before.getLast?.or last) taken after := by
  induction text generalizing last with
  | nil =>
    rw [testFrom, decide_eq_true_iff, ends_ne_nil]
    constructor
    · rintro ⟨taken, rest, split, spans⟩
      exact ⟨[], taken, rest, split, spans⟩
    · rintro ⟨before, taken, after, split, spans⟩
      obtain ⟨rfl, rest⟩ := List.append_eq_nil_iff.mp split.symm
      exact ⟨taken, after, rest.symm, spans⟩
  | cons u text ih =>
    rw [testFrom, Bool.or_eq_true, decide_eq_true_iff, ends_ne_nil, ih]
    constructor
    · rintro (⟨taken, rest, split, spans⟩ | ⟨before, taken, after, rfl, spans⟩)
      · exact ⟨[], taken, rest, split, spans⟩
      · refine ⟨u :: before, taken, after, rfl, ?_⟩
        rw [show u :: before = [u] ++ before from rfl, getLast?_append_or]
        exact spans
    · rintro ⟨before, taken, after, split, spans⟩
      cases before with
      | nil => exact .inl ⟨taken, after, split, spans⟩
      | cons v before =>
        obtain ⟨rfl, rfl⟩ := List.cons.inj split
        rw [show u :: before = [u] ++ before from rfl, getLast?_append_or] at spans
        exact .inr ⟨before, taken, after, rfl, spans⟩

/-- A text has a match where one of its spans, between what stands around it, is one. -/
theorem test_iff [DecidableEq α] {re : Re α} {text : List α} : re.test text = true ↔
    ∃ before taken after, text = before ++ (taken ++ after) ∧ re.Spans before.getLast? taken after := by
  have found := @testFrom_iff α _ re none text
  simp only [Option.or_none] at found
  exact found

end Re

end Xript
