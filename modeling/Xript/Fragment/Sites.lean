import Xript.Fragment.Bind
import Xript.Json.RoundTrip
import Xript.Repeat.PatchCorrect

namespace Xript

theorem takeWhile_stop {p : Nat → Bool} {s : JSString} (stops : ∀ c ∈ s.head?, p c = false) : s.takeWhile p = [] := by
  cases s with
  | nil => rfl
  | cons c s => rw [List.takeWhile_cons, if_neg (by rw [stops c rfl]; exact Bool.false_ne_true)]

/-- Two texts whose numeral at the start ends at the same kind of character. -/
theorem decimal_append_inj {m n : Nat} {s t : JSString} (stopS : ∀ c ∈ s.head?, isDigit c = false)
    (stopT : ∀ c ∈ t.head?, isDigit c = false) (same : decimal m ++ s = decimal n ++ t) : m = n ∧ s = t := by
  have taken : ∀ (k : Nat) (u : JSString), (∀ c ∈ u.head?, isDigit c = false) →
      (decimal k ++ u).takeWhile isDigit = decimal k := by
    intro k u stop
    rw [List.takeWhile_append_of_pos fun c member => List.all_eq_true.mp (decimal_digits k) c member,
      takeWhile_stop stop, List.append_nil]
  have numeral : decimal m = decimal n := by rw [← taken m s stopS, same, taken n t stopT]
  rw [numeral] at same
  exact ⟨decimal_injective numeral, List.append_cancel_left same⟩

/-- A bracketed list of numerals is read back from its text. -/
theorem numerals_inj {a b : List Nat} {s t : JSString}
    (same : [44].intercalate (a.map decimal) ++ 93 :: s = [44].intercalate (b.map decimal) ++ 93 :: t) :
    a = b ∧ s = t := by
  have notDigit : ∀ {n : Nat} {u v : JSString}, decimal n ++ u ≠ 93 :: v := by
    intro n u v equal
    cases digits : decimal n with
    | nil => exact decimal_ne_nil n digits
    | cons c rest =>
      rw [digits, List.cons_append] at equal
      have head := List.all_eq_true.mp (decimal_digits n) c (digits ▸ List.mem_cons_self ..)
      rw [(List.cons.inj equal).1] at head
      cases head
  -- What follows the first numeral is a comma or the bracket.
  have split : ∀ (n : Nat) (l : List Nat) (u : JSString), ∃ rest, (∀ c ∈ rest.head?, isDigit c = false) ∧
      [44].intercalate ((n :: l).map decimal) ++ 93 :: u = decimal n ++ rest ∧
      (l = [] ∧ rest = 93 :: u ∨
        rest = 44 :: ([44].intercalate (l.map decimal) ++ 93 :: u)) := by
    intro n l u
    cases l with
    | nil =>
      refine ⟨93 :: u, fun c member => ?_, ?_, .inl ⟨rfl, rfl⟩⟩
      · obtain rfl := Option.some.inj member
        decide
      · rw [List.map_cons, List.map_nil, List.intercalate_singleton]
    | cons k l =>
      refine ⟨_, fun c member => ?_, ?_, .inr rfl⟩
      · obtain rfl := Option.some.inj member
        decide
      · rw [List.map_cons, List.map_cons, intercalate_cons_cons]
        simp
  induction a generalizing b with
  | nil =>
    cases b with
    | nil => exact ⟨rfl, (List.cons.inj same).2⟩
    | cons n b =>
      obtain ⟨rest, -, shape, -⟩ := split n b t
      rw [shape] at same
      exact absurd same.symm notDigit
  | cons m a ih =>
    obtain ⟨restA, stopA, shapeA, isA⟩ := split m a s
    rw [shapeA] at same
    cases b with
    | nil => exact absurd same notDigit
    | cons n b =>
      obtain ⟨restB, stopB, shapeB, isB⟩ := split n b t
      rw [shapeB] at same
      obtain ⟨rfl, tails⟩ := decimal_append_inj stopA stopB same
      rcases isA with ⟨rfl, rfl⟩ | rfl <;> rcases isB with ⟨rfl, rfl⟩ | rfl
      · exact ⟨rfl, (List.cons.inj tails).2⟩
      · cases (List.cons.inj tails).1
      · cases (List.cons.inj tails).1
      · obtain ⟨lists, rests⟩ := ih (List.cons.inj tails).2
        exact ⟨by rw [lists], rests⟩

theorem tokens_spellable (keys : List RepeatKey) :
    Json.Spellable (.arr (keys.map fun key => .str (keyToken key))) := by
  simp only [Json.Spellable]
  induction keys with
  | nil => simp only [List.map_nil, Json.SpellableItems]
  | cons key keys ih =>
    simp only [List.map_cons, Json.SpellableItems, Json.Spellable]
    exact ⟨trivial, ih⟩

/-- Two sites are one site: the same template, inside copies of the same tokens. -/
structure RepeatSite.Same (a b : RepeatSite) : Prop where
  template : a.template = b.template
  tokens : a.within.map keyToken = b.within.map keyToken

/-- The id of a site tells it from every other site. -/
theorem repeatSiteId_eq_iff {a b : RepeatSite} : repeatSiteId a = repeatSiteId b ↔ a.Same b := by
  have strings : ∀ keys : List RepeatKey, (keys.map fun key => Json.str (keyToken key)) =
      (keys.map keyToken).map Json.str := by
    intro keys
    rw [List.map_map]
    rfl
  constructor
  · intro same
    have opened : [44].intercalate (a.template.map decimal) ++ 93 :: (44 ::
        stringifyJson (.arr (a.within.map fun key => .str (keyToken key))) ++ [93]) =
        [44].intercalate (b.template.map decimal) ++ 93 :: (44 ::
          stringifyJson (.arr (b.within.map fun key => .str (keyToken key))) ++ [93]) := by
      have units : js "[[" = [91, 91] ∧ js "]," = [93, 44] ∧ js "]" = [93] := by decide
      rw [repeatSiteId, repeatSiteId, units.1, units.2.1, units.2.2] at same
      simpa using same
    obtain ⟨template, texts⟩ := numerals_inj opened
    have text := List.append_cancel_right (List.cons.inj texts).2
    have read := congrArg parseJson text
    rw [parseJson_stringify (tokens_spellable _), parseJson_stringify (tokens_spellable _)] at read
    have values := Json.arr.inj (Option.some.inj read)
    refine ⟨template, ?_⟩
    rw [strings, strings] at values
    exact List.map_injective_iff.mpr (fun _ _ => Json.str.inj) values
  · rintro ⟨template, tokens⟩
    rw [repeatSiteId, repeatSiteId, template, strings, tokens, ← strings]

end Xript
