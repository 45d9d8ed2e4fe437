import Mathlib.Data.List.Flatten
import Xript.Expr.RustNumbers

namespace Xript

/-- Looking up a renamed key among renamed members. -/
theorem lookup_renamed {α β γ δ : Type} [BEq α] [LawfulBEq α] [BEq γ] [LawfulBEq γ] {rename : α → γ}
    (injective : Function.Injective rename) (f : β → δ) (members : List (α × β)) (k : α) :
    (members.map fun m => (rename m.1, f m.2)).lookup (rename k) = (members.lookup k).map f := by
  induction members with
  | nil => rfl
  | cons member members ih =>
    rw [List.map_cons, List.lookup_cons, List.lookup_cons, ih]
    by_cases same : k = member.1
    · rw [same, beq_self_eq_true, beq_self_eq_true]
      rfl
    · rw [beq_false_of_ne same, beq_false_of_ne (injective.ne same)]

/-- No character is at this number. -/
abbrev Broken (c : Nat) : Prop := ¬ c.isValidChar

theorem broken_iff {c : Nat} : Broken c ↔ (0xD800 ≤ c ∧ c ≤ 0xDFFF) ∨ 0x110000 ≤ c := by
  simp only [Broken, Nat.isValidChar]
  omega

/-- Ranges of characters. -/
def Unbroken (first last : Nat) : Prop := last < 0xD800 ∨ (0xDFFF < first ∧ last < 0x110000)

instance (first last : Nat) : Decidable (Unbroken first last) := inferInstanceAs (Decidable (_ ∨ _))

section

variable {c : Nat} (broken : Broken c)

include broken

theorem Broken.outside {first last : Nat} (unbroken : Unbroken first last) : ¬(first ≤ c ∧ c ≤ last) := by
  rw [Unbroken] at unbroken
  rw [broken_iff] at broken
  omega

theorem inRanges_broken {ranges : List (Nat × Nat)} (unbroken : ∀ r ∈ ranges, Unbroken r.1 r.2) :
    inRanges ranges c = false := by
  rw [inRanges, List.any_eq_false]
  intro r member
  have outside := broken.outside (unbroken r member)
  simpa only [Bool.and_eq_true, decide_eq_true_eq] using outside

theorem mapRanges_broken {ranges : List CaseRange} (unbroken : ∀ r ∈ ranges, Unbroken r.first r.last) :
    mapRanges ranges c = c := by
  have none : ranges.find? (·.contains c) = none := by
    rw [List.find?_eq_none]
    intro r member inside
    simp only [CaseRange.contains, Bool.and_eq_true, decide_eq_true_eq] at inside
    exact broken.outside (unbroken r member) inside.1
  rw [mapRanges, none]

/-- What is no character stops the search for a letter. -/
theorem nextCased_broken (before after : List Nat) : nextCased (before ++ c :: after) = nextCased before := by
  induction before with
  | nil =>
    have ignorable : inRanges caseIgnorableRanges c = false := inRanges_broken broken (by decide +kernel)
    have cased : inRanges casedRanges c = false := inRanges_broken broken (by decide +kernel)
    show nextCased (c :: after) = false
    rw [nextCased, ignorable, if_neg Bool.false_ne_true, cased]
  | cons d before ih => rw [List.cons_append, nextCased, nextCased, ih]

theorem lowerAt_broken (before after : List Nat) : lowerAt before c after = [c] := by
  have large := broken_iff.mp broken
  rw [lowerAt, if_neg (by omega), if_neg (by omega), if_neg (by omega), mapRanges_broken broken (by decide +kernel)]

/-- It is a border of lower-casing. -/
theorem lowerFrom_broken (before run after : List Nat) :
    lowerFrom before (run ++ c :: after) = lowerFrom before run ++ c :: lowerFrom [] after := by
  have borderless : ∀ run rest : List Nat, lowerFrom (run ++ c :: rest) after = lowerFrom run after := by
    induction after with
    | nil => exact fun _ _ => rfl
    | cons d after ih =>
      intro run rest
      rw [lowerFrom, lowerFrom, ← List.cons_append, ih, lowerAt, lowerAt, nextCased_broken broken]
  induction run generalizing before with
  | nil =>
    have rest := borderless [] before
    rw [List.nil_append] at rest
    show lowerFrom before (c :: after) = c :: lowerFrom [] after
    rw [lowerFrom, lowerAt_broken broken, rest, List.singleton_append]
  | cons d run ih =>
    rw [List.cons_append, lowerFrom, lowerFrom, ih, lowerAt, lowerAt, nextCased_broken broken, List.append_assoc]

theorem upperOf_broken : upperOf c = [c] := by
  have large := broken_iff.mp broken
  have plain : upperSpecial.lookup c = none := by
    rw [List.lookup_eq_none_iff]
    intro entry member
    have valid : ∀ entry ∈ upperSpecial, Unbroken entry.1 entry.1 := by decide +kernel
    have outside := broken.outside (valid entry member)
    rw [bne_iff_ne]
    rintro rfl
    exact outside ⟨le_refl _, le_refl _⟩
  rw [upperOf, if_neg (by omega), plain]
  exact congrArg (fun d => [d]) (mapRanges_broken broken (by decide +kernel))

end

namespace Rust

/-- Mapping the runs of characters one by one maps the text, where what is no character is a border of the mapping. -/
theorem mapCase_eq {mapping : List Nat → List Nat} {map : List Char → JSString}
    (border : ∀ (run : List Nat) {c : Nat} (after : List Nat), Broken c →
      mapping (run ++ c :: after) = mapping run ++ c :: mapping after)
    (maps : ∀ run, map run = (mapping (codePoints (utf16 run))).flatMap unitsOf) (text : JSString) :
    mapCase map text = (mapping (codePoints text)).flatMap unitsOf := by
  have folded : ∀ (points : List Nat) (made : JSString × List Char),
      (points.foldl (mapCaseStep map) made).1 ++ map (points.foldl (mapCaseStep map) made).2 =
        made.1 ++ (mapping (made.2.map Char.toNat ++ points)).flatMap unitsOf := by
    intro points
    induction points with
    | nil =>
      intro made
      rw [List.foldl_nil, List.append_nil, maps, codePoints_utf16]
    | cons c points ih =>
      intro made
      rw [List.foldl_cons, ih, mapCaseStep]
      by_cases valid : c.isValidChar
      · rw [if_pos valid, List.map_append, List.map_singleton, char_toNat valid, List.append_assoc]
        rfl
      · rw [if_neg valid, border _ points valid, maps, codePoints_utf16]
        simp only [List.flatMap_append, List.flatMap_cons, List.append_assoc, List.map_nil, List.nil_append]
  exact folded (codePoints text) ([], [])

theorem mapCase_upper (text : JSString) : mapCase toUppercase text = toUpperCase text := by
  have border : ∀ (run : List Nat) {c : Nat} (after : List Nat), Broken c →
      upperCodePoints (run ++ c :: after) = upperCodePoints run ++ c :: upperCodePoints after := by
    intro run c after broken
    rw [upperCodePoints, List.flatMap_append, List.flatMap_cons, upperOf_broken broken]
    rfl
  exact mapCase_eq border (fun _ => rfl) text

theorem mapCase_lower (text : JSString) : mapCase toLowercase text = toLowerCase text := by
  have border : ∀ (run : List Nat) {c : Nat} (after : List Nat), Broken c →
      lowerCodePoints (run ++ c :: after) = lowerCodePoints run ++ c :: lowerCodePoints after :=
    fun run _ after broken => lowerFrom_broken broken [] run after
  exact mapCase_eq border (fun _ => rfl) text

theorem includes_iff {text part : JSString} : includes text part = true ↔ part <:+: text := by
  rw [includes, List.any_eq_true, List.infix_iff_prefix_suffix]
  constructor
  · rintro ⟨rest, suffix, inside⟩
    exact ⟨rest, List.isPrefixOf_iff_prefix.mp inside, (List.mem_tails _ _).mp suffix⟩
  · rintro ⟨rest, inside, suffix⟩
    exact ⟨rest, (List.mem_tails _ _).mpr suffix, List.isPrefixOf_iff_prefix.mpr inside⟩

theorem containsUnits_iff {haystack needle : JSString} : containsUnits haystack needle = true ↔ needle <:+: haystack := by
  rw [containsUnits, Bool.or_eq_true, List.isEmpty_iff, List.any_eq_true]
  constructor
  · rintro (rfl | ⟨window, member, same⟩)
    · exact List.nil_infix
    · obtain ⟨i, -, rfl⟩ := List.mem_map.mp member
      rw [beq_iff_eq] at same
      rw [← same]
      exact (List.take_prefix _ _).isInfix.trans (List.drop_suffix _ _).isInfix
  · rintro ⟨before, after, split⟩
    by_cases empty : needle = []
    · exact .inl empty
    · refine .inr ⟨needle, List.mem_map.mpr ⟨before.length, ?_, ?_⟩, beq_self_eq_true _⟩
      · have length := congrArg List.length split
        rw [List.length_append, List.length_append] at length
        rw [List.mem_range]
        omega
      · rw [← split, List.append_assoc, List.drop_left, List.take_left]

theorem containsUnits_eq (haystack needle : JSString) : containsUnits haystack needle = includes haystack needle := by
  rw [Bool.eq_iff_iff, containsUnits_iff, includes_iff]

/-- Repeating a text more often leaves its first units as they are. -/
theorem take_flatten_replicate {fill : JSString} {n few many : Nat} (enough : n ≤ few * fill.length) (more : few ≤ many) :
    (List.replicate many fill).flatten.take n = (List.replicate few fill).flatten.take n := by
  obtain ⟨rest, rfl⟩ := Nat.exists_eq_add_of_le more
  have length : n ≤ (List.replicate few fill).flatten.length := by simpa using enough
  rw [List.replicate_add, List.flatten_append, List.take_append_of_le_length length]

/-- `pad` fills the same width. -/
theorem padText_eq {text fill : JSString} (some : fill ≠ []) (width : Nat) :
    padText text width fill =
      .ok (.str (if width ≤ text.length then text else cycleTake fill (width - text.length) ++ text)) := by
  rw [padText]
  by_cases fits : width ≤ text.length
  · rw [if_pos (by omega), if_pos fits]
  · have positive : 0 < fill.length := List.length_pos_iff.mpr some
    obtain ⟨missing, count⟩ : ∃ missing, width = text.length + (missing + 1) := ⟨width - text.length - 1, by omega⟩
    subst count
    have times : ((text.length + (missing + 1) : Nat) - (text.length : Int) + fill.length - 1) / (fill.length : Int) =
        ((missing + fill.length) / fill.length : Nat) := by
      rw [Int.natCast_ediv]
      congr 1
      omega
    have enough : missing + 1 ≤ (missing + fill.length) / fill.length * fill.length := by
      rw [Nat.add_div_right _ positive, Nat.succ_mul]
      have := Nat.lt_div_mul_add positive (a := missing)
      omega
    have few : (missing + fill.length) / fill.length ≤ missing + 1 := by
      rw [Nat.add_div_right _ positive]
      have := Nat.div_le_self missing fill.length
      omega
    have left : ((text.length + (missing + 1) : Nat) - (text.length : Int)).toNat = missing + 1 := by omega
    have count : ¬(((missing + fill.length) / fill.length : Nat) : Int) < 0 := Int.not_lt.mpr (Int.natCast_nonneg _)
    rw [if_neg (by omega), if_neg fits]
    dsimp only
    rw [times, repeatText, if_neg count, Int.toNat_natCast, left, cycleTake, Nat.add_sub_cancel_left,
      take_flatten_replicate enough few]
    rfl

/-- A slice cut at both ends, in either order. -/
theorem slice_eq (text : JSString) (start stop : Nat) :
    (if start < stop then (text.drop start).take (stop - start) else []) = (text.take stop).drop start := by
  split
  · rw [List.drop_take]
  · rename_i crossed
    rw [List.drop_eq_nil_of_le]
    rw [List.length_take]
    omega

theorem fromUtf16Lossy_utf16 (text : List Char) : fromUtf16Lossy (utf16 text) = text := by
  rw [fromUtf16Lossy, codePoints_utf16, List.map_map]
  conv_rhs => rw [← List.map_id text]
  refine List.map_congr_left fun c _ => ?_
  have valid : c.toNat.isValidChar := c.valid
  rw [Function.comp_apply, if_pos valid]
  exact Char.ofNat_toNat c

theorem keyString_eq {key : JSString} {k : List Char} : keyString key = some k ↔ key = utf16 k := by
  rw [keyString]
  constructor
  · intro found
    split at found
    · rename_i same
      rw [← Option.some.inj found, same]
    · cases found
  · rintro rfl
    rw [fromUtf16Lossy_utf16, if_pos rfl]

end Rust

end Xript
