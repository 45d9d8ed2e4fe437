import Xript.Sanitize.Stable

namespace Xript

/-- A value begins, letter case of ASCII ignored, with a scheme and its colon. -/
def Schemed (value scheme : JSString) : Prop :=
  isSchemeName scheme = true ∧ ∃ head rest, value = head ++ 58 :: rest ∧ head.map asciiLower = scheme

/-- A value begins, letter case of ASCII ignored, with the type of an image that `data:` may hold. -/
def DataImage (value : JSString) : Prop :=
  ∃ kind ∈ ["png", "jpeg", "gif", "svg+xml"].map js, ∃ head c rest, value = head ++ c :: rest ∧
    head.map asciiLower = js "data:image/" ++ kind ∧ (c = 59 ∨ c = 44)

/-- A lower-cased value begins with a scheme, white space if any, and a colon. -/
def Padded (lowered : JSString) : Prop :=
  ∃ scheme gap rest, lowered = scheme ++ (gap ++ 58 :: rest) ∧ isSchemeName scheme = true ∧ gap.all isSpace = true

theorem schemeUnit_bounds {u : Nat} (unit : isSchemeUnit u = true) : u ≠ 58 ∧ u < 128 ∧ isSpace u = false := by
  simp only [isSchemeUnit, isLower, isDigit, Bool.or_eq_true, Bool.and_eq_true, decide_eq_true_eq, beq_iff_eq] at unit
  exact ⟨by omega, by omega, isSpace_of_graphic (by omega) (by omega)⟩

theorem lower_schemeUnit {u : Nat} (lower : isLower u = true) : isSchemeUnit u = true := by
  simp [isSchemeUnit, lower]

theorem schemeName_units {scheme : JSString} (named : isSchemeName scheme = true) :
    scheme ≠ [] ∧ ∀ u ∈ scheme, isSchemeUnit u = true := by
  cases scheme with
  | nil => cases named
  | cons c s =>
    obtain ⟨first, rest⟩ := Bool.and_eq_true_iff.mp named
    exact ⟨List.cons_ne_nil _ _, List.forall_mem_cons.mpr ⟨lower_schemeUnit first, List.all_eq_true.mp rest⟩⟩

/-- What `URI_SCHEME_PATTERN` finds at the start of a value. -/
theorem uriScheme_iff {lowered scheme : JSString} :
    uriScheme lowered = some scheme ↔
      isSchemeName scheme = true ∧ ∃ gap rest, lowered = scheme ++ (gap ++ 58 :: rest) ∧ gap.all isSpace = true := by
  constructor
  · intro found
    cases lowered with
    | nil => cases found
    | cons c s =>
      rw [uriScheme] at found
      split at found
      · rename_i first
        split at found
        · rename_i rest ends
          obtain rfl := Option.some.inj found
          refine ⟨Bool.and_eq_true_iff.mpr ⟨first, List.all_takeWhile⟩, (s.dropWhile isSchemeUnit).takeWhile isSpace,
            rest, ?_, List.all_takeWhile⟩
          rw [← ends, List.takeWhile_append_dropWhile, List.cons_append, List.takeWhile_append_dropWhile]
        · cases found
      · cases found
  · rintro ⟨named, gap, rest, rfl, spaces⟩
    cases scheme with
    | nil => cases named
    | cons c s =>
      obtain ⟨first, units⟩ := Bool.and_eq_true_iff.mp named
      have inside : ∀ u ∈ s, isSchemeUnit u = true := List.all_eq_true.mp units
      have blank : ∀ u ∈ gap, isSpace u = true := List.all_eq_true.mp spaces
      have stops : ∀ t : JSString, (gap ++ 58 :: t).takeWhile isSchemeUnit = [] ∧
          (gap ++ 58 :: t).dropWhile isSchemeUnit = gap ++ 58 :: t := by
        intro t
        have none : ∀ u, isSpace u = true ∨ u = 58 → isSchemeUnit u = false := by
          intro u ends
          by_contra unit
          obtain ⟨colon, -, graphic⟩ := schemeUnit_bounds (Bool.not_eq_false _ ▸ unit)
          rcases ends with space | same
          · rw [space] at graphic
            cases graphic
          · exact colon same
        cases gap with
        | nil => exact ⟨rfl, rfl⟩
        | cons u gap =>
          have stop := none u (Or.inl (blank u (List.mem_cons_self ..)))
          rw [List.cons_append, List.takeWhile_cons_of_neg (by simp [stop]), List.dropWhile_cons_of_neg (by simp [stop])]
          exact ⟨rfl, rfl⟩
      have colon : isSpace 58 = false := by decide
      rw [List.cons_append, uriScheme, if_pos first, List.dropWhile_append_of_pos inside,
        List.takeWhile_append_of_pos inside, (stops rest).1, (stops rest).2, List.dropWhile_append_of_pos blank,
        List.dropWhile_cons_of_neg (by simp [colon]), List.append_nil]
      rfl

/-- The scheme a value begins with is the one the pattern finds in it, lower-cased. -/
theorem uriScheme_of_schemed {value scheme : JSString} (schemed : Schemed value scheme) :
    uriScheme (toLowerCase value) = some scheme := by
  obtain ⟨named, head, rest, rfl, rfl⟩ := schemed
  have ascii : ∀ u ∈ head ++ [58], u < 128 := by
    intro u member
    rcases List.mem_append.mp member with inside | colon
    · have unit := (schemeName_units named).2 (asciiLower u) (List.mem_map_of_mem inside)
      have bound := (schemeUnit_bounds unit).2.1
      have least : u ≤ asciiLower u := by unfold asciiLower; split <;> omega
      omega
    · rw [List.mem_singleton.mp colon]
      decide
  obtain ⟨r, lowered⟩ := toLowerCase_append ascii rest
  have colon : asciiLower 58 = 58 := by decide
  rw [List.map_append, List.map_cons, List.map_nil, colon, List.append_assoc, List.append_assoc] at lowered
  rw [show head ++ 58 :: rest = head ++ ([58] ++ rest) from rfl, lowered]
  exact uriScheme_iff.2 ⟨named, [], r, rfl, rfl⟩

theorem stripWord_prefix {word s rest : JSString} (lower : ∀ u ∈ s, isUpper u = false)
    (stripped : stripWord word s = some rest) : s = word ++ rest := by
  induction word generalizing s with
  | nil => exact Option.some.inj stripped
  | cons w word ih =>
    cases s with
    | nil => cases stripped
    | cons c s =>
      rw [stripWord] at stripped
      split at stripped
      · rename_i same
        have fixed : asciiLower c = c := by simp [asciiLower, lower c (List.mem_cons_self ..)]
        rw [← same, fixed, ih (fun u member => lower u (List.mem_cons_of_mem _ member)) stripped]
        rfl
      · cases stripped

/-- An ASCII word that a lower-cased text begins with is spelled in ASCII, unless it holds a `k` or ends in an `i`. -/
theorem lowerFrom_word {word : JSString} (ascii : ∀ u ∈ word, u < 128 ∧ u ≠ 107) {last : Nat}
    (ends : last < 128 ∧ last ≠ 107 ∧ last ≠ 105) {points before r : List Nat}
    (spelled : (lowerFrom before points).flatMap unitsOf = word ++ last :: r) :
    ∃ head c rest, points = head ++ c :: rest ∧ head.map asciiLower = word ∧ asciiLower c = last ∧
      (∀ u ∈ head, u < 128) ∧ c < 128 := by
  have first : ∀ {c : Nat} {s before r : List Nat} {d : Nat}, d < 128 → d ≠ 107 → (d = 105 → ∃ e t, r = e :: t ∧ e < 128) →
      (lowerFrom before (c :: s)).flatMap unitsOf = d :: r →
      c < 128 ∧ asciiLower c = d ∧ (lowerFrom (c :: before) s).flatMap unitsOf = r := by
    intro c s before r d small kelvin dotted same
    rw [lowerFrom, List.flatMap_append] at same
    unfold lowerAt at same
    split_ifs at same with one sigma final capital
    · have bound := asciiLower_le c
      have unit : unitsOf (asciiLower c) = [asciiLower c] := by rw [unitsOf, if_pos (by omega)]
      rw [List.flatMap_singleton, unit, List.singleton_append] at same
      obtain ⟨here, rest⟩ := List.cons.inj same
      exact ⟨one, here, rest⟩
    · obtain ⟨here, -⟩ := List.cons.inj same
      omega
    · obtain ⟨here, -⟩ := List.cons.inj same
      omega
    · obtain ⟨here, rest⟩ := List.cons.inj same
      obtain ⟨e, t, shape, low⟩ := dotted here.symm
      rw [shape] at rest
      obtain ⟨there, -⟩ := List.cons.inj rest
      omega
    · clear dotted
      rcases mapRanges_lower_ge (by omega : 128 ≤ c) with large | sign
      · rw [List.flatMap_singleton, unitsOf] at same
        split at same
        · obtain ⟨here, -⟩ := List.cons.inj same
          omega
        · obtain ⟨here, -⟩ := List.cons.inj same
          omega
      · rw [List.flatMap_singleton, sign] at same
        obtain ⟨here, -⟩ := List.cons.inj same
        omega
  induction word generalizing points before with
  | nil =>
    cases points with
    | nil => cases spelled
    | cons c s =>
      obtain ⟨small, same, -⟩ := first ends.1 ends.2.1 (fun dotted => absurd dotted ends.2.2) spelled
      exact ⟨[], c, s, rfl, rfl, same, fun _ inside => absurd inside List.not_mem_nil, small⟩
  | cons w word ih =>
    cases points with
    | nil => cases spelled
    | cons c s =>
      obtain ⟨smallWord, kelvin⟩ := ascii w (List.mem_cons_self ..)
      have within : ∀ u ∈ word, u < 128 ∧ u ≠ 107 := fun u member => ascii u (List.mem_cons_of_mem _ member)
      have next : ∃ e t, word ++ last :: r = e :: t ∧ e < 128 := by
        cases word with
        | nil => exact ⟨last, r, rfl, ends.1⟩
        | cons e t => exact ⟨e, t ++ last :: r, rfl, (within e (List.mem_cons_self ..)).1⟩
      obtain ⟨small, same, rest⟩ := first smallWord kelvin (fun _ => next) spelled
      obtain ⟨head, d, tail, rfl, lowered, lastSame, heads, lastSmall⟩ := ih within rest
      refine ⟨c :: head, d, tail, rfl, ?_, lastSame, List.forall_mem_cons.mpr ⟨small, heads⟩, lastSmall⟩
      rw [List.map_cons, same, lowered]

theorem codePoints_ascii {s : JSString} {head rest : List Nat} (ascii : ∀ u ∈ head, u < 128)
    (split : codePoints s = head ++ rest) : ∃ t, s = head ++ t ∧ codePoints t = rest := by
  induction head generalizing s with
  | nil => exact ⟨s, rfl, split⟩
  | cons c head ih =>
    have small := ascii c (List.mem_cons_self ..)
    have step : ∃ t, s = c :: t ∧ codePoints t = head ++ rest := by
      cases s with
      | nil => cases split
      | cons u s =>
        cases s with
        | nil =>
          obtain ⟨rfl, tail⟩ := List.cons.inj split
          exact ⟨[], rfl, tail⟩
        | cons v s =>
          rw [codePoints] at split
          split_ifs at split with paired
          · obtain ⟨here, -⟩ := List.cons.inj split
            omega
          · obtain ⟨rfl, tail⟩ := List.cons.inj split
            exact ⟨v :: s, rfl, tail⟩
    obtain ⟨t, rfl, tail⟩ := step
    obtain ⟨t, rfl, same⟩ := ih (fun u member => ascii u (List.mem_cons_of_mem _ member)) tail
    exact ⟨t, rfl, same⟩

/-- A lower-cased value passes for a safe image only where the value itself begins with its type. -/
theorem dataImage_of_safe {value : JSString} (safe : isSafeDataImage (toLowerCase value) = true) : DataImage value := by
  have lower : ∀ u ∈ toLowerCase value, isUpper u = false := fun u => toLowerCase_not_upper
  unfold isSafeDataImage at safe
  cases found : stripWord (js "data:image/") (toLowerCase value) with
  | none =>
    rw [found] at safe
    cases safe
  | some t =>
    rw [found] at safe
    obtain ⟨kind, listed, follows⟩ := List.any_eq_true.mp safe
    have start := stripWord_prefix lower found
    have lowerRest : ∀ u ∈ t, isUpper u = false := by
      intro u member
      refine lower u ?_
      rw [start]
      exact List.mem_append_right _ member
    cases named : stripWord kind t with
    | none =>
      rw [named] at follows
      cases follows
    | some rest =>
      rw [named] at follows
      cases rest with
      | nil => cases follows
      | cons c rest =>
        have ends : c = 59 ∨ c = 44 := by simpa using follows
        have whole : toLowerCase value = (js "data:image/" ++ kind) ++ c :: rest := by
          rw [start, stripWord_prefix lowerRest named, List.append_assoc]
        have plain : ∀ word ∈ ["png", "jpeg", "gif", "svg+xml"].map js, ∀ u ∈ js "data:image/" ++ word,
            u < 128 ∧ u ≠ 107 := by decide +kernel
        obtain ⟨head, d, tail, points, lowered, same, ascii, small⟩ :=
          @lowerFrom_word _ (plain kind listed) c (by omega) _ _ _ whole
        obtain ⟨v, rfl, others⟩ := codePoints_ascii ascii points
        obtain ⟨w, rfl, -⟩ := @codePoints_ascii v [d] tail (by simpa using small) others
        have kept : d = c := by
          have letters : isUpper d = false := by
            by_contra upper
            rw [Bool.not_eq_false] at upper
            simp only [asciiLower, upper, if_true] at same
            simp only [isUpper, Bool.and_eq_true, decide_eq_true_eq] at upper
            omega
          simpa [asciiLower, letters] using same
        exact ⟨kind, listed, head, d, w, rfl, lowered, kept ▸ ends⟩

/-- What a value that passes is: its normalised form, with a scheme that was checked if it has one. -/
structure Shipped (attrName : JSString) (schemes : List JSString) (shipped : JSString) : Prop where
  inner : ∀ u ∈ shipped, u ≠ 9 ∧ u ≠ 10 ∧ u ≠ 13
  first : ∀ u ∈ shipped.head?, 0x20 < u
  last : ∀ u ∈ shipped.getLast?, 0x20 < u
  checked : ∀ scheme, Schemed shipped scheme → scheme ∈ schemes ∧ scheme ≠ js "javascript" ∧ scheme ≠ js "vbscript" ∧
    (scheme = js "data" → attrName = js "src" ∧ DataImage shipped)
  again : sanitizeUri shipped attrName schemes = some shipped

theorem normalizeUri_ends (value : JSString) :
    (∀ u ∈ normalizeUri value, u ≠ 9 ∧ u ≠ 10 ∧ u ≠ 13) ∧ (∀ u ∈ (normalizeUri value).head?, 0x20 < u) ∧
      ∀ u ∈ (normalizeUri value).getLast?, 0x20 < u := by
  refine ⟨fun u member => ?_, fun u member => ?_, fun u member => ?_⟩
  · have inside := (List.dropWhile_suffix _).subset ((List.rdropWhile_prefix _ _).subset member)
    have kept := (List.mem_filter.mp inside).2
    simpa [not_or, and_assoc] using kept
  · obtain ⟨rest, shape⟩ : ∃ rest, normalizeUri value = u :: rest := by
      cases normalized : normalizeUri value with
      | nil =>
        rw [normalized] at member
        cases member
      | cons c rest =>
        rw [normalized] at member
        obtain rfl := Option.some.inj member
        exact ⟨rest, rfl⟩
    generalize stripped : (value.filter fun u => !(u == 9 || u == 10 || u == 13)) = s at shape
    have split := List.rdropWhile_prefix (· ≤ 0x20) (s.dropWhile (· ≤ 0x20))
    obtain ⟨more, whole⟩ := split
    have shape' : (s.dropWhile (· ≤ 0x20)).rdropWhile (· ≤ 0x20) = u :: rest := by
      rw [← shape, normalizeUri, stripped]
    rw [shape', List.cons_append] at whole
    have nonempty : s.dropWhile (· ≤ 0x20) ≠ [] := by
      rw [← whole]
      exact List.cons_ne_nil _ _
    have outside := List.head_dropWhile_not (· ≤ 0x20) nonempty
    simp only [← whole, List.head_cons, decide_eq_false_iff_not] at outside
    omega
  · have nonempty : normalizeUri value ≠ [] := by
      intro empty
      rw [empty] at member
      cases member
    have same := List.getLast?_eq_some_getLast nonempty
    rw [same] at member
    obtain rfl := Option.some.inj member
    have outside := List.rdropWhile_last_not (fun u : Nat => decide (u ≤ 0x20))
      ((value.filter fun u => !(u == 9 || u == 10 || u == 13)).dropWhile (· ≤ 0x20)) nonempty
    rw [decide_eq_true_iff, not_le] at outside
    exact outside

/-- A value that `sanitizeUri` passes is checked as it ships, and one is refused only where its normalised form,
lower-cased, begins with a scheme, white space if any, and a colon. -/
theorem sanitizeUri_ships (value attrName : JSString) (schemes : List JSString) :
    (∀ shipped, sanitizeUri value attrName schemes = some shipped → Shipped attrName schemes shipped) ∧
      (¬Padded (toLowerCase (normalizeUri value)) → sanitizeUri value attrName schemes = some (normalizeUri value)) := by
  constructor
  · intro shipped passed
    obtain rfl := sanitizeUri_shape passed
    obtain ⟨inner, first, last⟩ := normalizeUri_ends value
    refine ⟨inner, first, last, fun scheme schemed => ?_, sanitizeUri_idem passed⟩
    have found := uriScheme_of_schemed schemed
    unfold sanitizeUri at passed
    simp only [found] at passed
    split_ifs at passed with prohibited unlisted data image
    · have open' : ∀ name ∈ prohibitedUriSchemes, scheme ≠ name := fun name listed same => prohibited (same ▸ listed)
      exact ⟨by simpa using unlisted, open' _ (by decide), open' _ (by decide),
        fun _ => ⟨image.1, dataImage_of_safe image.2⟩⟩
    · have open' : ∀ name ∈ prohibitedUriSchemes, scheme ≠ name := fun name listed same => prohibited (same ▸ listed)
      exact ⟨by simpa using unlisted, open' _ (by decide), open' _ (by decide), fun same => absurd same data⟩
  · intro plain
    have none : uriScheme (toLowerCase (normalizeUri value)) = none := by
      cases found : uriScheme (toLowerCase (normalizeUri value)) with
      | none => rfl
      | some scheme =>
        obtain ⟨named, gap, rest, shape, spaces⟩ := uriScheme_iff.1 found
        exact absurd ⟨scheme, gap, rest, shape, named, spaces⟩ plain
    simp only [sanitizeUri, none]

theorem sanitizeUri_ships_image :
    Shipped (js "src") defaultUriSchemes (js "DATA:image/PNG;base64,A") ∧
      sanitizeUri (js " /page\t") (js "href") [] = some (normalizeUri (js " /page\t")) := by
  refine ⟨(sanitizeUri_ships (js " DA\tTA:image/PNG;base64,A\n") (js "src") defaultUriSchemes).1 _ (by decide +kernel),
    (sanitizeUri_ships (js " /page\t") (js "href") []).2 ?_⟩
  rintro ⟨scheme, gap, rest, shape, named, -⟩
  cases scheme with
  | nil => cases named
  | cons c scheme =>
    have slash : (toLowerCase (normalizeUri (js " /page\t"))).head? = some 47 := by decide +kernel
    rw [shape] at slash
    obtain rfl := Option.some.inj slash
    cases named

/-- A value without a scheme is refused where white space stands before its first colon. -/
theorem unschemed_value_refused :
    ¬∀ (value attrName : JSString) (schemes : List JSString),
      (∀ scheme, ¬Schemed (normalizeUri value) scheme) → sanitizeUri value attrName schemes ≠ none := by
  intro never
  refine never (js "page :x") (js "href") defaultUriSchemes ?_ (by decide +kernel)
  intro scheme schemed
  have found := uriScheme_of_schemed schemed
  obtain ⟨-, head, rest, shape, rfl⟩ := schemed
  have page : uriScheme (toLowerCase (normalizeUri (js "page :x"))) = some (js "page") := by decide +kernel
  have same : js "page" = head.map asciiLower := Option.some.inj (page.symm.trans found)
  have four : head.length = 4 := by
    rw [← List.length_map (f := asciiLower), ← same]
    decide
  have gap : (normalizeUri (js "page :x"))[4]? = some 32 := by decide +kernel
  have colon : (head ++ 58 :: rest)[4]? = some 58 := by
    rw [List.getElem?_append_right (by omega), four]
    rfl
  rw [shape, colon] at gap
  cases gap

end Xript
