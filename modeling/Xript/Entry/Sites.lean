import Xript.Entry.CommonJs

namespace Xript

namespace CommonJs

/-- A place in a text that has the outline of a CommonJS artifact. -/
inductive Site (text : List Nat) where
  | call (before gap after : List Nat) (split : text = before ++ (js "require" ++ (gap ++ 40 :: after)))
  | module (before beforeDot afterDot after : List Nat)
      (split : text = before ++ (js "module" ++ (beforeDot ++ 46 :: (afterDot ++ (js "exports" ++ after)))))
  | member (before beforeDot afterDot name beforeEqual after : List Nat)
      (split : text = before ++ (js "exports" ++ (beforeDot ++ 46 :: (afterDot ++ (name ++ (beforeEqual ++ 61 :: after))))))
  | index (before gap after : List Nat) (split : text = before ++ (js "exports" ++ (gap ++ 91 :: after)))

def isName : List Nat → Bool
  | [] => false
  | u :: name => isNameStart u && name.all isNameRest

namespace Site

variable {text : List Nat}

/-- The JavaScript runtime takes the place for an artifact. -/
def js : Site text → Prop
  | call before gap _ _ => before.getLast?.any isWord = false ∧ gap.all isSpace = true
  | module before beforeDot afterDot after _ =>
    before.getLast?.any isWord = false ∧ beforeDot = [] ∧ afterDot = [] ∧ after.head?.any isWord = false
  | member before beforeDot afterDot name beforeEqual _ _ =>
    before.getLast?.any isWord = false ∧ beforeDot.all isSpace = true ∧ afterDot = [] ∧ isName name = true ∧
      beforeEqual.all isSpace = true
  | index before gap after _ =>
    before.getLast?.any isWord = false ∧ gap.all isSpace = true ∧ (after.dropWhile isSpace).head? = some 61

/-- The validator takes the place for an artifact. -/
def validator : Site text → Prop
  | call before gap _ _ => before.getLast?.any isWord = false ∧ gap.all isSpace = true
  | module before beforeDot afterDot after _ =>
    before.getLast?.any isWord = false ∧ beforeDot.all isSpace = true ∧ afterDot.all isSpace = true ∧
      after.head?.any isWord = false
  | member before beforeDot afterDot name beforeEqual _ _ =>
    before.getLast?.any isWord = false ∧ beforeDot.all isSpace = true ∧ afterDot.all isSpace = true ∧ isName name = true ∧
      beforeEqual.all isSpace = true
  | index before gap _ _ => before.getLast?.any isWord = false ∧ gap.all isSpace = true

/-- The Rust runtime takes the place for an artifact. -/
def rust : Site text → Prop
  | call before gap _ _ => before.getLast?.any Rust.isIdentChar = false ∧ gap.all Rust.isBlank = true
  | module _ beforeDot afterDot _ _ => beforeDot = [] ∧ afterDot = []
  | member before beforeDot afterDot name beforeEqual after _ =>
    before.getLast?.any (fun b => b = 46 || Rust.isIdentChar b) = false ∧ beforeDot = [] ∧ afterDot = [] ∧
      name.all Rust.isIdentChar = true ∧ beforeEqual.all Rust.isGap = true ∧ after.head? ≠ some 61
  | index before gap after _ =>
    before.getLast?.any (fun b => b = 46 || Rust.isIdentChar b) = false ∧ gap = [] ∧
      Rust.assignmentFollows (Rust.afterIndex 1 after) = true

theorem validator_of_js {site : Site text} (read : site.js) : site.validator := by
  cases site with
  | call before gap after split => exact read
  | module before beforeDot afterDot after split =>
    obtain ⟨free, rfl, rfl, ended⟩ := read
    exact ⟨free, rfl, rfl, ended⟩
  | member before beforeDot afterDot name beforeEqual after split =>
    obtain ⟨free, spaces, rfl, named, spaces'⟩ := read
    exact ⟨free, spaces, rfl, named, spaces'⟩
  | index before gap after split => exact ⟨read.1, read.2.1⟩

end Site

theorem starts_word {word : List Nat} (begins : word.head?.any isWord = true) (last : Option Nat) (rest : List Nat) :
    last.any isWord ≠ (word ++ rest).head?.any isWord ↔ last.any isWord = false := by
  cases word with
  | nil => simp at begins
  | cons u word =>
    simp only [List.head?_cons, Option.any_some] at begins
    simp [begins]

theorem ends_word {word : List Nat} (ended : word.getLast?.any isWord = true) (last : Option Nat) (rest : List Nat) :
    (word.getLast?.or last).any isWord ≠ rest.head?.any isWord ↔ rest.head?.any isWord = false := by
  cases found : word.getLast? with
  | none => simp [found] at ended
  | some u =>
    rw [found, Option.any_some] at ended
    simp [ended]

/-- Where a pattern begins with a whole word. -/
theorem word_test_iff {word : List Nat} (begins : word.head?.any isWord = true) {re : Re Nat} {text : List Nat} :
    (Re.seq (.boundary isWord) (.seq (.literal word) re)).test text = true ↔
      ∃ before taken after, text = before ++ (word ++ (taken ++ after)) ∧ before.getLast?.any isWord = false ∧
        re.Spans word.getLast? taken after := by
  have seen : ∀ last : Option Nat, word.getLast?.or last = word.getLast? := by
    intro last
    cases word with
    | nil => simp at begins
    | cons u word => simp [List.getLast?_cons]
  rw [Re.test_iff]
  constructor
  · rintro ⟨before, taken, after, rfl, _, _, rfl, ⟨rfl, start⟩, _, taken', rfl, rfl, spans⟩
    rw [List.append_assoc, starts_word begins] at start
    rw [seen] at spans
    exact ⟨before, taken', after, by simp, start, spans⟩
  · rintro ⟨before, taken, after, rfl, free, spans⟩
    refine ⟨before, word ++ taken, after, by simp, [], _, rfl, ⟨rfl, ?_⟩, word, taken, rfl, rfl, ?_⟩
    · change before.getLast?.any isWord ≠ ((word ++ taken) ++ after).head?.any isWord
      rwa [List.append_assoc, starts_word begins]
    · rwa [seen]

theorem marks : js "(" = [40] ∧ js "." = [46] ∧ js "[" = [91] ∧ js "=" = [61] := by decide

theorem requireCall_iff {text : List Nat} : requireCallPattern.test text = true ↔
    ∃ before gap after, ∃ split : text = before ++ (js "require" ++ (gap ++ 40 :: after)),
      (Site.call before gap after split).js := by
  rw [requireCallPattern, word_test_iff (by decide)]
  constructor
  · rintro ⟨before, taken, after, split, free, gap, _, rfl, spaces, rfl⟩
    exact ⟨before, gap, after, by simpa [marks] using split, free, spaces⟩
  · rintro ⟨before, gap, after, split, free, spaces⟩
    exact ⟨before, gap ++ js "(", after, by simpa [marks] using split, free, gap, _, rfl, spaces, rfl⟩

theorem moduleExports_iff {text : List Nat} : moduleExportsPattern.test text = true ↔
    ∃ before beforeDot afterDot after,
      ∃ split : text = before ++ (js "module" ++ (beforeDot ++ 46 :: (afterDot ++ (js "exports" ++ after)))),
        (Site.module before beforeDot afterDot after split).js := by
  have whole : js "module.exports" = js "module" ++ 46 :: js "exports" := by decide
  rw [moduleExportsPattern, word_test_iff (by decide)]
  constructor
  · rintro ⟨before, taken, after, split, free, rfl, stop⟩
    rw [← Option.or_none (o := (js "module.exports").getLast?), ends_word (by decide)] at stop
    exact ⟨before, [], [], after, by simpa [whole] using split, free, rfl, rfl, stop⟩
  · rintro ⟨before, _, _, after, split, free, rfl, rfl, ended⟩
    refine ⟨before, [], after, by simpa [whole] using split, free, rfl, ?_⟩
    rwa [← Option.or_none (o := (js "module.exports").getLast?), ends_word (by decide)]

theorem exportsAssign_iff {text : List Nat} : exportsAssignPattern.test text = true ↔
    (∃ before beforeDot afterDot name beforeEqual after,
      ∃ split : text = before ++ (js "exports" ++ (beforeDot ++ 46 :: (afterDot ++ (name ++ (beforeEqual ++ 61 :: after))))),
        (Site.member before beforeDot afterDot name beforeEqual after split).js) ∨
      ∃ before gap after, ∃ split : text = before ++ (js "exports" ++ (gap ++ 91 :: after)),
        (Site.index before gap after split).js := by
  rw [exportsAssignPattern, word_test_iff (by decide)]
  constructor
  · rintro ⟨before, taken, after, split, free, beforeDot, _, rfl, spaces, _, _, rfl, form, beforeEqual, _, rfl, spaces', rfl⟩
    rcases form with ⟨_, _, rfl, rfl, _, name, rfl, ⟨u, rfl, nameStart⟩, nameRest⟩ | rfl
    · exact .inl ⟨before, beforeDot, [], u :: name, beforeEqual, after, by simpa [marks] using split, free, spaces, rfl,
        by rw [isName, nameStart]; exact nameRest, spaces'⟩
    · refine .inr ⟨before, beforeDot, beforeEqual ++ 61 :: after, by simpa [marks] using split, free, spaces, ?_⟩
      rw [List.dropWhile_append_of_pos (List.all_eq_true.mp spaces')]
      rfl
  · rintro (⟨before, beforeDot, _, name, beforeEqual, after, split, free, spaces, rfl, named, spaces'⟩ |
      ⟨before, gap, after, split, free, spaces, assigned⟩)
    · cases name with
      | nil => cases named
      | cons u name =>
        simp only [isName, Bool.and_eq_true] at named
        exact ⟨before, beforeDot ++ ((js "." ++ ([u] ++ name)) ++ (beforeEqual ++ js "=")), after, by simpa [marks] using split, free,
          beforeDot, _, rfl, spaces, _, _, rfl, .inl ⟨_, _, rfl, rfl, _, _, rfl, ⟨u, rfl, named.1⟩, named.2⟩, beforeEqual, _,
          rfl, spaces', rfl⟩
    · cases rest : after.dropWhile isSpace with
      | nil => simp [rest] at assigned
      | cons u later =>
        rw [rest] at assigned
        obtain rfl : u = 61 := Option.some.inj assigned
        have later_split := List.takeWhile_append_dropWhile (p := isSpace) (l := after)
        rw [rest] at later_split
        rw [← later_split] at split
        exact ⟨before, gap ++ (js "[" ++ (after.takeWhile isSpace ++ js "=")), later, by simpa [marks] using split, free, gap, _, rfl,
          spaces, _, _, rfl, .inr rfl, _, _, rfl, List.all_takeWhile, rfl⟩

/-- The JavaScript runtime reports an artifact where the source has a site it reads. -/
theorem detectCommonJS_iff {source : JSString} : detectCommonJS source ≠ none ↔ ∃ site : Site source, site.js := by
  have found : detectCommonJS source ≠ none ↔
      requireCallPattern.test source = true ∨ moduleExportsPattern.test source = true ∨ exportsAssignPattern.test source = true := by
    unfold detectCommonJS
    split_ifs <;> simp [*]
  rw [found, requireCall_iff, moduleExports_iff, exportsAssign_iff]
  constructor
  · rintro (⟨before, gap, after, split, read⟩ | ⟨before, beforeDot, afterDot, after, split, read⟩ |
      ⟨before, beforeDot, afterDot, name, beforeEqual, after, split, read⟩ | ⟨before, gap, after, split, read⟩)
    · exact ⟨_, read⟩
    · exact ⟨_, read⟩
    · exact ⟨_, read⟩
    · exact ⟨_, read⟩
  · rintro ⟨site, read⟩
    cases site with
    | call before gap after split => exact .inl ⟨before, gap, after, split, read⟩
    | module before beforeDot afterDot after split => exact .inr (.inl ⟨before, beforeDot, afterDot, after, split, read⟩)
    | member before beforeDot afterDot name beforeEqual after split =>
      exact .inr (.inr (.inl ⟨before, beforeDot, afterDot, name, beforeEqual, after, split, read⟩))
    | index before gap after split => exact .inr (.inr (.inr ⟨before, gap, after, split, read⟩))

theorem validate_moduleExports_iff {text : List Nat} : Validate.moduleExportsPattern.test text = true ↔
    ∃ before beforeDot afterDot after,
      ∃ split : text = before ++ (js "module" ++ (beforeDot ++ 46 :: (afterDot ++ (js "exports" ++ after)))),
        (Site.module before beforeDot afterDot after split).validator := by
  rw [Validate.moduleExportsPattern, word_test_iff (by decide)]
  constructor
  · rintro ⟨before, taken, after, split, free, beforeDot, _, rfl, spaces, _, _, rfl, rfl, afterDot, _, rfl, spaces', _, _, rfl,
      rfl, rfl, stop⟩
    rw [ends_word (by decide)] at stop
    exact ⟨before, beforeDot, afterDot, after, by simpa [marks] using split, free, spaces, spaces', stop⟩
  · rintro ⟨before, beforeDot, afterDot, after, split, free, spaces, spaces', ended⟩
    refine ⟨before, beforeDot ++ (js "." ++ (afterDot ++ (js "exports" ++ []))), after, by simpa [marks] using split, free,
      beforeDot, _, rfl, spaces, _, _, rfl, rfl, afterDot, _, rfl, spaces', _, _, rfl, rfl, rfl, ?_⟩
    rwa [ends_word (by decide)]

theorem validate_exportsAssign_iff {text : List Nat} : Validate.exportsAssignPattern.test text = true ↔
    ∃ before beforeDot afterDot name beforeEqual after,
      ∃ split : text = before ++ (js "exports" ++ (beforeDot ++ 46 :: (afterDot ++ (name ++ (beforeEqual ++ 61 :: after))))),
        (Site.member before beforeDot afterDot name beforeEqual after split).validator := by
  rw [Validate.exportsAssignPattern, word_test_iff (by decide)]
  constructor
  · rintro ⟨before, taken, after, split, free, beforeDot, _, rfl, spaces, _, _, rfl, rfl, afterDot, _, rfl, spaces', _, _, rfl,
      ⟨u, rfl, nameStart⟩, name, _, rfl, nameRest, beforeEqual, _, rfl, spaces'', rfl⟩
    exact ⟨before, beforeDot, afterDot, u :: name, beforeEqual, after, by simpa [marks] using split, free, spaces, spaces',
      by rw [isName, nameStart]; exact nameRest, spaces''⟩
  · rintro ⟨before, beforeDot, afterDot, name, beforeEqual, after, split, free, spaces, spaces', named, spaces''⟩
    cases name with
    | nil => cases named
    | cons u name =>
      simp only [isName, Bool.and_eq_true] at named
      exact ⟨before, beforeDot ++ (js "." ++ (afterDot ++ ([u] ++ (name ++ (beforeEqual ++ js "="))))), after,
        by simpa [marks] using split, free, beforeDot, _, rfl, spaces, _, _, rfl, rfl, afterDot, _, rfl, spaces', _, _, rfl,
        ⟨u, rfl, named.1⟩, name, _, rfl, named.2, beforeEqual, _, rfl, spaces'', rfl⟩

theorem validate_exportsIndex_iff {text : List Nat} : Validate.exportsIndexPattern.test text = true ↔
    ∃ before gap after, ∃ split : text = before ++ (js "exports" ++ (gap ++ 91 :: after)),
      (Site.index before gap after split).validator := by
  rw [Validate.exportsIndexPattern, word_test_iff (by decide)]
  constructor
  · rintro ⟨before, taken, after, split, free, gap, _, rfl, spaces, rfl⟩
    exact ⟨before, gap, after, by simpa [marks] using split, free, spaces⟩
  · rintro ⟨before, gap, after, split, free, spaces⟩
    exact ⟨before, gap ++ js "[", after, by simpa [marks] using split, free, gap, _, rfl, spaces, rfl⟩

/-- The validator reports an artifact where the source has a site it reads. -/
theorem detectCommonJs_iff {source : JSString} :
    Validate.detectCommonJs source ≠ none ↔ ∃ site : Site source, site.validator := by
  have found : Validate.detectCommonJs source ≠ none ↔
      requireCallPattern.test source = true ∨ Validate.moduleExportsPattern.test source = true ∨
        Validate.exportsAssignPattern.test source = true ∨ Validate.exportsIndexPattern.test source = true := by
    unfold Validate.detectCommonJs
    split_ifs <;> simp_all
  rw [found, requireCall_iff, validate_moduleExports_iff, validate_exportsAssign_iff, validate_exportsIndex_iff]
  constructor
  · rintro (⟨before, gap, after, split, read⟩ | ⟨before, beforeDot, afterDot, after, split, read⟩ |
      ⟨before, beforeDot, afterDot, name, beforeEqual, after, split, read⟩ | ⟨before, gap, after, split, read⟩)
    · exact ⟨.call before gap after split, read⟩
    · exact ⟨_, read⟩
    · exact ⟨_, read⟩
    · exact ⟨_, read⟩
  · rintro ⟨site, read⟩
    cases site with
    | call before gap after split => exact .inl ⟨before, gap, after, split, read⟩
    | module before beforeDot afterDot after split => exact .inr (.inl ⟨before, beforeDot, afterDot, after, split, read⟩)
    | member before beforeDot afterDot name beforeEqual after split =>
      exact .inr (.inr (.inl ⟨before, beforeDot, afterDot, name, beforeEqual, after, split, read⟩))
    | index before gap after split => exact .inr (.inr (.inr ⟨before, gap, after, split, read⟩))

end CommonJs

end Xript
