import Xript.Sanitize.Style
import Xript.Text.Seams

namespace Xript

open Seamed

/-- `word\s*opener`, letter case ignored: what a dangerous construct starts with. -/
def Head (opener : Nat) (word h : JSString) : Prop :=
  ∃ letters spaces, h = letters ++ spaces ++ [opener] ∧ letters.map asciiLower = word ∧ spaces.all isSpace

theorem stripWord_eq_some {word s t : JSString} :
    stripWord word s = some t ↔ ∃ letters, s = letters ++ t ∧ letters.map asciiLower = word := by
  induction word generalizing s with
  | nil =>
    constructor
    · rintro ⟨⟩
      exact ⟨[], rfl, rfl⟩
    · rintro ⟨letters, rfl, empty⟩
      rw [List.map_eq_nil_iff.mp empty]
      rfl
  | cons w word ih =>
    constructor
    · intro found
      cases s with
      | nil => cases found
      | cons c s =>
        simp only [stripWord] at found
        split at found
        · rename_i same
          obtain ⟨letters, rfl, spelled⟩ := ih.mp found
          exact ⟨c :: letters, rfl, by rw [List.map_cons, same, spelled]⟩
        · cases found
    · rintro ⟨letters, rfl, spelled⟩
      obtain ⟨c, rest, rfl, same, spelled⟩ := List.map_eq_cons_iff.mp spelled
      rw [List.cons_append, stripWord, if_pos same]
      exact ih.mpr ⟨rest, rfl, spelled⟩

/-- A text starts with a head exactly when its word, its white space and its opener can be read off. -/
theorem starts_with_head {opener : Nat} {word s u : JSString} (visible : isSpace opener = false) :
    (∃ t, stripWord word s = some t ∧ t.dropWhile isSpace = opener :: u) ↔
      ∃ h, Head opener word h ∧ s = h ++ u := by
  constructor
  · rintro ⟨t, stripped, opened⟩
    obtain ⟨letters, rfl, spelled⟩ := stripWord_eq_some.1 stripped
    refine ⟨_, ⟨letters, t.takeWhile isSpace, rfl, spelled, List.all_takeWhile⟩, ?_⟩
    simp only [List.append_assoc, List.singleton_append]
    rw [← opened, List.takeWhile_append_dropWhile]
  · rintro ⟨h, ⟨letters, spaces, rfl, spelled, blank⟩, rfl⟩
    refine ⟨spaces ++ opener :: u, ?_, ?_⟩
    · exact stripWord_eq_some.2 ⟨letters, by simp, spelled⟩
    · rw [List.dropWhile_append_of_pos (List.all_eq_true.mp blank), List.dropWhile_cons_of_neg (by simp [visible])]

theorem matchCall_isSome {word s : JSString} :
    matchCall word s ≠ none ↔ ∃ h u, Head 40 word h ∧ s = h ++ u ∧ 41 ∈ u := by
  have closing (u : JSString) : u.dropWhile (· ≠ 41) ≠ [] ↔ 41 ∈ u := by
    simp [List.dropWhile_eq_nil_iff]
  constructor
  · intro found
    unfold matchCall at found
    split at found
    · exact absurd rfl found
    · rename_i t stripped
      split at found
      · rename_i u opened
        obtain ⟨h, head, split⟩ := (starts_with_head (by decide)).mp ⟨t, stripped, opened⟩
        refine ⟨h, u, head, split, (closing u).mp ?_⟩
        intro open_ended
        simp only [open_ended] at found
        exact found rfl
      · exact absurd rfl found
  · rintro ⟨h, u, head, split, closed⟩
    obtain ⟨t, stripped, opened⟩ := (starts_with_head (by decide)).mpr ⟨h, head, split⟩
    obtain ⟨c, rest, tail⟩ := List.exists_cons_of_ne_nil ((closing u).mpr closed)
    simp only [matchCall, stripped, opened, tail]
    exact Option.some_ne_none _

theorem matchDeclaration_isSome {word s : JSString} :
    matchDeclaration word s ≠ none ↔ ∃ h u, Head 58 word h ∧ s = h ++ u := by
  constructor
  · intro found
    unfold matchDeclaration at found
    split at found
    · exact absurd rfl found
    · rename_i t stripped
      split at found
      · rename_i u opened
        obtain ⟨h, head, split⟩ := (starts_with_head (by decide)).mp ⟨t, stripped, opened⟩
        exact ⟨h, u, head, split⟩
      · exact absurd rfl found
  · rintro ⟨h, u, head, split⟩
    obtain ⟨t, stripped, opened⟩ := (starts_with_head (by decide)).mpr ⟨h, head, split⟩
    simp only [matchDeclaration, stripped, opened]
    exact Option.some_ne_none _

theorem call_matchAt {word s : JSString} {proper} :
    (Pattern.ofRest (matchCall word) proper).matchAt s ≠ none ↔ ∃ h u, Head 40 word h ∧ s = h ++ u ∧ 41 ∈ u := by
  rw [← matchCall_isSome]
  simp [Pattern.ofRest]

theorem declaration_matchAt {word s : JSString} {proper} :
    (Pattern.ofRest (matchDeclaration word) proper).matchAt s ≠ none ↔ ∃ h u, Head 58 word h ∧ s = h ++ u := by
  rw [← matchDeclaration_isSome]
  simp [Pattern.ofRest]

/-- The text that is left of `v`, with a seam wherever one of the four passes removed something. -/
def seams (v : JSString) : Seamed Nat :=
  dangerousStylePatterns.foldl (fun t pattern => cut pattern t) (whole v)

theorem plain_seams (v : JSString) : plain (seams v) = removeDangerousStyle v := by
  simp only [seams, removeDangerousStyle, dangerousStylePatterns, List.foldl_cons, List.foldl_nil, plain_cut,
    plain_whole, Pattern.removeAll]

def callWords : List JSString := [js "url", js "expression"]

/-- The removals join what stood apart in `v` to the opening of a call that is closed later. -/
def SplicesReference (v : JSString) : Prop :=
  ∃ word ∈ callWords, ∃ before h after, seams v = before ++ h ++ after ∧ Head 40 word (plain h) ∧
    41 ∈ plain after ∧ ∃ x ∈ h.tail, x.1 = true

/-- A call that no seam breaks is never closed. -/
def Sound (word : JSString) (t : Seamed Nat) : Prop :=
  ∀ before x h after, t = before ++ (x :: h) ++ after → Head 40 word (plain (x :: h)) →
    (∀ y ∈ h, y.1 = false) → 41 ∉ plain after

theorem sound_cut_call (word : JSString) {proper} (t : Seamed Nat) :
    Sound word (cut (.ofRest (matchCall word) proper) t) := by
  intro before x h after split head unbroken closed
  obtain ⟨_, y, h', after', -, -, same, missed, fewer⟩ := cut_run _ split unbroken
  refine call_matchAt.2 ⟨plain (y :: h'), plain after', ?_, plain_append _ _, fewer.subset closed⟩ missed
  rw [same]
  exact head

theorem Sound.cut {word : JSString} {t : Seamed Nat} (sound : Sound word t) (p : Pattern Nat) :
    Sound word (cut p t) := by
  intro before x h after split head unbroken closed
  obtain ⟨before', y, h', after', whole, solid, same, -, fewer⟩ := cut_run _ split unbroken
  exact sound before' y h' after' whole (same ▸ head) solid (fewer.subset closed)

theorem sound_seams (v : JSString) : ∀ word ∈ callWords, Sound word (seams v) := by
  intro word member
  rcases List.mem_cons.mp member with rfl | member
  · exact ((sound_cut_call _ _).cut _).cut _ |>.cut _
  · obtain rfl := List.mem_singleton.mp member
    exact ((sound_cut_call _ _).cut _).cut _

theorem Head.ne_nil {opener : Nat} {word h : JSString} (head : Head opener word h) : h ≠ [] := by
  obtain ⟨letters, spaces, rfl, -, -⟩ := head
  simp

/-- A call pattern still matches exactly when a call was spliced. -/
theorem calls_clean_iff (v : JSString) :
    urlPattern.Clean (removeDangerousStyle v) ∧ expressionPattern.Clean (removeDangerousStyle v) ↔
      ¬SplicesReference v := by
  have clean_iff (word : JSString) {proper} (sound : Sound word (seams v)) :
      (Pattern.ofRest (matchCall word) proper).Clean (removeDangerousStyle v) ↔
        ¬∃ before h after, seams v = before ++ h ++ after ∧ Head 40 word (plain h) ∧ 41 ∈ plain after ∧
          ∃ x ∈ h.tail, x.1 = true := by
    constructor
    · rintro clean ⟨before, h, after, split, head, closed, -⟩
      refine call_matchAt.2 ⟨_, _, head, rfl, closed⟩ (clean _ ⟨plain before, ?_⟩)
      rw [← plain_seams, split, plain_append, plain_append, List.append_assoc]
    · intro unspliced s inside
      by_contra matched
      obtain ⟨head, after, isHead, rfl, closed⟩ := call_matchAt.1 matched
      rw [← plain_seams] at inside
      obtain ⟨r, ⟨before, split⟩, rplain⟩ := suffix_plain inside
      obtain ⟨h, rest, rfl, rfl, rfl⟩ := List.map_eq_append_iff.mp rplain
      cases h with
      | nil => exact isHead.ne_nil rfl
      | cons x h =>
        have ordered : seams v = before ++ (x :: h) ++ rest := by rw [← split, List.append_assoc]
        by_cases unbroken : ∀ y ∈ h, y.1 = false
        · exact sound before x h rest ordered isHead unbroken closed
        · push Not at unbroken
          obtain ⟨y, member, seam⟩ := unbroken
          exact unspliced ⟨before, x :: h, rest, ordered, isHead, closed, y, member, by simpa using seam⟩
  rw [urlPattern, expressionPattern, clean_iff _ (sound_seams v _ (by simp [callWords])),
    clean_iff _ (sound_seams v _ (by simp [callWords]))]
  simp [SplicesReference, callWords]

/-- No head of a declaration is left in `s`. -/
def Headless (word s : JSString) : Prop := ∀ before h after, s = before ++ h ++ after → ¬Head 58 word h

theorem clean_iff_headless {word s : JSString} {proper} :
    (Pattern.ofRest (matchDeclaration word) proper).Clean s ↔ Headless word s := by
  constructor
  · rintro clean before h after rfl head
    exact declaration_matchAt.2 ⟨h, after, head, rfl⟩ (clean _ ⟨before, by simp⟩)
  · rintro headless t ⟨before, rfl⟩
    by_contra matched
    obtain ⟨h, after, head, rfl⟩ := declaration_matchAt.1 matched
    exact headless before h after (by simp) head

/-- The punctuation of style text that no head holds. -/
def stylePunctuation : List Nat := [34, 39, 59, 123, 125]

theorem Head.not_punctuation {opener : Nat} {word h : JSString} (head : Head opener word h)
    (bare : ∀ w ∈ opener :: word, w ∉ stylePunctuation) : ∀ c ∈ h, c ∉ stylePunctuation := by
  have fixed : ∀ c ∈ stylePunctuation, asciiLower c = c ∧ isSpace c = false := by decide
  obtain ⟨letters, spaces, rfl, rfl, blank⟩ := head
  intro c member punctuation
  rw [List.mem_append, List.mem_append, List.mem_singleton] at member
  rcases member with (letter | space) | rfl
  · refine bare _ (List.mem_cons_of_mem _ (List.mem_map_of_mem letter)) ?_
    rw [(fixed c punctuation).1]
    exact punctuation
  · have space := List.all_eq_true.mp blank c space
    rw [(fixed c punctuation).2] at space
    cases space
  · exact bare _ (List.mem_cons_self ..) punctuation

theorem isDeclarationEnd_punctuation {c : Nat} (stop : isDeclarationEnd c = true) : c ∈ stylePunctuation := by
  simp only [isDeclarationEnd, Bool.or_eq_true, beq_iff_eq] at stop
  simp only [stylePunctuation, List.mem_cons]
  omega

theorem matchDeclaration_ends {word s rest : JSString} {c : Nat} (found : matchDeclaration word s = some (c :: rest)) :
    isDeclarationEnd c = true := by
  unfold matchDeclaration at found
  split at found
  · cases found
  · split at found
    · rename_i u _
      have stop : isDeclarationEnd ((c :: rest).head (List.cons_ne_nil _ _)) = true := by
        have := List.head_dropWhile_not (fun c => !isDeclarationEnd c) (l := u) (by simp [Option.some.inj found])
        simp only [Option.some.inj found] at this
        simpa using this
      exact stop
    · cases found

/-- Removing declarations leaves no head of a declaration that was not there already. -/
theorem head_of_removed {word other s before h after : JSString} {proper}
    (bare : ∀ w ∈ 58 :: word, w ∉ stylePunctuation) (head : Head 58 word h)
    (split : (Pattern.ofRest (matchDeclaration other) proper).removeAll s = before ++ h ++ after) :
    ∃ before' after', s = before' ++ h ++ after' ∧
      (Pattern.ofRest (matchDeclaration other) proper).matchAt (h ++ after') = none := by
  have ends : ∀ {t m c rest}, (Pattern.ofRest (matchDeclaration other) proper).matchAt t = some (m, c :: rest) →
      c ∈ stylePunctuation := by
    intro t m c rest found
    obtain ⟨r, inner, equal⟩ := Option.map_eq_some_iff.mp found
    cases equal
    exact isDeclarationEnd_punctuation (matchDeclaration_ends inner)
  have seamed := cut_whole_seams _ ends s
  rw [Pattern.removeAll, ← plain_whole s, ← plain_cut] at split
  obtain ⟨left, rest, whole_split, left_plain, rfl⟩ := List.map_eq_append_iff.mp split
  obtain ⟨first, run, rfl, rfl, rfl⟩ := List.map_eq_append_iff.mp left_plain
  cases run with
  | nil => exact absurd rfl head.ne_nil
  | cons x run =>
    have unbroken : ∀ y ∈ run, y.1 = false := by
      intro y member
      by_contra seam
      have kept : y ∈ cut (Pattern.ofRest (matchDeclaration other) proper) (whole s) := by
        rw [whole_split]
        simp [member]
      refine head.not_punctuation bare y.2 ?_ (seamed y kept (by simpa using seam))
      exact List.mem_map_of_mem (List.mem_cons_of_mem _ member)
    obtain ⟨before', y, run', after', origin, -, same, missed, -⟩ := cut_run _ whole_split unbroken
    refine ⟨plain before', plain after', ?_, ?_⟩
    · rw [← plain_whole s, origin, plain_append, plain_append, same]
      rfl
    · rw [plain_append, same] at missed
      exact missed

theorem headless_removed (word : JSString) {proper} (s : JSString) (bare : ∀ w ∈ 58 :: word, w ∉ stylePunctuation) :
    Headless word ((Pattern.ofRest (matchDeclaration word) proper).removeAll s) := by
  intro before h after split head
  obtain ⟨_, after', -, missed⟩ := head_of_removed bare head split
  exact declaration_matchAt.2 ⟨h, after', head, rfl⟩ missed

theorem Headless.removed {word other s : JSString} {proper} (headless : Headless word s)
    (bare : ∀ w ∈ 58 :: word, w ∉ stylePunctuation) :
    Headless word ((Pattern.ofRest (matchDeclaration other) proper).removeAll s) := by
  intro before h after split head
  obtain ⟨before', after', origin, -⟩ := head_of_removed bare head split
  exact headless before' h after' origin head

/-- The declaration patterns never match what the four passes leave. -/
theorem declarations_clean (v : JSString) :
    mozBindingPattern.Clean (removeDangerousStyle v) ∧ behaviorPattern.Clean (removeDangerousStyle v) := by
  refine ⟨clean_iff_headless.2 ?_, clean_iff_headless.2 ?_⟩
  · exact (headless_removed _ _ (by decide)).removed (by decide)
  · exact headless_removed _ _ (by decide)

/-- A text that block cleaning cannot take apart: it starts and ends in visible units and holds none
of the punctuation that block cleaning reads. -/
structure Compact (h : JSString) : Prop where
  first : ∃ c s, h = c :: s ∧ isSpace c = false
  last : ∃ s c, h = s ++ [c] ∧ isSpace c = false
  bare : ∀ c ∈ h, c ∉ stylePunctuation

/-- Every compact text in `t` comes from `s`, with a closing bracket after it if it has one in `t`. -/
def Carries (s t : JSString) : Prop :=
  ∀ before h after, t = before ++ h ++ after → Compact h →
    ∃ before' after', s = before' ++ h ++ after' ∧ (41 ∈ after → 41 ∈ after')

theorem Head.compact {opener w : Nat} {word h : JSString} (head : Head opener (w :: word) h)
    (visible : isSpace opener = false) (letter : isLower w ∨ w = 45)
    (bare : ∀ c ∈ opener :: w :: word, c ∉ stylePunctuation) : Compact h := by
  refine ⟨?_, ?_, head.not_punctuation bare⟩
  · obtain ⟨letters, spaces, rfl, spelled, -⟩ := head
    obtain ⟨c, rest, rfl, lowered, -⟩ := List.map_eq_cons_iff.mp spelled
    refine ⟨c, rest ++ spaces ++ [opener], by simp, ?_⟩
    have graphic : 0x20 < c ∧ c < 0x7F := by
      simp only [isLower, asciiLower, isUpper] at letter lowered
      grind
    exact isSpace_of_graphic graphic.1 graphic.2
  · obtain ⟨letters, spaces, rfl, -, -⟩ := head
    exact ⟨_, opener, rfl, visible⟩

theorem Carries.call_clean {s t word : JSString} {c : Nat} {proper} (carries : Carries s t)
    (letter : isLower c ∨ c = 45) (bare : ∀ u ∈ 40 :: c :: word, u ∉ stylePunctuation)
    (clean : (Pattern.ofRest (matchCall (c :: word)) proper).Clean s) :
    (Pattern.ofRest (matchCall (c :: word)) proper).Clean t := by
  rintro r ⟨before, rfl⟩
  by_contra matched
  obtain ⟨h, after, head, rfl, closed⟩ := call_matchAt.1 matched
  obtain ⟨before', after', rfl, closes⟩ :=
    carries before h after (List.append_assoc ..).symm (head.compact (by decide) letter bare)
  exact call_matchAt.2 ⟨h, after', head, rfl, closes closed⟩ (clean _ ⟨before', (List.append_assoc ..).symm⟩)

theorem Carries.headless {s t word : JSString} {c : Nat} (carries : Carries s t)
    (letter : isLower c ∨ c = 45) (bare : ∀ u ∈ 58 :: c :: word, u ∉ stylePunctuation)
    (headless : Headless (c :: word) s) : Headless (c :: word) t := by
  rintro before h after split head
  obtain ⟨before', after', origin, -⟩ := carries before h after split (head.compact (by decide) letter bare)
  exact headless before' h after' origin head

theorem Carries.clean {s t : JSString} (carries : Carries s t) (clean : ∀ p ∈ dangerousStylePatterns, p.Clean s) :
    ∀ p ∈ dangerousStylePatterns, p.Clean t := by
  simp only [dangerousStylePatterns, List.forall_mem_cons, List.not_mem_nil, false_imp_iff, implies_true,
    and_true] at clean ⊢
  obtain ⟨url, expression, mozBinding, behavior⟩ := clean
  refine ⟨?_, ?_, ?_, ?_⟩
  · exact carries.call_clean (by decide) (by decide) url
  · exact carries.call_clean (by decide) (by decide) expression
  · exact clean_iff_headless.2 (carries.headless (by decide) (by decide) (clean_iff_headless.1 mozBinding))
  · exact clean_iff_headless.2 (carries.headless (by decide) (by decide) (clean_iff_headless.1 behavior))

/-- A text without `sep` lies on one side of it. -/
theorem split_at_separator {sep : Nat} {before h after left right : JSString} (absent : sep ∉ h)
    (split : left ++ sep :: right = before ++ h ++ after) :
    (∃ rest, left = before ++ h ++ rest ∧ after = rest ++ sep :: right) ∨
      h = [] ∨ ∃ rest, before = left ++ sep :: rest ∧ right = rest ++ h ++ after := by
  rw [List.append_assoc] at split
  rcases List.append_eq_append_iff.mp split with ⟨lead, rfl, tail⟩ | ⟨lead, rfl, tail⟩
  · -- The separator stands in `before`, at the start of `h` or, when `h` is empty, later.
    cases lead with
    | nil =>
      cases h with
      | nil => exact .inr (.inl rfl)
      | cons c h =>
        obtain ⟨rfl, -⟩ := List.cons.inj tail
        exact absurd (List.mem_cons_self ..) absent
    | cons c lead =>
      obtain ⟨rfl, rfl⟩ := List.cons.inj tail
      exact .inr (.inr ⟨lead, rfl, by simp⟩)
  · rcases List.append_eq_append_iff.mp tail with ⟨lead', rfl, tail'⟩ | ⟨lead', rfl, tail'⟩
    · exact .inl ⟨lead', by simp, tail'⟩
    · cases lead' with
      | nil => exact .inl ⟨[], by simp, tail'.symm⟩
      | cons c lead' =>
        obtain ⟨rfl, -⟩ := List.cons.inj tail'
        simp at absent

theorem Carries.refl (s : JSString) : Carries s s := fun before _ after split _ => ⟨before, after, split, id⟩

theorem Carries.trans {s t r : JSString} (first : Carries s t) (second : Carries t r) : Carries s r := by
  intro before h after split compact
  obtain ⟨before', after', split, closes⟩ := second before h after split compact
  obtain ⟨before', after', split, closes'⟩ := first before' h after' split compact
  exact ⟨before', after', split, closes' ∘ closes⟩

theorem Carries.mem {s t : JSString} (carries : Carries s t) (closed : 41 ∈ t) : 41 ∈ s := by
  obtain ⟨before, after, rfl⟩ := List.append_of_mem closed
  have compact : Compact [41] := ⟨⟨41, [], rfl, by decide⟩, ⟨[], 41, rfl, by decide⟩, by decide⟩
  obtain ⟨before', after', rfl, -⟩ := carries before [41] after (by simp) compact
  simp

theorem Carries.wider {s t : JSString} (carries : Carries s t) (left right : JSString) :
    Carries (left ++ s ++ right) t := by
  intro before h after split compact
  obtain ⟨before', after', rfl, closes⟩ := carries before h after split compact
  exact ⟨left ++ before', after' ++ right, by simp, fun closed => List.mem_append_left _ (closes closed)⟩

theorem carries_nil (s : JSString) : Carries s [] := by
  intro before h after split compact
  obtain ⟨c, rest, rfl, -⟩ := compact.first
  simp at split

theorem Carries.separated {s t s' t' : JSString} (first : Carries s t) (sep : Nat) (second : Carries s' t')
    (punctuation : sep ∈ stylePunctuation) : Carries (s ++ sep :: s') (t ++ sep :: t') := by
  intro before h after split compact
  have absent : sep ∉ h := fun inside => compact.bare sep inside punctuation
  rcases split_at_separator absent split with ⟨rest, left, rfl⟩ | rfl | ⟨rest, rfl, right⟩
  · obtain ⟨before', after', rfl, closes⟩ := first before h rest left compact
    refine ⟨before', after' ++ sep :: s', by simp, ?_⟩
    simp only [List.mem_append, List.mem_cons]
    rintro (closed | equal | closed)
    · exact .inl (closes closed)
    · exact .inr (.inl equal)
    · exact .inr (.inr (second.mem closed))
  · obtain ⟨c, rest, empty, -⟩ := compact.first
    cases empty
  · obtain ⟨before', after', rfl, closes⟩ := second rest h after right compact
    exact ⟨s ++ sep :: before', after', by simp, closes⟩

theorem Carries.punctuated {s t : JSString} {sep : Nat} (carries : Carries s t)
    (punctuation : sep ∈ stylePunctuation) : Carries s (t ++ [sep]) := by
  intro before h after split compact
  have absent : sep ∉ h := fun inside => compact.bare sep inside punctuation
  have nonempty : h ≠ [] := by
    obtain ⟨c, rest, rfl, -⟩ := compact.first
    exact List.cons_ne_nil _ _
  rcases split_at_separator absent split with ⟨rest, left, rfl⟩ | empty | ⟨rest, rfl, right⟩
  · obtain ⟨before', after', rfl, closes⟩ := carries before h rest left compact
    refine ⟨before', after', rfl, fun closed => ?_⟩
    rcases List.mem_append.mp closed with inside | last
    · exact closes inside
    · obtain rfl := List.mem_singleton.mp last
      exact absurd punctuation (by decide)
  · exact absurd empty nonempty
  · exact absurd (List.append_eq_nil_iff.mp (List.append_eq_nil_iff.mp right.symm).1).2 nonempty

theorem carries_spaces_append (spaces s : JSString) (blank : spaces.all isSpace) :
    Carries s (spaces ++ s) := by
  induction spaces with
  | nil => exact .refl s
  | cons c spaces ih =>
    rw [List.all_cons, Bool.and_eq_true] at blank
    intro before h after split compact
    cases before with
    | nil =>
      obtain ⟨d, rest, rfl, visible⟩ := compact.first
      obtain ⟨rfl, -⟩ := List.cons.inj split
      rw [blank.1] at visible
      cases visible
    | cons d before => exact ih blank.2 before h after (List.cons.inj split).2 compact

theorem carries_append_spaces {spaces : JSString} (s : JSString) (blank : spaces.all isSpace) :
    Carries s (s ++ spaces) := by
  induction spaces using List.reverseRecOn with
  | nil =>
    rw [List.append_nil]
    exact .refl s
  | append_singleton spaces c ih =>
    rw [List.all_append, Bool.and_eq_true, List.all_cons, List.all_nil, Bool.and_true] at blank
    refine (ih blank.1).trans ?_
    rw [← List.append_assoc]
    intro before h after split compact
    rcases List.eq_nil_or_concat after with rfl | ⟨after, d, rfl⟩
    · obtain ⟨rest, d, rfl, visible⟩ := compact.last
      rw [List.append_nil, ← List.append_assoc] at split
      obtain ⟨-, rfl⟩ := List.append_singleton_inj.mp split
      rw [blank.2] at visible
      cases visible
    · rw [List.concat_eq_append, ← List.append_assoc] at split
      rw [List.concat_eq_append]
      obtain ⟨same, rfl⟩ := List.append_singleton_inj.mp split
      refine ⟨before, after, same, fun closed => ?_⟩
      rcases List.mem_append.mp closed with inside | last
      · exact inside
      · obtain rfl := List.mem_singleton.mp last
        exact absurd blank.2 (by decide)

theorem carries_trim (s : JSString) : Carries s (trim s) := by
  obtain ⟨right, -, split⟩ := trim_split s
  have wider := (Carries.refl (trim s)).wider (s.takeWhile isSpace) right
  rw [← split] at wider
  exact wider

theorem trim_carries (s : JSString) : Carries (trim s) s := by
  obtain ⟨right, blankRight, split⟩ := trim_split s
  have both := (carries_spaces_append (s.takeWhile isSpace) (trim s) List.all_takeWhile).trans
    (carries_append_spaces _ blankRight)
  rw [← split] at both
  exact both

/-- The declarations that a cleaned block keeps, each between a space and a semicolon. -/
def keptText (parts : List JSString) : JSString :=
  ((parts.map trim).filter keepsDeclaration).flatMap fun decl => 32 :: decl ++ [59]

theorem intercalate_space {decl : JSString} {declarations : List JSString} :
    32 :: (js "; ").intercalate (decl :: declarations) ++ [59] =
      (decl :: declarations).flatMap fun decl => 32 :: decl ++ [59] := by
  induction declarations generalizing decl with
  | nil => simp
  | cons next declarations ih =>
    rw [List.intercalate_cons_cons, List.flatMap_cons, ← ih]
    simp [js, utf16, unitsOf]

theorem carries_keptText {parts : List JSString} (some : parts ≠ []) :
    Carries ([59].intercalate parts) (keptText parts) := by
  have spaced (part : JSString) : Carries part (32 :: trim part) :=
    (carries_trim part).trans (carries_spaces_append [32] _ (by decide))
  induction parts with
  | nil => exact absurd rfl some
  | cons part parts ih =>
    cases parts with
    | nil =>
      rw [List.intercalate_singleton, keptText, List.map_singleton, List.filter_cons, List.filter_nil]
      split
      · rw [List.flatMap_singleton]
        exact (spaced part).punctuated (by decide)
      · exact carries_nil part
    | cons next parts =>
      have later := ih (List.cons_ne_nil _ _)
      rw [List.intercalate_cons_cons, keptText, List.map_cons, List.filter_cons]
      split
      · rw [List.flatMap_cons, List.append_assoc, List.append_assoc]
        exact (spaced part).separated 59 later (by decide)
      · have wider := later.wider (part ++ [59]) []
        rw [List.append_nil, List.append_assoc] at wider
        rw [List.append_assoc]
        exact wider

theorem cleanBlock_eq (inner : JSString) :
    ∃ blank, cleanBlock (123 :: inner ++ [125]) = 123 :: (keptText (inner.splitOn 59) ++ blank) ++ [125] ∧
      blank.all isSpace := by
  have inside : ((123 :: inner ++ [125]).drop 1).dropLast = inner := by simp
  rw [cleanBlock, inside, keptText]
  cases kept : ((inner.splitOn 59).map trim).filter keepsDeclaration with
  | nil => exact ⟨[], rfl, rfl⟩
  | cons decl declarations =>
    refine ⟨[32], ?_, rfl⟩
    rw [if_neg (List.cons_ne_nil _ _), ← intercalate_space]
    simp [js, utf16, unitsOf]

theorem carries_cleanBlock (inner : JSString) :
    ∃ body, cleanBlock (123 :: inner ++ [125]) = 123 :: body ++ [125] ∧ Carries inner body := by
  obtain ⟨blank, shape, spaces⟩ := cleanBlock_eq inner
  refine ⟨_, shape, Carries.trans ?_ (carries_append_spaces _ spaces)⟩
  have carries := carries_keptText (List.splitOn_ne_nil 59 inner)
  rw [List.intercalate_splitOn] at carries
  exact carries

theorem matchBlock_shape {s m rest : JSString} (found : blockPattern.matchAt s = some (m, rest)) :
    ∃ inner, m = 123 :: inner ++ [125] := by
  have split := blockPattern.split found
  obtain ⟨r, inner, equal⟩ := Option.map_eq_some_iff.mp found
  obtain rfl : r = rest := (Prod.mk.inj equal).2
  unfold matchBlock at inner
  split at inner
  · rename_i t
    split at inner
    · rename_i c r' closed
      cases inner
      have stop : c = 125 := by
        have nonempty : t.dropWhile (fun u => decide (u ≠ 125)) ≠ [] := by
          rw [closed]
          exact List.cons_ne_nil _ _
        have := List.head_dropWhile_not (fun u => decide (u ≠ 125)) nonempty
        simp only [closed, List.head_cons] at this
        simpa using this
      subst stop
      refine ⟨t.takeWhile (· ≠ 125), ?_⟩
      have whole := List.takeWhile_append_dropWhile (p := fun u => decide (u ≠ 125)) (l := t)
      rw [closed] at whole
      have matched : m ++ r = 123 :: t.takeWhile (· ≠ 125) ++ [125] ++ r :=
        calc m ++ r = 123 :: t := split.symm
          _ = 123 :: (t.takeWhile (· ≠ 125) ++ 125 :: r) := by rw [whole]
          _ = 123 :: t.takeWhile (· ≠ 125) ++ [125] ++ r := by simp
      exact List.append_cancel_right matched
    · cases inner
  · cases inner

/-- Block cleaning makes no construct that was not there. -/
theorem carries_blocks (s : JSString) : Carries s (blockPattern.replaceAll cleanBlock s) := by
  induction length : s.length using Nat.strong_induction_on generalizing s with
  | _ n ih =>
    rcases blockPattern.replaceAll_first cleanBlock s with clean | ⟨out, m, rest, rfl, found, replaced⟩
    · rw [clean.replaceAll_eq]
      exact .refl s
    · obtain ⟨inner, rfl⟩ := matchBlock_shape found
      obtain ⟨body, shape, carries⟩ := carries_cleanBlock inner
      have later : Carries rest (blockPattern.replaceAll cleanBlock rest) := by
        refine ih rest.length ?_ rest rfl
        rw [← length]
        simp only [List.length_append, List.length_cons]
        omega
      rw [replaced, shape]
      have block := carries.separated 125 later (by decide)
      have all := (Carries.refl out).separated 123 block (by decide)
      simpa using all

theorem Pattern.removeAll_sublist (p : Pattern Nat) (s : JSString) : (p.removeAll s).Sublist s := by
  have units := (cutFrom_thins p _ false (whole s) (Nat.le_refl _)).units
  rw [plain_whole, ← cut, plain_cut, plain_whole] at units
  exact units

theorem Pattern.removeAll_eq_iff {p : Pattern Nat} {s : JSString} : p.removeAll s = s ↔ p.Clean s := by
  refine ⟨fun same => ?_, fun clean => clean.replaceAll_eq⟩
  rcases p.replaceAll_first (fun _ => []) s with clean | ⟨out, m, rest, rfl, found, replaced⟩
  · exact clean
  · have shorter := (p.removeAll_sublist rest).length_le
    have some := List.length_pos_iff.mpr (p.nonempty found)
    have lengths := congrArg List.length (replaced.symm.trans same)
    simp only [List.length_append, List.length_nil] at lengths
    rw [removeAll] at shorter
    omega

/-- A pass of removals changes nothing exactly where no pattern matches. -/
theorem removePass_eq_iff {patterns : List (Pattern Nat)} {s : JSString} :
    patterns.foldl (fun cleaned pattern => pattern.removeAll cleaned) s = s ↔ ∀ p ∈ patterns, p.Clean s := by
  have sublist (patterns : List (Pattern Nat)) (s : JSString) :
      (patterns.foldl (fun cleaned pattern => pattern.removeAll cleaned) s).Sublist s := by
    induction patterns generalizing s with
    | nil => exact .refl s
    | cons p patterns ih => exact (ih _).trans (p.removeAll_sublist s)
  induction patterns with
  | nil => simp
  | cons p patterns ih =>
    rw [List.foldl_cons, List.forall_mem_cons, ← Pattern.removeAll_eq_iff]
    constructor
    · intro same
      have back := sublist patterns (p.removeAll s)
      rw [same] at back
      have first : p.removeAll s = s := (p.removeAll_sublist s).antisymm back
      rw [first] at same
      exact ⟨first, ih.mp same⟩
    · rintro ⟨first, rest⟩
      rw [first]
      exact ih.mpr rest

theorem sanitizeStyle_clean_iff (v : JSString) :
    (∀ p ∈ dangerousStylePatterns, p.Clean (sanitizeStyleValue v) ∧ p.Clean (sanitizeStyleBlock v)) ↔
      ∀ p ∈ dangerousStylePatterns, p.Clean (removeDangerousStyle v) := by
  constructor
  · intro clean
    exact (trim_carries _).clean fun p member => (clean p member).1
  · intro clean p member
    exact ⟨(carries_trim _).clean clean p member, (carries_blocks _).clean clean p member⟩

theorem removed_clean_iff (v : JSString) :
    (∀ p ∈ dangerousStylePatterns, p.Clean (removeDangerousStyle v)) ↔ ¬SplicesReference v := by
  rw [← calls_clean_iff]
  have declarations := declarations_clean v
  simp [dangerousStylePatterns, declarations]

end Xript
