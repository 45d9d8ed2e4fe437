import Xript.Sanitize.Escape

namespace Xript

def namedReferences : List (JSString × Nat) :=
  [(js "amp", 38), (js "lt", 60), (js "gt", 62), (js "quot", 34), (js "apos", 39), (js "nbsp", 0xA0)]

/-- The text a code point stands for; a NUL is replaced. -/
def codePointText (codePoint : Nat) : JSString := if codePoint = 0 then [0xFFFD] else unitsOf codePoint

/-- A character reference, by what it has between its `&` and its semicolon, and its text. -/
inductive Reference : JSString → JSString → Prop
  | decimal {digits : JSString} (digit : digits ≠ []) (all : digits.all isDigit)
      (bounded : parseDigits 10 digits ≤ 0x10FFFF) : Reference (35 :: digits) (codePointText (parseDigits 10 digits))
  | hex {x : Nat} {digits : JSString} (mark : x = 120 ∨ x = 88) (digit : digits ≠ []) (all : digits.all isHexDigit)
      (bounded : parseDigits 16 digits ≤ 0x10FFFF) : Reference (35 :: x :: digits) (codePointText (parseDigits 16 digits))
  | named {name spelled : JSString} {image : Nat} (entry : (name, image) ∈ namedReferences)
      (spelling : spelled.map asciiLower = name) : Reference spelled [image]

/-- A text with each of its references replaced, and with nothing else changed. -/
inductive Decodes : JSString → JSString → Prop
  | nil : Decodes [] []
  | reference {body image s t : JSString} (is : Reference body image) (rest : Decodes s t) :
      Decodes (38 :: body ++ 59 :: s) (image ++ t)
  | unit {u : Nat} {s t : JSString} (plain : ∀ body image after, Reference body image → u :: s ≠ 38 :: body ++ 59 :: after)
      (rest : Decodes s t) : Decodes (u :: s) (u :: t)

/-- A text that names what every object inherits as if it were a reference. -/
def NamesInherited (text : JSString) : Prop :=
  ∃ spelled : JSString, spelled.map asciiLower = js "constructor" ∧ 38 :: spelled ++ [59] <:+: text

theorem ascii_of_lower {u : Nat} (small : asciiLower u < 128) : u < 128 := by
  rw [asciiLower] at small
  split at small
  · omega
  · exact small

/-- A name whose letters fold to letters of a table. -/
theorem spelled_letters {spelled name : JSString} (spelling : spelled.map asciiLower = name) (lower : name.all isLower) :
    spelled.all isLetter ∧ toLowerCase spelled = name := by
  have small : ∀ u ∈ spelled, isLower (asciiLower u) = true := fun u member =>
    List.all_eq_true.mp lower _ (spelling ▸ List.mem_map_of_mem member)
  constructor
  · refine List.all_eq_true.mpr fun u member => ?_
    have folded := small u member
    rw [asciiLower] at folded
    rw [isLetter]
    split at folded
    · rename_i upper
      rw [upper, Bool.true_or]
    · rw [folded, Bool.or_true]
  · rw [toLowerCase_ascii fun u member => .inl (ascii_of_lower ?_), spelling]
    have folded := small u member
    rw [isLower, Bool.and_eq_true, decide_eq_true_eq, decide_eq_true_eq] at folded
    omega

theorem referenceBody_hex {x d : Nat} {digits : JSString} (s : JSString) (mark : x = 120 ∨ x = 88)
    (all : (d :: digits).all isHexDigit) : referenceBody (35 :: x :: d :: digits ++ 59 :: s) = some (35 :: x :: d :: digits, s) := by
  obtain ⟨taken, dropped⟩ := takeWhile_append_stop (s := s) all (by decide : isHexDigit 59 = false)
  simp only [List.cons_append] at taken dropped ⊢
  simp only [referenceBody, if_pos mark, taken, dropped]

theorem referenceBody_letters {spelled : JSString} (s : JSString) (written : spelled ≠ []) (letters : spelled.all isLetter) :
    referenceBody (spelled ++ 59 :: s) = some (spelled, s) := by
  obtain ⟨c, name, rfl⟩ := List.exists_cons_of_ne_nil written
  rw [List.all_cons, Bool.and_eq_true] at letters
  refine referenceBody_named s letters.1 (List.all_eq_true.mpr fun u member => ?_)
  rw [isAlphanumeric, List.all_eq_true.mp letters.2 u member, Bool.true_or]

/-- A reference is found where it stands, and decoded. -/
theorem Reference.read {body image : JSString} (is : Reference body image) (s : JSString) :
    referenceBody (body ++ 59 :: s) = some (body, s) ∧ decodeReference body = some image := by
  have text : ∀ codePoint ≤ 0x10FFFF, (if codePoint > 0x10FFFF then none else if codePoint = 0 then some [0xFFFD]
      else some (unitsOf codePoint)) = some (codePointText codePoint) := by
    intro codePoint bounded
    rw [if_neg (Nat.not_lt.mpr bounded), codePointText]
    split <;> rfl
  cases is with
  | @decimal digits digit all bounded =>
    obtain ⟨d, digits, rfl⟩ := List.exists_cons_of_ne_nil digit
    rw [List.all_cons, Bool.and_eq_true] at all
    refine ⟨referenceBody_decimal s all.1 all.2, ?_⟩
    have unmarked : ¬(d = 120 ∨ d = 88) := by
      rintro (rfl | rfl)
      · exact absurd all.1 (by decide)
      · exact absurd all.1 (by decide)
    simp only [decodeReference, referenceCodePoint, if_neg unmarked]
    exact text _ bounded
  | @hex x digits mark digit all bounded =>
    obtain ⟨d, digits, rfl⟩ := List.exists_cons_of_ne_nil digit
    refine ⟨referenceBody_hex s mark all, ?_⟩
    simp only [decodeReference, referenceCodePoint, if_pos mark]
    exact text _ bounded
  | @named name _ image entry spelling =>
    have table : ∀ entry ∈ namedReferences, entry.1.all isLower ∧ entry.1 ≠ [] ∧ namedEntity entry.1 = some [entry.2] := by
      decide +kernel
    obtain ⟨lower, nonempty, decoded⟩ := table _ entry
    obtain ⟨letters, folded⟩ := spelled_letters spelling lower
    have written : body ≠ [] := by
      rintro rfl
      exact nonempty spelling.symm
    refine ⟨referenceBody_letters s written letters, ?_⟩
    obtain ⟨c, rest, rfl⟩ := List.exists_cons_of_ne_nil written
    have notHash : c ≠ 35 := by
      rintro rfl
      rw [List.all_cons, Bool.and_eq_true] at letters
      exact absurd letters.1 (by decide)
    rw [decodeReference.eq_def]
    split
    · rename_i equal
      exact absurd (List.cons.inj equal).1 notHash
    · rw [folded, decoded]

/-- What stands between an `&` and a semicolon where the pattern matches. -/
theorem referenceBody_shape {s body rest : JSString} (read : referenceBody s = some (body, rest)) :
    (∃ x digits, (x = 120 ∨ x = 88) ∧ digits ≠ [] ∧ digits.all isHexDigit ∧ body = 35 :: x :: digits) ∨
    (∃ digits, digits ≠ [] ∧ digits.all isDigit ∧ body = 35 :: digits) ∨
    body.all isAlphanumeric ∧ body ≠ [] := by
  unfold referenceBody at read
  split at read
  · rename_i x t
    split at read
    · rename_i mark
      split at read
      · rename_i d digits _ taken _
        cases read
        exact .inl ⟨x, d :: digits, mark, nofun, taken ▸ List.all_takeWhile, rfl⟩
      · cases read
    · split at read
      · rename_i d digits _ taken _
        cases read
        exact .inr (.inl ⟨d :: digits, nofun, taken ▸ List.all_takeWhile, rfl⟩)
      · cases read
  · rename_i c t _
    split at read
    · rename_i letter
      split at read
      · cases read
        refine .inr (.inr ⟨?_, nofun⟩)
        rw [List.all_cons, isAlphanumeric, letter, Bool.true_or, Bool.true_and]
        exact List.all_takeWhile
      · cases read
    · cases read
  · cases read

theorem isAlphanumeric_plain {u : Nat} (unit : isAlphanumeric u = true) : u < 128 ∧ u ≠ 38 ∧ u ≠ 35 := by
  simp only [isAlphanumeric, isLetter, isUpper, isLower, isDigit, Bool.or_eq_true, Bool.and_eq_true,
    decide_eq_true_eq] at unit
  omega

theorem isHexDigit_plain {u : Nat} (digit : isHexDigit u = true) : u ≠ 38 := by
  rintro rfl
  cases digit

theorem isDigit_plain {u : Nat} (digit : isDigit u = true) : u ≠ 38 := by
  rintro rfl
  cases digit

theorem referenceBody_plain {s body rest : JSString} (read : referenceBody s = some (body, rest)) : 38 ∉ body := by
  intro member
  rcases referenceBody_shape read with ⟨x, digits, mark, -, all, rfl⟩ | ⟨digits, -, all, rfl⟩ | ⟨all, -⟩
  · rcases List.mem_cons.mp member with hash | inside
    · cases hash
    · rcases List.mem_cons.mp inside with rfl | digit
      · rcases mark with impossible | impossible <;> cases impossible
      · exact isHexDigit_plain (List.all_eq_true.mp all 38 digit) rfl
  · rcases List.mem_cons.mp member with hash | digit
    · cases hash
    · exact isDigit_plain (List.all_eq_true.mp all 38 digit) rfl
  · exact (isAlphanumeric_plain (List.all_eq_true.mp all 38 member)).2.1 rfl

/-- What is decoded is a reference, or the one inherited name in lower case. -/
theorem reference_of_decoded {s body rest image : JSString} (read : referenceBody s = some (body, rest))
    (decoded : decodeReference body = some image) : Reference body image ∨ body.map asciiLower = js "constructor" := by
  have text : ∀ codePoint, (if codePoint > 0x10FFFF then none else if codePoint = 0 then some [0xFFFD]
      else some (unitsOf codePoint)) = some image → codePoint ≤ 0x10FFFF ∧ image = codePointText codePoint := by
    intro codePoint found
    rw [codePointText]
    split at found
    · cases found
    · rename_i bounded
      refine ⟨Nat.not_lt.mp bounded, ?_⟩
      split at found
      · rename_i zero
        rw [if_pos zero, Option.some.inj found]
      · rename_i positive
        rw [if_neg positive, Option.some.inj found]
  rcases referenceBody_shape read with ⟨x, digits, mark, digit, all, rfl⟩ | ⟨digits, digit, all, rfl⟩ | ⟨all, written⟩
  · simp only [decodeReference, referenceCodePoint, if_pos mark] at decoded
    obtain ⟨bounded, rfl⟩ := text _ decoded
    exact .inl (.hex mark digit all bounded)
  · obtain ⟨d, rest, rfl⟩ := List.exists_cons_of_ne_nil digit
    have unmarked : ¬(d = 120 ∨ d = 88) := by
      rintro (rfl | rfl)
      · cases (List.all_eq_true.mp all _ List.mem_cons_self)
      · cases (List.all_eq_true.mp all _ List.mem_cons_self)
    simp only [decodeReference, referenceCodePoint, if_neg unmarked] at decoded
    obtain ⟨bounded, rfl⟩ := text _ decoded
    exact .inl (.decimal digit all bounded)
  · have units := fun u member => isAlphanumeric_plain (List.all_eq_true.mp all u member)
    have named : namedEntity (body.map asciiLower) = some image := by
      rw [← toLowerCase_ascii fun u member => .inl (units u member).1, ← decoded, decodeReference.eq_def]
      split
      · exact absurd rfl (units 35 List.mem_cons_self).2.2
      · rfl
    have table : ∀ entry ∈ [(js "amp", [38]), (js "lt", [60]), (js "gt", [62]), (js "quot", [34]), (js "apos", [39]),
        (js "nbsp", [0xA0]), (js "constructor", js "function Object() \x7b [native code] \x7d")],
        entry.1 = js "constructor" ∨ (entry.1, entry.2.headD 0) ∈ namedReferences ∧ entry.2 = [entry.2.headD 0] := by
      decide +kernel
    obtain ⟨before, after, whole, -⟩ := List.lookup_eq_some_iff.mp named
    have entry := table (body.map asciiLower, image) (by rw [whole]; simp)
    rcases entry with inherited | ⟨member, single⟩
    · exact .inr inherited
    · dsimp only at member single
      rw [single]
      exact .inl (.named member rfl)

theorem Reference.not_inherited {body image : JSString} (is : Reference body image) :
    body.map asciiLower ≠ js "constructor" := by
  cases is with
  | decimal | hex => nofun
  | @named name _ image entry spelling =>
    have table : ∀ entry ∈ namedReferences, entry.1 ≠ js "constructor" := by decide
    rw [spelling]
    exact table _ entry

namespace Decodes

theorem plain {p s t : JSString} (absent : 38 ∉ p) (rest : Decodes s t) : Decodes (p ++ s) (p ++ t) := by
  induction p with
  | nil => exact rest
  | cons u p ih =>
    rw [List.mem_cons, not_or] at absent
    exact .unit (fun body image after _ same => absent.1 (List.cons.inj same).1.symm) (ih absent.2)

/-- A text decodes in one way only. -/
theorem unique {s t other : JSString} (first : Decodes s t) (second : Decodes s other) : t = other := by
  induction first generalizing other with
  | nil =>
    cases second
    rfl
  | @reference body image s t is rest ih =>
    generalize whole : 38 :: body ++ 59 :: s = text at second
    cases second with
    | nil => cases whole
    | @reference body' image' s' t' is' rest' =>
      have bodies : body ++ 59 :: s = body' ++ 59 :: s' := (List.cons.inj whole).2
      obtain ⟨read, decoded⟩ := is.read s
      obtain ⟨read', decoded'⟩ := is'.read s'
      rw [← bodies, read] at read'
      cases read'
      rw [decoded] at decoded'
      cases decoded'
      rw [ih rest']
    | unit plain rest' => exact absurd whole.symm (plain _ _ _ is)
  | @unit u s t plain rest ih =>
    generalize whole : u :: s = text at second
    cases second with
    | nil => cases whole
    | reference is' rest' => exact absurd whole (plain _ _ _ is')
    | unit plain' rest' =>
      cases whole
      rw [ih rest']

end Decodes

theorem infix_plain_append {x p s : JSString} (absent : 38 ∉ p) : 38 :: x <:+: p ++ s ↔ 38 :: x <:+: s := by
  induction p with
  | nil => rfl
  | cons u p ih =>
    rw [List.mem_cons, not_or] at absent
    rw [List.cons_append, List.infix_cons_iff, ih absent.2, or_iff_right]
    intro starts
    exact absent.1 (List.cons_prefix_cons.mp starts).1

theorem spelled_constructor {spelled : JSString} (spelling : spelled.map asciiLower = js "constructor") (s : JSString) :
    referenceBody (spelled ++ 59 :: s) = some (spelled, s) ∧
      decodeReference spelled = some (js "function Object() \x7b [native code] \x7d") := by
  obtain ⟨letters, folded⟩ := spelled_letters spelling (by decide)
  have written : spelled ≠ [] := by
    rintro rfl
    cases spelling
  refine ⟨referenceBody_letters s written letters, ?_⟩
  rw [decodeReference.eq_def]
  split
  · cases spelling
  · rw [folded]
    decide +kernel

/-- After an `&` with a name or a number and a semicolon, an inherited name stands there or later. -/
theorem namesInherited_reference {body s : JSString} (read : referenceBody (body ++ 59 :: s) = some (body, s)) :
    NamesInherited (38 :: body ++ 59 :: s) ↔ body.map asciiLower = js "constructor" ∨ NamesInherited s := by
  have absent : 38 ∉ body ++ [59] := by
    rw [List.mem_append, not_or]
    exact ⟨referenceBody_plain read, by decide⟩
  have shape : 38 :: body ++ 59 :: s = 38 :: (body ++ [59] ++ s) := by simp
  have later : ∀ x : JSString, 38 :: x <:+: body ++ [59] ++ s ↔ 38 :: x <:+: s := fun x => infix_plain_append absent
  constructor
  · rintro ⟨spelled, spelling, inside⟩
    rw [shape, List.cons_append, List.infix_cons_iff, later] at inside
    rcases inside with ⟨after, starts⟩ | inside
    · have same : spelled ++ 59 :: after = body ++ 59 :: s := by simpa using starts
      have found := (spelled_constructor spelling after).1
      rw [same, read] at found
      cases found
      exact .inl spelling
    · exact .inr ⟨spelled, spelling, inside⟩
  · rintro (spelling | ⟨spelled, spelling, inside⟩)
    · exact ⟨body, spelling, [], s, by simp⟩
    · refine ⟨spelled, spelling, ?_⟩
      rw [shape, List.cons_append, List.infix_cons_iff, later]
      exact .inr inside

theorem decodeEntities_missed {u : Nat} {s : JSString} (missed : referenceRest (u :: s) = none) :
    decodeEntities (u :: s) = u :: decodeEntities s := by
  refine referencePattern.replaceAll_of_no_match _ ?_
  simp only [referencePattern, Pattern.ofRest, missed, Option.map_none]

/-- Every text decodes, to what `decodeEntities` makes of it exactly where it names nothing inherited. -/
theorem decodes_total (text : JSString) : ∃ t, Decodes text t ∧
    (NamesInherited text → t.length < (decodeEntities text).length) ∧ (¬ NamesInherited text → t = decodeEntities text) := by
  induction length : text.length using Nat.strongRecOn generalizing text with
  | _ n ih =>
    cases text with
    | nil => exact ⟨[], .nil, fun ⟨spelled, _, inside⟩ => by simp at inside, fun _ => rfl⟩
    | cons u s =>
      rw [List.length_cons] at length
      -- A unit that no reference starts at is copied.
      have copied : referenceRest (u :: s) = none → ∃ t, Decodes (u :: s) t ∧
          (NamesInherited (u :: s) → t.length < (decodeEntities (u :: s)).length) ∧
          (¬ NamesInherited (u :: s) → t = decodeEntities (u :: s)) := by
        intro missed
        obtain ⟨t, decodes, longer, same⟩ := ih s.length (by omega) s rfl
        have plain : ∀ body after, u :: s = 38 :: body ++ 59 :: after → referenceBody (body ++ 59 :: after) = none := by
          rintro body after whole
          rw [whole] at missed
          exact Option.map_eq_none_iff.mp missed
        have starts : NamesInherited (u :: s) ↔ NamesInherited s := by
          refine exists_congr fun spelled => and_congr_right fun spelling => ?_
          rw [List.infix_cons_iff, or_iff_right]
          rintro ⟨after, whole⟩
          have found := (spelled_constructor spelling after).1
          cases found.symm.trans (plain spelled after (by rw [← whole]; simp))
        rw [decodeEntities_missed missed, starts]
        refine ⟨u :: t, .unit (fun body image after is whole => ?_) decodes, fun inherited => ?_, fun clean => ?_⟩
        · cases (is.read after).1.symm.trans (plain body after whole)
        · exact Nat.succ_lt_succ (longer inherited)
        · rw [same clean]
      cases found : referenceRest (u :: s) with
      | none => exact copied found
      | some rest =>
        unfold referenceRest at found
        split at found
        · rename_i s equal
          cases equal
          obtain ⟨⟨body, rest⟩, read, equal⟩ := Option.map_eq_some_iff.mp found
          cases equal
          obtain rfl := referenceBody_split read
          have shorter : rest.length < n := by
            rw [← length, List.length_append, List.length_cons]
            omega
          obtain ⟨t, decodes, longer, same⟩ := ih rest.length shorter rest rfl
          have shorten : t.length ≤ (decodeEntities rest).length := by
            by_cases inherited : NamesInherited rest
            · exact (longer inherited).le
            · rw [same inherited]
          -- A match that is no reference is copied unit by unit.
          have kept : (∀ image, ¬ Reference body image) → Decodes (38 :: body ++ 59 :: rest) (38 :: body ++ 59 :: t) := by
            intro none
            have inside : Decodes (body ++ [59] ++ rest) (body ++ [59] ++ t) := by
              refine decodes.plain ?_
              rw [List.mem_append, not_or]
              exact ⟨referenceBody_plain read, by decide⟩
            rw [List.append_assoc, List.append_assoc] at inside
            refine .unit (fun other image after is whole => ?_) inside
            have bodies : body ++ 59 :: rest = other ++ 59 :: after := (List.cons.inj whole).2
            have reread := (is.read after).1
            rw [← bodies, read] at reread
            cases reread
            exact none image is
          rw [← List.cons_append, namesInherited_reference read, decodeEntities_matched rest read]
          cases decoded : decodeReference body with
          | none =>
            have unknown : body.map asciiLower ≠ js "constructor" := fun spelling => by
              cases decoded.symm.trans (spelled_constructor spelling rest).2
            rw [Option.getD_none, or_iff_right unknown]
            refine ⟨_, kept fun image is => ?_, fun inherited => ?_, fun clean => ?_⟩
            · cases decoded.symm.trans (is.read rest).2
            · have := longer inherited
              simp only [List.length_append, List.length_cons, List.length_nil]
              omega
            · rw [← same clean]
              simp
          | some image =>
            rw [Option.getD_some]
            rcases reference_of_decoded read decoded with is | spelling
            · rw [or_iff_right is.not_inherited]
              refine ⟨_, .reference is decodes, fun inherited => ?_, fun clean => by rw [same clean]⟩
              rw [List.length_append, List.length_append]
              exact Nat.add_lt_add_left (longer inherited) _
            · refine ⟨_, kept fun image is => is.not_inherited spelling, fun _ => ?_, fun clean => absurd (.inl spelling) clean⟩
              have counted : body.length = 11 := by
                rw [← List.length_map (f := asciiLower), spelling]
                rfl
              cases decoded.symm.trans (spelled_constructor spelling rest).2
              have image : (js "function Object() \x7b [native code] \x7d").length = 35 := by decide
              simp only [List.length_append, List.length_cons, image, counted]
              omega
        · cases found

/-- Decoding replaces the references of a text and nothing else, and undoes the escaping of texts and of attribute values,
exactly where the text does not name what every object inherits. -/
theorem decodeEntities_decodes_iff (text : JSString) :
    (Decodes text (decodeEntities text) ∧ decodeEntities (escapeHtml text) = text ∧
      decodeEntities (escapeAttrValue text) = text) ↔ ¬ NamesInherited text := by
  obtain ⟨t, decodes, longer, same⟩ := decodes_total text
  constructor
  · rintro ⟨exact, -, -⟩ inherited
    have shorter := longer inherited
    rw [decodes.unique exact] at shorter
    exact shorter.false
  · intro clean
    exact ⟨same clean ▸ decodes, decode_escapeHtml text, decode_escapeAttrValue text⟩

/-- `&constructor;` is no reference, and is replaced. -/
theorem decodeEntities_inherited : ¬ ∀ text, Decodes text (decodeEntities text) ∧
    decodeEntities (escapeHtml text) = text ∧ decodeEntities (escapeAttrValue text) = text := by
  intro all
  obtain ⟨t, decodes, longer, -⟩ := decodes_total (js "&constructor;")
  have shorter := longer ⟨js "constructor", by decide, by decide⟩
  rw [decodes.unique (all (js "&constructor;")).1] at shorter
  exact shorter.false

end Xript
