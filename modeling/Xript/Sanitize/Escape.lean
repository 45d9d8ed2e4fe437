import Xript.Sanitize.Tokenizer
import Xript.Sanitize.Tree

namespace Xript

def escapeHtmlUnit (u : Nat) : JSString :=
  if u = 38 then js "&amp;" else if u = 60 then js "&lt;" else if u = 62 then js "&gt;" else [u]

def escapeAttrUnit (u : Nat) : JSString :=
  if u = 34 then js "&quot;" else if u = 39 then js "&#39;" else escapeHtmlUnit u

theorem escapeHtml_eq (text : JSString) : escapeHtml text = text.flatMap escapeHtmlUnit := by
  induction text with
  | nil => rfl
  | cons u text ih =>
    rw [List.flatMap_cons, ← ih]
    simp only [escapeHtml, replaceUnit_cons, replaceUnit_append]
    congr 1
    unfold escapeHtmlUnit
    by_cases amp : u = 38
    · subst amp
      decide
    · by_cases lt : u = 60
      · subst lt
        decide
      · simp [amp, lt, replaceUnit]

theorem escapeAttrValue_eq (value : JSString) : escapeAttrValue value = value.flatMap escapeAttrUnit := by
  induction value with
  | nil => rfl
  | cons u value ih =>
    rw [List.flatMap_cons, ← ih]
    simp only [escapeAttrValue, replaceUnit_cons, replaceUnit_append]
    congr 1
    unfold escapeAttrUnit escapeHtmlUnit
    by_cases amp : u = 38
    · subst amp
      decide
    · by_cases quot : u = 34
      · subst quot
        decide
      · by_cases apos : u = 39
        · subst apos
          decide
        · by_cases lt : u = 60
          · subst lt
            decide
          · simp [amp, quot, apos, lt, replaceUnit]

theorem decodeEntities_cons {u : Nat} (s : JSString) (plain : u ≠ 38) :
    decodeEntities (u :: s) = u :: decodeEntities s := by
  refine referencePattern.replaceAll_of_no_match _ ?_
  simp only [referencePattern, Pattern.ofRest, Option.map_eq_none_iff]
  unfold referenceRest
  split
  · rename_i t equal
    exact absurd (List.cons.inj equal).1 plain
  · rfl

/-- A match is replaced by the text of its reference, or left as it stands. -/
theorem decodeEntities_matched {body : JSString} (s : JSString) (read : referenceBody (body ++ 59 :: s) = some (body, s)) :
    decodeEntities (38 :: body ++ 59 :: s) = (decodeReference body).getD (38 :: body ++ [59]) ++ decodeEntities s := by
  have found : referencePattern.matchAt (38 :: body ++ 59 :: s) = some (38 :: body ++ [59], s) := by
    have rest : referenceRest (38 :: body ++ 59 :: s) = some s := by
      simp only [List.cons_append, referenceRest, read, Option.map_some]
    simp only [referencePattern, Pattern.ofRest, rest, Option.map_some]
    congr 2
    have length : (38 :: body ++ 59 :: s).length - s.length = (38 :: body ++ [59]).length := by
      simp only [List.cons_append, List.length_cons, List.length_append, List.length_nil]
      omega
    have whole : 38 :: body ++ 59 :: s = (38 :: body ++ [59]) ++ s := by simp
    rw [length, whole, List.take_left]
  have image_eq : decodeMatch (38 :: body ++ [59]) = (decodeReference body).getD (38 :: body ++ [59]) := by
    simp [decodeMatch]
  rw [decodeEntities, referencePattern.replaceAll_of_match _ found, image_eq]
  rfl

/-- A reference that is spelled in full decodes to its text. -/
theorem decodeEntities_reference {body image : JSString} (s : JSString)
    (read : referenceBody (body ++ 59 :: s) = some (body, s)) (decoded : decodeReference body = some image) :
    decodeEntities (38 :: body ++ 59 :: s) = image ++ decodeEntities s := by
  rw [decodeEntities_matched s read, decoded, Option.getD_some]

theorem takeWhile_append_stop {α : Type} {p : α → Bool} {run : List α} {stop : α} {s : List α} (all : run.all p)
    (stops : p stop = false) :
    (run ++ stop :: s).takeWhile p = run ∧ (run ++ stop :: s).dropWhile p = stop :: s := by
  have inside := List.all_eq_true.mp all
  refine ⟨?_, ?_⟩
  · rw [List.takeWhile_append_of_pos inside, List.takeWhile_cons_of_neg (by simp [stops]), List.append_nil]
  · rw [List.dropWhile_append_of_pos inside, List.dropWhile_cons_of_neg (by simp [stops])]

theorem referenceBody_named {c : Nat} {name : JSString} (s : JSString) (letter : isLetter c = true)
    (rest : name.all isAlphanumeric) : referenceBody (c :: name ++ 59 :: s) = some (c :: name, s) := by
  obtain ⟨taken, dropped⟩ := takeWhile_append_stop (s := s) rest (by decide : isAlphanumeric 59 = false)
  have notHash : c ≠ 35 := by
    rintro rfl
    exact absurd letter (by decide)
  rw [List.cons_append, referenceBody.eq_def]
  split
  · rename_i equal
    exact absurd (List.cons.inj equal).1 notHash
  · rename_i equal
    cases equal
    rw [if_pos letter, dropped, taken]
    rfl
  · rename_i equal
    cases equal

theorem referenceBody_decimal {d : Nat} {digits : JSString} (s : JSString) (first : isDigit d = true)
    (rest : digits.all isDigit) : referenceBody (35 :: d :: digits ++ 59 :: s) = some (35 :: d :: digits, s) := by
  have all : (d :: digits).all isDigit := by
    rw [List.all_cons, first, rest]
    rfl
  obtain ⟨taken, dropped⟩ := takeWhile_append_stop (s := s) all (by decide : isDigit 59 = false)
  have notHex : ¬(d = 120 ∨ d = 88) := by
    rintro (rfl | rfl)
    · exact absurd first (by decide)
    · exact absurd first (by decide)
  simp only [List.cons_append] at taken dropped ⊢
  simp only [referenceBody, if_neg notHex, taken, dropped]

theorem decode_escapeHtmlUnit (u : Nat) (s : JSString) :
    decodeEntities (escapeHtmlUnit u ++ s) = u :: decodeEntities s := by
  have named (c : Nat) (name : JSString) (image : Nat) (letter : isLetter c = true) (rest : name.all isAlphanumeric)
      (decoded : decodeReference (c :: name) = some [image]) :
      decodeEntities (38 :: c :: name ++ 59 :: s) = image :: decodeEntities s :=
    decodeEntities_reference s (referenceBody_named s letter rest) decoded
  unfold escapeHtmlUnit
  split
  · rename_i amp
    subst amp
    exact named 97 (js "mp") 38 (by decide) (by decide) (by decide +kernel)
  · split
    · rename_i lt
      subst lt
      exact named 108 (js "t") 60 (by decide) (by decide) (by decide +kernel)
    · split
      · rename_i gt
        subst gt
        exact named 103 (js "t") 62 (by decide) (by decide) (by decide +kernel)
      · rename_i plain _ _
        exact decodeEntities_cons s plain

theorem decode_escapeAttrUnit (u : Nat) (s : JSString) :
    decodeEntities (escapeAttrUnit u ++ s) = u :: decodeEntities s := by
  unfold escapeAttrUnit
  split
  · rename_i quot
    subst quot
    have read : referenceBody (js "quot" ++ 59 :: s) = some (js "quot", s) :=
      referenceBody_named s (by decide) (by decide)
    have decoded : decodeReference (js "quot") = some [34] := by decide +kernel
    exact decodeEntities_reference s read decoded
  · split
    · rename_i apos
      subst apos
      have read : referenceBody (js "#39" ++ 59 :: s) = some (js "#39", s) :=
        referenceBody_decimal s (by decide) (by decide)
      have decoded : decodeReference (js "#39") = some [39] := by decide +kernel
      exact decodeEntities_reference s read decoded
    · exact decode_escapeHtmlUnit u s

/-- Decoding undoes the escaping of text. -/
theorem decode_escapeHtml (text : JSString) : decodeEntities (escapeHtml text) = text := by
  rw [escapeHtml_eq]
  induction text with
  | nil => rfl
  | cons u text ih => rw [List.flatMap_cons, decode_escapeHtmlUnit, ih]

/-- Decoding undoes the escaping of attribute values. -/
theorem decode_escapeAttrValue (value : JSString) : decodeEntities (escapeAttrValue value) = value := by
  rw [escapeAttrValue_eq]
  induction value with
  | nil => rfl
  | cons u value ih => rw [List.flatMap_cons, decode_escapeAttrUnit, ih]

def escapeReferences : List JSString := ["&amp;", "&lt;", "&gt;", "&quot;", "&#39;"].map js

theorem escapeReferences_units : ∀ name ∈ escapeReferences, ∀ v ∈ name, v ≠ 60 ∧ v ≠ 34 ∧ v ≠ 0 := by decide

theorem escapeHtmlUnit_cases (u : Nat) :
    escapeHtmlUnit u ∈ escapeReferences ∨ escapeHtmlUnit u = [u] ∧ u ≠ 60 := by
  unfold escapeHtmlUnit
  split
  · exact .inl (by decide)
  · split
    · exact .inl (by decide)
    · rename_i lt
      split
      · exact .inl (by decide)
      · exact .inr ⟨rfl, lt⟩

theorem escapeAttrUnit_cases (u : Nat) :
    escapeAttrUnit u ∈ escapeReferences ∨ escapeAttrUnit u = [u] ∧ u ≠ 34 := by
  unfold escapeAttrUnit
  split
  · exact .inl (by decide)
  · rename_i quot
    split
    · exact .inl (by decide)
    · exact (escapeHtmlUnit_cases u).imp_right fun plain => ⟨plain.1, quot⟩

theorem mem_escapeHtmlUnit {u v : Nat} (member : v ∈ escapeHtmlUnit u) : v ≠ 60 ∧ (v = 0 → u = 0) := by
  rcases escapeHtmlUnit_cases u with reference | ⟨plain, lt⟩
  · obtain ⟨noLt, -, noNull⟩ := escapeReferences_units _ reference v member
    exact ⟨noLt, fun null => absurd null noNull⟩
  · rw [plain, List.mem_singleton] at member
    subst member
    exact ⟨lt, id⟩

theorem mem_escapeAttrUnit {u v : Nat} (member : v ∈ escapeAttrUnit u) : v ≠ 34 ∧ (v = 0 → u = 0) := by
  rcases escapeAttrUnit_cases u with reference | ⟨plain, quot⟩
  · obtain ⟨-, noQuot, noNull⟩ := escapeReferences_units _ reference v member
    exact ⟨noQuot, fun null => absurd null noNull⟩
  · rw [plain, List.mem_singleton] at member
    subst member
    exact ⟨quot, id⟩

/-- Escaped text holds no `<`. -/
theorem lt_notMem_escapeHtml (text : JSString) : 60 ∉ escapeHtml text := by
  rw [escapeHtml_eq, List.mem_flatMap]
  rintro ⟨u, -, member⟩
  exact (mem_escapeHtmlUnit member).1 rfl

/-- An escaped attribute value holds no quote. -/
theorem quot_notMem_escapeAttrValue (value : JSString) : 34 ∉ escapeAttrValue value := by
  rw [escapeAttrValue_eq, List.mem_flatMap]
  rintro ⟨u, -, member⟩
  exact (mem_escapeAttrUnit member).1 rfl

theorem null_notMem_escapeHtml {text : JSString} (absent : 0 ∉ text) : 0 ∉ escapeHtml text := by
  rw [escapeHtml_eq, List.mem_flatMap]
  rintro ⟨u, inside, member⟩
  exact absent ((mem_escapeHtmlUnit member).2 rfl ▸ inside)

theorem null_notMem_escapeAttrValue {value : JSString} (absent : 0 ∉ value) : 0 ∉ escapeAttrValue value := by
  rw [escapeAttrValue_eq, List.mem_flatMap]
  rintro ⟨u, inside, member⟩
  exact absent ((mem_escapeAttrUnit member).2 rfl ▸ inside)

@[simp] theorem escapeHtml_append (s t : JSString) : escapeHtml (s ++ t) = escapeHtml s ++ escapeHtml t := by
  simp only [escapeHtml_eq, List.flatMap_append]

theorem escapeHtml_eq_nil {text : JSString} : escapeHtml text = [] ↔ text = [] := by
  constructor
  · intro empty
    have decoded := decode_escapeHtml text
    rw [empty] at decoded
    exact decoded.symm
  · rintro rfl
    rfl

end Xript
