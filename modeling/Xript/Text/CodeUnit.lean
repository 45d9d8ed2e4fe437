import Mathlib.Data.List.Infix
import Mathlib.Data.List.DropRight

namespace Xript

/-- A JavaScript string: a list of UTF-16 code units in which surrogates need not be paired. -/
abbrev JSString := List Nat

instance : LawfulBEq JSString := inferInstanceAs (LawfulBEq (List Nat))

instance lawfulBEqChars : LawfulBEq (List Char) := List.instLawfulBEq

/-- The code units of one code point, as `String.fromCodePoint` spells it. A surrogate code
point is its own unit. -/
def unitsOf (c : Nat) : JSString :=
  if c < 0x10000 then [c]
  else [0xD800 + (c - 0x10000) / 0x400, 0xDC00 + (c - 0x10000) % 0x400]

/-- The UTF-16 encoding of a string of Unicode scalar values. -/
def utf16 (s : List Char) : JSString := s.flatMap fun c => unitsOf c.toNat

/-- A source literal as a JavaScript string. -/
def js (s : String) : JSString := utf16 s.toList

@[simp] theorem utf16_nil : utf16 [] = [] := rfl

@[simp] theorem utf16_cons (c : Char) (s : List Char) : utf16 (c :: s) = unitsOf c.toNat ++ utf16 s := rfl

@[simp] theorem utf16_append (s t : List Char) : utf16 (s ++ t) = utf16 s ++ utf16 t := by
  simp only [utf16, List.flatMap_append]

theorem unitsOf_ne_nil (c : Nat) : unitsOf c ≠ [] := by
  unfold unitsOf
  split <;> simp

/-- No character's units begin with another's. -/
theorem unitsOf_append_inj {c d : Char} {s t : JSString} (same : unitsOf c.toNat ++ s = unitsOf d.toNat ++ t) :
    c = d ∧ s = t := by
  have scalar : ∀ c : Char, c.toNat < 0xD800 ∨ (0xDFFF < c.toNat ∧ c.toNat < 0x110000) := fun c => c.valid
  have validC := scalar c
  have validD := scalar d
  unfold unitsOf at same
  split at same <;> split at same
  · obtain ⟨equal, rest⟩ := List.cons.inj same
    exact ⟨Char.toNat_inj.mp equal, rest⟩
  · obtain ⟨equal, -⟩ := List.cons.inj same
    omega
  · obtain ⟨equal, -⟩ := List.cons.inj same
    omega
  · simp only [List.cons_append, List.cons.injEq, List.nil_append] at same
    obtain ⟨high, low, rest⟩ := same
    exact ⟨Char.toNat_inj.mp (by omega), rest⟩

theorem utf16_prefix_iff {s t : List Char} : utf16 s <+: utf16 t ↔ s <+: t := by
  constructor
  · intro inside
    induction s generalizing t with
    | nil => exact List.nil_prefix
    | cons c s ih =>
      obtain ⟨rest, same⟩ := inside
      cases t with
      | nil => exact absurd (List.append_eq_nil_iff.mp (List.append_eq_nil_iff.mp same).1).1 (unitsOf_ne_nil c.toNat)
      | cons d t =>
        rw [utf16_cons, utf16_cons, List.append_assoc] at same
        obtain ⟨rfl, tail⟩ := unitsOf_append_inj same
        exact List.cons_prefix_cons.mpr ⟨rfl, ih ⟨rest, tail⟩⟩
  · rintro ⟨rest, rfl⟩
    exact ⟨utf16 rest, (utf16_append s rest).symm⟩

theorem utf16_inj {s t : List Char} : utf16 s = utf16 t ↔ s = t := by
  constructor
  · intro same
    have forth : s <+: t := utf16_prefix_iff.1 ⟨[], by rw [List.append_nil, same]⟩
    have back : t <+: s := utf16_prefix_iff.1 ⟨[], by rw [List.append_nil, same]⟩
    exact forth.eq_of_length_le back.length_le
  · exact congrArg utf16

/-- The code points of a string; an unpaired surrogate stands for itself. -/
def codePoints : JSString → List Nat
  | hi :: lo :: s =>
    if (0xD800 ≤ hi ∧ hi < 0xDC00) ∧ (0xDC00 ≤ lo ∧ lo < 0xE000) then
      (0x10000 + (hi - 0xD800) * 0x400 + (lo - 0xDC00)) :: codePoints s
    else hi :: codePoints (lo :: s)
  | [u] => [u]
  | [] => []

/-- JavaScript's `\s`, the set `String.prototype.trim` strips: WhiteSpace and LineTerminator. -/
def isSpace (u : Nat) : Bool :=
  (9 ≤ u && u ≤ 13) || u == 0x20 || u == 0xA0 || u == 0x1680 || (0x2000 ≤ u && u ≤ 0x200A) ||
    u == 0x2028 || u == 0x2029 || u == 0x202F || u == 0x205F || u == 0x3000 || u == 0xFEFF

theorem isSpace_of_graphic {u : Nat} (above : 0x20 < u) (below : u < 0x7F) : isSpace u = false := by
  simp only [isSpace, Bool.or_eq_false_iff, Bool.and_eq_false_iff, decide_eq_false_iff_not, beq_eq_false_iff_ne]
  omega

/-- `String.prototype.trim`. -/
def trim (s : JSString) : JSString := (s.dropWhile isSpace).rdropWhile isSpace

/-- Stripping both ends again changes nothing. -/
theorem strip_idem (q : Nat → Bool) (s : JSString) :
    ((((s.dropWhile q).rdropWhile q).dropWhile q).rdropWhile q) = (s.dropWhile q).rdropWhile q := by
  have start : ((s.dropWhile q).rdropWhile q).dropWhile q = (s.dropWhile q).rdropWhile q := by
    cases inner : (s.dropWhile q).rdropWhile q with
    | nil => rfl
    | cons c t =>
      obtain ⟨rest, split⟩ := List.rdropWhile_prefix q (s.dropWhile q)
      rw [inner, List.cons_append] at split
      have nonempty : s.dropWhile q ≠ [] := by
        rw [← split]
        exact List.cons_ne_nil _ _
      have first := List.head_dropWhile_not q nonempty
      simp only [← split, List.head_cons] at first
      exact List.dropWhile_cons_of_neg (by simp [first])
  rw [start, List.rdropWhile_idempotent]

theorem trim_idem (s : JSString) : trim (trim s) = trim s := strip_idem isSpace s

theorem trim_eq_nil {s : JSString} : trim s = [] ↔ s.all isSpace := by
  rw [trim, List.rdropWhile_eq_nil_iff, List.all_eq_true]
  constructor
  · intro inner u member
    rw [← List.takeWhile_append_dropWhile (p := isSpace) (l := s), List.mem_append] at member
    exact member.elim (fun first => List.all_eq_true.mp List.all_takeWhile u first) (inner u)
  · intro all u member
    exact all u ((List.dropWhile_suffix isSpace).subset member)

theorem trim_within (s : JSString) : trim s <:+: s :=
  (List.rdropWhile_prefix isSpace _).isInfix.trans (List.dropWhile_suffix isSpace).isInfix

theorem trim_split (s : JSString) :
    ∃ after : JSString, after.all isSpace ∧ s = s.takeWhile isSpace ++ trim s ++ after := by
  refine ⟨(s.dropWhile isSpace).rtakeWhile isSpace, ?_, ?_⟩
  · exact List.all_eq_true.mpr fun u member => List.mem_rtakeWhile_imp member
  · rw [trim, List.append_assoc, List.rdropWhile_append_rtakeWhile, List.takeWhile_append_dropWhile]

theorem trim_head {s t : JSString} {c : Nat} (first : trim s = c :: t) : isSpace c = false := by
  obtain ⟨rest, split⟩ := List.rdropWhile_prefix isSpace (s.dropWhile isSpace)
  rw [trim] at first
  rw [first, List.cons_append] at split
  have nonempty : s.dropWhile isSpace ≠ [] := by
    rw [← split]
    nofun
  have head := List.head_dropWhile_not isSpace nonempty
  simp only [← split, List.head_cons] at head
  exact head

/-- The white space before what is left of a text that is not blank. -/
theorem trim_before {s before after : JSString} (space : before.all isSpace) (split : s = before ++ trim s ++ after)
    (solid : trim s ≠ []) : before = s.takeWhile isSpace := by
  obtain ⟨c, t, shape⟩ := List.exists_cons_of_ne_nil solid
  have stop : (c :: (t ++ after)).takeWhile isSpace = [] := List.takeWhile_cons_of_neg (by rw [trim_head shape]; simp)
  have whole : s = before ++ (c :: (t ++ after)) := by
    rwa [shape, List.append_assoc, List.cons_append] at split
  rw [whole, List.takeWhile_append_of_pos (List.all_eq_true.mp space), stop, List.append_nil]

def isUpper (u : Nat) : Bool := 65 ≤ u && u ≤ 90

def isLower (u : Nat) : Bool := 97 ≤ u && u ≤ 122

def isDigit (u : Nat) : Bool := 48 ≤ u && u ≤ 57

def isLetter (u : Nat) : Bool := isUpper u || isLower u

def isHexDigit (u : Nat) : Bool := isDigit u || (65 ≤ u && u ≤ 70) || (97 ≤ u && u ≤ 102)

def asciiLower (u : Nat) : Nat := if isUpper u then u + 32 else u

@[simp] theorem asciiLower_idem (u : Nat) : asciiLower (asciiLower u) = asciiLower u := by
  simp only [asciiLower, isUpper]
  grind

theorem asciiLower_le (u : Nat) : asciiLower u ≤ u + 32 := by
  unfold asciiLower
  split <;> omega

/-- `s.replace(/u/g, r)` for one code unit. -/
def replaceUnit (u : Nat) (r : JSString) (s : JSString) : JSString :=
  s.flatMap fun c => if c = u then r else [c]

@[simp] theorem replaceUnit_nil (u : Nat) (r : JSString) : replaceUnit u r [] = [] := rfl

@[simp] theorem replaceUnit_cons (u : Nat) (r : JSString) (c : Nat) (s : JSString) :
    replaceUnit u r (c :: s) = (if c = u then r else [c]) ++ replaceUnit u r s := rfl

@[simp] theorem replaceUnit_append (u : Nat) (r s t : JSString) :
    replaceUnit u r (s ++ t) = replaceUnit u r s ++ replaceUnit u r t := by
  simp only [replaceUnit, List.flatMap_append]

theorem replaceUnit_of_not_mem {u : Nat} {r s : JSString} (absent : u ∉ s) : replaceUnit u r s = s := by
  induction s with
  | nil => rfl
  | cons c s ih =>
    rw [List.mem_cons, not_or] at absent
    rw [replaceUnit_cons, if_neg (Ne.symm absent.1), ih absent.2, List.singleton_append]

end Xript
