import Xript.Text.CaseTables
import Xript.Text.CodeUnit

namespace Xript

def inRanges (ranges : List (Nat × Nat)) (c : Nat) : Bool :=
  ranges.any fun r => r.1 ≤ c && c ≤ r.2

/-- The image of a code point outside ASCII under a table of simple case mappings. -/
def mapRanges (ranges : List CaseRange) (c : Nat) : Nat :=
  match ranges.find? (·.contains c) with
  | some r => r.image + (c - r.first)
  | none => c

/-- Whether the nearest code point that is not `Case_Ignorable` is `Cased`. -/
def nextCased : List Nat → Bool
  | [] => false
  | c :: s => if inRanges caseIgnorableRanges c then nextCased s else inRanges casedRanges c

/-- The full lower-case mapping of `c` standing between `before`, nearest first, and `after`. Only
the capital sigma reads its context: it is final after a cased letter and before none. -/
def lowerAt (before : List Nat) (c : Nat) (after : List Nat) : List Nat :=
  if c < 128 then [asciiLower c]
  else if c = 0x3A3 then (if nextCased before && !nextCased after then [0x3C2] else [0x3C3])
  else if c = 0x130 then [0x69, 0x307]
  else [mapRanges lowerRanges c]

def lowerFrom (before : List Nat) : List Nat → List Nat
  | [] => []
  | c :: s => lowerAt before c s ++ lowerFrom (c :: before) s

/-- Unicode's default lower-case conversion of a list of code points. -/
def lowerCodePoints (s : List Nat) : List Nat := lowerFrom [] s

def upperOf (c : Nat) : List Nat :=
  if c < 128 then [if isLower c then c - 32 else c]
  else match upperSpecial.lookup c with
    | some image => image
    | none => [mapRanges upperRanges c]

/-- Unicode's default upper-case conversion of a list of code points. -/
def upperCodePoints (s : List Nat) : List Nat := s.flatMap upperOf

/-- `String.prototype.toLowerCase`. -/
def toLowerCase (s : JSString) : JSString := (lowerCodePoints (codePoints s)).flatMap unitsOf

/-- `String.prototype.toUpperCase`. -/
def toUpperCase (s : JSString) : JSString := (upperCodePoints (codePoints s)).flatMap unitsOf

theorem codePoints_of_lt {s : JSString} (small : ∀ u ∈ s, u < 0xD800 ∨ 0xDC00 ≤ u) : codePoints s = s := by
  induction s with
  | nil => rfl
  | cons u s ih =>
    have rest := ih fun v member => small v (List.mem_cons_of_mem _ member)
    have first := small u (List.mem_cons_self ..)
    cases s with
    | nil => rfl
    | cons v s =>
      have unpaired : ¬((0xD800 ≤ u ∧ u < 0xDC00) ∧ (0xDC00 ≤ v ∧ v < 0xE000)) := by omega
      rw [codePoints, if_neg unpaired, rest]

/-- The letters whose lower case is in ASCII: ASCII itself and the Kelvin sign, with the dotted
capital I the only other one that yields an ASCII unit. -/
theorem mapRanges_lower_ge {c : Nat} (large : 128 ≤ c) :
    128 ≤ mapRanges lowerRanges c ∨ mapRanges lowerRanges c = 107 := by
  have images : ∀ r ∈ lowerRanges, 128 ≤ r.image ∨ (r.first = r.last ∧ r.image = 107) := by
    decide +kernel
  unfold mapRanges
  split
  · rename_i r found
    have inside := List.find?_some found
    rcases images r (List.mem_of_find?_eq_some found) with image | ⟨single, image⟩
    · exact Or.inl (by omega)
    · simp only [CaseRange.contains, Bool.and_eq_true, decide_eq_true_eq] at inside
      exact Or.inr (by omega)
  · exact Or.inl large

theorem lowerAt_not_upper {before after : List Nat} {c d : Nat} (member : d ∈ lowerAt before c after) :
    isUpper d = false := by
  unfold lowerAt at member
  split_ifs at member with ascii sigma final dotted
  · simp only [List.mem_singleton] at member
    subst member
    simp only [asciiLower, isUpper]
    grind
  · simp only [List.mem_singleton] at member
    subst member
    rfl
  · simp only [List.mem_singleton] at member
    subst member
    rfl
  · simp only [List.mem_cons, List.not_mem_nil, or_false] at member
    rcases member with rfl | rfl <;> rfl
  · simp only [List.mem_singleton] at member
    subst member
    rcases mapRanges_lower_ge (by omega : 128 ≤ c) with large | kelvin
    · simp only [isUpper, Bool.and_eq_false_iff, decide_eq_false_iff_not]
      omega
    · rw [kelvin]
      rfl

theorem lowerFrom_not_upper {s before : List Nat} {d : Nat} (member : d ∈ lowerFrom before s) :
    isUpper d = false := by
  induction s generalizing before with
  | nil => simp [lowerFrom] at member
  | cons c s ih =>
    rw [lowerFrom, List.mem_append] at member
    exact member.elim lowerAt_not_upper ih

theorem unitsOf_not_upper {c u : Nat} (lower : isUpper c = false) (member : u ∈ unitsOf c) :
    isUpper u = false := by
  unfold unitsOf at member
  split at member
  · simp only [List.mem_singleton] at member
    exact member ▸ lower
  · simp only [List.mem_cons, List.not_mem_nil, or_false] at member
    simp only [isUpper, Bool.and_eq_false_iff, decide_eq_false_iff_not]
    omega

/-- No lower-cased string holds an ASCII capital. -/
theorem toLowerCase_not_upper {s : JSString} {u : Nat} (member : u ∈ toLowerCase s) :
    isUpper u = false := by
  obtain ⟨c, inside, unit⟩ := List.mem_flatMap.mp member
  exact unitsOf_not_upper (lowerFrom_not_upper inside) unit

theorem lowerFrom_ascii {s before : List Nat} (ascii : ∀ u ∈ s, u < 128 ∨ u = 0xFFFD) :
    lowerFrom before s = s.map asciiLower := by
  induction s generalizing before with
  | nil => rfl
  | cons c s ih =>
    rw [lowerFrom, ih fun v member => ascii v (List.mem_cons_of_mem _ member), List.map_cons]
    rcases ascii c (List.mem_cons_self ..) with small | rfl
    · rw [lowerAt, if_pos small, List.singleton_append]
    · have fixed : lowerAt before 0xFFFD s = [0xFFFD] := by
        have unmapped : mapRanges lowerRanges 0xFFFD = 0xFFFD := by decide +kernel
        simp [lowerAt, unmapped]
      rw [fixed]
      rfl

/-- Lower-casing an ASCII string, or one that also holds U+FFFD, folds each unit on its own. -/
theorem toLowerCase_ascii {s : JSString} (ascii : ∀ u ∈ s, u < 128 ∨ u = 0xFFFD) :
    toLowerCase s = s.map asciiLower := by
  have points : codePoints s = s := codePoints_of_lt fun u member => by have := ascii u member; omega
  have small : ∀ u ∈ s.map asciiLower, unitsOf u = [u] := by
    intro u member
    obtain ⟨v, inside, rfl⟩ := List.mem_map.mp member
    rcases ascii v inside with ascii | rfl
    · have bound := asciiLower_le v
      rw [unitsOf, if_pos (by omega)]
    · rfl
  unfold toLowerCase lowerCodePoints
  rw [points, lowerFrom_ascii ascii]
  generalize s.map asciiLower = t at small
  induction t with
  | nil => rfl
  | cons u t ih =>
    rw [List.flatMap_cons, small u (List.mem_cons_self ..),
      ih fun v member => small v (List.mem_cons_of_mem _ member), List.singleton_append]

theorem codePoints_append {s : JSString} (ascii : ∀ u ∈ s, u < 128) (t : JSString) :
    codePoints (s ++ t) = s ++ codePoints t := by
  induction s with
  | nil => rfl
  | cons u s ih =>
    have small := ascii u (List.mem_cons_self ..)
    have rest := ih fun v member => ascii v (List.mem_cons_of_mem _ member)
    rw [List.cons_append, List.cons_append, ← rest]
    cases s ++ t with
    | nil => rfl
    | cons v r =>
      have unpaired : ¬((0xD800 ≤ u ∧ u < 0xDC00) ∧ (0xDC00 ≤ v ∧ v < 0xE000)) := by omega
      rw [codePoints, if_neg unpaired]

theorem lowerFrom_append {s : List Nat} (ascii : ∀ u ∈ s, u < 128) (before t : List Nat) :
    lowerFrom before (s ++ t) = s.map asciiLower ++ lowerFrom (s.reverse ++ before) t := by
  induction s generalizing before with
  | nil => rfl
  | cons u s ih =>
    have small := ascii u (List.mem_cons_self ..)
    rw [List.cons_append, lowerFrom, ih (fun v member => ascii v (List.mem_cons_of_mem _ member)), lowerAt,
      if_pos small, List.reverse_cons, List.append_assoc]
    rfl

/-- The ASCII beginning of a string is lower-cased on its own. -/
theorem toLowerCase_append {s : JSString} (ascii : ∀ u ∈ s, u < 128) (t : JSString) :
    ∃ r, toLowerCase (s ++ t) = s.map asciiLower ++ r := by
  have small : ∀ u ∈ s.map asciiLower, unitsOf u = [u] := by
    intro u member
    obtain ⟨v, inside, rfl⟩ := List.mem_map.mp member
    have bound := asciiLower_le v
    have least := ascii v inside
    rw [unitsOf, if_pos (by omega)]
  have units : (s.map asciiLower).flatMap unitsOf = s.map asciiLower := by
    generalize s.map asciiLower = r at small
    induction r with
    | nil => rfl
    | cons u r ih =>
      rw [List.flatMap_cons, small u (List.mem_cons_self ..), ih fun v member => small v (List.mem_cons_of_mem _ member)]
      rfl
  refine ⟨(lowerFrom (s.reverse ++ []) (codePoints t)).flatMap unitsOf, ?_⟩
  rw [toLowerCase, lowerCodePoints, codePoints_append ascii, lowerFrom_append ascii, List.flatMap_append, units]

theorem map_asciiLower_of_not_upper {s : JSString} (lower : ∀ u ∈ s, isUpper u = false) :
    s.map asciiLower = s := by
  rw [List.map_congr_left (g := id) fun u member => by simp [asciiLower, lower u member], List.map_id]

theorem toLowerCase_of_lower {s : JSString} (lower : s.all (fun u => u < 128 && !isUpper u)) : toLowerCase s = s := by
  simp only [List.all_eq_true, Bool.and_eq_true, decide_eq_true_eq, Bool.not_eq_true'] at lower
  rw [toLowerCase_ascii fun u member => .inl (lower u member).1]
  exact map_asciiLower_of_not_upper fun u member => (lower u member).2

end Xript
