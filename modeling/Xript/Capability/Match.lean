import Xript.Text.CodeUnit

namespace Xript

/-- Splitting at a separator, one list begins another's segments exactly when it is that list or goes on with the
separator there. -/
theorem splitOn_prefix_iff {α : Type} [BEq α] [LawfulBEq α] (sep : α) (s t : List α) :
    s.splitOn sep <+: t.splitOn sep ↔ s = t ∨ s ++ [sep] <+: t := by
  constructor
  · rintro ⟨rest, same⟩
    have whole : [sep].intercalate (s.splitOn sep ++ rest) = t := by rw [same, List.intercalate_splitOn]
    cases rest with
    | nil =>
      rw [List.append_nil, List.intercalate_splitOn] at whole
      exact Or.inl whole
    | cons segment rest =>
      have joined : ∀ first : List (List α), first ≠ [] → [sep].intercalate (first ++ segment :: rest) =
          [sep].intercalate first ++ [sep] ++ [sep].intercalate (segment :: rest) := by
        intro first nonempty
        induction first with
        | nil => exact absurd rfl nonempty
        | cons x first ih =>
          cases first with
          | nil => simp
          | cons y first =>
            rw [List.cons_append, List.cons_append, List.intercalate_cons_cons, List.intercalate_cons_cons,
              ← List.cons_append, ih (List.cons_ne_nil _ _)]
            simp
      rw [joined _ (List.splitOn_ne_nil _ _), List.intercalate_splitOn] at whole
      exact Or.inr ⟨_, whole⟩
  · rintro (rfl | ⟨rest, rfl⟩)
    · exact List.prefix_refl _
    · rw [List.append_assoc, List.singleton_append, List.splitOn_append_cons_self]
      exact List.prefix_append _ _

/-- A capability's mode and its scope; without a mode it is a `write`. -/
structure ParsedCapability where
  mode : JSString
  scope : JSString
  deriving DecidableEq

def splitMode (cap : JSString) : ParsedCapability :=
  let i := cap.idxOf 58
  if i < cap.length then ⟨cap.take i, cap.drop (i + 1)⟩ else ⟨js "write", cap⟩

def modeSatisfies (grantMode requireMode : JSString) : Bool := grantMode == js "write" || grantMode == requireMode

def scopeSubsumes (grantScope requireScope : JSString) : Bool :=
  grantScope == requireScope || (grantScope ++ js ".").isPrefixOf requireScope

/-- Whether a grant covers what is required. -/
def satisfies (grant require : JSString) : Bool :=
  let g := splitMode grant
  let r := splitMode require
  modeSatisfies g.mode r.mode && scopeSubsumes g.scope r.scope

/-- Whether any of the grants covers what is required. -/
def grantedSatisfies (granted : List JSString) (require : JSString) : Bool := granted.any fun g => satisfies g require

/-- The dot-separated segments of a capability's scope. -/
def scopeSegments (cap : JSString) : List JSString := (splitMode cap).scope.splitOn 46

theorem scopeSubsumes_iff {grantScope requireScope : JSString} :
    scopeSubsumes grantScope requireScope = true ↔ grantScope.splitOn 46 <+: requireScope.splitOn 46 := by
  rw [splitOn_prefix_iff, scopeSubsumes, Bool.or_eq_true, beq_iff_eq, List.isPrefixOf_iff_prefix]
  rfl

theorem satisfies_iff {grant require : JSString} :
    satisfies grant require = true ↔
      ((splitMode grant).mode = js "write" ∨ (splitMode grant).mode = (splitMode require).mode) ∧
        scopeSegments grant <+: scopeSegments require := by
  rw [satisfies, Bool.and_eq_true, scopeSubsumes_iff, modeSatisfies, Bool.or_eq_true, beq_iff_eq, beq_iff_eq]
  rfl

theorem satisfies_refl (cap : JSString) : satisfies cap cap = true :=
  satisfies_iff.2 ⟨Or.inr rfl, List.prefix_refl _⟩

theorem satisfies_trans {a b c : JSString} (first : satisfies a b = true) (second : satisfies b c = true) :
    satisfies a c = true := by
  obtain ⟨modeAB, scopeAB⟩ := satisfies_iff.1 first
  obtain ⟨modeBC, scopeBC⟩ := satisfies_iff.1 second
  refine satisfies_iff.2 ⟨?_, scopeAB.trans scopeBC⟩
  rcases modeAB with top | same
  · exact Or.inl top
  · rwa [same]

theorem grantedSatisfies_iff {granted : List JSString} {require : JSString} :
    grantedSatisfies granted require = true ↔ ∃ g ∈ granted, satisfies g require = true :=
  List.any_eq_true

theorem grantedSatisfies_mono {granted more : List JSString} (inside : granted ⊆ more) {require : JSString}
    (covered : grantedSatisfies granted require = true) : grantedSatisfies more require = true := by
  obtain ⟨g, member, covers⟩ := grantedSatisfies_iff.1 covered
  exact grantedSatisfies_iff.2 ⟨g, inside member, covers⟩

theorem splitMode_of_colon {mode scope : JSString} (plain : 58 ∉ mode) :
    splitMode (mode ++ 58 :: scope) = ⟨mode, scope⟩ := by
  have at_ : (mode ++ 58 :: scope).idxOf 58 = mode.length := by
    rw [List.idxOf_append_of_notMem plain, List.idxOf_cons_self, Nat.add_zero]
  rw [splitMode, at_, if_pos (by simp)]
  simp

theorem splitMode_plain {cap : JSString} (plain : 58 ∉ cap) : splitMode cap = ⟨js "write", cap⟩ := by
  rw [splitMode, List.idxOf_eq_length plain, if_neg (Nat.lt_irrefl _)]

namespace Rust

/-- Splits `[<mode>:]<scope>` on the first colon. A Rust string is its characters here: its byte offsets all stand
before or after an ASCII separator. -/
def splitMode (cap : List Char) : List Char × List Char :=
  match cap.idxOf? ':' with
  | none => (['w', 'r', 'i', 't', 'e'], cap)
  | some i => (cap.take i, cap.drop (i + 1))

def modeSatisfies (grantMode requireMode : List Char) : Bool :=
  grantMode == ['w', 'r', 'i', 't', 'e'] || grantMode == requireMode

/-- `s.strip_prefix(p)`. -/
def stripPrefix : List Char → List Char → Option (List Char)
  | [], s => some s
  | _ :: _, [] => none
  | c :: p, d :: s => if c = d then stripPrefix p s else none

def scopeSubsumes (grantScope requireScope : List Char) : Bool :=
  grantScope == requireScope || (stripPrefix grantScope requireScope).any fun rest => rest.head? == some '.'

def satisfies (grant require : List Char) : Bool :=
  let g := splitMode grant
  let r := splitMode require
  modeSatisfies g.1 r.1 && scopeSubsumes g.2 r.2

def grantedSatisfies (granted : List (List Char)) (require : List Char) : Bool :=
  granted.any fun grant => satisfies grant require

theorem stripPrefix_eq_some {p s rest : List Char} : stripPrefix p s = some rest ↔ s = p ++ rest := by
  induction p generalizing s with
  | nil => simp [stripPrefix]
  | cons c p ih =>
    cases s with
    | nil => simp [stripPrefix]
    | cons d s =>
      rw [stripPrefix]
      by_cases same : c = d
      · rw [if_pos same, ih, same]
        simp
      · rw [if_neg same]
        simp [Ne.symm same]

theorem scopeSubsumes_utf16 (grantScope requireScope : List Char) :
    scopeSubsumes grantScope requireScope = Xript.scopeSubsumes (utf16 grantScope) (utf16 requireScope) := by
  rw [Bool.eq_iff_iff, scopeSubsumes, Xript.scopeSubsumes, Bool.or_eq_true, Bool.or_eq_true, beq_iff_eq, beq_iff_eq,
    utf16_inj, List.isPrefixOf_iff_prefix, Option.any_eq_true]
  have dot : utf16 grantScope ++ js "." = utf16 (grantScope ++ ['.']) := (utf16_append _ _).symm
  rw [dot, utf16_prefix_iff]
  refine or_congr_right ⟨?_, ?_⟩
  · rintro ⟨rest, stripped, dotted⟩
    obtain ⟨tail, rfl⟩ := List.head?_eq_some_iff.mp (beq_iff_eq.mp dotted)
    rw [stripPrefix_eq_some.1 stripped]
    exact ⟨tail, by simp⟩
  · rintro ⟨tail, rfl⟩
    exact ⟨'.' :: tail, stripPrefix_eq_some.2 (by simp), rfl⟩

theorem not_mem_utf16 {s : List Char} (plain : ':' ∉ s) : 58 ∉ utf16 s := by
  intro inside
  obtain ⟨c, member, units⟩ := List.mem_flatMap.mp inside
  unfold unitsOf at units
  split at units
  · have colon : ':' = c := Char.toNat_inj.mp (List.mem_singleton.mp units)
    exact plain (colon ▸ member)
  · simp only [List.mem_cons, List.not_mem_nil, or_false] at units
    omega

/-- Splitting off the mode commutes with the encoding. -/
theorem splitMode_utf16 (cap : List Char) :
    Xript.splitMode (utf16 cap) = ⟨utf16 (splitMode cap).1, utf16 (splitMode cap).2⟩ := by
  by_cases colon : ':' ∈ cap
  · obtain ⟨mode, scope, rfl, plain⟩ := List.eq_append_cons_of_mem colon
    have first : (mode ++ ':' :: scope).idxOf? ':' = some mode.length := by
      clear colon
      induction mode with
      | nil => rfl
      | cons c mode ih =>
        rw [List.mem_cons, not_or] at plain
        rw [List.cons_append, List.idxOf?_cons, if_neg (by simpa using Ne.symm plain.1), ih plain.2]
        rfl
    have whole : utf16 (mode ++ ':' :: scope) = utf16 mode ++ 58 :: utf16 scope := utf16_append _ _
    rw [whole, splitMode_of_colon (not_mem_utf16 plain), splitMode, first]
    simp
  · rw [splitMode_plain (not_mem_utf16 colon), splitMode, List.idxOf?_eq_none_iff.mpr colon]
    rfl

theorem satisfies_utf16 (grant require : List Char) :
    satisfies grant require = Xript.satisfies (utf16 grant) (utf16 require) := by
  have write : js "write" = utf16 ['w', 'r', 'i', 't', 'e'] := rfl
  have modes : ∀ a b : List Char, modeSatisfies a b = Xript.modeSatisfies (utf16 a) (utf16 b) := by
    intro a b
    rw [Bool.eq_iff_iff]
    simp only [modeSatisfies, Xript.modeSatisfies, write, Bool.or_eq_true, beq_iff_eq, utf16_inj]
  simp only [satisfies, Xript.satisfies, splitMode_utf16, modes, scopeSubsumes_utf16]

theorem grantedSatisfies_utf16 (granted : List (List Char)) (require : List Char) :
    grantedSatisfies granted require = Xript.grantedSatisfies (granted.map utf16) (utf16 require) := by
  simp only [grantedSatisfies, Xript.grantedSatisfies, List.any_map, Function.comp_def, satisfies_utf16]

end Rust

/-- Capability matching is the order of modes together with the order of segment lists by their beginnings, it is
reflexive and transitive, a granted set covers what one of its grants covers and never less when it grows, and the
Rust matcher answers as this one does. -/
theorem satisfies_order :
    (∀ grant require : JSString, satisfies grant require = true ↔
      ((splitMode grant).mode = js "write" ∨ (splitMode grant).mode = (splitMode require).mode) ∧
        scopeSegments grant <+: scopeSegments require) ∧
    (∀ cap, satisfies cap cap = true) ∧
    (∀ a b c, satisfies a b = true → satisfies b c = true → satisfies a c = true) ∧
    (∀ granted require, grantedSatisfies granted require = true ↔ ∃ g ∈ granted, satisfies g require = true) ∧
    (∀ granted more require, granted ⊆ more → grantedSatisfies granted require = true →
      grantedSatisfies more require = true) ∧
    (∀ grant require : List Char, Rust.satisfies grant require = satisfies (utf16 grant) (utf16 require)) ∧
    ∀ (granted : List (List Char)) (require : List Char),
      Rust.grantedSatisfies granted require = grantedSatisfies (granted.map utf16) (utf16 require) :=
  ⟨fun _ _ => satisfies_iff, satisfies_refl, fun _ _ _ => satisfies_trans, fun _ _ => grantedSatisfies_iff,
    fun _ _ _ inside => grantedSatisfies_mono inside, Rust.satisfies_utf16, Rust.grantedSatisfies_utf16⟩

end Xript
