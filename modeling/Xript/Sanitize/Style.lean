import Xript.Sanitize.Rules

namespace Xript

theorem stripWord_suffix {word s t : JSString} (found : stripWord word s = some t) :
    t <:+ s ∧ s.length = word.length + t.length := by
  induction word generalizing s with
  | nil =>
    cases found
    exact ⟨List.suffix_rfl, by simp⟩
  | cons w word ih =>
    cases s with
    | nil => cases found
    | cons c s =>
      simp only [stripWord] at found
      split at found
      · obtain ⟨suffix, length⟩ := ih found
        refine ⟨suffix.trans (List.suffix_cons c s), ?_⟩
        simp only [List.length_cons]
        omega
      · cases found

theorem matchCall_proper {word s rest : JSString} (found : matchCall word s = some rest) :
    rest <:+ s ∧ rest.length < s.length := by
  unfold matchCall at found
  split at found
  · cases found
  · rename_i t stripped
    obtain ⟨suffix, length⟩ := stripWord_suffix stripped
    split at found
    · rename_i u opened
      split at found
      · rename_i c r closed
        cases found
        have inner : rest <:+ u := (List.suffix_cons c rest).trans (closed ▸ List.dropWhile_suffix _)
        have outer : 40 :: u <:+ t := opened ▸ List.dropWhile_suffix _
        have bound := outer.length_le
        have shorter := inner.length_le
        rw [List.length_cons] at bound
        exact ⟨(inner.trans (List.suffix_cons _ _)).trans (outer.trans suffix), by omega⟩
      · cases found
    · cases found

theorem matchDeclaration_proper {word s rest : JSString} (found : matchDeclaration word s = some rest) :
    rest <:+ s ∧ rest.length < s.length := by
  unfold matchDeclaration at found
  split at found
  · cases found
  · rename_i t stripped
    obtain ⟨suffix, length⟩ := stripWord_suffix stripped
    split at found
    · rename_i u opened
      cases found
      have inner : (u.dropWhile fun c => !isDeclarationEnd c) <:+ u := List.dropWhile_suffix _
      have outer : 58 :: u <:+ t := opened ▸ List.dropWhile_suffix _
      have bound := outer.length_le
      have shorter := inner.length_le
      rw [List.length_cons] at bound
      exact ⟨(inner.trans (List.suffix_cons _ _)).trans (outer.trans suffix), by omega⟩
    · cases found

def urlPattern : Pattern Nat := .ofRest (matchCall (js "url")) matchCall_proper

def expressionPattern : Pattern Nat := .ofRest (matchCall (js "expression")) matchCall_proper

def mozBindingPattern : Pattern Nat := .ofRest (matchDeclaration (js "-moz-binding")) matchDeclaration_proper

def behaviorPattern : Pattern Nat := .ofRest (matchDeclaration (js "behavior")) matchDeclaration_proper

def dangerousStylePatterns : List (Pattern Nat) :=
  [urlPattern, expressionPattern, mozBindingPattern, behaviorPattern]

/-- `cleaned.replace(pattern, "")`. -/
def Pattern.removeAll (p : Pattern Nat) (s : JSString) : JSString := p.replaceAll (fun _ => []) s

/-- The loop over `DANGEROUS_STYLE_PATTERNS` that both style cleaners open with. -/
def removeDangerousStyle (value : JSString) : JSString :=
  dangerousStylePatterns.foldl (fun cleaned pattern => pattern.removeAll cleaned) value

def sanitizeStyleValue (value : JSString) : JSString := trim (removeDangerousStyle value)

/-- The rest of `s` after a block `\\{[^}]*\\}` at its start. -/
def matchBlock : JSString → Option JSString
  | 123 :: s =>
    match s.dropWhile (· ≠ 125) with
    | _ :: rest => some rest
    | [] => none
  | _ => none

theorem matchBlock_proper {s rest : JSString} (found : matchBlock s = some rest) :
    rest <:+ s ∧ rest.length < s.length := by
  unfold matchBlock at found
  split at found
  · rename_i t
    split at found
    · rename_i c r closed
      cases found
      have inner : rest <:+ t := (List.suffix_cons c rest).trans (closed ▸ List.dropWhile_suffix _)
      have bound := inner.length_le
      exact ⟨inner.trans (List.suffix_cons _ _), by simp only [List.length_cons]; omega⟩
    · cases found
  · cases found

def blockPattern : Pattern Nat := .ofRest matchBlock matchBlock_proper

/-- Whether a trimmed declaration is kept: it has a colon and a value after it. -/
def keepsDeclaration (decl : JSString) : Bool :=
  match breakOn [58] decl with
  | none => false
  | some (_, value) => trim value ≠ []

/-- The block callback of `sanitizeStyleBlock`, on the whole match with its braces. -/
def cleanBlock (block : JSString) : JSString :=
  let declarations := (((block.drop 1).dropLast.splitOn 59).map trim).filter keepsDeclaration
  if declarations = [] then js "\x7b\x7d"
  else js "\x7b " ++ (js "; ").intercalate declarations ++ js "; \x7d"

def sanitizeStyleBlock (css : JSString) : JSString :=
  blockPattern.replaceAll cleanBlock (removeDangerousStyle css)

end Xript
