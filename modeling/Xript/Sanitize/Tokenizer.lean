import Xript.Sanitize.Rules

namespace Xript

structure Attribute where
  name : JSString
  value : JSString
  deriving DecidableEq, Repr

inductive Token where
  | text (value : JSString)
  | openTag (tag rawTag : JSString) (attributes : List Attribute) (selfClosing : Bool)
  | closeTag (tag rawTag : JSString)
  | comment (value : JSString)
  deriving DecidableEq, Repr

/-- A raw U+0000 in a name or a value becomes U+FFFD. -/
def replaceNulls (text : JSString) : JSString := replaceUnit 0 [0xFFFD] text

/-- A raw U+0000 in ordinary text is discarded. -/
def dropNulls (text : JSString) : JSString := replaceUnit 0 [] text

def isAlphanumeric (u : Nat) : Bool := isLetter u || isDigit u

/-- The body of the reference that starts after an `&`, and the text after its semicolon. -/
def referenceBody : JSString → Option (JSString × JSString)
  | 35 :: x :: s =>
    if x = 120 ∨ x = 88 then
      match s.takeWhile isHexDigit, s.dropWhile isHexDigit with
      | d :: digits, 59 :: rest => some (35 :: x :: d :: digits, rest)
      | _, _ => none
    else
      match (x :: s).takeWhile isDigit, (x :: s).dropWhile isDigit with
      | d :: digits, 59 :: rest => some (35 :: d :: digits, rest)
      | _, _ => none
  | c :: s =>
    if isLetter c then
      match s.dropWhile isAlphanumeric with
      | 59 :: rest => some (c :: s.takeWhile isAlphanumeric, rest)
      | _ => none
    else none
  | [] => none

def digitValue (u : Nat) : Nat :=
  if isDigit u then u - 48 else if isUpper u then u - 55 else u - 87

/-- `Number.parseInt(digits, radix)` on digits of that radix. -/
def parseDigits (radix : Nat) (digits : JSString) : Nat :=
  digits.foldl (fun n d => n * radix + digitValue d) 0

/-- `NAMED_ENTITIES[name]`, a lookup in an object literal: it also finds what the prototype chain
holds, and `constructor` is the one inherited name in lower case. The replacement text is then the
source text of the `Object` function. -/
def namedEntity (name : JSString) : Option JSString :=
  [(js "amp", [38]), (js "lt", [60]), (js "gt", [62]), (js "quot", [34]), (js "apos", [39]),
    (js "nbsp", [0xA0]), (js "constructor", js "function Object() \x7b [native code] \x7d")].lookup name

/-- The code point that a numeric reference names, by the text after its `#`. -/
def referenceCodePoint : JSString → Nat
  | [] => 0
  | x :: digits => if x = 120 ∨ x = 88 then parseDigits 16 digits else parseDigits 10 (x :: digits)

/-- What a reference decodes to; `none` leaves it as it stands. -/
def decodeReference : JSString → Option JSString
  | 35 :: body =>
    let codePoint := referenceCodePoint body
    if codePoint > 0x10FFFF then none
    else if codePoint = 0 then some [0xFFFD]
    else some (unitsOf codePoint)
  | name => namedEntity (toLowerCase name)

def referenceRest : JSString → Option JSString
  | 38 :: s => (referenceBody s).map Prod.snd
  | _ => none

theorem referenceBody_split {s body rest : JSString} (found : referenceBody s = some (body, rest)) :
    s = body ++ 59 :: rest := by
  unfold referenceBody at found
  split at found
  · rename_i x t
    split at found
    · split at found
      · rename_i d digits r taken dropped
        cases found
        have whole := List.takeWhile_append_dropWhile (p := isHexDigit) (l := t)
        rw [taken, dropped] at whole
        rw [← whole]
        simp
      · cases found
    · split at found
      · rename_i d digits r taken dropped
        cases found
        have whole := List.takeWhile_append_dropWhile (p := isDigit) (l := x :: t)
        rw [taken, dropped] at whole
        rw [← whole]
        simp
      · cases found
  · rename_i c t _
    split at found
    · split at found
      · rename_i r dropped
        cases found
        have whole := List.takeWhile_append_dropWhile (p := isAlphanumeric) (l := t)
        rw [dropped] at whole
        conv_lhs => rw [← whole]
        simp
      · cases found
    · cases found
  · cases found

theorem referenceRest_proper {s rest : JSString} (found : referenceRest s = some rest) :
    rest <:+ s ∧ rest.length < s.length := by
  unfold referenceRest at found
  split at found
  · rename_i t
    obtain ⟨⟨body, r⟩, inner, equal⟩ := Option.map_eq_some_iff.mp found
    cases equal
    rw [referenceBody_split inner]
    exact ⟨⟨38 :: body ++ [59], by simp⟩, by simp only [List.length_cons, List.length_append]; omega⟩
  · cases found

/-- The reference pattern of `decodeEntities`, with its `&` and its semicolon. -/
def referencePattern : Pattern Nat := .ofRest referenceRest referenceRest_proper

/-- The replacement callback of `decodeEntities`. -/
def decodeMatch (found : JSString) : JSString := (decodeReference (found.drop 1).dropLast).getD found

def decodeEntities (text : JSString) : JSString := referencePattern.replaceAll decodeMatch text

/-- A character of an attribute name in the source, `[^\\s=/>]`. -/
def isAttributeUnit (u : Nat) : Bool := !(isSpace u || u == 61 || u == 47 || u == 62)

def isUnquotedUnit (u : Nat) : Bool := !(isSpace u || u == 62)

/-- The value after an attribute's `=` with the whitespace skipped, and the text after it. -/
def attributeValue (s : JSString) : JSString × JSString :=
  match s with
  | 34 :: t => (t.takeWhile (· ≠ 34), (t.dropWhile (· ≠ 34)).drop 1)
  | 39 :: t => (t.takeWhile (· ≠ 39), (t.dropWhile (· ≠ 39)).drop 1)
  | _ => (s.takeWhile isUnquotedUnit, s.dropWhile isUnquotedUnit)

def parseAttribute (s : JSString) : Option (Attribute × JSString) :=
  let name := s.takeWhile isAttributeUnit
  if name = [] then none
  else
    match (s.dropWhile isAttributeUnit).dropWhile isSpace with
    | 61 :: t =>
      let value := attributeValue (t.dropWhile isSpace)
      some (⟨replaceNulls name, decodeEntities (replaceNulls value.1)⟩, value.2)
    | rest => some (⟨replaceNulls name, []⟩, rest)

/-- What a round of the attribute loop finds: the end of the tag, an attribute, or a stray character. -/
inductive TagStep where
  | done (selfClosing : Bool) (rest : JSString)
  | found (first : Attribute) (rest : JSString)
  | stray (rest : JSString)

/-- One round of the attribute loop of `parseOpenTag`. An unclosed tag runs to the end of the input. -/
def tagStep (s : JSString) : TagStep :=
  match s.dropWhile isSpace with
  | [] => .done false []
  | c :: t =>
    if c = 62 then .done false t
    else if c = 47 ∧ [62] <+: t then .done true (t.drop 1)
    else
      match parseAttribute (c :: t) with
      | some (first, rest) => .found first rest
      | none => .stray t

/-- The attribute loop of `parseOpenTag`: the attributes, whether the tag closes itself, and the
text after the tag. -/
def parseAttributes : Nat → JSString → List Attribute × Bool × JSString
  | 0, s => ([], false, s)
  | n + 1, s =>
    match tagStep s with
    | .done selfClosing rest => ([], selfClosing, rest)
    | .found first rest =>
      let others := parseAttributes n rest
      (first :: others.1, others.2)
    | .stray rest => parseAttributes n rest

/-- The tag name at the start of `s`; a NUL counts after the first character. -/
def takeTagName : JSString → JSString
  | [] => []
  | c :: s => if isNameUnit c then c :: s.takeWhile (fun u => isNameUnit u || u == 0) else []

/-- `parseOpenTag` on the text after the `<`. -/
def parseOpenTag (s : JSString) : Option (Token × JSString) :=
  let start := s.dropWhile isSpace
  let name := takeTagName start
  if name = [] then none
  else
    let rawTag := replaceNulls name
    let rest := start.drop name.length
    let parsed := parseAttributes rest.length rest
    some (.openTag (toLowerCase rawTag) rawTag parsed.1 parsed.2.1, parsed.2.2)

def tokenizeFrom : Nat → JSString → List Token
  | 0, _ => []
  | _ + 1, [] => []
  | n + 1, 60 :: s =>
    if js "!--" <+: s then
      match breakOn (js "-->") (s.drop 3) with
      | none => [.comment (s.drop 3)]
      | some (value, rest) => .comment value :: tokenizeFrom n rest
    else if [47] <+: s then
      match breakOn [62] (s.drop 1) with
      | none => [.text (decodeEntities (dropNulls (60 :: s)))]
      | some (name, rest) =>
        let rawTag := replaceNulls (trim name)
        .closeTag (toLowerCase rawTag) rawTag :: tokenizeFrom n rest
    else
      match parseOpenTag s with
      | some (token, rest) => token :: tokenizeFrom n rest
      | none => .text [60] :: tokenizeFrom n s
  | n + 1, c :: s =>
    .text (decodeEntities (dropNulls ((c :: s).takeWhile (· ≠ 60)))) ::
      tokenizeFrom n ((c :: s).dropWhile (· ≠ 60))

def tokenize (html : JSString) : List Token := tokenizeFrom html.length html

end Xript
