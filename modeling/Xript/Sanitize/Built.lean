import Xript.Sanitize.Rebuild
import Xript.Text.Join

namespace Xript

theorem null_notMem_unitsOf {c : Nat} (some : c ≠ 0) : 0 ∉ unitsOf c := by
  unfold unitsOf
  split
  · simpa using Ne.symm some
  · simp only [List.mem_cons, List.not_mem_nil, or_false, not_or]
    omega

theorem null_notMem_namedEntity {name image : JSString} (found : namedEntity name = some image) : 0 ∉ image := by
  have images : ∀ entry ∈ [(js "amp", [38]), (js "lt", [60]), (js "gt", [62]), (js "quot", [34]), (js "apos", [39]),
      (js "nbsp", [0xA0]), (js "constructor", js "function Object() \x7b [native code] \x7d")], 0 ∉ entry.2 := by
    decide
  obtain ⟨before, after, split, -⟩ := List.lookup_eq_some_iff.mp found
  exact images (name, image) (by rw [split]; simp)

/-- Decoding a reference never gives a NUL. -/
theorem null_notMem_decodeReference {body image : JSString} (decoded : decodeReference body = some image) : 0 ∉ image := by
  unfold decodeReference at decoded
  split at decoded
  · simp only at decoded
    split at decoded
    · cases decoded
    · split at decoded
      · cases decoded
        decide
      · rename_i some
        cases decoded
        exact null_notMem_unitsOf some
  · exact null_notMem_namedEntity decoded

theorem null_notMem_decodeEntities {text : JSString} (absent : 0 ∉ text) : 0 ∉ decodeEntities text := by
  intro member
  rcases referencePattern.mem_replaceAll decodeMatch member with old | ⟨m, inside, image⟩
  · exact absent old
  · unfold decodeMatch at image
    cases decoded : decodeReference (m.drop 1).dropLast with
    | none =>
      rw [decoded] at image
      exact absent (inside.subset image)
    | some value =>
      rw [decoded] at image
      exact null_notMem_decodeReference decoded image

theorem null_notMem_replaceUnit {r : JSString} (clean : 0 ∉ r) (s : JSString) : 0 ∉ replaceUnit 0 r s := by
  unfold replaceUnit
  rw [List.mem_flatMap]
  rintro ⟨u, -, member⟩
  split at member
  · exact clean member
  · rename_i some
    exact some (List.mem_singleton.mp member).symm

theorem null_notMem_replaceNulls (s : JSString) : 0 ∉ replaceNulls s := null_notMem_replaceUnit (by decide) s

theorem null_notMem_dropNulls (s : JSString) : 0 ∉ dropNulls s := null_notMem_replaceUnit (by decide) s

/-- The values of a token hold no NUL, and its tag is its name in lower case. -/
def CleanToken : Token → Prop
  | .text value => 0 ∉ value
  | .openTag tag rawTag attributes _ => toLowerCase rawTag = tag ∧ ∀ a ∈ attributes, 0 ∉ a.value
  | .closeTag _ _ => True
  | .comment _ => True

theorem parseAttribute_clean {s rest : JSString} {first : Attribute} (found : parseAttribute s = some (first, rest)) :
    0 ∉ first.value := by
  unfold parseAttribute at found
  simp only at found
  split at found
  · cases found
  · split at found
    · cases found
      exact null_notMem_decodeEntities (null_notMem_replaceNulls _)
    · cases found
      exact List.not_mem_nil

theorem tagStep_clean {s rest : JSString} {first : Attribute} (step : tagStep s = .found first rest) : 0 ∉ first.value := by
  unfold tagStep at step
  split at step
  · cases step
  · split at step
    · cases step
    · split at step
      · cases step
      · split at step
        · rename_i found
          cases step
          exact parseAttribute_clean found
        · cases step

theorem parseAttributes_clean (n : Nat) (s : JSString) : ∀ a ∈ (parseAttributes n s).1, 0 ∉ a.value := by
  induction n generalizing s with
  | zero => exact fun a impossible => absurd impossible List.not_mem_nil
  | succ n ih =>
    unfold parseAttributes
    cases step : tagStep s with
    | done selfClosing rest => exact fun a impossible => absurd impossible List.not_mem_nil
    | found first rest =>
      intro a member
      rcases List.mem_cons.mp member with rfl | later
      · exact tagStep_clean step
      · exact ih rest a later
    | stray rest => exact ih rest

theorem parseOpenTag_clean {s rest : JSString} {token : Token} (found : parseOpenTag s = some (token, rest)) :
    CleanToken token := by
  unfold parseOpenTag at found
  simp only at found
  split at found
  · cases found
  · cases found
    exact ⟨rfl, parseAttributes_clean _ _⟩

theorem tokenizeFrom_clean (n : Nat) (s : JSString) : ∀ token ∈ tokenizeFrom n s, CleanToken token := by
  induction n generalizing s with
  | zero => exact fun token impossible => absurd impossible List.not_mem_nil
  | succ n ih =>
    have text (t : JSString) : CleanToken (.text (decodeEntities (dropNulls t))) :=
      null_notMem_decodeEntities (null_notMem_dropNulls t)
    cases s with
    | nil => exact fun token impossible => absurd impossible List.not_mem_nil
    | cons c s =>
      by_cases tag : c = 60
      · subst tag
        simp only [tokenizeFrom]
        split
        · split
          · exact List.forall_mem_singleton.mpr trivial
          · exact List.forall_mem_cons.mpr ⟨trivial, ih _⟩
        · split
          · split
            · exact List.forall_mem_singleton.mpr (text _)
            · exact List.forall_mem_cons.mpr ⟨trivial, ih _⟩
          · split
            · rename_i found
              exact List.forall_mem_cons.mpr ⟨parseOpenTag_clean found, ih _⟩
            · exact List.forall_mem_cons.mpr ⟨by simp [CleanToken], ih _⟩
      · rw [tokenizeFrom]
        · exact List.forall_mem_cons.mpr ⟨text _, ih _⟩
        · exact tag

theorem tokenize_clean (html : JSString) : ∀ token ∈ tokenize html, CleanToken token := tokenizeFrom_clean _ _

theorem mem_trim {s : JSString} {c : Nat} (member : c ∈ trim s) : c ∈ s :=
  (List.dropWhile_suffix isSpace).subset ((List.rdropWhile_prefix isSpace _).subset member)

theorem mem_of_mem_splitOn {sep c : Nat} {s part : JSString} (inside : part ∈ s.splitOn sep) (member : c ∈ part) :
    c ∈ s := by
  have joined : ∀ parts : List JSString, part ∈ parts → c ∈ [sep].intercalate parts := by
    intro parts
    induction parts with
    | nil => exact fun impossible => absurd impossible List.not_mem_nil
    | cons first parts ih =>
      intro inside
      cases parts with
      | nil =>
        obtain rfl := List.mem_singleton.mp inside
        simpa using member
      | cons next parts =>
        rw [List.intercalate_cons_cons, List.mem_append]
        rcases List.mem_cons.mp inside with rfl | later
        · exact .inl (List.mem_append_left _ member)
        · exact .inr (ih later)
  rw [← @List.intercalate_splitOn _ s _ _ sep]
  exact joined _ inside

theorem mem_cleanBlock {block : JSString} {c : Nat} (member : c ∈ cleanBlock block) : c ∈ block ∨ c ∈ js "\x7b \x7d; " := by
  have literal : ∀ c, c ∈ js "\x7b\x7d" ∨ c ∈ js "\x7b " ∨ c ∈ js "; " ∨ c ∈ js "; \x7d" → c ∈ js "\x7b \x7d; " := by
    simp only [js, utf16]
    grind
  unfold cleanBlock at member
  simp only at member
  split at member
  · exact .inr (literal c (.inl member))
  · rw [List.mem_append, List.mem_append] at member
    rcases member with (opening | middle) | closing
    · exact .inr (literal c (.inr (.inl opening)))
    · rcases mem_intercalate middle with separator | ⟨decl, kept, inside⟩
      · exact .inr (literal c (.inr (.inr (.inl separator))))
      · obtain ⟨part, split, rfl⟩ := List.mem_map.mp (List.mem_filter.mp kept).1
        have inner := mem_of_mem_splitOn split (mem_trim inside)
        exact .inl (List.mem_of_mem_drop ((List.dropLast_prefix _).subset inner))
    · exact .inr (literal c (.inr (.inr (.inr closing))))

theorem null_notMem_removeDangerousStyle {css : JSString} (absent : 0 ∉ css) : 0 ∉ removeDangerousStyle css := by
  have pass (patterns : List (Pattern Nat)) : ∀ s : JSString, 0 ∉ s →
      0 ∉ patterns.foldl (fun cleaned pattern => pattern.removeAll cleaned) s := by
    induction patterns with
    | nil => exact fun _ clean => clean
    | cons p patterns ih =>
      intro s clean
      refine ih _ fun member => ?_
      rcases p.mem_replaceAll _ member with old | ⟨m, -, impossible⟩
      · exact clean old
      · cases impossible
  exact pass _ css absent

theorem null_notMem_sanitizeStyleBlock {css : JSString} (absent : 0 ∉ css) : 0 ∉ sanitizeStyleBlock css := by
  have clean := null_notMem_removeDangerousStyle absent
  intro member
  rcases blockPattern.mem_replaceAll cleanBlock member with old | ⟨m, inside, image⟩
  · exact clean old
  · rcases mem_cleanBlock image with block | literal
    · exact clean (inside.subset block)
    · exact absurd literal (by decide)

/-- A prop value that comes from markup. -/
def SourcedValue (value : PropValue) : Prop := value = .bool true ∨ ∃ s, value = .str s ∧ 0 ∉ s

mutual

/-- The nodes that the tree builder makes: no NUL in a value, only text in a `style`. -/
def SourcedNode : FragmentNode → Prop
  | .text value _ => 0 ∉ value
  | .element name props children _ =>
    (∀ entry ∈ props, SourcedValue entry.2) ∧ (toLowerCase name = js "style" → ∀ child ∈ children, child.isText = true) ∧
      Sourced children

def Sourced : List FragmentNode → Prop
  | [] => True
  | node :: nodes => SourcedNode node ∧ Sourced nodes

end

theorem Sourced.append {s t : List FragmentNode} (first : Sourced s) (second : Sourced t) : Sourced (s ++ t) := by
  induction s with
  | nil => exact second
  | cons node s ih => exact ⟨first.1, ih first.2⟩

/-- What holds of an open element. -/
structure SourcedFrame (frame : Frame) : Prop where
  props : ∀ entry ∈ frame.props, SourcedValue entry.2
  children : Sourced frame.children
  name : toLowerCase frame.name ≠ js "style"

/-- The tree builder's invariant. -/
structure SourcedBuilder (b : TreeBuilder) : Prop where
  stack : ∀ frame ∈ b.stack, SourcedFrame frame
  root : SourcedFrame b.root

theorem SourcedFrame.push {frame : Frame} {node : FragmentNode} (sourced : SourcedFrame frame) (ok : SourcedNode node) :
    SourcedFrame (frame.push node) :=
  ⟨sourced.props, sourced.children.append ⟨ok, trivial⟩, sourced.name⟩

theorem SourcedFrame.close {frame : Frame} (sourced : SourcedFrame frame) : SourcedNode frame.close :=
  ⟨sourced.props, fun style => absurd style sourced.name, sourced.children⟩

namespace SourcedBuilder

variable {b : TreeBuilder}

theorem push {node : FragmentNode} (sourced : SourcedBuilder b) (ok : SourcedNode node) : SourcedBuilder (b.push node) := by
  unfold TreeBuilder.push
  split
  · exact ⟨sourced.stack, sourced.root.push ok⟩
  · rename_i frame stack top
    have frames := sourced.stack
    rw [top, List.forall_mem_cons] at frames
    exact ⟨List.forall_mem_cons.mpr ⟨frames.1.push ok, frames.2⟩, sourced.root⟩

theorem pop (sourced : SourcedBuilder b) : SourcedBuilder b.pop := by
  unfold TreeBuilder.pop
  split
  · exact sourced
  · rename_i frame stack top
    have frames := sourced.stack
    rw [top, List.forall_mem_cons] at frames
    exact push ⟨frames.2, sourced.root⟩ frames.1.close

theorem popMany (n : Nat) (sourced : SourcedBuilder b) : SourcedBuilder (b.popMany n) := by
  induction n generalizing b with
  | zero => exact sourced
  | succ n ih => exact ih sourced.pop

theorem closeElement (tag : JSString) (sourced : SourcedBuilder b) : SourcedBuilder (b.closeElement tag) := by
  unfold TreeBuilder.closeElement
  split
  · exact sourced.popMany _
  · exact sourced

end SourcedBuilder

theorem sourced_attributesToProps {attributes : List Attribute} (clean : ∀ a ∈ attributes, 0 ∉ a.value) :
    ∀ entry ∈ attributesToProps attributes, SourcedValue entry.2 := by
  intro entry member
  obtain ⟨attr, inside, rfl⟩ := mem_attributesToProps member
  unfold attributeProp
  split
  · exact .inl rfl
  · exact .inr ⟨_, rfl, clean attr inside⟩

theorem null_notMem_collectStyleContent {tokens : List Token} (clean : ∀ token ∈ tokens, CleanToken token) :
    0 ∉ collectStyleContent tokens := by
  induction tokens with
  | nil => exact List.not_mem_nil
  | cons token tokens ih =>
    rw [List.forall_mem_cons] at clean
    have later := ih clean.2
    cases token with
    | text value =>
      rw [collectStyleContent, List.mem_append, not_or]
      exact ⟨clean.1, later⟩
    | openTag tag rawTag attributes selfClosing => exact later
    | comment value => exact later
    | closeTag tag rawTag =>
      rw [collectStyleContent]
      split
      · exact List.not_mem_nil
      · exact later

theorem styleChildren_sourced {tokens : List Token} (clean : ∀ token ∈ tokens, CleanToken token) :
    Sourced (styleChildren tokens) ∧ ∀ child ∈ styleChildren tokens, child.isText = true := by
  have absent := null_notMem_sanitizeStyleBlock (null_notMem_collectStyleContent clean)
  unfold styleChildren
  simp only
  split
  · exact ⟨trivial, fun child impossible => absurd impossible List.not_mem_nil⟩
  · exact ⟨⟨absent, trivial⟩, List.forall_mem_singleton.mpr rfl⟩

theorem openElement_sourced {profile : Option FormatProfile} {b : TreeBuilder} {tag rawTag : JSString}
    {attributes : List Attribute} {selfClosing : Bool} {rest : List Token} (sourced : SourcedBuilder b)
    (rules : ∀ name, htmlRulesApply profile name = true) (lower : toLowerCase rawTag = tag)
    (clean : ∀ a ∈ attributes, 0 ∉ a.value) (later : ∀ token ∈ rest, CleanToken token) :
    SourcedBuilder (openElement profile b tag rawTag attributes selfClosing rest) := by
  have props := sourced_attributesToProps clean
  have style := styleChildren_sourced later
  unfold openElement
  simp only
  split
  · have pushed : SourcedBuilder (b.push (.element rawTag (attributesToProps attributes)
        (if tag = js "style" then styleChildren rest else []) (selfClosing && tag ∉ voidElements))) := by
      refine sourced.push ⟨props, fun _ => ?_, ?_⟩
      · split
        · exact style.2
        · exact fun child impossible => absurd impossible List.not_mem_nil
      · split
        · exact style.1
        · trivial
    split
    · exact pushed
    · exact ⟨pushed.stack, pushed.root⟩
  · rename_i ordinary
    split
    · exact sourced.push ⟨props, fun _ child impossible => absurd impossible List.not_mem_nil, trivial⟩
    · have notStyle : toLowerCase rawTag ≠ js "style" := by
        intro style
        have plain : js "style" ∉ svgTextElements := by decide
        rw [lower] at style
        subst style
        exact ordinary (by simp [isRawText, rules, plain])
      exact ⟨List.forall_mem_cons.mpr ⟨⟨props, trivial, notStyle⟩, sourced.stack⟩, sourced.root⟩

theorem handleToken_sourced {profile : Option FormatProfile} {b : TreeBuilder} {token : Token} {rest : List Token}
    (sourced : SourcedBuilder b) (rules : ∀ name, htmlRulesApply profile name = true) (clean : CleanToken token)
    (later : ∀ token ∈ rest, CleanToken token) : SourcedBuilder (handleToken profile b token rest) := by
  cases token with
  | text value => exact sourced.push clean
  | comment value => exact sourced
  | openTag tag rawTag attributes selfClosing => exact openElement_sourced sourced rules clean.1 clean.2 later
  | closeTag tag rawTag =>
    simp only [handleToken]
    split
    · exact sourced
    · exact sourced.closeElement tag

theorem buildToken_sourced {profile : Option FormatProfile} {b : TreeBuilder} {token : Token} {rest : List Token}
    (sourced : SourcedBuilder b) (rules : ∀ name, htmlRulesApply profile name = true) (clean : CleanToken token)
    (later : ∀ token ∈ rest, CleanToken token) : SourcedBuilder (buildToken profile b token rest) := by
  unfold buildToken
  split
  · exact handleToken_sourced sourced rules clean later
  · split
    · split
      · exact ⟨sourced.stack, sourced.root⟩
      · split
        · exact handleToken_sourced ⟨sourced.stack, sourced.root⟩ rules trivial later
        · exact sourced
    · exact sourced

theorem buildTree_sourced {profile : Option FormatProfile} {b : TreeBuilder} {tokens : List Token}
    (sourced : SourcedBuilder b) (rules : ∀ name, htmlRulesApply profile name = true)
    (clean : ∀ token ∈ tokens, CleanToken token) : SourcedBuilder (buildTree profile b tokens) := by
  induction tokens generalizing b with
  | nil => exact sourced
  | cons token tokens ih =>
    rw [List.forall_mem_cons] at clean
    exact ih (buildToken_sourced sourced rules clean.1 clean.2) clean.2

theorem htmlToTree_sourced (input : JSString) : Sourced (htmlToTree input (some textHtml)) := by
  have start : SourcedBuilder .start := by
    refine ⟨fun frame impossible => absurd impossible List.not_mem_nil, ⟨?_, trivial, by decide +kernel⟩⟩
    exact fun entry impossible => absurd impossible List.not_mem_nil
  have built := buildTree_sourced start htmlRulesApply_textHtml (tokenize_clean input)
  exact (built.popMany _).root.children

end Xript
