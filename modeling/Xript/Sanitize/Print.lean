import Xript.Sanitize.Escape

namespace Xript

theorem attributeValue_length (s : JSString) : (attributeValue s).2.length ≤ s.length := by
  have quoted (q : Nat) (t : JSString) : ((t.dropWhile (· ≠ q)).drop 1).length ≤ t.length := by
    rw [List.length_drop]
    exact (Nat.sub_le _ _).trans (List.dropWhile_suffix _).length_le
  unfold attributeValue
  split
  · exact (quoted 34 _).trans (Nat.le_succ _)
  · exact (quoted 39 _).trans (Nat.le_succ _)
  · exact (List.dropWhile_suffix _).length_le

theorem parseAttribute_length {s rest : JSString} {first : Attribute} (found : parseAttribute s = some (first, rest)) :
    rest.length < s.length := by
  have after : ((s.dropWhile isAttributeUnit).dropWhile isSpace).length ≤ (s.dropWhile isAttributeUnit).length :=
    (List.dropWhile_suffix _).length_le
  unfold parseAttribute at found
  simp only at found
  split at found
  · cases found
  · rename_i named
    have some := List.length_pos_iff.mpr named
    have whole := congrArg List.length (List.takeWhile_append_dropWhile (p := isAttributeUnit) (l := s))
    rw [List.length_append] at whole
    split at found
    · rename_i t opened
      cases found
      have value := attributeValue_length (t.dropWhile isSpace)
      have skipped := (List.dropWhile_suffix (l := t) isSpace).length_le
      rw [opened, List.length_cons] at after
      omega
    · cases found
      omega

def TagStep.rest : TagStep → JSString
  | .done _ rest => rest
  | .found _ rest => rest
  | .stray rest => rest

/-- Every round of the attribute loop consumes something. -/
theorem tagStep_length {s : JSString} (more : s ≠ []) : (tagStep s).rest.length < s.length := by
  have skipped := (List.dropWhile_suffix (l := s) isSpace).length_le
  have some := List.length_pos_iff.mpr more
  unfold tagStep
  split
  · exact some
  · rename_i c t rest
    rw [rest, List.length_cons] at skipped
    split
    · exact skipped
    · split
      · simp only [TagStep.rest, List.length_drop]
        omega
      · split
        · rename_i first after found
          have shorter := parseAttribute_length found
          rw [List.length_cons] at shorter
          exact Nat.lt_of_lt_of_le shorter skipped
        · exact skipped

theorem parseAttributes_nil (n : Nat) : parseAttributes n [] = ([], false, []) := by
  cases n <;> rfl

theorem parseAttributes_enough {n k : Nat} {s : JSString} (enough : s.length ≤ n) (more : s.length ≤ k) :
    parseAttributes n s = parseAttributes k s := by
  induction n generalizing k s with
  | zero =>
    obtain rfl := List.eq_nil_of_length_eq_zero (Nat.le_zero.mp enough)
    rw [parseAttributes_nil, parseAttributes_nil]
  | succ n ih =>
    by_cases empty : s = []
    · rw [empty, parseAttributes_nil, parseAttributes_nil]
    · obtain ⟨k, rfl⟩ : ∃ j, k = j + 1 := by
        have some := List.length_pos_iff.mpr empty
        exact ⟨k - 1, by omega⟩
      have shorter := tagStep_length empty
      unfold parseAttributes
      cases step : tagStep s with
      | done selfClosing rest => rfl
      | found first rest =>
        rw [step, TagStep.rest] at shorter
        simp only [ih (k := k) (by omega : rest.length ≤ n) (by omega)]
      | stray rest =>
        rw [step, TagStep.rest] at shorter
        exact ih (by omega) (by omega)

theorem parseAttributes_length (n : Nat) (s : JSString) : (parseAttributes n s).2.2.length ≤ s.length := by
  induction n generalizing s with
  | zero => exact Nat.le_refl _
  | succ n ih =>
    by_cases empty : s = []
    · rw [empty, parseAttributes_nil]
    · have shorter := tagStep_length empty
      unfold parseAttributes
      cases step : tagStep s with
      | done selfClosing rest =>
        rw [step, TagStep.rest] at shorter
        exact shorter.le
      | found first rest =>
        rw [step, TagStep.rest] at shorter
        exact (ih rest).trans shorter.le
      | stray rest =>
        rw [step, TagStep.rest] at shorter
        exact (ih rest).trans shorter.le

theorem parseOpenTag_length {s rest : JSString} {token : Token} (found : parseOpenTag s = some (token, rest)) :
    rest.length ≤ s.length := by
  unfold parseOpenTag at found
  simp only at found
  split at found
  · cases found
  · cases found
    refine (parseAttributes_length _ _).trans ?_
    rw [List.length_drop]
    exact (Nat.sub_le _ _).trans (List.dropWhile_suffix _).length_le

theorem tokenizeFrom_enough {n k : Nat} {s : JSString} (enough : s.length ≤ n) (more : s.length ≤ k) :
    tokenizeFrom n s = tokenizeFrom k s := by
  induction n generalizing k s with
  | zero =>
    obtain rfl := List.eq_nil_of_length_eq_zero (Nat.le_zero.mp enough)
    cases k <;> rfl
  | succ n ih =>
    cases k with
    | zero =>
      obtain rfl := List.eq_nil_of_length_eq_zero (Nat.le_zero.mp more)
      rfl
    | succ k =>
      have later {r : JSString} (shorter : r.length < s.length) : tokenizeFrom n r = tokenizeFrom k r :=
        ih (by omega) (by omega)
      cases s with
      | nil => rfl
      | cons c s =>
        by_cases tag : c = 60
        · subst tag
          simp only [tokenizeFrom]
          split
          · split
            · rfl
            · rename_i value rest found
              have bound := breakOn_length found
              rw [List.length_drop] at bound
              rw [later (by rw [List.length_cons]; omega)]
          · split
            · split
              · rfl
              · rename_i name rest found
                have bound := breakOn_length found
                rw [List.length_drop] at bound
                rw [later (by rw [List.length_cons]; omega)]
            · split
              · rename_i token rest found
                have bound := parseOpenTag_length found
                rw [later (by rw [List.length_cons]; omega)]
              · rw [later (Nat.lt_succ_self _)]
        · have text : (c :: s).dropWhile (· ≠ 60) = s.dropWhile (· ≠ 60) :=
            List.dropWhile_cons_of_pos (by simpa using tag)
          have bound := (List.dropWhile_suffix (l := s) (· ≠ 60)).length_le
          rw [tokenizeFrom, tokenizeFrom, text, later (by rw [List.length_cons]; omega)]
          · exact tag
          · exact tag

theorem isNameUnit_attributeUnit {u : Nat} (name : isNameUnit u = true) : isAttributeUnit u = true := by
  have graphic : 0x20 < u ∧ u < 0x7F ∧ u ≠ 61 ∧ u ≠ 47 ∧ u ≠ 62 := by
    simp only [isNameUnit, isLetter, isUpper, isLower, isDigit, Bool.or_eq_true, Bool.and_eq_true, decide_eq_true_eq,
      beq_iff_eq] at name
    omega
  simp only [isAttributeUnit, isSpace_of_graphic graphic.1 graphic.2.1, Bool.false_or, Bool.not_eq_true', Bool.or_eq_false_iff,
    beq_eq_false_iff_ne]
  exact ⟨⟨graphic.2.2.1, graphic.2.2.2.1⟩, graphic.2.2.2.2⟩

theorem isNameUnit_ne_zero {u : Nat} (name : isNameUnit u = true) : u ≠ 0 := by
  rintro rfl
  exact absurd name (by decide)

theorem isNameUnit_not_space {u : Nat} (name : isNameUnit u = true) : isSpace u = false := by
  have unit := isNameUnit_attributeUnit name
  simp only [isAttributeUnit, Bool.not_eq_true', Bool.or_eq_false_iff] at unit
  exact unit.1.1.1

theorem isValidAttributeName_units {key : JSString} (valid : isValidAttributeName key = true) :
    key ≠ [] ∧ ∀ u ∈ key, isNameUnit u = true := by
  cases key with
  | nil => cases valid
  | cons c s =>
    rw [isValidAttributeName, Bool.and_eq_true] at valid
    refine ⟨List.cons_ne_nil _ _, fun u member => ?_⟩
    rcases List.mem_cons.mp member with rfl | rest
    · simp only [isNameUnit, valid.1, Bool.true_or]
    · exact List.all_eq_true.mp valid.2 u rest

theorem replaceNulls_of_notMem {s : JSString} (absent : 0 ∉ s) : replaceNulls s = s := replaceUnit_of_not_mem absent

theorem dropNulls_of_notMem {s : JSString} (absent : 0 ∉ s) : dropNulls s = s := replaceUnit_of_not_mem absent

theorem isValidAttributeName_null {key : JSString} (valid : isValidAttributeName key = true) : 0 ∉ key := fun member =>
  isNameUnit_ne_zero ((isValidAttributeName_units valid).2 0 member) rfl

/-- White space before a round of the attribute loop is skipped. -/
theorem tagStep_skip (s : JSString) : tagStep (s.dropWhile isSpace) = tagStep s := by
  simp only [tagStep, List.dropWhile_idempotent isSpace s]

theorem parseAttributes_skip {n k : Nat} {s : JSString} (enough : (s.dropWhile isSpace).length ≤ n) (more : s.length ≤ k) :
    parseAttributes n (s.dropWhile isSpace) = parseAttributes k s := by
  have skipped := (List.dropWhile_suffix (l := s) isSpace).length_le
  rw [parseAttributes_enough enough (by omega : _ ≤ s.length + 1), parseAttributes_enough more (Nat.le_succ _)]
  simp only [parseAttributes, tagStep_skip]

/-- A text that can follow an attribute name without `=`. -/
def EndsName (s : JSString) : Prop := (∃ c t, s = c :: t ∧ isAttributeUnit c = false) ∧ ∀ t, s.dropWhile isSpace ≠ 61 :: t

theorem takeWhile_name {key s : JSString} (valid : isValidAttributeName key = true)
    (ends : ∃ c t, s = c :: t ∧ isAttributeUnit c = false) :
    (key ++ s).takeWhile isAttributeUnit = key ∧ (key ++ s).dropWhile isAttributeUnit = s := by
  obtain ⟨c, t, rfl, stop⟩ := ends
  refine takeWhile_append_stop (List.all_eq_true.mpr fun u member => ?_) stop
  exact isNameUnit_attributeUnit ((isValidAttributeName_units valid).2 u member)

theorem parseAttribute_bare {key s : JSString} (valid : isValidAttributeName key = true) (ends : EndsName s) :
    parseAttribute (key ++ s) = some (⟨key, []⟩, s.dropWhile isSpace) := by
  obtain ⟨taken, dropped⟩ := takeWhile_name valid ends.1
  unfold parseAttribute
  simp only [taken, dropped, if_neg (isValidAttributeName_units valid).1,
    replaceNulls_of_notMem (isValidAttributeName_null valid)]
  split
  · rename_i t found
    exact absurd found (ends.2 t)
  · rfl

theorem parseAttribute_quoted {key value : JSString} (s : JSString) (valid : isValidAttributeName key = true)
    (clean : 0 ∉ value) :
    parseAttribute (key ++ js "=\"" ++ escapeAttrValue value ++ 34 :: s) = some (⟨key, value⟩, s) := by
  have shape : key ++ js "=\"" ++ escapeAttrValue value ++ 34 :: s = key ++ (61 :: 34 :: (escapeAttrValue value ++ 34 :: s)) := by
    simp [js, utf16, unitsOf]
  obtain ⟨taken, dropped⟩ := takeWhile_name (s := 61 :: 34 :: (escapeAttrValue value ++ 34 :: s)) valid ⟨61, _, rfl, by decide⟩
  have quoted : (escapeAttrValue value).all (· ≠ 34) := by
    rw [List.all_eq_true]
    intro u member
    rw [decide_eq_true_eq]
    rintro rfl
    exact quot_notMem_escapeAttrValue value member
  obtain ⟨inside, after⟩ := takeWhile_append_stop (s := s) quoted (by decide : decide (34 ≠ 34) = false)
  unfold parseAttribute
  simp only [shape, taken, dropped, if_neg (isValidAttributeName_units valid).1,
    replaceNulls_of_notMem (isValidAttributeName_null valid)]
  have skip : (61 :: 34 :: (escapeAttrValue value ++ 34 :: s)).dropWhile isSpace =
      61 :: 34 :: (escapeAttrValue value ++ 34 :: s) := List.dropWhile_cons_of_neg (by decide)
  have skip' : (34 :: (escapeAttrValue value ++ 34 :: s)).dropWhile isSpace =
      34 :: (escapeAttrValue value ++ 34 :: s) := List.dropWhile_cons_of_neg (by decide)
  rw [skip]
  simp only [skip', attributeValue, inside, after, List.drop_succ_cons, List.drop_zero,
    replaceNulls_of_notMem (null_notMem_escapeAttrValue clean), decode_escapeAttrValue]

/-- The attribute a prop prints as, if it prints. -/
def printedAttribute (declaredType : Option (List JSString)) (key : JSString) (value : Json) : Option Attribute :=
  if isValidAttributeName key then
    match value with
    | .bool true => some ⟨key, []⟩
    | .bool false => none
    | .null => none
    | _ => some ⟨key, propAttributeValue value declaredType⟩
  else none

def printedAttributes (propType : PropTypeLookup) (name : JSString) (props : Props) : List Attribute :=
  props.filterMap fun entry => printedAttribute (propType name entry.1) entry.1 entry.2

/-- How a prop prints: not at all, as a bare name, or with a quoted value. -/
theorem attributeToHtml_cases (declaredType : Option (List JSString)) (key : JSString) (value : Json) :
    attributeToHtml declaredType key value = [] ∧ printedAttribute declaredType key value = none ∨
    isValidAttributeName key = true ∧
      (attributeToHtml declaredType key value = 32 :: key ∧ printedAttribute declaredType key value = some ⟨key, []⟩ ∨
        ∃ text, attributeToHtml declaredType key value = 32 :: key ++ js "=\"" ++ escapeAttrValue text ++ [34] ∧
          printedAttribute declaredType key value = some ⟨key, text⟩) := by
  unfold attributeToHtml printedAttribute
  by_cases valid : isValidAttributeName key = true
  · rw [if_pos valid, if_pos valid]
    cases value with
    | null => exact .inl ⟨rfl, rfl⟩
    | bool b =>
      cases b with
      | false => exact .inl ⟨rfl, rfl⟩
      | true => exact .inr ⟨valid, .inl ⟨rfl, rfl⟩⟩
    | num x => exact .inr ⟨valid, .inr ⟨_, rfl, rfl⟩⟩
    | str s => exact .inr ⟨valid, .inr ⟨_, rfl, rfl⟩⟩
    | arr items => exact .inr ⟨valid, .inr ⟨_, rfl, rfl⟩⟩
    | obj members => exact .inr ⟨valid, .inr ⟨_, rfl, rfl⟩⟩
  · rw [if_neg valid, if_neg valid]
    exact .inl ⟨rfl, rfl⟩

theorem endsName_space_key {key s : JSString} (valid : isValidAttributeName key = true) : EndsName (32 :: key ++ s) := by
  obtain ⟨some, units⟩ := isValidAttributeName_units valid
  obtain ⟨c, rest, rfl⟩ := List.exists_cons_of_ne_nil some
  have unit := units c (List.mem_cons_self ..)
  refine ⟨⟨32, c :: rest ++ s, rfl, by decide⟩, fun t => ?_⟩
  rw [List.cons_append, List.cons_append, List.dropWhile_cons_of_pos (by decide),
    List.dropWhile_cons_of_neg (by simp [isNameUnit_not_space unit])]
  intro equal
  have stop := isNameUnit_attributeUnit unit
  rw [(List.cons.inj equal).1] at stop
  exact absurd stop (by decide)

variable {propType : PropTypeLookup}

theorem endsName_attributes {name : JSString} {props : Props} {tail : JSString} (ends : EndsName tail) :
    EndsName (attributesToHtml propType name props ++ tail) := by
  induction props with
  | nil => exact ends
  | cons entry props ih =>
    rw [attributesToHtml, List.flatMap_cons, ← attributesToHtml, List.append_assoc]
    rcases attributeToHtml_cases (propType name entry.1) entry.1 entry.2 with ⟨empty, -⟩ | ⟨valid, ⟨bare, -⟩ | ⟨text, quoted, -⟩⟩
    · rw [empty]
      exact ih
    · rw [bare]
      exact endsName_space_key valid
    · rw [quoted, List.append_assoc, List.append_assoc, List.append_assoc]
      exact endsName_space_key valid

theorem tagStep_attribute {key s rest : JSString} {first : Attribute} (valid : isValidAttributeName key = true)
    (found : parseAttribute (key ++ s) = some (first, rest)) : tagStep (32 :: key ++ s) = .found first rest := by
  obtain ⟨some, units⟩ := isValidAttributeName_units valid
  obtain ⟨c, key, rfl⟩ := List.exists_cons_of_ne_nil some
  have unit := units c (List.mem_cons_self ..)
  have noGt : c ≠ 62 := by
    rintro rfl
    exact absurd unit (by decide)
  have noSlash : ¬(c = 47 ∧ [62] <+: key ++ s) := by
    rintro ⟨rfl, -⟩
    exact absurd unit (by decide)
  have skip : (32 :: (c :: key) ++ s).dropWhile isSpace = c :: (key ++ s) := by
    rw [List.cons_append, List.cons_append, List.dropWhile_cons_of_pos (by decide),
      List.dropWhile_cons_of_neg (by simp [isNameUnit_not_space unit])]
  rw [List.cons_append] at found
  simp only [tagStep, skip, if_neg noGt, if_neg noSlash, found]

/-- The attribute loop reads printed props back, and ends where the tag does. -/
theorem parseAttributes_printed {name : JSString} {props : Props} {tail rest : JSString} {closed : Bool} {n : Nat}
    (clean : ∀ a ∈ printedAttributes propType name props, 0 ∉ a.value) (ends : EndsName tail)
    (done : tagStep tail = .done closed rest) (enough : (attributesToHtml propType name props ++ tail).length ≤ n) :
    parseAttributes n (attributesToHtml propType name props ++ tail) =
      (printedAttributes propType name props, closed, rest) := by
  induction props generalizing n with
  | nil =>
    obtain ⟨⟨c, t, rfl, -⟩, -⟩ := ends
    rw [attributesToHtml, List.flatMap_nil, List.nil_append] at enough ⊢
    rw [List.length_cons] at enough
    obtain ⟨n, rfl⟩ : ∃ j, n = j + 1 := ⟨n - 1, by omega⟩
    simp only [parseAttributes, done]
    rfl
  | cons entry props ih =>
    rw [attributesToHtml, List.flatMap_cons, ← attributesToHtml, List.append_assoc] at enough ⊢
    rw [printedAttributes, List.filterMap_cons, ← printedAttributes] at clean ⊢
    rcases attributeToHtml_cases (propType name entry.1) entry.1 entry.2 with
      ⟨empty, unprinted⟩ | ⟨valid, ⟨bare, printed⟩ | ⟨text, quoted, printed⟩⟩
    · rw [unprinted] at clean ⊢
      rw [empty, List.nil_append] at enough ⊢
      exact ih clean enough
    · rw [printed] at clean ⊢
      rw [bare] at enough ⊢
      simp only [List.cons_append, List.length_cons, List.length_append] at enough
      obtain ⟨n, rfl⟩ : ∃ j, n = j + 1 := ⟨n - 1, by omega⟩
      have endsKey : EndsName (attributesToHtml propType name props ++ tail) := endsName_attributes ends
      have step := tagStep_attribute valid (parseAttribute_bare valid endsKey)
      have later := ih (n := n) (fun a member => clean a (List.mem_cons_of_mem _ member)) (by
        rw [List.length_append]
        omega)
      have skipped := (List.dropWhile_suffix (l := attributesToHtml propType name props ++ tail) isSpace).length_le
      rw [List.length_append] at skipped
      have same := parseAttributes_skip (n := n) (k := n) (s := attributesToHtml propType name props ++ tail)
        (by omega) (by rw [List.length_append]; omega)
      simp only [parseAttributes, step, same, later]
    · rw [printed] at clean ⊢
      rw [quoted] at enough ⊢
      simp only [List.cons_append, List.length_cons, List.length_append] at enough
      obtain ⟨n, rfl⟩ : ∃ j, n = j + 1 := ⟨n - 1, by omega⟩
      have value := clean _ (List.mem_cons_self ..)
      have read := parseAttribute_quoted (attributesToHtml propType name props ++ tail) valid value
      have shape : 32 :: entry.1 ++ js "=\"" ++ escapeAttrValue text ++ [34] ++ (attributesToHtml propType name props ++ tail) =
          32 :: entry.1 ++ (js "=\"" ++ escapeAttrValue text ++ 34 :: (attributesToHtml propType name props ++ tail)) := by
        simp
      have step := tagStep_attribute (s := js "=\"" ++ escapeAttrValue text ++ 34 :: (attributesToHtml propType name props ++ tail))
        valid (by rw [← List.append_assoc, ← List.append_assoc]; exact read)
      have later := ih (n := n) (fun a member => clean a (List.mem_cons_of_mem _ member)) (by
        rw [List.length_append]
        omega)
      rw [shape]
      simp only [parseAttributes, step, later]

/-- A name that prints as a tag name. -/
def IsTagName (name : JSString) : Prop := name ≠ [] ∧ ∀ u ∈ name, isNameUnit u = true

theorem IsTagName.null {name : JSString} (tag : IsTagName name) : 0 ∉ name :=
  fun member => isNameUnit_ne_zero (tag.2 0 member) rfl

theorem takeTagName_append {name s : JSString} (tag : IsTagName name)
    (ends : ∃ c t, s = c :: t ∧ isNameUnit c = false ∧ c ≠ 0) : takeTagName (name ++ s) = name := by
  obtain ⟨c, t, rfl, stop, some⟩ := ends
  obtain ⟨d, rest, rfl⟩ := List.exists_cons_of_ne_nil tag.1
  have all : rest.all fun u => isNameUnit u || u == 0 := by
    rw [List.all_eq_true]
    intro u member
    rw [tag.2 u (List.mem_cons_of_mem _ member), Bool.true_or]
  have halts : (isNameUnit c || c == 0) = false := by simp [stop, some]
  have taken := (takeWhile_append_stop (s := t) all halts).1
  rw [List.cons_append, takeTagName, if_pos (tag.2 d (List.mem_cons_self ..)), taken]

/-- The two ways an open tag ends in print. -/
def tagEnd (closed : Bool) : JSString := if closed then js " />" else [62]

theorem tagEnd_endsName (closed : Bool) (rest : JSString) : EndsName (tagEnd closed ++ rest) := by
  cases closed with
  | false => exact ⟨⟨62, rest, rfl, by decide⟩, by simp [tagEnd, isSpace]⟩
  | true => exact ⟨⟨32, 47 :: 62 :: rest, rfl, by decide⟩, by simp [tagEnd, js, utf16, unitsOf, isSpace]⟩

theorem tagStep_tagEnd (closed : Bool) (rest : JSString) : tagStep (tagEnd closed ++ rest) = .done closed rest := by
  cases closed with
  | false => simp [tagStep, tagEnd, isSpace]
  | true => simp [tagStep, tagEnd, js, utf16, unitsOf, isSpace]

theorem attributes_stop {name : JSString} {props : Props} {closed : Bool} {rest : JSString} :
    ∃ c t, attributesToHtml propType name props ++ (tagEnd closed ++ rest) = c :: t ∧ isNameUnit c = false ∧ c ≠ 0 := by
  have spaced : ∀ props : Props, attributesToHtml propType name props = [] ∨
      ∃ t, attributesToHtml propType name props = 32 :: t := by
    intro props
    induction props with
    | nil => exact .inl rfl
    | cons entry props ih =>
      rw [attributesToHtml, List.flatMap_cons, ← attributesToHtml]
      rcases attributeToHtml_cases (propType name entry.1) entry.1 entry.2 with
        ⟨empty, -⟩ | ⟨-, ⟨bare, -⟩ | ⟨text, quoted, -⟩⟩
      · rw [empty]
        exact ih
      · rw [bare]
        exact .inr ⟨_, rfl⟩
      · rw [quoted]
        exact .inr ⟨_, rfl⟩
  rcases spaced props with empty | ⟨t, space⟩
  · rw [empty, List.nil_append]
    cases closed with
    | false => exact ⟨62, rest, rfl, by decide, by decide⟩
    | true => exact ⟨32, 47 :: 62 :: rest, rfl, by decide, by decide⟩
  · rw [space]
    exact ⟨32, _, rfl, by decide, by decide⟩

/-- A printed open tag is read back. -/
theorem parseOpenTag_printed {name : JSString} {props : Props} (closed : Bool) (rest : JSString) (tag : IsTagName name)
    (clean : ∀ a ∈ printedAttributes propType name props, 0 ∉ a.value) :
    parseOpenTag (name ++ attributesToHtml propType name props ++ tagEnd closed ++ rest) =
      some (.openTag (toLowerCase name) name (printedAttributes propType name props) closed, rest) := by
  rw [List.append_assoc, List.append_assoc]
  have skip : (name ++ (attributesToHtml propType name props ++ (tagEnd closed ++ rest))).dropWhile isSpace =
      name ++ (attributesToHtml propType name props ++ (tagEnd closed ++ rest)) := by
    obtain ⟨c, t, rfl⟩ := List.exists_cons_of_ne_nil tag.1
    have visible := isNameUnit_not_space (tag.2 c (List.mem_cons_self ..))
    exact List.dropWhile_cons_of_neg (by simp [visible])
  have read := parseAttributes_printed clean (tagEnd_endsName closed rest) (tagStep_tagEnd closed rest) (Nat.le_refl _)
  unfold parseOpenTag
  simp only [skip, takeTagName_append tag attributes_stop, if_neg tag.1, replaceNulls_of_notMem tag.null,
    List.drop_left, read]

theorem tokenize_cons_open {s rest : JSString} {token : Token} (noComment : ¬js "!--" <+: s) (noClose : ¬[47] <+: s)
    (found : parseOpenTag s = some (token, rest)) : tokenize (60 :: s) = token :: tokenize rest := by
  have shorter := parseOpenTag_length found
  rw [tokenize, List.length_cons]
  simp only [tokenizeFrom, if_neg noComment, if_neg noClose, found]
  rw [tokenizeFrom_enough shorter (Nat.le_refl _)]
  rfl

theorem tokenize_open {name : JSString} {props : Props} (closed : Bool) (rest : JSString) (tag : IsTagName name)
    (clean : ∀ a ∈ printedAttributes propType name props, 0 ∉ a.value) :
    tokenize (60 :: name ++ attributesToHtml propType name props ++ tagEnd closed ++ rest) =
      .openTag (toLowerCase name) name (printedAttributes propType name props) closed :: tokenize rest := by
  have read := parseOpenTag_printed closed rest tag clean
  obtain ⟨c, t, rfl⟩ := List.exists_cons_of_ne_nil tag.1
  have unit := tag.2 c (List.mem_cons_self ..)
  refine tokenize_cons_open ?_ ?_ read
  · rintro ⟨r, equal⟩
    rw [← (List.cons.inj equal).1] at unit
    exact absurd unit (by decide)
  · rintro ⟨r, equal⟩
    rw [← (List.cons.inj equal).1] at unit
    exact absurd unit (by decide)

theorem trim_tagName {name : JSString} (tag : IsTagName name) : trim name = name := by
  have visible : ∀ u ∈ name, isSpace u = false := fun u member => isNameUnit_not_space (tag.2 u member)
  have start : name.dropWhile isSpace = name := by
    obtain ⟨c, t, rfl⟩ := List.exists_cons_of_ne_nil tag.1
    exact List.dropWhile_cons_of_neg (by simp [visible c (List.mem_cons_self ..)])
  rw [trim, start]
  refine List.rdropWhile_eq_self_iff.mpr fun some => ?_
  simp [visible _ (List.getLast_mem some)]

theorem tokenize_close {name : JSString} (rest : JSString) (tag : IsTagName name) :
    tokenize (js "</" ++ name ++ 62 :: rest) = .closeTag (toLowerCase name) name :: tokenize rest := by
  have absent : 62 ∉ name := fun member => absurd (tag.2 62 member) (by decide)
  have found : breakOn [62] ((47 :: (name ++ 62 :: rest)).drop 1) = some (name, rest) := breakOn_singleton absent
  have shape : js "</" ++ name ++ 62 :: rest = 60 :: 47 :: (name ++ 62 :: rest) := by simp [js, utf16, unitsOf]
  have noComment : ¬js "!--" <+: 47 :: (name ++ 62 :: rest) := by
    rintro ⟨r, equal⟩
    exact absurd (List.cons.inj equal).1 (by decide)
  have close : [47] <+: 47 :: (name ++ 62 :: rest) := ⟨_, rfl⟩
  rw [shape, tokenize, List.length_cons]
  simp only [tokenizeFrom, if_neg noComment, if_pos close, found, trim_tagName tag, replaceNulls_of_notMem tag.null]
  have shorter : rest.length ≤ (47 :: (name ++ 62 :: rest)).length := by
    simp only [List.length_cons, List.length_append]
    omega
  rw [tokenizeFrom_enough shorter (Nat.le_refl _)]
  rfl

/-- Text runs to the next `<`. -/
theorem tokenize_text {text rest : JSString} (some : text ≠ []) (absent : 60 ∉ text)
    (stops : rest = [] ∨ ∃ t, rest = 60 :: t) :
    tokenize (text ++ rest) = .text (decodeEntities (dropNulls text)) :: tokenize rest := by
  have all : ∀ u ∈ text, decide (u ≠ 60) = true := by
    intro u member
    rw [decide_eq_true_eq]
    rintro rfl
    exact absent member
  have runs : (text ++ rest).takeWhile (· ≠ 60) = text ∧ (text ++ rest).dropWhile (· ≠ 60) = rest := by
    rcases stops with rfl | ⟨t, rfl⟩
    · rw [List.append_nil]
      exact ⟨List.takeWhile_eq_self_iff.mpr all, List.dropWhile_eq_nil_iff.mpr all⟩
    · exact takeWhile_append_stop (List.all_eq_true.mpr all) (by decide)
  obtain ⟨c, t, rfl⟩ := List.exists_cons_of_ne_nil some
  have plain : c ≠ 60 := fun equal => absent (equal ▸ List.mem_cons_self ..)
  rw [List.cons_append] at runs ⊢
  rw [tokenize, List.length_cons, tokenizeFrom, runs.1, runs.2]
  · have shorter : rest.length ≤ (t ++ rest).length := by
      rw [List.length_append]
      omega
    rw [tokenizeFrom_enough shorter (Nat.le_refl _)]
    rfl
  · exact plain

/-- Whether an element prints without children and without an end tag. -/
def printsClosed (name : JSString) (children : List FragmentNode) (selfClosing : Bool) : Bool :=
  name ∈ voidElements ∨ (selfClosing ∧ children.isEmpty)

mutual

/-- The tokens a printed node is read back as. -/
def nodeTokens (propType : PropTypeLookup) : FragmentNode → List Token
  | .text value _ => [.text value]
  | .element name props children selfClosing =>
    let attributes := printedAttributes propType name props
    if printsClosed name children selfClosing then [.openTag (toLowerCase name) name attributes true]
    else .openTag (toLowerCase name) name attributes false ::
      (nodesTokens propType children ++ [.closeTag (toLowerCase name) name])

def nodesTokens (propType : PropTypeLookup) : List FragmentNode → List Token
  | [] => []
  | node :: nodes => nodeTokens propType node ++ nodesTokens propType nodes

end

def FragmentNode.isText : FragmentNode → Bool
  | .text _ _ => true
  | .element .. => false

/-- No text follows a text. -/
def Apart (node : FragmentNode) (nodes : List FragmentNode) : Prop :=
  node.isText = true → ∀ next ∈ nodes.head?, next.isText = false

mutual

/-- The trees that printing loses nothing of. -/
def PrintableNode (propType : PropTypeLookup) : FragmentNode → Prop
  | .text value _ => value ≠ [] ∧ 0 ∉ value
  | .element name props children _ =>
    IsTagName name ∧ (∀ a ∈ printedAttributes propType name props, 0 ∉ a.value) ∧ Printable propType children

def Printable (propType : PropTypeLookup) : List FragmentNode → Prop
  | [] => True
  | node :: nodes => PrintableNode propType node ∧ Apart node nodes ∧ Printable propType nodes

end

/-- Where text stops: at the end of the input and at a tag. -/
def Stops (s : JSString) : Prop := s = [] ∨ ∃ t, s = 60 :: t

theorem stops_nodesToHtml {nodes : List FragmentNode} {rest : JSString} (stops : Stops rest)
    (element : ∀ next ∈ nodes.head?, next.isText = false) : Stops (nodesToHtml propType nodes ++ rest) := by
  cases nodes with
  | nil => exact stops
  | cons node nodes =>
    cases node with
    | text value segments => exact absurd (element _ rfl) (by simp [FragmentNode.isText])
    | element name props children selfClosing =>
      simp only [nodesToHtml, nodeToHtml]
      split
      · exact .inr ⟨_, rfl⟩
      · exact .inr ⟨_, rfl⟩

theorem nodeToHtml_element (name : JSString) (props : Props) (children : List FragmentNode) (selfClosing : Bool) :
    nodeToHtml propType (.element name props children selfClosing) =
      if printsClosed name children selfClosing then
        60 :: name ++ attributesToHtml propType name props ++ tagEnd true
      else
        60 :: name ++ attributesToHtml propType name props ++ tagEnd false ++ nodesToHtml propType children ++
          (js "</" ++ name ++ [62]) := by
  simp only [nodeToHtml, printsClosed, decide_eq_true_eq]
  split
  · rfl
  · simp [tagEnd]

mutual

theorem tokenize_node (node : FragmentNode) (rest : JSString) (printable : PrintableNode propType node)
    (stops : node.isText = true → Stops rest) :
    tokenize (nodeToHtml propType node ++ rest) = nodeTokens propType node ++ tokenize rest := by
  cases node with
  | text value segments =>
    obtain ⟨some, clean⟩ := printable
    have escaped : escapeHtml value ≠ [] := fun empty => some (escapeHtml_eq_nil.mp empty)
    simp only [nodeToHtml, nodeTokens]
    rw [tokenize_text escaped (lt_notMem_escapeHtml value) (stops rfl),
      dropNulls_of_notMem (null_notMem_escapeHtml clean), decode_escapeHtml]
    rfl
  | element name props children selfClosing =>
    obtain ⟨tag, clean, inner⟩ := printable
    rw [nodeToHtml_element]
    unfold nodeTokens
    split
    · exact tokenize_open true rest tag clean
    · have closes : Stops (js "</" ++ name ++ [62] ++ rest) := .inr ⟨47 :: (name ++ [62] ++ rest), by simp [js, utf16, unitsOf]⟩
      rw [List.append_assoc, List.append_assoc, tokenize_open false _ tag clean, tokenize_nodes children _ inner closes,
        List.append_assoc (js "</" ++ name), List.singleton_append, tokenize_close rest tag]
      simp

/-- A printed tree is tokenized node by node. -/
theorem tokenize_nodes (nodes : List FragmentNode) (rest : JSString) (printable : Printable propType nodes)
    (stops : Stops rest) :
    tokenize (nodesToHtml propType nodes ++ rest) = nodesTokens propType nodes ++ tokenize rest := by
  cases nodes with
  | nil => rfl
  | cons node nodes =>
    obtain ⟨first, apart, others⟩ := printable
    rw [nodesToHtml, nodesTokens, List.append_assoc, List.append_assoc, ← tokenize_nodes nodes rest others stops]
    exact tokenize_node node _ first fun text => stops_nodesToHtml stops (apart text)

end

theorem tokenize_printed {tree : FragmentTree} (printable : Printable propType tree) :
    tokenize (treeToHtmlWith propType tree) = nodesTokens propType tree := by
  have whole := tokenize_nodes tree [] printable (.inl rfl)
  rw [List.append_nil] at whole
  rw [treeToHtmlWith, whole]
  exact List.append_nil _

end Xript
