import Xript.Sanitize.ReadBack

namespace Xript

/-- The attributes that use a spelling of their name for the first time, the spellings `seen` apart. -/
def firstSpelled (seen : List JSString) : List Attribute → List Attribute
  | [] => []
  | a :: attributes =>
    if a.name ∈ seen then firstSpelled seen attributes else a :: firstSpelled (a.name :: seen) attributes

/-- The attributes of a name in lower case, each spelling of it once. -/
def spellings (lower : JSString) (attributes : List Attribute) : List Attribute :=
  (firstSpelled [] attributes).filter fun a => toLowerCase a.name = lower

/-- The value that an attribute is let through with. -/
def letThrough (check : JSString → PropValue → PropOutcome) (a : Attribute) : Option PropValue :=
  match check a.name (attributeProp a).2 with
  | .keep _ value => some value
  | .drop _ => none

/-- The value that a prop is kept with under a name. -/
def keptUnder (check : JSString → PropValue → PropOutcome) (key : JSString) (entry : JSString × PropValue) :
    Option PropValue :=
  match check entry.1 entry.2 with
  | .keep kept value => if key = kept then some value else none
  | .drop _ => none

/-- What the pass over props leaves under a name: the last value that was kept under it. -/
theorem collectProps_get (check : JSString → PropValue → PropOutcome) (props : Props) (key : JSString) :
    (collectProps check props).1.get key = (props.filterMap (keptUnder check key)).getLast? := by
  have loop : ∀ (props : Props) (found : Props × Report), (props.foldl (fun found entry =>
        match check entry.1 entry.2 with
        | .keep key value => (found.1.set key value, found.2)
        | .drop report => (found.1, found.2 ++ report)) found).1.get key =
      ((props.filterMap (keptUnder check key)).getLast?).or (found.1.get key) := by
    intro props
    induction props with
    | nil => exact fun found => rfl
    | cons entry props ih =>
      intro found
      rw [List.foldl_cons, ih]
      cases outcome : check entry.1 entry.2 with
      | drop report =>
        have skipped : keptUnder check key entry = none := by rw [keptUnder, outcome]
        rw [List.filterMap_cons_none skipped]
      | keep kept value =>
        dsimp only
        rw [Record.get_set]
        by_cases same : key = kept
        · have taken : keptUnder check key entry = some value := by simp only [keptUnder, outcome, if_pos same]
          rw [if_pos same, List.filterMap_cons_some taken, List.getLast?_cons]
          cases (props.filterMap (keptUnder check key)).getLast? <;> rfl
        · have skipped : keptUnder check key entry = none := by simp only [keptUnder, outcome, if_neg same]
          rw [if_neg same, List.filterMap_cons_none skipped]
  exact (loop props ([], .empty)).trans Option.or_none

theorem filter_insertNew {p : JSString → Bool} (names : ∀ key, p key = true → arrayIndex key = none) (key : JSString)
    (value : PropValue) (props : Props) :
    (Record.insertNew key value props).filter (fun entry => p entry.1) =
      props.filter (fun entry => p entry.1) ++ [(key, value)].filter fun entry => p entry.1 := by
  cases chosen : p key with
  | true => rw [Record.insertNew_last (names key chosen), List.filter_append]
  | false =>
    have none : [(key, value)].filter (fun entry => p entry.1) = [] := List.filter_cons_of_neg (by simp [chosen])
    rw [none, List.append_nil]
    induction props with
    | nil => exact none
    | cons entry props ih =>
      unfold Record.insertNew
      split
      · rw [List.filter_cons_of_neg (by simp [chosen])]
      · rw [List.filter_cons, List.filter_cons, ih]

/-- The props of an open tag, those of some names: one for each spelling, in order. -/
theorem attributesToProps_filter {p : JSString → Bool} (names : ∀ key, p key = true → arrayIndex key = none)
    (attributes : List Attribute) :
    (attributesToProps attributes).filter (fun entry => p entry.1) =
      ((firstSpelled [] attributes).filter fun a => p a.name).map attributeProp := by
  have loop : ∀ (attributes : List Attribute) (props : Props) (seen : List JSString),
      (∀ name, name ∈ props.keys ↔ name ∈ seen) →
      (attributes.foldl addAttribute props).filter (fun entry => p entry.1) =
        props.filter (fun entry => p entry.1) ++ ((firstSpelled seen attributes).filter fun a => p a.name).map attributeProp := by
    intro attributes
    induction attributes with
    | nil => exact fun props seen _ => (List.append_nil _).symm
    | cons a attributes ih =>
      intro props seen same
      rw [List.foldl_cons, firstSpelled, addAttribute]
      by_cases known : a.name ∈ props.keys
      · rw [if_pos known, if_pos ((same _).mp known), ih props seen same]
      · have grown : ∀ name, name ∈ (props.set a.name (attributeProp a).2).keys ↔ name ∈ a.name :: seen := by
          intro name
          rw [Record.mem_keys_set, List.mem_cons, same]
        rw [if_neg known, if_neg (mt (same _).mpr known), ih _ _ grown, Record.set, if_neg known,
          filter_insertNew names, List.append_assoc]
        congr 1
        cases chosen : p a.name with
        | true => simp [chosen, attributeProp]
        | false => simp [chosen]
  exact loop attributes [] [] fun name => Iff.rfl

/-- A check that keeps a prop under the one spelling of its name in lower case. -/
def FoldsCase (check : JSString → PropValue → PropOutcome) : Prop :=
  ∀ {key : JSString} {value : PropValue} {kept : JSString} {after : PropValue}, check key value = .keep kept after →
    isValidAttributeName (toLowerCase key) = true ∧ kept = canonicalAttributeName (toLowerCase key)

theorem canonicalAttributeName_inj {a b : JSString} (lowerA : toLowerCase a = a) (lowerB : toLowerCase b = b)
    (same : canonicalAttributeName a = canonicalAttributeName b) : a = b := by
  rw [← toLowerCase_canonical lowerA, same, toLowerCase_canonical lowerB]

theorem canonicalAttributeName_of_invalid {name : JSString} (invalid : isValidAttributeName name = false) :
    canonicalAttributeName name = name := by
  have table : ∀ entry ∈ caseSensitiveAttributes, isValidAttributeName entry.1 = true := by decide +kernel
  unfold canonicalAttributeName
  cases found : caseSensitiveAttributes.lookup name with
  | none => rfl
  | some spelled =>
    obtain ⟨before, after, split, -⟩ := List.lookup_eq_some_iff.mp found
    have valid := table (name, spelled) (by rw [split]; simp)
    rw [invalid] at valid
    cases valid

/-- Only attributes of a name are kept under it. -/
theorem keptUnder_lower {check : JSString → PropValue → PropOutcome} (folds : FoldsCase check) {m : JSString}
    {entry : JSString × PropValue} (kept : keptUnder check (canonicalAttributeName (toLowerCase m)) entry ≠ none) :
    toLowerCase entry.1 = toLowerCase m ∧ isValidAttributeName (toLowerCase m) = true := by
  unfold keptUnder at kept
  split at kept
  · rename_i name value keeps
    split at kept
    · rename_i same
      obtain ⟨valid, spelled⟩ := folds keeps
      rw [spelled] at same
      cases validM : isValidAttributeName (toLowerCase m) with
      | true =>
        have lower := canonicalAttributeName_inj (toLowerCase_of_valid rfl validM) (toLowerCase_of_valid rfl valid) same
        exact ⟨lower.symm, rfl⟩
      | false =>
        have canonical := canonicalAttributeName_valid valid
        rw [← same, canonicalAttributeName_of_invalid validM, validM] at canonical
        cases canonical
    · exact absurd rfl kept
  · exact absurd rfl kept

theorem keptUnder_attribute {check : JSString → PropValue → PropOutcome} (folds : FoldsCase check) {m : JSString}
    {a : Attribute} (named : toLowerCase a.name = toLowerCase m) :
    keptUnder check (canonicalAttributeName (toLowerCase m)) (attributeProp a) = letThrough check a := by
  have name : (attributeProp a).1 = a.name := rfl
  rw [keptUnder, letThrough, name]
  cases outcome : check a.name (attributeProp a).2 with
  | drop report => rfl
  | keep kept value =>
    have spelled := (folds outcome).2
    rw [named] at spelled
    exact if_pos spelled.symm

theorem arrayIndex_lower {key : JSString} (index : arrayIndex key ≠ none) : toLowerCase key = key := by
  have digits : key.all isDigit := by
    by_contra other
    exact index (if_neg fun shape => other shape.2.1)
  refine toLowerCase_of_lower (List.all_eq_true.mpr fun u member => ?_)
  have digit := List.all_eq_true.mp digits u member
  simp only [isDigit, isUpper, Bool.and_eq_true, decide_eq_true_eq, Bool.not_eq_true', Bool.and_eq_false_iff,
    decide_eq_false_iff_not] at digit ⊢
  omega

/-- What an open tag leaves under a name: the last value let through, among the first attributes of its spellings. -/
theorem attributes_get {check : JSString → PropValue → PropOutcome} (folds : FoldsCase check)
    (attributes : List Attribute) (m : JSString) :
    (collectProps check (attributesToProps attributes)).1.get (canonicalAttributeName (toLowerCase m)) =
      ((spellings (toLowerCase m) attributes).filterMap (letThrough check)).getLast? := by
  rw [collectProps_get]
  congr 1
  cases valid : isValidAttributeName (toLowerCase m) with
  | false =>
    have none : ∀ props : Props, props.filterMap (keptUnder check (canonicalAttributeName (toLowerCase m))) = [] := by
      intro props
      rw [List.filterMap_eq_nil_iff]
      intro entry _
      by_contra kept
      have other := (keptUnder_lower folds kept).2
      rw [valid] at other
      cases other
    rw [none, eq_comm, List.filterMap_eq_nil_iff]
    intro a member
    have named : toLowerCase a.name = toLowerCase m := by simpa using (List.mem_filter.mp member).2
    rw [← keptUnder_attribute folds named]
    exact List.filterMap_eq_nil_iff.mp (none [attributeProp a]) _ (List.mem_singleton_self _)
  | true =>
    have names : ∀ key, decide (toLowerCase key = toLowerCase m) = true → arrayIndex key = none := by
      intro key named
      by_contra index
      have lower := arrayIndex_lower index
      rw [decide_eq_true_eq, lower] at named
      rw [named] at index
      exact index (arrayIndex_of_valid valid)
    have own := attributesToProps_filter names attributes
    have narrowed : ∀ props : Props, props.filterMap (keptUnder check (canonicalAttributeName (toLowerCase m))) =
        (props.filter fun entry => toLowerCase entry.1 = toLowerCase m).filterMap
          (keptUnder check (canonicalAttributeName (toLowerCase m))) := by
      intro props
      rw [List.filterMap_filter]
      refine List.filterMap_congr fun entry _ => ?_
      by_cases named : toLowerCase entry.1 = toLowerCase m
      · rw [if_pos (decide_eq_true named)]
      · rw [if_neg (by simp [named])]
        by_contra kept
        exact named (keptUnder_lower folds kept).1
    rw [narrowed, own, List.filterMap_map, spellings]
    refine List.filterMap_congr fun a member => ?_
    exact keptUnder_attribute folds (by simpa using (List.mem_filter.mp member).2)

/-- The first attribute of a name is the first of its spellings. -/
theorem spellings_head (lower : JSString) (attributes : List Attribute) :
    (spellings lower attributes).head? = attributes.find? fun a => toLowerCase a.name = lower := by
  have loop : ∀ (attributes : List Attribute) (seen : List JSString), (∀ name ∈ seen, toLowerCase name ≠ lower) →
      ((firstSpelled seen attributes).filter fun a => toLowerCase a.name = lower).head? =
        attributes.find? fun a => toLowerCase a.name = lower := by
    intro attributes
    induction attributes with
    | nil => exact fun _ _ => rfl
    | cons a attributes ih =>
      intro seen others
      rw [firstSpelled]
      by_cases known : a.name ∈ seen
      · rw [if_pos known, ih seen others, List.find?_cons_of_neg (by simpa using others _ known)]
      · rw [if_neg known]
        by_cases named : toLowerCase a.name = lower
        · rw [List.filter_cons_of_pos (by simpa using named), List.find?_cons_of_pos (by simpa using named)]
          rfl
        · rw [List.filter_cons_of_neg (by simpa using named), List.find?_cons_of_neg (by simpa using named)]
          exact ih _ (List.forall_mem_cons.mpr ⟨named, others⟩)
  exact loop attributes [] nofun

/-- The first value stands: every other spelling is refused too where it is refused, and otherwise the last one that is
let through comes out the same. -/
def FirstStands (clean : Attribute → Option PropValue) : List Attribute → Prop
  | [] => True
  | first :: others =>
    match clean first with
    | none => ∀ a ∈ others, clean a = none
    | some value => ∀ last ∈ (others.filterMap clean).getLast?, last = value

theorem getLast?_eq_head_iff (clean : Attribute → Option PropValue) (attributes : List Attribute) :
    (attributes.filterMap clean).getLast? = attributes.head?.bind clean ↔ FirstStands clean attributes := by
  cases attributes with
  | nil => exact iff_of_true rfl trivial
  | cons first others =>
    rw [FirstStands, List.head?_cons, Option.bind_some]
    cases cleaned : clean first with
    | none =>
      rw [List.filterMap_cons_none cleaned, List.getLast?_eq_none_iff, List.filterMap_eq_nil_iff]
    | some value =>
      rw [List.filterMap_cons_some cleaned, List.getLast?_cons, Option.some.injEq]
      dsimp only
      cases (others.filterMap clean).getLast? with
      | none => simp
      | some last => simp

theorem htmlProp_folds (ctx : WalkContext) (tag path : JSString) : FoldsCase (htmlProp ctx tag path) := by
  intro key value kept after keeps
  obtain ⟨⟨-, valid, -⟩, -⟩ := htmlProp_keep keeps
  have link : ∀ name, name = js "href" ∨ name = js "src" ∨ name = js "style" → canonicalAttributeName name = name := by
    rintro name (rfl | rfl | rfl) <;> decide +kernel
  refine ⟨valid, ?_⟩
  unfold htmlProp at keeps
  simp only at keeps
  split_ifs at keeps with _ _ _ isLink isStyle _
  · unfold dropAttribute at keeps
    cases keeps
  · split at keeps
    · cases keeps
      exact (link _ (isLink.1.imp id .inl)).symm
    · cases keeps
  · cases keeps
    exact (link _ (.inr (.inr isStyle.1))).symm
  · cases keeps
    rfl

theorem svgTextProp_folds (tag path : JSString) : FoldsCase (svgTextProp tag path) := by
  intro key value kept after keeps
  have table : ∀ entry ∈ caseSensitiveAttributes,
      entry.1 ∉ svgTextAttributes ∧ isMetadataPropName entry.1 = false := by decide +kernel
  unfold svgTextProp at keeps
  simp only at keeps
  split at keeps
  · rename_i allowed
    cases keeps
    refine ⟨allowed.2.1, ?_⟩
    unfold canonicalAttributeName
    cases found : caseSensitiveAttributes.lookup (toLowerCase key) with
    | none => rfl
    | some spelled =>
      obtain ⟨before, after, split, -⟩ := List.lookup_eq_some_iff.mp found
      obtain ⟨other, plain⟩ := table (toLowerCase key, spelled) (by rw [split]; simp)
      rcases allowed.2.2 with text | metadata
      · exact absurd text other
      · rw [plain] at metadata
        cases metadata
  · unfold dropAttribute at keeps
    cases keeps

/-- The check that the attributes of an element of the built-in vocabulary meet. -/
def attributeCheck (ctx : WalkContext) (inSvg : Bool) (name path : JSString) : JSString → PropValue → PropOutcome :=
  if inSvg = true ∧ toLowerCase name ∈ svgTextElements then svgTextProp (toLowerCase name) path
  else htmlProp ctx (toLowerCase name) path

theorem attributeCheck_folds (ctx : WalkContext) (inSvg : Bool) (name path : JSString) :
    FoldsCase (attributeCheck ctx inSvg name path) := by
  unfold attributeCheck
  split
  · exact svgTextProp_folds _ _
  · exact htmlProp_folds _ _ _

/-- An element of the built-in vocabulary keeps what its check lets through. -/
theorem walkNode_props {ctx : WalkContext} (builtin : BuiltinWalk ctx) (inSvg : Bool) (path name : JSString) (props : Props)
    (children : List FragmentNode) (selfClosing : Bool)
    (claimed : inSvg = true ∧ toLowerCase name ∈ svgTextElements ∨ toLowerCase name ∈ allowedElements) :
    ∃ kids hint, (walkNode ctx inSvg path .any (.element name props children selfClosing)).1 =
      [.element (toLowerCase name) (collectProps (attributeCheck ctx inSvg name path) props).1 kids hint] := by
  have text : childAllowed .any (toLowerCase name) = true := rfl
  unfold walkNode
  rw [builtin.resolve]
  by_cases svg : inSvg = true ∧ toLowerCase name ∈ svgTextElements
  · have claim : resolveHtml name ctx.profile inSvg = some (.svgText (toLowerCase name)) := if_pos svg
    rw [claim, attributeCheck, if_pos svg]
    simp only [Option.getD_some, text, if_true]
    unfold sanitizeSvgTextNode
    dsimp only
    split
    · exact ⟨_, _, rfl⟩
    · exact ⟨_, _, rfl⟩
  · obtain ⟨-, notStripped, notUnwrapped⟩ := allowedElement_disjoint _ (claimed.resolve_left svg)
    have claim : resolveHtml name ctx.profile inSvg = some (.html (toLowerCase name)) := by
      unfold resolveHtml
      dsimp only
      rw [if_neg svg, if_neg notStripped, if_neg fun unwrapped => notUnwrapped unwrapped.1, if_pos (claimed.resolve_left svg)]
    rw [claim, attributeCheck, if_neg svg]
    simp only [Option.getD_some, text, if_true]
    exact ⟨_, _, rfl⟩

/-- The first attribute of each name wins, whatever its letter case, exactly when it stands against the first
attributes of the other spellings. -/
theorem firstAttribute_iff {ctx : WalkContext} (builtin : BuiltinWalk ctx) (inSvg : Bool) (path name : JSString)
    (attributes : List Attribute) (children : List FragmentNode) (selfClosing : Bool)
    (claimed : inSvg = true ∧ toLowerCase name ∈ svgTextElements ∨ toLowerCase name ∈ allowedElements) :
    ∃ props kids hint,
      (walkNode ctx inSvg path .any (.element name (attributesToProps attributes) children selfClosing)).1 =
        [.element (toLowerCase name) props kids hint] ∧
      ((∀ a ∈ attributes, props.get (canonicalAttributeName (toLowerCase a.name)) =
          (attributes.find? fun b => toLowerCase b.name = toLowerCase a.name).bind
            (letThrough (attributeCheck ctx inSvg name path))) ↔
        ∀ a ∈ attributes, FirstStands (letThrough (attributeCheck ctx inSvg name path))
          (spellings (toLowerCase a.name) attributes)) := by
  obtain ⟨kids, hint, node⟩ := walkNode_props builtin inSvg path name (attributesToProps attributes) children selfClosing
    claimed
  refine ⟨_, kids, hint, node, forall₂_congr fun a _ => ?_⟩
  rw [attributes_get (attributeCheck_folds ctx inSvg name path), ← spellings_head, getLast?_eq_head_iff]

theorem firstAttribute_link :
    ∃ props kids hint,
      (walkNode ⟨textHtml, false, false, id⟩ false [] .any
        (.element (js "A") (attributesToProps [⟨js "href", js "x"⟩, ⟨js "HREF", js "x"⟩]) [] false)).1 =
        [.element (toLowerCase (js "A")) props kids hint] ∧
      ((∀ a ∈ [⟨js "href", js "x"⟩, ⟨js "HREF", js "x"⟩], props.get (canonicalAttributeName (toLowerCase (Attribute.name a))) =
          ([⟨js "href", js "x"⟩, ⟨js "HREF", js "x"⟩].find? fun b => toLowerCase (Attribute.name b) = toLowerCase a.name).bind
            (letThrough (attributeCheck ⟨textHtml, false, false, id⟩ false (js "A") []))) ↔
        ∀ a ∈ [⟨js "href", js "x"⟩, ⟨js "HREF", js "x"⟩],
          FirstStands (letThrough (attributeCheck ⟨textHtml, false, false, id⟩ false (js "A") []))
            (spellings (toLowerCase (Attribute.name a)) [⟨js "href", js "x"⟩, ⟨js "HREF", js "x"⟩])) :=
  firstAttribute_iff (builtinWalk_textHtml id) false [] (js "A") _ [] false (.inr (by decide +kernel))

/-- A second spelling of `href` overwrites the first. -/
theorem firstAttribute_overwritten :
    ¬∀ (attributes : List Attribute) (a : Attribute), a ∈ attributes →
      (collectProps (htmlProp ⟨textHtml, false, false, id⟩ (js "a") []) (attributesToProps attributes)).1.get
          (canonicalAttributeName (toLowerCase a.name)) =
        (attributes.find? fun b => toLowerCase b.name = toLowerCase a.name).bind
          (letThrough (htmlProp ⟨textHtml, false, false, id⟩ (js "a") [])) := by
  intro wins
  have both := wins [⟨js "href", js "x"⟩, ⟨js "HREF", js "y"⟩] ⟨js "href", js "x"⟩ (List.mem_cons_self ..)
  have shipped : (collectProps (htmlProp ⟨textHtml, false, false, id⟩ (js "a") [])
      (attributesToProps [⟨js "href", js "x"⟩, ⟨js "HREF", js "y"⟩])).1.get
        (canonicalAttributeName (toLowerCase (js "href"))) = some (.str (js "y")) := by
    rfl
  have first : ([⟨js "href", js "x"⟩, ⟨js "HREF", js "y"⟩].find? fun b : Attribute =>
      toLowerCase b.name = toLowerCase (js "href")).bind
        (letThrough (htmlProp ⟨textHtml, false, false, id⟩ (js "a") [])) = some (.str (js "x")) := by
    rfl
  have same := (shipped.symm.trans both).trans first
  exact absurd (Json.str.inj (Option.some.inj same)) (by decide +kernel)

end Xript
