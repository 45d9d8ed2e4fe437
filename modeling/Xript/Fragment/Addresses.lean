import Xript.Fragment.Ceiling

namespace Xript

/-- The children of the element at a path of child indices; those of the root at none. -/
def childrenAt : List FragmentNode → List Nat → Option (List FragmentNode)
  | nodes, [] => some nodes
  | nodes, i :: path =>
    match nodes[i]? with
    | some (.element _ _ children _) => childrenAt children path
    | _ => none

/-- An element whose children a `data-bind` replaced by a text. -/
def Overwritten (profile : FormatProfile) : FragmentNode → Prop
  | .element name props children _ =>
    (stringProp props "data-bind").isSome = true ∧ bindTarget profile name = js "children" ∧
      ∃ text, children = [.text text none]
  | .text _ _ => False

/-- A path that runs into such an element. -/
def Lost (profile : FormatProfile) : List FragmentNode → List Nat → Prop
  | _, [] => False
  | nodes, i :: path =>
    ∃ name props children selfClosing, nodes[i]? = some (.element name props children selfClosing) ∧
      (Overwritten profile (.element name props children selfClosing) ∨ Lost profile children path)

/-- A path below the nodes from `lo` to before `hi`. -/
def Under (lo hi : Nat) (path : List Nat) : Prop := ∃ i rest, path = i :: rest ∧ lo ≤ i ∧ i < hi

/-- What stands at the address of a condition: an element that has it, unless its `data-bind` writes that prop. -/
def Conditioned (profile : FormatProfile) (c : FragmentCondition) (node : FragmentNode) : Prop :=
  ∃ name props children selfClosing, node = .element name props children selfClosing ∧
    (stringProp props "data-if" = some c.expression ∨ bindTarget profile name = js "data-if")

/-- The copies of a repeat among the children they stand in: a template's element bound under the scope of each item of the
list that its header evaluates to, in turn. -/
def CopiesOf (profile : FormatProfile) (r : FragmentRepeat) (kids : List FragmentNode) : Prop :=
  ∃ name props selfClosing bindings, stringProp props "data-each" = some r.expression ∧
    ∀ k < r.count, ∃ header item inner, (parseRepeatHeader r.expression).toOption = some header ∧
      (evaluateRepeatItems header bindings)[k]? = some item ∧
      kids[r.start + k]? =
        some (boundElement profile name (copyProps props) selfClosing (repeatScope bindings header item k) inner)

/-- The element with a condition, by the path of its parent and its own index. -/
def ConditionAt (profile : FormatProfile) (nodes : List FragmentNode) (path : List Nat) (i : Nat)
    (c : FragmentCondition) : Prop :=
  ∃ kids node, childrenAt nodes path = some kids ∧ kids[i]? = some node ∧ Conditioned profile c node

/-- The copies of a repeat, by the path of their parent. -/
def RepeatAt (profile : FormatProfile) (nodes : List FragmentNode) (path : List Nat) (r : FragmentRepeat) : Prop :=
  ∃ kids, childrenAt nodes path = some kids ∧ r.start + r.count ≤ kids.length ∧ CopiesOf profile r kids

/-- The address of a condition, below the nodes from `lo` to before `hi`. -/
def ConditionHolds (profile : FormatProfile) (nodes : List FragmentNode) (lo hi : Nat) (base : List Nat)
    (c : FragmentCondition) : Prop :=
  ∃ path i, c.path = base ++ (path ++ [i]) ∧ Under lo hi (path ++ [i]) ∧
    (Lost profile nodes path ∨ ConditionAt profile nodes path i c)

/-- The range of a repeat, of the nodes from `lo` to before `hi` or below them. -/
def RepeatHolds (profile : FormatProfile) (nodes : List FragmentNode) (lo hi : Nat) (base : List Nat)
    (r : FragmentRepeat) : Prop :=
  ∃ path, r.path = base ++ path ∧ ((path = [] ∧ lo ≤ r.start ∧ r.start + r.count ≤ hi) ∨ Under lo hi path) ∧
    (Lost profile nodes path ∨ RepeatAt profile nodes path r)

/-- Two repeats under one parent cover apart ranges. -/
def RangesApart (r s : FragmentRepeat) : Prop :=
  r.path = s.path → r.start + r.count ≤ s.start ∨ s.start + s.count ≤ r.start

/-- What a pass reported of the nodes from `lo` to before `hi` of a parent at `base`. -/
structure Located (profile : FormatProfile) (nodes : List FragmentNode) (lo hi : Nat) (base : List Nat)
    (conditions : List FragmentCondition) (repeats : List FragmentRepeat) : Prop where
  addressed : ∀ c ∈ conditions, ConditionHolds profile nodes lo hi base c
  distinct : (conditions.map FragmentCondition.path).Nodup
  ranged : ∀ r ∈ repeats, RepeatHolds profile nodes lo hi base r
  apart : repeats.Pairwise RangesApart

/-- From `st` the pass left these nodes, the first at `out` of a parent at `base`, and reported them truly, with no repeats
but of a kind. -/
def Locates (profile : FormatProfile) (base : List Nat) (out : Nat) (kind : FragmentRepeat → Prop) (st : BindState)
    (left : List FragmentNode × BindState) : Prop :=
  ∃ conditions repeats, left.2.conditions = st.conditions ++ conditions ∧ left.2.repeats = st.repeats ++ repeats ∧
    (∀ r ∈ repeats, kind r) ∧ ∀ before after, before.length = out →
      Located profile (before ++ left.1 ++ after) out (out + left.1.length) base conditions repeats

section

variable {profile : FormatProfile} {previous : Option RepeatState} {nodes : List FragmentNode} {lo mid hi : Nat}
  {base : List Nat}

theorem Under.widen {low high : Nat} {path : List Nat} (under : Under lo hi path) (lower : low ≤ lo) (upper : hi ≤ high) :
    Under low high path := by
  obtain ⟨i, rest, same, least, most⟩ := under
  exact ⟨i, rest, same, by omega, by omega⟩

theorem ConditionHolds.widen {low high : Nat} {c : FragmentCondition} (holds : ConditionHolds profile nodes lo hi base c)
    (lower : low ≤ lo) (upper : hi ≤ high) : ConditionHolds profile nodes low high base c := by
  obtain ⟨path, i, same, under, found⟩ := holds
  exact ⟨path, i, same, under.widen lower upper, found⟩

theorem RepeatHolds.widen {low high : Nat} {r : FragmentRepeat} (holds : RepeatHolds profile nodes lo hi base r)
    (lower : low ≤ lo) (upper : hi ≤ high) : RepeatHolds profile nodes low high base r := by
  obtain ⟨path, same, ⟨rfl, least, most⟩ | under, found⟩ := holds
  · exact ⟨[], same, .inl ⟨rfl, by omega, by omega⟩, found⟩
  · exact ⟨path, same, .inr (under.widen lower upper), found⟩

theorem Located.nil : Located profile nodes lo hi base [] [] :=
  ⟨fun _ none => absurd none List.not_mem_nil, List.nodup_nil, fun _ none => absurd none List.not_mem_nil, .nil⟩

/-- Conditions of different nodes have different paths. -/
theorem ConditionHolds.apart {c d : FragmentCondition} (first : ConditionHolds profile nodes lo mid base c)
    (second : ConditionHolds profile nodes mid hi base d) : c.path ≠ d.path := by
  obtain ⟨path, i, same, ⟨j, rest, here, -, below⟩, -⟩ := first
  obtain ⟨path', i', same', ⟨j', rest', here', above, -⟩, -⟩ := second
  rw [same, same', here, here']
  intro equal
  have heads := List.append_cancel_left equal
  rw [List.cons.injEq] at heads
  omega

theorem RepeatHolds.apart {r s : FragmentRepeat} (first : RepeatHolds profile nodes lo mid base r)
    (second : RepeatHolds profile nodes mid hi base s) : RangesApart r s := by
  intro equal
  obtain ⟨path, same, ⟨rfl, -, most⟩ | ⟨j, rest, rfl, -, below⟩, -⟩ := first
  · obtain ⟨path', same', ⟨-, least, -⟩ | ⟨j', rest', rfl, -, -⟩, -⟩ := second
    · exact .inl (by omega)
    · rw [same, same'] at equal
      exact absurd (List.append_cancel_left equal) (List.cons_ne_nil _ _).symm
  · obtain ⟨path', same', ⟨rfl, -, -⟩ | ⟨j', rest', rfl, above, -⟩, -⟩ := second
    · rw [same, same'] at equal
      exact absurd (List.append_cancel_left equal) (List.cons_ne_nil _ _)
    · rw [same, same'] at equal
      have heads := List.append_cancel_left equal
      rw [List.cons.injEq] at heads
      omega

theorem Located.append {conditions more : List FragmentCondition} {repeats others : List FragmentRepeat}
    (first : Located profile nodes lo mid base conditions repeats) (second : Located profile nodes mid hi base more others)
    (lower : lo ≤ mid) (upper : mid ≤ hi) :
    Located profile nodes lo hi base (conditions ++ more) (repeats ++ others) where
  addressed := List.forall_mem_append.mpr ⟨fun c member => (first.addressed c member).widen le_rfl upper,
    fun c member => (second.addressed c member).widen lower le_rfl⟩
  distinct := by
    rw [List.map_append]
    refine List.Nodup.append first.distinct second.distinct fun path inFirst inSecond => ?_
    obtain ⟨c, here, rfl⟩ := List.mem_map.mp inFirst
    obtain ⟨d, there, same⟩ := List.mem_map.mp inSecond
    exact (first.addressed c here).apart (second.addressed d there) same.symm
  ranged := List.forall_mem_append.mpr ⟨fun r member => (first.ranged r member).widen le_rfl upper,
    fun r member => (second.ranged r member).widen lower le_rfl⟩
  apart := List.pairwise_append.mpr ⟨first.apart, second.apart, fun r here s there =>
    (first.ranged r here).apart (second.ranged s there)⟩

theorem Locates.unreported {out : Nat} {kind : FragmentRepeat → Prop} (left : List FragmentNode) (st : BindState) :
    Locates profile base out kind st (left, st) :=
  ⟨[], [], (List.append_nil _).symm, (List.append_nil _).symm, fun _ none => absurd none List.not_mem_nil,
    fun _ _ _ => .nil⟩

/-- What is reported of nodes and of the nodes after them is reported of all of them. -/
theorem Locates.append {out : Nat} {kind : FragmentRepeat → Prop} {st : BindState}
    {made rest : List FragmentNode × BindState} (first : Locates profile base out kind st made)
    (second : Locates profile base (out + made.1.length) kind made.2 rest) :
    Locates profile base out kind st (made.1 ++ rest.1, rest.2) := by
  obtain ⟨conditions, repeats, conditioned, repeated, kinds, holds⟩ := first
  obtain ⟨more, others, conditioned', repeated', kinds', holds'⟩ := second
  refine ⟨conditions ++ more, repeats ++ others, ?_, ?_, List.forall_mem_append.mpr ⟨kinds, kinds'⟩, fun before after length => ?_⟩
  · rw [conditioned', conditioned, List.append_assoc]
  · rw [repeated', repeated, List.append_assoc]
  · have here := holds before (rest.1 ++ after) length
    have there := holds' (before ++ made.1) after (by rw [List.length_append, length])
    have whole : before ++ made.1 ++ (rest.1 ++ after) = before ++ (made.1 ++ rest.1) ++ after := by
      simp only [List.append_assoc]
    have whole' : before ++ made.1 ++ rest.1 ++ after = before ++ (made.1 ++ rest.1) ++ after := by
      simp only [List.append_assoc]
    rw [whole] at here
    rw [whole'] at there
    rw [List.length_append, ← Nat.add_assoc]
    exact here.append there (Nat.le_add_right _ _) (Nat.le_add_right _ _)

theorem childrenAt_cons {i : Nat} {path : List Nat} {name : JSString} {props : Props} {children : List FragmentNode}
    {selfClosing : Bool} (found : nodes[i]? = some (.element name props children selfClosing)) :
    childrenAt nodes (i :: path) = childrenAt children path := by
  rw [childrenAt, found]

/-- What is reported of the children of an element is reported below it, with what is reported of the element itself, where
the element keeps its children or loses them to its `data-bind`. -/
theorem Located.below {i : Nat} {name : JSString} {props : Props} {children kids : List FragmentNode} {selfClosing : Bool}
    {conditions own : List FragmentCondition} {repeats : List FragmentRepeat}
    (inner : Located profile kids 0 kids.length (base ++ [i]) conditions repeats)
    (found : nodes[i]? = some (.element name props children selfClosing))
    (kept : children = kids ∨ Overwritten profile (.element name props children selfClosing))
    (single : own.length ≤ 1)
    (shown : ∀ c ∈ own, c.path = base ++ [i] ∧ Conditioned profile c (.element name props children selfClosing)) :
    Located profile nodes i (i + 1) base (conditions ++ own) repeats where
  addressed := by
    refine List.forall_mem_append.mpr ⟨fun c member => ?_, fun c member => ?_⟩
    · obtain ⟨path, j, same, -, place⟩ := inner.addressed c member
      refine ⟨i :: path, j, by rw [same, List.append_assoc]; rfl, ⟨i, path ++ [j], rfl, le_rfl, Nat.lt_succ_self i⟩, ?_⟩
      rcases kept with rfl | lost
      · rcases place with lost | ⟨kids, node, at_, here, holds⟩
        · exact .inl ⟨name, props, children, selfClosing, found, .inr lost⟩
        · exact .inr ⟨kids, node, (childrenAt_cons found).trans at_, here, holds⟩
      · exact .inl ⟨name, props, children, selfClosing, found, .inl lost⟩
    · obtain ⟨same, holds⟩ := shown c member
      exact ⟨[], i, same, ⟨i, [], rfl, le_rfl, Nat.lt_succ_self i⟩, .inr ⟨nodes, _, rfl, found, holds⟩⟩
  distinct := by
    rw [List.map_append]
    refine List.Nodup.append inner.distinct ?_ fun path deep here => ?_
    · rw [← List.length_map (f := FragmentCondition.path)] at single
      generalize own.map FragmentCondition.path = paths at single
      cases paths with
      | nil => exact List.nodup_nil
      | cons path rest =>
        obtain rfl : rest = [] := List.eq_nil_of_length_eq_zero (by rw [List.length_cons] at single; omega)
        exact List.nodup_singleton path
    · obtain ⟨c, member, rfl⟩ := List.mem_map.mp deep
      obtain ⟨d, owned, same⟩ := List.mem_map.mp here
      obtain ⟨path, j, deeper, -⟩ := inner.addressed c member
      have lengths := congrArg List.length (same.symm.trans (shown d owned).1)
      rw [deeper] at lengths
      simp only [List.length_append, List.length_singleton] at lengths
      omega
  ranged r member := by
    obtain ⟨path, same, -, place⟩ := inner.ranged r member
    refine ⟨i :: path, by rw [same, List.append_assoc]; rfl, .inr ⟨i, path, rfl, le_rfl, Nat.lt_succ_self i⟩, ?_⟩
    rcases kept with rfl | lost
    · rcases place with lost | ⟨kids, at_, bounded, copies⟩
      · exact .inl ⟨name, props, children, selfClosing, found, .inr lost⟩
      · exact .inr ⟨kids, (childrenAt_cons found).trans at_, bounded, copies⟩
    · exact .inl ⟨name, props, children, selfClosing, found, .inl lost⟩
  apart := inner.apart

theorem stringProp_assign {props : Props} {key : JSString} {value : PropValue} {other : String} (apart : js other ≠ key) :
    stringProp (Record.assign props key value) other = stringProp props other := by
  rw [stringProp, stringProp, Record.get_assign_of_ne apart]

/-- What a `data-bind` leaves of an element: its name and its condition, and its children unless it replaces them. -/
theorem writeBinding_shape (name : JSString) (props : Props) (kids : List FragmentNode) (selfClosing : Bool)
    (bindings : Bindings) (path : List Nat) (st : BindState) :
    ∃ after children, (writeBinding profile name props kids selfClosing bindings path st).1 =
        .element name after children selfClosing ∧
      (children = kids ∨ Overwritten profile (.element name after children selfClosing)) ∧
      (stringProp after "data-if" = stringProp props "data-if" ∨ bindTarget profile name = js "data-if") ∧
      (writeBinding profile name props kids selfClosing bindings path st).2.conditions = st.conditions ∧
      (writeBinding profile name props kids selfClosing bindings path st).2.repeats = st.repeats := by
  unfold writeBinding
  split
  · exact ⟨props, kids, rfl, .inl rfl, .inl rfl, rfl, rfl⟩
  · rename_i written value
    dsimp only
    split
    · rename_i replaced
      obtain ⟨source, bound, -⟩ := Option.bind_eq_some_iff.mp value
      exact ⟨props, _, rfl, .inr ⟨by rw [bound]; rfl, replaced, written, rfl⟩, .inl rfl, rfl, rfl⟩
    · split
      · refine ⟨_, kids, rfl, .inl rfl, ?_, rfl, rfl⟩
        by_cases own : bindTarget profile name = js "data-if"
        · exact .inr own
        · exact .inl (stringProp_assign (Ne.symm own))
      · exact ⟨props, kids, rfl, .inl rfl, .inl rfl, rfl, rfl⟩
      · exact ⟨props, kids, rfl, .inl rfl, .inl rfl, rfl, rfl⟩

/-- The condition of an element, if it has one. -/
theorem reportCondition_shape (props : Props) (bindings : Bindings) (path : List Nat) (st : BindState) :
    ∃ own : List FragmentCondition, (reportCondition props bindings path st).conditions = st.conditions ++ own ∧
      (reportCondition props bindings path st).repeats = st.repeats ∧ own.length ≤ 1 ∧
      ∀ c ∈ own, c.path = path ∧ stringProp props "data-if" = some c.expression := by
  unfold reportCondition
  split
  · exact ⟨[], (List.append_nil _).symm, rfl, Nat.zero_le 1, fun _ none => absurd none List.not_mem_nil⟩
  · rename_i condition found
    exact ⟨[⟨path, condition, evaluateCondition bindings condition⟩], rfl, rfl, le_rfl,
      List.forall_mem_singleton.mpr ⟨rfl, found⟩⟩

/-- A repeat of copies below the children of a parent. -/
def Deeper (base : List Nat) (r : FragmentRepeat) : Prop := base.length < r.path.length

theorem bindElement_locates {bindKids : BindState → List FragmentNode × BindState} {out : Nat} {st : BindState}
    (kids : Locates profile (base ++ [out]) 0 (fun _ => True) st (bindKids st)) (name : JSString) (props : Props)
    (selfClosing : Bool) (bindings : Bindings) :
    Locates profile base out (Deeper base) st
      ([(bindElement profile bindKids name props selfClosing bindings (base ++ [out]) st).1],
        (bindElement profile bindKids name props selfClosing bindings (base ++ [out]) st).2) := by
  obtain ⟨conditions, repeats, conditioned, repeated, -, holds⟩ := kids
  have inner := holds [] [] rfl
  rw [List.append_nil, List.nil_append, Nat.zero_add] at inner
  obtain ⟨own, reported, ranged, single, shown⟩ :=
    reportCondition_shape props bindings (base ++ [out]) (bindKids st).2
  obtain ⟨after, children, node, kept, condition, sameConditions, sameRepeats⟩ := @writeBinding_shape profile name props
    (bindKids st).1 selfClosing bindings (base ++ [out]) (reportCondition props bindings (base ++ [out]) (bindKids st).2)
  refine ⟨conditions ++ own, repeats, ?_, ?_, fun r member => ?_, fun before following length => ?_⟩
  · change (writeBinding _ _ _ _ _ _ _ _).2.conditions = _
    rw [sameConditions, reported, conditioned, List.append_assoc]
  · change (writeBinding _ _ _ _ _ _ _ _).2.repeats = _
    rw [sameRepeats, ranged, repeated]
  · obtain ⟨path, same, -⟩ := inner.ranged r member
    rw [Deeper, same]
    simp only [List.length_append, List.length_singleton]
    omega
  · have found : (before ++ [(bindElement profile bindKids name props selfClosing bindings (base ++ [out]) st).1] ++
        following)[out]? = some (.element name after children selfClosing) := by
      change (before ++ [(writeBinding _ _ _ _ _ _ _ _).1] ++ following)[out]? = _
      rw [node, List.append_assoc, List.getElem?_append_right (le_of_eq length), length, Nat.sub_self]
      rfl
    refine inner.below found kept single fun c member => ⟨(shown c member).1, name, after, children, selfClosing, rfl, ?_⟩
    exact condition.imp_left fun same => same.trans (shown c member).2

theorem bindCopies_locates {bindCopy : Bindings → RepeatKey → Nat → BindState → FragmentNode × BindState}
    (each : ∀ scope key position st, Locates profile base position (Deeper base) st
      ([(bindCopy scope key position st).1], (bindCopy scope key position st).2))
    (copies : List (Bindings × RepeatKey)) (out : Nat) (st : BindState) :
    Locates profile base out (Deeper base) st (bindCopies bindCopy copies out st) := by
  induction copies generalizing out st with
  | nil => exact .unreported [] st
  | cons copy copies ih => exact (each copy.1 copy.2 out st).append (ih (out + 1) _)

/-- Each copy is the template bound under its own scope. -/
theorem bindCopies_elements {bindCopy : Bindings → RepeatKey → Nat → BindState → FragmentNode × BindState} {name : JSString}
    {props : Props} {selfClosing : Bool}
    (each : ∀ scope key position st, ∃ kids, (bindCopy scope key position st).1 =
      boundElement profile name props selfClosing scope kids)
    (copies : List (Bindings × RepeatKey)) (out : Nat) (st : BindState) :
    (bindCopies bindCopy copies out st).1.length = copies.length ∧
      ∀ (k : Nat) (scope : Bindings) (key : RepeatKey), copies[k]? = some (scope, key) → ∃ kids,
        (bindCopies bindCopy copies out st).1[k]? = some (boundElement profile name props selfClosing scope kids) := by
  induction copies generalizing out st with
  | nil => exact ⟨rfl, fun k scope key none => absurd none (by simp)⟩
  | cons copy copies ih =>
    obtain ⟨length, rest⟩ := ih (out + 1) (bindCopy copy.1 copy.2 out st).2
    refine ⟨congrArg Nat.succ length, fun k scope key found => ?_⟩
    cases k with
    | zero =>
      obtain rfl : copy = (scope, key) := by simpa using found
      obtain ⟨kids, same⟩ := each scope key out st
      exact ⟨kids, congrArg some same⟩
    | succ k => exact rest k scope key found

/-- What the scopes of an expansion are made of. -/
theorem expansionOf_scope {each name : JSString} {props : Props} {bindings : Bindings} {path source : List Nat}
    {within : List RepeatKey} {out remaining k : Nat} {e : Expansion}
    (expansion : e = expansionOf previous each name props bindings path source within out remaining)
    (few : k < e.scopes.length) :
    ∃ header item, (parseRepeatHeader each).toOption = some header ∧
      (evaluateRepeatItems header bindings)[k]? = some item ∧ e.scopes[k]? = some (repeatScope bindings header item k) := by
  subst expansion
  simp only [Expansion.scopes, expansionOf] at few ⊢
  cases parsed : (parseRepeatHeader each).toOption with
  | none =>
    rw [parsed] at few
    exact absurd few (Nat.not_lt_zero k)
  | some header =>
    simp only [parsed, Option.elim_some, List.length_map, List.length_zipIdx] at few ⊢
    obtain ⟨item, found⟩ : ∃ item, ((evaluateRepeatItems header bindings).take remaining)[k]? = some item :=
      ⟨_, List.getElem?_eq_getElem few⟩
    refine ⟨header, item, rfl, ?_, ?_⟩
    · rw [← List.getElem?_take_of_lt (few.trans_le (List.length_take_le _ _))]
      exact found
    · rw [List.getElem?_map, List.getElem?_zipIdx, found, Nat.zero_add]
      rfl

theorem expandRepeat_locates
    {bindKids : Bindings → List Nat → List RepeatKey → BindState → List FragmentNode × BindState}
    (kids : ∀ bindings path within st, Locates profile path 0 (fun _ => True) st (bindKids bindings path within st))
    {each name : JSString} {props : Props} (found : stringProp props "data-each" = some each) (selfClosing : Bool)
    (bindings : Bindings) (source : List Nat) (within : List RepeatKey) (out : Nat) (st : BindState) :
    Locates profile base out (fun _ => True) st
      (expandRepeat profile previous bindKids each name props selfClosing bindings base source within out st) := by
  obtain ⟨e, expansion⟩ : ∃ e, e = expansionOf previous each name props bindings base source within out st.remainingCopies :=
    ⟨_, rfl⟩
  let st₁ : BindState := { st with
    diagnostics := st.diagnostics ++ e.diagnostics
    remainingCopies := st.remainingCopies - e.items.length
    next := e.made.entry :: st.next
    repeats := st.repeats ++ [e.made] }
  have state : expandRepeat profile previous bindKids each name props selfClosing bindings base source within out st =
      bindCopies (fun scope key position =>
        bindElement profile (bindKids scope (base ++ [position]) (within ++ [key])) name (copyProps props) selfClosing scope
          (base ++ [position])) (e.scopes.zip e.made.keys) out st₁ := by
    subst expansion
    simp only [expandRepeat, takeItems_eq, reportKeyProblem_eq, List.append_assoc]
    rfl
  have keys : e.made.keys.length = e.scopes.length := by
    subst expansion
    exact resolveCopies_length ..
  have count : e.made.count = e.scopes.length := by
    subst expansion
    rfl
  have place : e.made.path = base ∧ e.made.start = out ∧ e.made.expression = each := by
    subst expansion
    exact ⟨rfl, rfl, rfl⟩
  obtain ⟨path, start, expression⟩ := place
  have copy : ∀ scope key position st, ∃ kids,
      (bindElement profile (bindKids scope (base ++ [position]) (within ++ [key])) name (copyProps props) selfClosing scope
        (base ++ [position]) st).1 = boundElement profile name (copyProps props) selfClosing scope kids :=
    fun scope key position st => ⟨_, (writeBinding_traces name (copyProps props) _ selfClosing scope _ _).2⟩
  obtain ⟨length, copied⟩ := bindCopies_elements copy (e.scopes.zip e.made.keys) out st₁
  rw [List.length_zip, keys, Nat.min_self] at length
  obtain ⟨conditions, repeats, conditioned, repeated, deeper, holds⟩ := bindCopies_locates
    (fun scope key position st => bindElement_locates (kids scope (base ++ [position]) (within ++ [key]) st) name
      (copyProps props) selfClosing scope) (e.scopes.zip e.made.keys) out st₁
  rw [state]
  refine ⟨conditions, e.made :: repeats, conditioned, ?_, fun _ _ => trivial, fun before after here => ?_⟩
  · rw [repeated, List.append_assoc]
    rfl
  · have located := holds before after here
    refine ⟨located.addressed, located.distinct, List.forall_mem_cons.mpr ⟨?_, located.ranged⟩,
      List.pairwise_cons.mpr ⟨fun r member same => ?_, located.apart⟩⟩
    · refine ⟨[], by rw [path, List.append_nil], .inl ⟨rfl, start.ge, ?_⟩, .inr ⟨_, rfl, ?_, ?_⟩⟩
      · rw [start, count, length]
      · rw [start, count, ← length, ← here, List.length_append, List.length_append]
        exact Nat.le_add_right _ _
      · refine ⟨name, props, selfClosing, bindings, by rw [expression, found], fun k few => ?_⟩
        rw [count] at few
        obtain ⟨header, item, parsed, evaluated, scope⟩ := expansionOf_scope expansion few
        obtain ⟨key, keyed⟩ : ∃ key, e.made.keys[k]? = some key := ⟨_, List.getElem?_eq_getElem (keys ▸ few)⟩
        obtain ⟨inner, copy⟩ := copied k _ key (List.getElem?_zip_eq_some.mpr ⟨scope, keyed⟩)
        refine ⟨header, item, inner, by rw [expression, parsed], evaluated, ?_⟩
        rw [start, List.append_assoc, List.getElem?_append_right (by omega), here, Nat.add_sub_cancel_left,
          List.getElem?_append_left (by rw [length]; exact few)]
        exact copy
    · have deep := deeper r member
      rw [Deeper, ← same, path] at deep
      exact absurd deep (lt_irrefl _)

/-- What the bind pass reports of the nodes it leaves is where it says. -/
theorem bindChildren_locates (nodes : List FragmentNode) (bindings : Bindings) (parentPath parentSource : List Nat)
    (index out : Nat) (within : List RepeatKey) (st : BindState) :
    Locates profile parentPath out (fun _ => True) st
      (bindChildren profile previous nodes bindings parentPath parentSource index out within st) := by
  cases nodes with
  | nil =>
    rw [bindChildren]
    exact .unreported [] st
  | cons node nodes =>
    rw [bindChildren]
    suffices first : Locates profile parentPath out (fun _ => True) st (bindSibling profile previous
        (bindInside profile previous node (parentSource ++ [index])) node bindings parentPath (parentSource ++ [index])
        within out st) from
      first.append (bindChildren_locates nodes bindings parentPath parentSource (index + 1) _ within _)
    cases node with
    | text value segments =>
      rw [bindSibling]
      exact .unreported _ st
    | element name props children selfClosing =>
      have kids : ∀ bindings path within st, Locates profile path 0 (fun _ => True) st
          (bindInside profile previous (.element name props children selfClosing) (parentSource ++ [index]) bindings path
            within st) := by
        intro bindings path within st
        rw [bindInside]
        exact bindChildren_locates children bindings path (parentSource ++ [index]) 0 0 within st
      rw [bindSibling]
      split
      · rename_i each found
        exact expandRepeat_locates kids found selfClosing bindings _ within out st
      · obtain ⟨conditions, repeats, conditioned, repeated, -, holds⟩ :=
          bindElement_locates (kids bindings (parentPath ++ [out]) within st) name props selfClosing bindings
        exact ⟨conditions, repeats, conditioned, repeated, fun _ _ => trivial, holds⟩
  termination_by nodes

end

/-- Where a path runs into an overwritten element, it leads to a text. -/
theorem Lost.children {profile : FormatProfile} {nodes kids : List FragmentNode} {path : List Nat}
    (lost : Lost profile nodes path) (found : childrenAt nodes path = some kids) : ∃ text, kids = [.text text none] := by
  induction path generalizing nodes with
  | nil => exact absurd lost id
  | cons i path ih =>
    obtain ⟨name, props, children, selfClosing, here, ⟨-, -, text, rfl⟩ | deeper⟩ := lost
    · rw [childrenAt_cons here] at found
      cases path with
      | nil => exact ⟨text, (Option.some.inj found).symm⟩
      | cons j path =>
        cases j with
        | zero => cases found
        | succ j => cases found
    · rw [childrenAt_cons here] at found
      exact ih deeper found

theorem Lost.conditionAt {profile : FormatProfile} {nodes : List FragmentNode} {path : List Nat} {i : Nat}
    {c : FragmentCondition} (lost : Lost profile nodes path) : ¬ ConditionAt profile nodes path i c := by
  rintro ⟨kids, node, found, here, name, props, children, selfClosing, rfl, -⟩
  obtain ⟨text, rfl⟩ := lost.children found
  cases i with
  | zero => cases here
  | succ i => cases here

theorem boundElement_ne_text (profile : FormatProfile) (name : JSString) (props : Props) (selfClosing : Bool)
    (bindings : Bindings) (kids : List FragmentNode) (text : JSString) :
    boundElement profile name props selfClosing bindings kids ≠ .text text none := by
  obtain ⟨after, children, node, -⟩ := @writeBinding_shape profile name props kids selfClosing bindings [] .start
  rw [boundElement, node]
  exact FragmentNode.noConfusion

theorem Lost.repeatAt {profile : FormatProfile} {nodes : List FragmentNode} {path : List Nat} {r : FragmentRepeat}
    (lost : Lost profile nodes path) (some_ : 0 < r.count) : ¬ RepeatAt profile nodes path r := by
  rintro ⟨kids, found, -, name, props, selfClosing, bindings, -, copies⟩
  obtain ⟨text, rfl⟩ := lost.children found
  obtain ⟨header, item, inner, -, -, copy⟩ := copies 0 some_
  cases start : r.start + 0 with
  | zero =>
    rw [start] at copy
    exact boundElement_ne_text profile name _ selfClosing _ inner text (Option.some.inj copy).symm
  | succ i =>
    rw [start] at copy
    cases copy

end Xript
