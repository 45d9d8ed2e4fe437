import Xript.Bus.Crossing

namespace Xript

mutual

/-- What is written for a value when no `toJSON` is called. -/
def plainTree : JsValue → Json
  | .undefined => marker (js "undefined")
  | .null => .null
  | .bool b => .bool b
  | .num x => ((numberTag x).map marker).getD (.num x)
  | .str s => .str s
  | .arr items => .arr (plainItems items)
  | .obj members => .obj (plainMembers members)
  | .func _ _ => marker (js "undefined")

def plainItems : List JsValue → List Json
  | [] => []
  | item :: items => plainTree item :: plainItems items

def plainMembers : List (JSString × JsValue) → List (JSString × Json)
  | [] => []
  | (key, value) :: members => (key, plainTree value) :: plainMembers members

end

section

variable (answers : Nat → JsValue → JSString → Option Json)

mutual

theorem crossingTree_quiet : ∀ (value : JsValue), value.Quiet → ∀ key : JSString,
    crossingTree answers key value = some (plainTree value)
  | .undefined, _, _ | .null, _, _ | .bool _, _, _ | .str _, _, _ => rfl
  | .num x, _, _ => by
    rw [crossingTree, plainTree]
    cases numberTag x <;> rfl
  | .arr items, quiet, _ => by
    rw [crossingTree, crossingItems_quiet items quiet, plainTree]
    rfl
  | .obj members, quiet, _ => by
    rw [crossingTree, quiet.1, crossingMembers_quiet members quiet.2, plainTree]
    rfl
  | .func id members, quiet, _ => by
    have none : toJsonMethod members = none := quiet
    rw [crossingTree, none, plainTree]

theorem crossingItems_quiet : ∀ (items : List JsValue), JsValue.QuietItems items → ∀ index : Nat,
    crossingItems answers index items = some (plainItems items)
  | [], _, _ => rfl
  | item :: items, quiet, _ => by
    rw [crossingItems, crossingTree_quiet item quiet.1, crossingItems_quiet items quiet.2, plainItems]
    rfl

theorem crossingMembers_quiet : ∀ (members : List (JSString × JsValue)), JsValue.QuietMembers members →
    crossingMembers answers members = some (plainMembers members)
  | [], _ => rfl
  | (key, value) :: members, quiet => by
    rw [crossingMembers, crossingTree_quiet value quiet.1, crossingMembers_quiet members quiet.2, plainMembers]
    rfl

end

end

/-- A mod whose every `toJSON` throws. -/
def throwing : Nat → JsValue → JSString → Option Json := fun _ _ _ => none

mutual

/-- A value that crosses under throwing methods has none. -/
theorem quiet_of_crossingTree : ∀ (value : JsValue) {key : JSString} {tree : Json},
    crossingTree throwing key value = some tree → value.Quiet
  | .undefined, _, _, _ | .null, _, _, _ | .bool _, _, _, _ | .num _, _, _, _ | .str _, _, _, _ => trivial
  | .arr items, _, _, written => by
    rw [crossingTree, Option.map_eq_some_iff] at written
    obtain ⟨trees, found, _⟩ := written
    exact quiet_of_crossingItems items found
  | .obj members, _, _, written => by
    rw [crossingTree] at written
    cases method : toJsonMethod members with
    | some id =>
      rw [method] at written
      cases written
    | none =>
      rw [method] at written
      obtain ⟨trees, found, _⟩ := Option.map_eq_some_iff.mp written
      exact ⟨method, quiet_of_crossingMembers members found⟩
  | .func id members, _, _, written => by
    rw [crossingTree] at written
    cases method : toJsonMethod members with
    | some id =>
      rw [method] at written
      cases written
    | none => exact method

theorem quiet_of_crossingItems : ∀ (items : List JsValue) {index : Nat} {trees : List Json},
    crossingItems throwing index items = some trees → JsValue.QuietItems items
  | [], _, _, _ => trivial
  | item :: items, _, _, written => by
    rw [crossingItems, Option.bind_eq_some_iff] at written
    obtain ⟨tree, first, rest⟩ := written
    obtain ⟨trees, found, _⟩ := Option.map_eq_some_iff.mp rest
    exact ⟨quiet_of_crossingTree item first, quiet_of_crossingItems items found⟩

theorem quiet_of_crossingMembers : ∀ (members : List (JSString × JsValue)) {trees : List (JSString × Json)},
    crossingMembers throwing members = some trees → JsValue.QuietMembers members
  | [], _, _ => trivial
  | (key, value) :: members, _, written => by
    rw [crossingMembers, Option.bind_eq_some_iff] at written
    obtain ⟨tree, first, rest⟩ := written
    obtain ⟨trees, found, _⟩ := Option.map_eq_some_iff.mp rest
    exact ⟨quiet_of_crossingTree value first, quiet_of_crossingMembers members found⟩

end

theorem marker_spellable (tag : JSString) : (marker tag).Spellable :=
  ⟨⟨by simp [Record.keys], by simp⟩, trivial, trivial⟩

theorem plainMembers_keys (members : List (JSString × JsValue)) :
    (plainMembers members).map Prod.fst = members.map Prod.fst := by
  induction members with
  | nil => rfl
  | cons member members ih =>
    rw [plainMembers, List.map_cons, List.map_cons, ih]

mutual

/-- What is written is JSON: the numbers JSON cannot hold are marked. -/
theorem plainTree_spellable : ∀ (value : JsValue), value.Ordered → (plainTree value).Spellable
  | .undefined, _ | .func _ _, _ => marker_spellable _
  | .null, _ | .bool _, _ | .str _, _ => trivial
  | .num x, _ => by
    rw [plainTree]
    cases tagged : numberTag x with
    | some tag => exact marker_spellable tag
    | none =>
      cases x with
      | nan => cases tagged
      | infinite negative => cases negative <;> cases tagged
      | finite b =>
        refine ⟨b, rfl, fun zero => ?_⟩
        by_contra negative
        rw [numberTag, if_pos ⟨zero, by simpa using negative⟩] at tagged
        cases tagged
  | .arr items, ordered => plainItems_spellable items ordered
  | .obj members, ordered =>
    ⟨ordered.1.of_keys (plainMembers_keys members), plainMembers_spellable members ordered.2⟩

theorem plainItems_spellable : ∀ (items : List JsValue), JsValue.OrderedItems items →
    Json.SpellableItems (plainItems items)
  | [], _ => trivial
  | item :: items, ordered => ⟨plainTree_spellable item ordered.1, plainItems_spellable items ordered.2⟩

theorem plainMembers_spellable : ∀ (members : List (JSString × JsValue)), JsValue.OrderedMembers members →
    Json.SpellableMembers (plainMembers members)
  | [], _ => trivial
  | (_, value) :: members, ordered => ⟨plainTree_spellable value ordered.1, plainMembers_spellable members ordered.2⟩

end

/-- A value without `toJSON` methods arrives as what is read back from what is written for it. -/
theorem received_quiet (answers : Nat → JsValue → JSString → Option Json) {value : JsValue} (ordered : value.Ordered)
    (quiet : value.Quiet) : received answers value = some (fromJson (plainTree value)) := by
  rw [received, toCrossing, crossingTree_quiet answers value quiet, Option.map_some, Option.bind_some,
    parseJson_stringify (plainTree_spellable value ordered)]
  rfl

theorem fromJson_marker {tag : JSString} {value : JsValue} (named : specialValues tag = some value) :
    fromJson (marker tag) = value := by
  rw [marker, fromJson, specialOf, if_pos rfl, named]

theorem fromJson_number (x : F64) : fromJson (plainTree (.num x)) = .num x := by
  rw [plainTree]
  cases x with
  | nan => exact fromJson_marker rfl
  | infinite negative =>
    cases negative with
    | false => exact fromJson_marker rfl
    | true => exact fromJson_marker rfl
  | finite b =>
    rw [numberTag]
    split
    · rename_i negativeZero
      have same : b = .zero true := by
        have exponent : b.exponent = -1074 := b.normal.resolve_right (by omega)
        cases b
        simp_all [Binary64.zero]
      rw [same]
      exact fromJson_marker rfl
    · rfl

/-- What is written for an object reads as a marker exactly when the object itself does. -/
theorem specialOf_plainMembers (members : List (JSString × JsValue)) :
    (specialOf (.obj (plainMembers members))).isSome = looksLikeMarker members := by
  match members with
  | [] => rfl
  | [(key, value)] =>
    cases value with
    | str s =>
      rw [plainMembers, plainMembers, plainTree, specialOf, looksLikeMarker]
      by_cases named : key = specialKey
      · rw [if_pos named, decide_eq_true named, Bool.true_and]
      · rw [if_neg named, decide_eq_false named, Bool.false_and]
        rfl
    | num x =>
      rw [plainMembers, plainMembers, plainTree, looksLikeMarker]
      · cases numberTag x <;> rfl
      · simp
    | undefined | null | bool | arr | obj | func => rfl
  | (firstKey, first) :: (secondKey, second) :: members =>
    have written : specialOf (.obj (plainMembers ((firstKey, first) :: (secondKey, second) :: members))) = none := by
      rw [plainMembers, plainMembers]
      cases plainTree first <;> rfl
    rw [written]
    cases first <;> rfl

theorem looksLikeMarker_shape {members : List (JSString × JsValue)} (looks : looksLikeMarker members = true) :
    ∃ key tag, members = [(key, .str tag)] := by
  match members with
  | [] => cases looks
  | [(key, value)] =>
    cases value with
    | str tag => exact ⟨key, tag, rfl⟩
    | undefined | null | bool | num | arr | obj | func => cases looks
  | (firstKey, first) :: (secondKey, second) :: members => cases first <;> cases looks

theorem specialValues_leaf {tag : JSString} {value : JsValue} (found : specialValues tag = some value)
    (members : List (JSString × JsValue)) : value ≠ .obj members := by
  unfold specialValues at found
  repeat' split at found
  all_goals cases found
  all_goals simp

mutual

/-- What is written for a value reads back as the value exactly when nothing in it reads as a marker. -/
theorem fromJson_plainTree : ∀ (value : JsValue),
    fromJson (plainTree value) = value.withoutFunctions ↔ value.MarkerFree
  | .undefined | .func _ _ => iff_of_true (fromJson_marker rfl) trivial
  | .null | .bool _ | .str _ => iff_of_true rfl trivial
  | .num x => iff_of_true (fromJson_number x) trivial
  | .arr items => by
    rw [plainTree, fromJson, JsValue.withoutFunctions, JsValue.arr.injEq]
    exact fromJson_plainItems items
  | .obj members => by
    have special := specialOf_plainMembers members
    rw [plainTree, fromJson, JsValue.withoutFunctions, JsValue.MarkerFree]
    cases read : specialOf (.obj (plainMembers members)) with
    | some value =>
      rw [read] at special
      obtain ⟨key, tag, rfl⟩ := looksLikeMarker_shape special.symm
      refine iff_of_false ?_ (by simp [← special])
      rw [plainMembers, plainMembers, plainTree, specialOf] at read
      split at read
      · exact specialValues_leaf read _
      · cases read
    | none =>
      rw [read] at special
      simp only [JsValue.obj.injEq, ← special, Option.isSome_none, true_and]
      exact fromJson_plainMembers members

theorem fromJson_plainItems : ∀ (items : List JsValue),
    fromJsonItems (plainItems items) = JsValue.itemsWithoutFunctions items ↔ JsValue.MarkerFreeItems items
  | [] => iff_of_true rfl trivial
  | item :: items => by
    rw [plainItems, fromJsonItems, JsValue.itemsWithoutFunctions, List.cons.injEq, fromJson_plainTree item,
      fromJson_plainItems items]
    rfl

theorem fromJson_plainMembers : ∀ (members : List (JSString × JsValue)),
    fromJsonMembers (plainMembers members) = JsValue.membersWithoutFunctions members ↔
      JsValue.MarkerFreeMembers members
  | [] => iff_of_true rfl trivial
  | (key, value) :: members => by
    rw [plainMembers, fromJsonMembers, JsValue.membersWithoutFunctions, List.cons.injEq, Prod.mk.injEq,
      eq_self_iff_true, true_and, fromJson_plainTree value, fromJson_plainMembers members]
    rfl

end

theorem toJsonMethod_functionFree {members : List (JSString × JsValue)}
    (free : JsValue.FunctionFreeMembers members) : toJsonMethod members = none := by
  have lacks : ∀ id own, Record.get members (js "toJSON") ≠ some (.func id own) := by
    intro id own found
    induction members with
    | nil => cases found
    | cons member members ih =>
      rw [Record.get_cons] at found
      split at found
      · rw [Option.some.injEq] at found
        have first := free.1
        rw [found] at first
        exact first
      · exact ih free.2 found
  rw [toJsonMethod]
  split
  · rename_i found
    exact absurd found (lacks _ _)
  · rfl

mutual

/-- Without functions there is nothing to call and nothing to lose. -/
theorem functionFree_kept : ∀ (value : JsValue), value.FunctionFree → value.Quiet ∧ value.withoutFunctions = value
  | .undefined, _ | .null, _ | .bool _, _ | .num _, _ | .str _, _ => ⟨trivial, rfl⟩
  | .func _ _, free => free.elim
  | .arr items, free => by
    obtain ⟨quiet, same⟩ := functionFreeItems_kept items free
    exact ⟨quiet, by rw [JsValue.withoutFunctions, same]⟩
  | .obj members, free => by
    obtain ⟨quiet, same⟩ := functionFreeMembers_kept members free
    exact ⟨⟨toJsonMethod_functionFree free, quiet⟩, by rw [JsValue.withoutFunctions, same]⟩

theorem functionFreeItems_kept : ∀ (items : List JsValue), JsValue.FunctionFreeItems items →
    JsValue.QuietItems items ∧ JsValue.itemsWithoutFunctions items = items
  | [], _ => ⟨trivial, rfl⟩
  | item :: items, free => by
    obtain ⟨quiet, same⟩ := functionFree_kept item free.1
    obtain ⟨quietRest, sameRest⟩ := functionFreeItems_kept items free.2
    exact ⟨⟨quiet, quietRest⟩, by rw [JsValue.itemsWithoutFunctions, same, sameRest]⟩

theorem functionFreeMembers_kept : ∀ (members : List (JSString × JsValue)), JsValue.FunctionFreeMembers members →
    JsValue.QuietMembers members ∧ JsValue.membersWithoutFunctions members = members
  | [], _ => ⟨trivial, rfl⟩
  | (key, value) :: members, free => by
    obtain ⟨quiet, same⟩ := functionFree_kept value free.1
    obtain ⟨quietRest, sameRest⟩ := functionFreeMembers_kept members free.2
    exact ⟨⟨quiet, quietRest⟩, by rw [JsValue.membersWithoutFunctions, same, sameRest]⟩

end

theorem received_iff {value : JsValue} (ordered : value.Ordered) :
    (∀ answers, received answers value = some value.withoutFunctions) ↔ value.MarkerFree ∧ value.Quiet := by
  constructor
  · intro arrives
    have quiet : value.Quiet := by
      have thrown := arrives throwing
      rw [received, Option.bind_eq_some_iff] at thrown
      obtain ⟨text, written, _⟩ := thrown
      obtain ⟨tree, found, _⟩ := Option.map_eq_some_iff.mp written
      exact quiet_of_crossingTree value found
    have read := arrives throwing
    rw [received_quiet throwing ordered quiet, Option.some.injEq] at read
    exact ⟨(fromJson_plainTree value).mp read, quiet⟩
  · rintro ⟨free, quiet⟩ answers
    rw [received_quiet answers ordered quiet, (fromJson_plainTree value).mpr free]

/-- A payload without functions arrives as it left exactly when no object in it reads as a marker. One with
functions arrives with `undefined` for each, whatever they do when called, exactly when in addition no
`toJSON` in it is a function. -/
theorem crossing_exact_iff (value : JsValue) (ordered : value.Ordered) :
    (value.FunctionFree → ((∀ answers, received answers value = some value) ↔ value.MarkerFree)) ∧
      ((∀ answers, received answers value = some value.withoutFunctions) ↔ value.MarkerFree ∧ value.Quiet) := by
  refine ⟨fun free => ?_, received_iff ordered⟩
  obtain ⟨quiet, same⟩ := functionFree_kept value free
  have exactly := received_iff ordered
  rw [same] at exactly
  rw [exactly]
  exact and_iff_left quiet

/-- A payload with each special value, a function, and an object that only resembles a marker. -/
def mixedPayload : JsValue := .obj [(js "a", .undefined),
  (js "b", .arr [.num .nan, .num (.finite (.zero true)), .func 7 []]), (js "$xript", .str (js "NaN"))]

theorem mixedPayload_ordered : mixedPayload.Ordered :=
  ⟨⟨by decide +kernel, by decide +kernel⟩, trivial, ⟨trivial, trivial, trivial, trivial⟩, trivial, trivial⟩

theorem crossing_exact_iff_mixed : mixedPayload.Ordered ∧ ∀ answers, received answers mixedPayload = some (.obj
    [(js "a", .undefined), (js "b", .arr [.num .nan, .num (.finite (.zero true)), .undefined]),
      (js "$xript", .str (js "NaN"))]) := by
  refine ⟨mixedPayload_ordered, (crossing_exact_iff mixedPayload mixedPayload_ordered).2.mpr ⟨?_, ?_⟩⟩
  · exact ⟨rfl, trivial, ⟨trivial, trivial, trivial, trivial⟩, trivial, trivial⟩
  · exact ⟨by rw [toJsonMethod]; rfl, trivial, ⟨trivial, trivial, by rw [JsValue.Quiet]; rfl, trivial⟩, trivial, trivial⟩

/-- Ordinary data with the one key `$xript` arrives as the number it names. -/
theorem marker_data_lost :
    received throwing (.obj [(js "$xript", .str (js "NaN"))]) = some (.num .nan) ∧
      received throwing (.obj [(js "$xript", .str (js "NaN"))]) ≠ some (.obj [(js "$xript", .str (js "NaN"))]) := by
  have ordered : (JsValue.obj [(js "$xript", .str (js "NaN"))]).Ordered :=
    ⟨⟨by decide +kernel, by decide +kernel⟩, trivial, trivial⟩
  have arrives : received throwing (.obj [(js "$xript", .str (js "NaN"))]) = some (.num .nan) := by
    rw [received_quiet throwing ordered ⟨by decide +kernel, trivial, trivial⟩]
    exact congrArg some (fromJson_marker rfl)
  refine ⟨arrives, ?_⟩
  rw [arrives]
  simp

end Xript
