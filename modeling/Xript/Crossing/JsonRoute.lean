import Xript.Crossing.InboundExact

namespace Xript

def maxJsonDepth : Nat := 512

/-- `isJsonExact` inside some containers, where `room` more may nest. -/
def isJsonExact (heap : Heap) : Nat → List Nat → GraphValue → Bool
  | _, _, .prim (.str _) | _, _, .prim (.bool _) | _, _, .prim .null => true
  | _, _, .prim (.number x) => x.isFinite && x != .finite (.zero true)
  | 0, _, .object _ => false
  | room + 1, ancestors, .object ref =>
    if ref ∈ ancestors then false
    else
      match heap ref with
      | .array items => items.all fun
        | none => false
        | some item => isJsonExact heap room (ref :: ancestors) item
      | .object members => members.all fun member =>
        member.1 != js "__proto__" && isJsonExact heap room (ref :: ancestors) member.2
  | _, _, .prim .undefined | _, _, .prim (.bigint _) | _, _, .symbol _ | _, _, .func _ => false

/-- What the host's `JSON.stringify` writes for a value: none where it throws, or would call a `toJSON`, and `some
none` where there is nothing to write. -/
def hostJson (heap : Heap) : Nat → List Nat → GraphValue → Option (Option Json)
  | _, _, .prim .null => some (some .null)
  | _, _, .prim (.bool b) => some (some (.bool b))
  | _, _, .prim (.number x) => some (some (.num x))
  | _, _, .prim (.str s) => some (some (.str s))
  | _, _, .prim (.bigint _) => none
  | _, _, .prim .undefined | _, _, .symbol _ | _, _, .func _ => some none
  | 0, _, .object _ => none
  | room + 1, ancestors, .object ref =>
    if ref ∈ ancestors then none
    else
      match heap ref with
      | .array items =>
        (items.mapM fun item =>
          (hostJson heap room (ref :: ancestors) (item.getD (.prim .undefined))).map (·.getD .null)).map
            (some ∘ .arr)
      | .object members =>
        match members.get (js "toJSON") with
        | some (.func _) => none
        | _ =>
          (members.mapM fun member =>
            (hostJson heap room (ref :: ancestors) member.2).map fun written =>
              written.map (member.1, ·)).map fun written => some (.obj (written.filterMap id))

mutual

/-- The value `JSON.parse` makes of a text, by what the text says, in cells from `fresh` on. -/
def buildJson : Json → Heap → Nat → GraphValue × Heap × Nat
  | .null, heap, fresh => (.prim .null, heap, fresh)
  | .bool b, heap, fresh => (.prim (.bool b), heap, fresh)
  | .num x, heap, fresh => (.prim (.number x), heap, fresh)
  | .str s, heap, fresh => (.prim (.str s), heap, fresh)
  | .arr items, heap, fresh =>
    let (values, heap, next) := buildItems items heap (fresh + 1)
    (.object fresh, Function.update heap fresh (.array (values.map some)), next)
  | .obj members, heap, fresh =>
    let (values, heap, next) := buildMembers members heap (fresh + 1)
    (.object fresh, Function.update heap fresh (.object ((members.map Prod.fst).zip values)), next)

def buildItems : List Json → Heap → Nat → List GraphValue × Heap × Nat
  | [], heap, fresh => ([], heap, fresh)
  | item :: items, heap, fresh =>
    let (value, heap, fresh) := buildJson item heap fresh
    let (values, heap, fresh) := buildItems items heap fresh
    (value :: values, heap, fresh)

def buildMembers : List (JSString × Json) → Heap → Nat → List GraphValue × Heap × Nat
  | [], heap, fresh => ([], heap, fresh)
  | (_, item) :: members, heap, fresh =>
    let (value, heap, fresh) := buildJson item heap fresh
    let (values, heap, fresh) := buildMembers members heap fresh
    (value :: values, heap, fresh)

end

/-- `parseIntoSandbox` of a value `isJsonExact` accepts, which nests no deeper than the room given here. -/
def parseIntoSandbox (newString : JSString → JSString) (heap : Heap) (value : GraphValue) :
    Option (GraphValue × Heap) :=
  (hostJson heap (maxJsonDepth + 1) [] value).join.bind fun json =>
    (parseJson (newString (stringifyJson json))).map fun parsed =>
      let (value, built, _) := buildJson parsed (fun _ => .array []) 0
      (value, built)

theorem jsonString_safe (value : JSString) : cStringSafe (jsonString value) = true := by
  have escaped : ∀ {escape s : JSString}, (∀ u ∈ escape, 0 < u ∧ u < 128) → cStringSafe s = true →
      cStringSafe (escape ++ s) = true := fun ascii safe => cStringSafe_append (cStringSafe_ascii ascii) safe
  have unicode : ∀ u, ∀ c ∈ unicodeEscape u, 0 < c ∧ c < 128 := by
    intro u c member
    have hex : ∀ n, n < 16 → 0 < hexDigit n ∧ hexDigit n < 128 := by decide
    simp only [unicodeEscape, List.mem_cons, List.not_mem_nil, or_false] at member
    rcases member with rfl | rfl | rfl | rfl | rfl | rfl
    · decide
    · decide
    all_goals exact hex _ (Nat.mod_lt _ (by decide))
  have units : cStringSafe (jsonUnits value) = true := by
    fun_induction jsonUnits value with
    | case1 => rfl
    | case2 s ih => exact escaped (by decide) ih
    | case3 s _ ih => exact escaped (by decide) ih
    | case4 s _ _ ih => exact escaped (by decide) ih
    | case5 s _ _ _ ih => exact escaped (by decide) ih
    | case6 s _ _ _ _ ih => exact escaped (by decide) ih
    | case7 s _ _ _ _ _ ih => exact escaped (by decide) ih
    | case8 s _ _ _ _ _ _ ih => exact escaped (by decide) ih
    | case9 u s _ _ _ _ _ _ _ control ih => exact escaped (unicode u) ih
    | case10 u _ _ _ _ _ _ _ _ high v t low ih =>
      have pair : cStringSafe [u, v] = true := by
        have notNul : ¬0 = u ∧ ¬0 = v := by omega
        simp [cStringSafe, isWellFormed, high, low, notNul]
      exact cStringSafe_append pair ih
    | case11 u _ _ _ _ _ _ _ _ high v t low ih => exact escaped (unicode u) ih
    | case12 u _ _ _ _ _ _ _ _ high => exact cStringSafe_ascii (unicode u)
    | case13 u s _ _ _ _ _ _ _ _ _ low ih => exact escaped (unicode u) ih
    | case14 u s _ _ _ _ _ _ _ control notHigh notLow ih =>
      have unit : cStringSafe [u] = true := by
        have notNul : ¬0 = u := by omega
        simp [cStringSafe, isWellFormed, notHigh, notLow, notNul]
      exact cStringSafe_append unit ih
  exact cStringSafe_append (s := 34 :: jsonUnits value) (cStringSafe_append (s := [34]) rfl units) rfl

theorem intercalate_safe {texts : List JSString} (safe : ∀ text ∈ texts, cStringSafe text = true) :
    cStringSafe ([44].intercalate texts) = true := by
  induction texts with
  | nil => rfl
  | cons text texts ih =>
    have first := safe text (List.mem_cons_self ..)
    cases texts with
    | nil => exact cStringSafe_append first rfl
    | cons other texts =>
      rw [intercalate_cons_cons]
      exact cStringSafe_append first (cStringSafe_append (s := [44]) rfl (ih fun more member =>
        safe more (List.mem_cons_of_mem _ member)))

mutual

/-- JSON text has no NUL and no unpaired surrogate: it writes both as escapes. -/
theorem stringifyJson_safe : ∀ (json : Json), json.Spellable → cStringSafe (stringifyJson json) = true
  | .null, _ => rfl
  | .bool b, _ => by cases b <;> rfl
  | .str s, _ => jsonString_safe s
  | .num x, spellable => by
    obtain ⟨b, rfl, -⟩ := spellable
    refine cStringSafe_ascii fun u member => ?_
    have unit := List.all_eq_true.mp (toText_units b) u member
    simp only [isNumberUnit, isDigit, Bool.or_eq_true, Bool.and_eq_true, decide_eq_true_eq] at unit
    omega
  | .arr items, spellable =>
    cStringSafe_append (cStringSafe_append (s := [91]) rfl
      (intercalate_safe (stringifyItems_safe items spellable))) rfl
  | .obj members, spellable =>
    cStringSafe_append (cStringSafe_append (s := [123]) rfl
      (intercalate_safe (stringifyMembers_safe members spellable.2))) rfl

theorem stringifyItems_safe : ∀ (items : List Json), Json.SpellableItems items →
    ∀ text ∈ stringifyItems items, cStringSafe text = true
  | [], _, _, member => nomatch member
  | item :: items, spellable, text, member => by
    rcases List.mem_cons.mp member with rfl | member
    · exact stringifyJson_safe item spellable.1
    · exact stringifyItems_safe items spellable.2 text member

theorem stringifyMembers_safe : ∀ (members : List (JSString × Json)), Json.SpellableMembers members →
    ∀ text ∈ stringifyMembers members, cStringSafe text = true
  | [], _, _, member => nomatch member
  | (key, value) :: members, spellable, text, member => by
    rcases List.mem_cons.mp member with rfl | member
    · exact cStringSafe_append (jsonString_safe key)
        (cStringSafe_append (s := [58]) rfl (stringifyJson_safe value spellable.1))
    · exact stringifyMembers_safe members spellable.2 text member

end

/-- What a value of JSON text shows once `JSON.parse` has built it, nesting no deeper than `room`. -/
def Builds (room : Nat) (json : Json) (tree : JsTree) : Prop :=
  ∀ heap fresh, ∃ value built next, buildJson json heap fresh = (value, built, next) ∧ fresh ≤ next ∧
    (∀ ref < fresh, built ref = heap ref) ∧ ∀ (later : Heap) (depth : Nat) (targets : List Nat), room ≤ depth →
      (∀ ref ∈ targets, ref < fresh) → (∀ ref, fresh ≤ ref → ref < next → later ref = built ref) →
        unfold .hole later depth targets value = some tree

def BuildsItems (room : Nat) (items : List Json) (trees : List JsTree) : Prop :=
  ∀ heap fresh, ∃ values built next, buildItems items heap fresh = (values, built, next) ∧ fresh ≤ next ∧
    (∀ ref < fresh, built ref = heap ref) ∧ ∀ (later : Heap) (depth : Nat) (targets : List Nat), room ≤ depth →
      (∀ ref ∈ targets, ref < fresh) → (∀ ref, fresh ≤ ref → ref < next → later ref = built ref) →
        values.mapM (unfold .hole later depth targets) = some trees

theorem buildsItems_nil (room : Nat) : BuildsItems room [] [] :=
  fun heap fresh => ⟨[], heap, fresh, rfl, Nat.le_refl _, fun _ _ => rfl, fun _ _ _ _ _ _ => rfl⟩

theorem buildsItems_cons {room : Nat} {item : Json} {items : List Json} {tree : JsTree} {trees : List JsTree}
    (first : Builds room item tree) (others : BuildsItems room items trees) :
    BuildsItems room (item :: items) (tree :: trees) := by
  intro heap fresh
  obtain ⟨value, built, next, made, grew, kept, shows⟩ := first heap fresh
  obtain ⟨values, built', next', made', grew', kept', shows'⟩ := others built next
  refine ⟨value :: values, built', next', ?_, Nat.le_trans grew grew', ?_, ?_⟩
  · rw [buildItems, made]
    show (let (values, heap, fresh) := buildItems items built next; (value :: values, heap, fresh)) = _
    rw [made']
  · intro ref below
    rw [kept' ref (Nat.lt_of_lt_of_le below grew), kept ref below]
  · intro later depth targets deep inside agrees
    have one := shows later depth targets deep inside fun ref above below => by
      rw [agrees ref above (Nat.lt_of_lt_of_le below grew'), kept' ref below]
    have more := shows' later depth targets deep (fun ref member => Nat.lt_of_lt_of_le (inside ref member) grew)
      fun ref above below => agrees ref (Nat.le_trans grew above) below
    rw [List.mapM_cons, more, one]
    rfl

theorem builds_leaf {room : Nat} {json : Json} {p : Primitive}
    (made : ∀ heap fresh, buildJson json heap fresh = (.prim p, heap, fresh)) : Builds room json (.leaf p) :=
  fun heap fresh => ⟨.prim p, heap, fresh, made heap fresh, Nat.le_refl _, fun _ _ => rfl, fun _ _ _ _ _ _ => by
    rw [unfold]⟩

/-- A container `JSON.parse` makes of its values. -/
theorem builds_container {room : Nat} {json : Json} {items : List Json} {trees : List JsTree} {tree : JsTree}
    {grow : List GraphValue → Cell} (made : ∀ heap fresh, buildJson json heap fresh =
      (.object fresh, Function.update (buildItems items heap (fresh + 1)).2.1 fresh
        (grow (buildItems items heap (fresh + 1)).1), (buildItems items heap (fresh + 1)).2.2))
    (shape : ∀ (later : Heap) (depth : Nat) (targets : List Nat) (ref : Nat) (values : List GraphValue),
      later ref = grow values → ref ∉ targets →
      values.mapM (unfold .hole later depth (ref :: targets)) = some trees →
      unfold .hole later (depth + 1) targets (.object ref) = some tree)
    (builds : BuildsItems room items trees) : Builds (room + 1) json tree := by
  intro heap fresh
  obtain ⟨values, built, next, same, grew, kept, shows⟩ := builds heap (fresh + 1)
  have result := made heap fresh
  rw [same] at result
  refine ⟨_, _, _, result, Nat.le_of_succ_le grew, ?_, ?_⟩
  · intro ref below
    rw [Function.update_of_ne (Nat.ne_of_lt below)]
    exact kept ref (Nat.lt_succ_of_lt below)
  · intro later depth targets deep inside agrees
    obtain ⟨depth, rfl⟩ : ∃ d, depth = d + 1 := ⟨depth - 1, by omega⟩
    have outside : fresh ∉ targets := fun member => absurd (inside fresh member) (Nat.lt_irrefl _)
    have here := (agrees fresh (Nat.le_refl _) grew).trans (Function.update_self ..)
    refine shape later depth targets fresh values here outside ?_
    refine shows later depth (fresh :: targets) (Nat.le_of_succ_le_succ deep) (fun ref member => ?_)
      fun ref above below => ?_
    · rcases List.mem_cons.mp member with rfl | member
      · exact Nat.lt_succ_self _
      · exact Nat.lt_succ_of_lt (inside ref member)
    · rw [agrees ref (Nat.le_of_succ_le above) below, Function.update_of_ne (Nat.ne_of_gt above)]

theorem buildMembers_eq {keys : List JSString} {items : List Json} (same : keys.length = items.length) (heap : Heap)
    (fresh : Nat) : buildMembers (keys.zip items) heap fresh = buildItems items heap fresh := by
  induction items generalizing keys heap fresh with
  | nil =>
    rw [List.zip_nil_right]
    rfl
  | cons item items ih =>
    cases keys with
    | nil => cases same
    | cons key keys =>
      rw [List.zip_cons_cons, buildMembers, buildItems]
      simp only [ih (Nat.succ.inj same)]

theorem spellableMembers_zip {keys : List JSString} {items : List Json} (spellable : Json.SpellableItems items) :
    Json.SpellableMembers (keys.zip items) := by
  induction items generalizing keys with
  | nil =>
    rw [List.zip_nil_right]
    trivial
  | cons item items ih =>
    cases keys with
    | nil => trivial
    | cons key keys => exact ⟨spellable.1, ih spellable.2⟩

/-- What holds of a value `isJsonExact` accepts: `JSON.stringify` writes JSON for it that `JSON.parse` builds into a
value showing the same tree. -/
def WritesExact (heap : Heap) (room : Nat) (ancestors : List Nat) (value : GraphValue) (json : Json)
    (tree : JsTree) : Prop :=
  hostJson heap room ancestors value = some (some json) ∧ json.Spellable ∧
    (∀ depth, room ≤ depth → unfold (.leaf .undefined) heap depth ancestors value = some tree) ∧ Builds room json tree

theorem writesExact_values {heap : Heap} {room : Nat} {ancestors : List Nat} {values : List GraphValue}
    (exactly : ∀ value ∈ values, ∃ json tree, WritesExact heap room ancestors value json tree) :
    ∃ jsons trees, jsons.length = values.length ∧ trees.length = values.length ∧
      values.mapM (hostJson heap room ancestors) = some (jsons.map some) ∧ Json.SpellableItems jsons ∧
      (∀ depth, room ≤ depth → values.mapM (unfold (.leaf .undefined) heap depth ancestors) = some trees) ∧
      BuildsItems room jsons trees := by
  induction values with
  | nil => exact ⟨[], [], rfl, rfl, rfl, trivial, fun _ _ => rfl, buildsItems_nil room⟩
  | cons value values ih =>
    obtain ⟨json, tree, written, spellable, shows, builds⟩ := exactly value (List.mem_cons_self ..)
    obtain ⟨jsons, trees, count, count', more, spellables, showMore, buildMore⟩ :=
      ih fun other member => exactly other (List.mem_cons_of_mem _ member)
    refine ⟨json :: jsons, tree :: trees, congrArg Nat.succ count, congrArg Nat.succ count', ?_,
      ⟨spellable, spellables⟩, fun depth deep => ?_, buildsItems_cons builds buildMore⟩
    · rw [List.mapM_cons, written, more]
      rfl
    · rw [List.mapM_cons, shows depth deep, showMore depth deep]
      rfl

theorem writesExact_primitive {heap : Heap} {room : Nat} {ancestors : List Nat} {p : Primitive}
    (exactly : isJsonExact heap room ancestors (.prim p) = true) :
    ∃ json tree, WritesExact heap room ancestors (.prim p) json tree := by
  have shows : ∀ depth, room ≤ depth → unfold (.leaf .undefined) heap depth ancestors (.prim p) = some (.leaf p) :=
    fun depth _ => by rw [unfold]
  cases p with
  | undefined =>
    rw [isJsonExact] at exactly
    cases exactly
  | bigint n =>
    rw [isJsonExact] at exactly
    cases exactly
  | null => exact ⟨.null, _, by rw [hostJson], trivial, shows, builds_leaf fun _ _ => by rw [buildJson]⟩
  | bool b => exact ⟨.bool b, _, by rw [hostJson], trivial, shows, builds_leaf fun _ _ => by rw [buildJson]⟩
  | str s => exact ⟨.str s, _, by rw [hostJson], trivial, shows, builds_leaf fun _ _ => by rw [buildJson]⟩
  | number x =>
    rw [isJsonExact, Bool.and_eq_true, bne_iff_ne] at exactly
    refine ⟨.num x, _, by rw [hostJson], ?_, shows, builds_leaf fun _ _ => by rw [buildJson]⟩
    cases x with
    | nan => cases exactly.1
    | infinite negative => cases exactly.1
    | finite b =>
      refine ⟨b, rfl, fun zero => ?_⟩
      by_contra negative
      refine exactly.2 (congrArg F64.finite ?_)
      have exponent : b.exponent = -1074 := b.normal.resolve_right (by omega)
      cases b
      simp_all [Binary64.zero]

theorem mapM_map_result {α β γ : Type} {f : α → Option β} (g : β → γ) {items : List α} {results : List β}
    (all : items.mapM f = some results) : items.mapM (fun item => (f item).map g) = some (results.map g) := by
  induction items generalizing results with
  | nil =>
    obtain rfl := Option.some.inj all
    rfl
  | cons item items ih =>
    rw [List.mapM_cons] at all
    obtain ⟨result, one, rest⟩ := Option.bind_eq_some_iff.mp all
    obtain ⟨others, further, same⟩ := Option.bind_eq_some_iff.mp rest
    obtain rfl := Option.some.inj same
    rw [List.mapM_cons, ih further, one]
    rfl

/-- The members of an object are all written. -/
theorem mapM_written {members : Record GraphValue} {f : GraphValue → Option (Option Json)} {jsons : List Json}
    (all : members.mapM (fun member => f member.2) = some (jsons.map some)) :
    (members.mapM fun member => (f member.2).map fun written => written.map (member.1, ·)) =
      some (((members.map Prod.fst).zip jsons).map some) := by
  induction members generalizing jsons with
  | nil => rfl
  | cons member members ih =>
    rw [List.mapM_cons] at all
    obtain ⟨result, one, rest⟩ := Option.bind_eq_some_iff.mp all
    obtain ⟨others, further, same⟩ := Option.bind_eq_some_iff.mp rest
    cases jsons with
    | nil => cases same
    | cons json jsons =>
      obtain ⟨rfl, rfl⟩ := List.cons.inj (Option.some.inj same)
      rw [List.mapM_cons, ih further, one]
      rfl

theorem writesExact_array {heap : Heap} {room : Nat} {ancestors : List Nat} {ref : Nat} {values : List GraphValue}
    (outside : ref ∉ ancestors) (here : heap ref = .array (values.map some))
    (exactly : ∀ value ∈ values, ∃ json tree, WritesExact heap room (ref :: ancestors) value json tree) :
    ∃ json tree, WritesExact heap (room + 1) ancestors (.object ref) json tree := by
  obtain ⟨jsons, trees, -, -, written, spellable, shows, builds⟩ := writesExact_values exactly
  refine ⟨.arr jsons, .arr trees, ?_, spellable, fun depth deep => ?_, builds_container (fun _ _ => by rw [buildJson])
    (fun later depth targets ref values here outside shows => unfold_filled_array here outside shows) builds⟩
  · have filled := mapM_map_result (·.getD Json.null) written
    rw [List.map_map] at filled
    rw [hostJson, if_neg outside, here]
    show Option.map _ (List.mapM _ (values.map some)) = _
    rw [List.mapM_map]
    refine (congrArg (Option.map _) filled).trans ?_
    exact congrArg (fun items => some (some (Json.arr items))) (List.map_id jsons)
  · obtain ⟨depth, rfl⟩ : ∃ d, depth = d + 1 := ⟨depth - 1, by omega⟩
    rw [unfold_array (idxOf?_eq_none outside) here, List.mapM_map]
    show (values.mapM (unfold (.leaf .undefined) heap depth (ref :: ancestors))).map _ = _
    rw [shows depth (Nat.le_of_succ_le_succ deep)]
    rfl

theorem hostJson_object {heap : Heap} {room : Nat} {ancestors : List Nat} {ref : Nat} {members : Record GraphValue}
    (outside : ref ∉ ancestors) (here : heap ref = .object members)
    (noCall : ∀ id, members.get (js "toJSON") ≠ some (.func id)) :
    hostJson heap (room + 1) ancestors (.object ref) =
      (members.mapM fun member => (hostJson heap room (ref :: ancestors) member.2).map fun written =>
        written.map (member.1, ·)).map fun written => some (.obj (written.filterMap id)) := by
  rw [hostJson, if_neg outside]
  simp only [here]

theorem writesExact_object {heap : Heap} {room : Nat} {ancestors : List Nat} {ref : Nat} {members : Record GraphValue}
    (outside : ref ∉ ancestors) (here : heap ref = .object members) (ordered : Record.Ordered members)
    (noCall : ∀ id, members.get (js "toJSON") ≠ some (.func id))
    (exactly : ∀ member ∈ members, ∃ json tree, WritesExact heap room (ref :: ancestors) member.2 json tree) :
    ∃ json tree, WritesExact heap (room + 1) ancestors (.object ref) json tree := by
  obtain ⟨jsons, trees, count, count', written, spellable, shows, builds⟩ :=
    writesExact_values fun value member => by
      obtain ⟨entry, among, rfl⟩ := List.mem_map.mp member
      exact exactly entry among
  rw [List.length_map] at count count'
  have keys : (members.map Prod.fst).length = jsons.length := by rw [List.length_map, count]
  have named : ((members.map Prod.fst).zip jsons).map Prod.fst = members.map Prod.fst := List.map_fst_zip keys.le
  refine ⟨.obj ((members.map Prod.fst).zip jsons), .obj ((members.map Prod.fst).zip trees), ?_,
    ⟨ordered.of_keys named, spellableMembers_zip spellable⟩, fun depth deep => ?_, builds_container (fun heap fresh => ?_)
    (fun later depth targets ref values here outside shows => unfold_filled_object here outside ?_ shows) builds⟩
  · rw [List.mapM_map] at written
    have entries := mapM_written written
    rw [hostJson_object outside here noCall, entries, Option.map_some, List.filterMap_map]
    exact congrArg (fun entries => some (some (Json.obj entries))) List.filterMap_some
  · obtain ⟨depth, rfl⟩ : ∃ d, depth = d + 1 := ⟨depth - 1, by omega⟩
    have shown := shows depth (Nat.le_of_succ_le_succ deep)
    rw [unfold_object (idxOf?_eq_none outside) here]
    have zipped : members = (members.map Prod.fst).zip (members.map Prod.snd) := List.zip_of_prod rfl rfl
    have counted : trees.length = (members.map Prod.fst).length := by rw [count', List.length_map]
    have all := unfold_members (unfold (.leaf .undefined) heap depth (ref :: ancestors)) counted shown
    rw [← zipped] at all
    rw [all]
    rfl
  · rw [buildJson, buildMembers_eq keys, named]
  · rw [count', List.length_map]

/-- A value `isJsonExact` accepts is written and built exactly. -/
theorem writesExact_of_isJsonExact {heap : Heap}
    (ordered : ∀ ref members, heap ref = .object members → Record.Ordered members) {room : Nat} {ancestors : List Nat}
    {value : GraphValue} (exactly : isJsonExact heap room ancestors value = true) :
    ∃ json tree, WritesExact heap room ancestors value json tree := by
  induction room generalizing ancestors value with
  | zero =>
    cases value with
    | prim p => exact writesExact_primitive exactly
    | symbol | func | object =>
      rw [isJsonExact] at exactly
      cases exactly
  | succ room ih =>
    cases value with
    | prim p => exact writesExact_primitive exactly
    | symbol | func =>
      rw [isJsonExact] at exactly
      cases exactly
    | object ref =>
      rw [isJsonExact] at exactly
      split at exactly
      · cases exactly
      · rename_i outside
        split at exactly
        · rename_i items here
          have each := List.all_eq_true.mp exactly
          obtain ⟨values, rfl⟩ : ∃ values : List GraphValue, items = values.map some := by
            refine ⟨items.map (·.getD (.prim .undefined)), ?_⟩
            rw [List.map_map]
            refine (List.map_id items).symm.trans (List.map_congr_left fun item member => ?_)
            cases item with
            | none => cases each none member
            | some item => rfl
          exact writesExact_array outside here fun value member =>
            ih (each (some value) (List.mem_map.mpr ⟨value, member, rfl⟩))
        · rename_i members here
          have each := fun member among => (Bool.and_eq_true_iff.mp (List.all_eq_true.mp exactly member among)).2
          refine writesExact_object outside here (ordered ref members here) (fun id found => ?_) fun member among =>
            ih (each member among)
          have called := each _ (Record.mem_of_get found)
          rw [isJsonExact] at called
          cases called

/-- A value `isJsonExact` accepts arrives by its JSON text as one that shows the same tree. -/
theorem json_round_trip (newString : JSString → JSString)
    (exactly : ∀ text, cStringSafe text = true → newString text = text) {heap : Heap}
    (ordered : ∀ ref members, heap ref = .object members → Record.Ordered members) {value : GraphValue}
    (accepted : isJsonExact heap (maxJsonDepth + 1) [] value = true) :
    ∃ tree, unfold (.leaf .undefined) heap maxCrossingDepth [] value = some tree ∧
      ∃ result built, parseIntoSandbox newString heap value = some (result, built) ∧
        unfold .hole built maxCrossingDepth [] result = some tree := by
  obtain ⟨json, tree, written, spellable, shows, builds⟩ := writesExact_of_isJsonExact ordered accepted
  obtain ⟨result, built, next, made, -, -, showsResult⟩ := builds (fun _ => .array []) 0
  refine ⟨tree, shows maxCrossingDepth (by decide), result, built, ?_, ?_⟩
  · rw [parseIntoSandbox, written]
    show (parseJson (newString (stringifyJson json))).map _ = _
    rw [exactly _ (stringifyJson_safe json spellable), parseJson_stringify spellable, Option.map_some, made]
  · exact showsResult built maxCrossingDepth [] (by decide) (fun _ none => nomatch none) fun _ _ _ => rfl

/-- An array with a hole inside an object that it refers back to, beside a plain object. -/
def cyclicHeap : Heap
  | 0 => .object [(js "b", .prim (.bigint (-3))), (js "a", .object 1), (js "s", .prim (.str [0xD800, 0, 120]))]
  | 1 => .array [none, some (.object 0), some (.prim (.number .nan))]
  | 2 => .object [(js "k", .prim (.str [0xD800]))]
  | _ => .array []

theorem cyclicHeap_ordered : ∀ ref members, cyclicHeap ref = .object members → Record.Ordered members := by
  intro ref members here
  unfold cyclicHeap at here
  split at here
  · obtain rfl := Cell.object.inj here
    exact ⟨by decide, by decide⟩
  · cases here
  · obtain rfl := Cell.object.inj here
    exact ⟨by decide, by decide⟩
  · cases here

/-- What a C string keeps of a text, as far as its first NUL, where the text is not safe. -/
def readCString (text : JSString) : JSString := if cStringSafe text then text else text.takeWhile (· ≠ 0)

end Xript
