import Xript.Json.RoundTrip

namespace Xript

/-- `compareCodePoints(a, b)`, by its sign. -/
def compareCodePoints : JSString → JSString → Ordering
  | [], [] => .eq
  | [], _ :: _ => .lt
  | _ :: _, [] => .gt
  | a :: s, b :: t =>
    if codePointRank a = codePointRank b then compareCodePoints s t
    else if codePointRank a < codePointRank b then .lt else .gt

theorem codePointsLe_iff {s t : JSString} : codePointsLe s t = true ↔ compareCodePoints s t ≠ .gt := by
  induction s generalizing t with
  | nil => cases t <;> exact iff_of_true rfl nofun
  | cons a s ih =>
    cases t with
    | nil => exact iff_of_false nofun (absurd rfl)
    | cons b t =>
      rw [codePointsLe, compareCodePoints]
      split
      · exact ih
      · split
        · rename_i below
          exact iff_of_true (decide_eq_true below) nofun
        · rename_i below
          exact iff_of_false (by simpa using below) (absurd rfl)

theorem compareCodePoints_swap (s t : JSString) : compareCodePoints t s = (compareCodePoints s t).swap := by
  induction s generalizing t with
  | nil => cases t <;> rfl
  | cons a s ih =>
    cases t with
    | nil => rfl
    | cons b t =>
      rw [compareCodePoints, compareCodePoints]
      by_cases same : codePointRank a = codePointRank b
      · rw [if_pos same, if_pos same.symm, ih]
      · rw [if_neg same, if_neg (Ne.symm same)]
        by_cases below : codePointRank a < codePointRank b
        · rw [if_pos below, if_neg (by omega)]
          rfl
        · rw [if_neg below, if_pos (by omega)]
          rfl

/-- A string of code units. -/
def IsUnits (s : JSString) : Prop := ∀ u ∈ s, u < 0x10000

/-- On code units the remapping only changes their order. -/
theorem codePointRank_inj {u v : Nat} (unitU : u < 0x10000) (unitV : v < 0x10000)
    (same : codePointRank u = codePointRank v) : u = v := by
  simp only [codePointRank] at same
  split_ifs at same <;> omega

theorem compareCodePoints_eq_iff {s t : JSString} (unitsS : IsUnits s) (unitsT : IsUnits t) :
    compareCodePoints s t = .eq ↔ s = t := by
  induction s generalizing t with
  | nil => cases t <;> simp [compareCodePoints]
  | cons a s ih =>
    cases t with
    | nil => simp [compareCodePoints]
    | cons b t =>
      obtain ⟨unitA, unitsS⟩ := List.forall_mem_cons.mp unitsS
      obtain ⟨unitB, unitsT⟩ := List.forall_mem_cons.mp unitsT
      rw [compareCodePoints, List.cons.injEq]
      split
      · rename_i same
        rw [ih unitsS unitsT, and_iff_right (codePointRank_inj unitA unitB same)]
      · rename_i apart
        refine iff_of_false ?_ fun same => apart (congrArg _ same.1)
        split <;> nofun

theorem codePointsLe_total (s t : JSString) : codePointsLe s t = true ∨ codePointsLe t s = true := by
  rw [codePointsLe_iff, codePointsLe_iff, compareCodePoints_swap s t]
  cases compareCodePoints s t <;> simp

theorem codePointsLe_trans {s t r : JSString} (first : codePointsLe s t = true) (second : codePointsLe t r = true) :
    codePointsLe s r = true := by
  induction s generalizing t r with
  | nil => rfl
  | cons a s ih =>
    cases t with
    | nil => cases first
    | cons b t =>
      cases r with
      | nil => cases second
      | cons c r =>
        rw [codePointsLe] at first second ⊢
        split at first
        · rename_i sameA
          split at second
          · rename_i sameB
            rw [if_pos (sameA.trans sameB)]
            exact ih first second
          · rename_i apart
            rw [if_neg (sameA ▸ apart), sameA]
            exact second
        · rename_i apart
          rw [decide_eq_true_eq] at first
          split at second
          · rename_i sameB
            rw [← sameB, if_neg apart]
            exact decide_eq_true first
          · rw [decide_eq_true_eq] at second
            rw [if_neg (by omega)]
            exact decide_eq_true (first.trans second)

/-- The order of the members of an object. -/
abbrev keyLe {β : Type} (a b : JSString × β) : Prop := codePointsLe a.1 b.1 = true

instance {β : Type} : Std.Total (keyLe (β := β)) := ⟨fun a b => codePointsLe_total a.1 b.1⟩

instance {β : Type} : IsTrans (JSString × β) keyLe := ⟨fun _ _ _ => codePointsLe_trans⟩

theorem scalar_toNat (c : Char) : c.toNat < 0xD800 ∨ (0xDFFF < c.toNat ∧ c.toNat < 0x110000) := c.valid

theorem codePoints_unitsOf (c : Char) (s : JSString) : codePoints (unitsOf c.toNat ++ s) = c.toNat :: codePoints s := by
  have valid := scalar_toNat c
  unfold unitsOf
  split
  · cases s with
    | nil => rfl
    | cons u s =>
      rw [List.singleton_append, codePoints, if_neg (by omega)]
  · have point : 0x10000 + (0xD800 + (c.toNat - 0x10000) / 0x400 - 0xD800) * 0x400 +
        (0xDC00 + (c.toNat - 0x10000) % 0x400 - 0xDC00) = c.toNat := by omega
    simp only [List.cons_append, List.nil_append, codePoints]
    rw [if_pos (by omega), point]

/-- The code points of a string of characters. -/
theorem codePoints_utf16 (s : List Char) : codePoints (utf16 s) = s.map Char.toNat := by
  induction s with
  | nil => rfl
  | cons c s ih => rw [utf16_cons, codePoints_unitsOf, ih, List.map_cons]

/-- The first characters that differ decide. -/
theorem compareCodePoints_unitsOf (c d : Char) (s t : JSString) :
    compareCodePoints (unitsOf c.toNat ++ s) (unitsOf d.toNat ++ t) =
      if c = d then compareCodePoints s t else if c.toNat < d.toNat then .lt else .gt := by
  have validC := scalar_toNat c
  have validD := scalar_toNat d
  by_cases same : c = d
  · rw [if_pos same, same]
    unfold unitsOf
    split
    · rw [List.singleton_append, List.singleton_append, compareCodePoints, if_pos rfl]
    · simp only [List.cons_append, List.nil_append, compareCodePoints, if_true]
  · have apart : c.toNat ≠ d.toNat := fun equal => same (Char.toNat_inj.mp equal)
    rw [if_neg same]
    unfold unitsOf
    split
    · split
      · rename_i smallC smallD
        have rank : codePointRank c.toNat < codePointRank d.toNat ↔ c.toNat < d.toNat := by
          simp only [codePointRank]
          split_ifs <;> omega
        have rankNe : codePointRank c.toNat ≠ codePointRank d.toNat := fun equal =>
          apart (codePointRank_inj smallC smallD equal)
        simp only [List.cons_append, List.nil_append, compareCodePoints, if_neg rankNe, rank]
      · have below : codePointRank c.toNat < codePointRank (0xD800 + (d.toNat - 0x10000) / 0x400) := by
          simp only [codePointRank]
          split_ifs <;> omega
        simp only [List.cons_append, List.nil_append, compareCodePoints, if_neg below.ne, if_pos below]
        rw [if_pos (by omega)]
    · split
      · have above : codePointRank d.toNat < codePointRank (0xD800 + (c.toNat - 0x10000) / 0x400) := by
          simp only [codePointRank]
          split_ifs <;> omega
        simp only [List.cons_append, List.nil_append, compareCodePoints, if_neg above.ne', if_neg above.asymm]
        rw [if_neg (by omega)]
      · simp only [List.cons_append, List.nil_append, compareCodePoints]
        have rank : ∀ u, 0xD800 ≤ u → u < 0xE000 → codePointRank u = u + 0x2000 := by
          intro u low high
          rw [codePointRank, if_neg (by omega), if_pos low]
        rw [rank _ (by omega) (by omega), rank _ (by omega) (by omega), rank _ (by omega) (by omega),
          rank _ (by omega) (by omega)]
        split_ifs <;> first | rfl | omega

theorem utf16_lt_iff {s t : List Char} :
    compareCodePoints (utf16 s) (utf16 t) = .lt ↔ s.map Char.toNat < t.map Char.toNat := by
  induction s generalizing t with
  | nil =>
    cases t with
    | nil => simp [compareCodePoints]
    | cons d t =>
      obtain ⟨u, rest, shape⟩ := List.exists_cons_of_ne_nil (unitsOf_ne_nil d.toNat)
      rw [utf16_cons, shape]
      exact iff_of_true rfl (List.nil_lt_cons ..)
  | cons c s ih =>
    cases t with
    | nil =>
      obtain ⟨u, rest, shape⟩ := List.exists_cons_of_ne_nil (unitsOf_ne_nil c.toNat)
      rw [utf16_cons, shape]
      exact iff_of_false nofun (List.not_lt_nil _)
    | cons d t =>
      rw [utf16_cons, utf16_cons, compareCodePoints_unitsOf, List.map_cons, List.map_cons, List.cons_lt_cons_iff, ← ih]
      split
      · rename_i same
        rw [same, or_iff_right (lt_irrefl _), and_iff_right rfl]
      · rename_i apart
        have numbers : c.toNat ≠ d.toNat := fun equal => apart (Char.toNat_inj.mp equal)
        rw [or_iff_left fun both => numbers both.1]
        split
        · rename_i below
          exact iff_of_true rfl below
        · rename_i below
          exact iff_of_false nofun below

/-- A string that UTF-16 can spell. -/
def WellFormed (s : JSString) : Prop := ∃ characters : List Char, s = utf16 characters

theorem WellFormed.units {s : JSString} (formed : WellFormed s) : IsUnits s := by
  obtain ⟨characters, rfl⟩ := formed
  intro u member
  obtain ⟨c, -, inside⟩ := List.mem_flatMap.mp member
  have valid := scalar_toNat c
  unfold unitsOf at inside
  split at inside
  · rename_i small
    rw [List.mem_singleton.mp inside]
    exact small
  · simp only [List.mem_cons, List.not_mem_nil, or_false] at inside
    omega

/-- On well-formed strings `compareCodePoints` is the lexicographic order of their code points. -/
theorem compareCodePoints_exact {s t : JSString} (formedS : WellFormed s) (formedT : WellFormed t) :
    (compareCodePoints s t = .lt ↔ codePoints s < codePoints t) ∧ (compareCodePoints s t = .eq ↔ s = t) ∧
      (compareCodePoints s t = .gt ↔ codePoints t < codePoints s) := by
  have less : ∀ {s t}, WellFormed s → WellFormed t → (compareCodePoints s t = .lt ↔ codePoints s < codePoints t) := by
    rintro _ _ ⟨a, rfl⟩ ⟨b, rfl⟩
    rw [codePoints_utf16, codePoints_utf16, utf16_lt_iff]
  refine ⟨less formedS formedT, compareCodePoints_eq_iff formedS.units formedT.units, ?_⟩
  rw [← less formedT formedS, compareCodePoints_swap s t]
  cases compareCodePoints s t <;> decide

mutual

/-- What a JavaScript value is: no object has one property twice, and its names are strings of code units. -/
def Json.Proper : Json → Prop
  | .null | .bool _ | .num _ | .str _ => True
  | .arr items => Json.ProperItems items
  | .obj members => (Record.keys members).Nodup ∧ Json.ProperMembers members

def Json.ProperItems : List Json → Prop
  | [] => True
  | item :: items => item.Proper ∧ Json.ProperItems items

def Json.ProperMembers : List (JSString × Json) → Prop
  | [] => True
  | (key, value) :: members => (IsUnits key ∧ value.Proper) ∧ Json.ProperMembers members

end

mutual

/-- Two values that differ in the order of object members only. -/
def Json.Reordered : Json → Json → Prop
  | .null, other => other = .null
  | .bool b, other => other = .bool b
  | .num x, other => other = .num x
  | .str s, other => other = .str s
  | .arr items, other => ∃ others, other = .arr others ∧ Json.ReorderedItems items others
  | .obj members, other => ∃ paired others, other = .obj others ∧ Json.ReorderedMembers members paired ∧ paired.Perm others

def Json.ReorderedItems : List Json → List Json → Prop
  | [], others => others = []
  | item :: items, others => ∃ first rest, others = first :: rest ∧ item.Reordered first ∧ Json.ReorderedItems items rest

def Json.ReorderedMembers : List (JSString × Json) → List (JSString × Json) → Prop
  | [], others => others = []
  | (key, value) :: members, others =>
    ∃ first rest, others = (key, first) :: rest ∧ value.Reordered first ∧ Json.ReorderedMembers members rest

end

mutual

/-- A value with the members of its objects in the order they are written in. -/
def Json.sorted : Json → Json
  | .null => .null
  | .bool b => .bool b
  | .num x => .num x
  | .str s => .str s
  | .arr items => .arr (Json.sortedItems items)
  | .obj members => .obj ((Json.sortedMembers members).insertionSort keyLe)

def Json.sortedItems : List Json → List Json
  | [] => []
  | item :: items => item.sorted :: Json.sortedItems items

def Json.sortedMembers : List (JSString × Json) → List (JSString × Json)
  | [] => []
  | (key, value) :: members => (key, value.sorted) :: Json.sortedMembers members

end

theorem stringifyMembers_eq (members : List (JSString × Json)) :
    stringifyMembers members = members.map fun m => jsonString m.1 ++ 58 :: stringifyJson m.2 := by
  induction members with
  | nil => rfl
  | cons member members ih => rw [stringifyMembers, ih, List.map_cons]

theorem sortedMembers_eq (members : List (JSString × Json)) :
    Json.sortedMembers members = members.map fun m => (m.1, m.2.sorted) := by
  induction members with
  | nil => rfl
  | cons member members ih => rw [Json.sortedMembers, ih, List.map_cons]

mutual

/-- The canonical text is the text of the sorted value. -/
theorem canonicalJson_eq : ∀ value : Json, canonicalJson value = stringifyJson value.sorted
  | .null | .bool _ | .str _ | .num _ => rfl
  | .arr items => by rw [canonicalJson, Json.sorted, stringifyJson, canonicalItems_eq items]
  | .obj members => by
    have texts := List.map_insertionSort keyLe keyLe (fun m : JSString × Json => (m.1, stringifyJson m.2))
      (Json.sortedMembers members) fun _ _ _ _ => Iff.rfl
    rw [canonicalJson, Json.sorted, stringifyJson, canonicalMembers_eq members, stringifyMembers_eq]
    show 123 :: [44].intercalate ((List.insertionSort keyLe _).map _) ++ [125] = _
    rw [← texts, List.map_map]
    rfl

theorem canonicalItems_eq : ∀ items : List Json, canonicalItems items = stringifyItems (Json.sortedItems items)
  | [] => rfl
  | item :: items => by rw [canonicalItems, Json.sortedItems, stringifyItems, canonicalJson_eq item, canonicalItems_eq items]

theorem canonicalMembers_eq : ∀ members : List (JSString × Json),
    canonicalMembers members = (Json.sortedMembers members).map fun m => (m.1, stringifyJson m.2)
  | [] => rfl
  | (key, value) :: members => by
    rw [canonicalMembers, Json.sortedMembers, List.map_cons, canonicalJson_eq value, canonicalMembers_eq members]

end

/-- No two of the members have one name, and the names are strings of code units. -/
structure ProperKeys {β : Type} (members : List (JSString × β)) : Prop where
  distinct : (Record.keys members).Nodup
  units : ∀ m ∈ members, IsUnits m.1

theorem ProperKeys.of_keys {β γ : Type} {members : List (JSString × β)} {others : List (JSString × γ)}
    (proper : ProperKeys members) (same : (Record.keys others).Perm (Record.keys members)) : ProperKeys others := by
  refine ⟨same.nodup_iff.mpr proper.distinct, fun m member => ?_⟩
  obtain ⟨other, inside, equal⟩ := List.mem_map.mp (same.mem_iff.mp (List.mem_map_of_mem member))
  exact equal ▸ proper.units other inside

theorem Json.ProperMembers.units {members : List (JSString × Json)} (proper : Json.ProperMembers members) :
    ∀ m ∈ members, IsUnits m.1 ∧ m.2.Proper := by
  induction members with
  | nil => nofun
  | cons first members ih => exact List.forall_mem_cons.mpr ⟨proper.1, ih proper.2⟩

/-- Members in one order are sorted as in any other. -/
theorem ProperKeys.sort_eq {β : Type} {members others : List (JSString × β)} (proper : ProperKeys members)
    (perm : members.Perm others) : members.insertionSort keyLe = others.insertionSort keyLe := by
  refine List.Perm.eq_of_pairwise (fun a b inA inB le ge => ?_) (List.pairwise_insertionSort keyLe _)
    (List.pairwise_insertionSort keyLe _)
    ((List.perm_insertionSort keyLe _).trans (perm.trans (List.perm_insertionSort keyLe _).symm))
  have memberA := (List.perm_insertionSort keyLe _).mem_iff.mp inA
  have memberB := perm.mem_iff.mpr ((List.perm_insertionSort keyLe _).mem_iff.mp inB)
  have key : a.1 = b.1 := by
    refine (compareCodePoints_eq_iff (proper.units a memberA) (proper.units b memberB)).mp ?_
    rw [keyLe, codePointsLe_iff] at le ge
    rw [compareCodePoints_swap a.1 b.1] at ge
    revert le ge
    cases compareCodePoints a.1 b.1 <;> simp
  have valueA : Record.get members a.1 = some a.2 := Record.get_of_mem proper.distinct memberA
  have valueB : Record.get members b.1 = some b.2 := Record.get_of_mem proper.distinct memberB
  rw [← key, valueA] at valueB
  exact Prod.ext key (Option.some.inj valueB)

/-- And strictly. -/
theorem ProperKeys.sorted {β : Type} {members : List (JSString × β)} (proper : ProperKeys members) :
    (members.insertionSort keyLe).Pairwise fun a b => compareCodePoints a.1 b.1 = .lt := by
  have perm := List.perm_insertionSort keyLe members
  have apart : (members.insertionSort keyLe).Pairwise fun a b => a.1 ≠ b.1 :=
    List.pairwise_map.mp ((perm.map Prod.fst).nodup_iff.mpr proper.distinct)
  refine ((List.pairwise_insertionSort keyLe members).and apart).imp_of_mem fun {a b} inA inB both => ?_
  have notEq := (compareCodePoints_eq_iff (proper.units a (perm.mem_iff.mp inA)) (proper.units b (perm.mem_iff.mp inB))).not.mpr both.2
  have le := codePointsLe_iff.1 both.1
  revert notEq le
  cases compareCodePoints a.1 b.1 <;> simp

mutual

/-- Values that differ in the order of members only are sorted to one value. -/
theorem Json.Reordered.sorted_eq : ∀ {value other : Json}, value.Proper → value.Reordered other → value.sorted = other.sorted
  | .null, _, _, rfl | .bool _, _, _, rfl | .num _, _, _, rfl | .str _, _, _, rfl => rfl
  | .arr items, _, proper, ⟨others, rfl, same⟩ => by
    rw [Json.sorted, Json.sorted, Json.ReorderedItems.sorted_eq proper same]
  | .obj members, _, ⟨distinct, proper⟩, ⟨paired, others, rfl, same, perm⟩ => by
    have keys : ProperKeys (Json.sortedMembers members) := by
      refine ProperKeys.of_keys ⟨distinct, fun m member => (proper.units m member).1⟩ ?_
      rw [sortedMembers_eq, Record.keys, List.map_map]
      exact .refl _
    have sortedPerm : (Json.sortedMembers members).Perm (Json.sortedMembers others) := by
      rw [Json.ReorderedMembers.sorted_eq proper same, sortedMembers_eq, sortedMembers_eq]
      exact perm.map _
    rw [Json.sorted, Json.sorted, keys.sort_eq sortedPerm]

theorem Json.ReorderedItems.sorted_eq : ∀ {items others : List Json}, Json.ProperItems items →
    Json.ReorderedItems items others → Json.sortedItems items = Json.sortedItems others
  | [], _, _, rfl => rfl
  | item :: items, _, proper, ⟨first, rest, rfl, same, others⟩ => by
    rw [Json.sortedItems, Json.sortedItems, Json.Reordered.sorted_eq proper.1 same,
      Json.ReorderedItems.sorted_eq proper.2 others]

theorem Json.ReorderedMembers.sorted_eq : ∀ {members others : List (JSString × Json)}, Json.ProperMembers members →
    Json.ReorderedMembers members others → Json.sortedMembers members = Json.sortedMembers others
  | [], _, _, rfl => rfl
  | (key, value) :: members, _, proper, ⟨first, rest, rfl, same, others⟩ => by
    rw [Json.sortedMembers, Json.sortedMembers, Json.Reordered.sorted_eq proper.1.2 same,
      Json.ReorderedMembers.sorted_eq proper.2 others]

end

section

variable (spell : F64 → Json)

mutual

/-- A value with other values in place of its numbers. -/
def Json.mapNumbers : Json → Json
  | .null => .null
  | .bool b => .bool b
  | .num x => spell x
  | .str s => .str s
  | .arr items => .arr (Json.mapItems items)
  | .obj members => .obj (Json.mapMembers members)

def Json.mapItems : List Json → List Json
  | [] => []
  | item :: items => item.mapNumbers :: Json.mapItems items

def Json.mapMembers : List (JSString × Json) → List (JSString × Json)
  | [] => []
  | (key, value) :: members => (key, value.mapNumbers) :: Json.mapMembers members

end

end

/-- A number that is not finite as `null`. -/
def finiteNumber : F64 → Json
  | .finite x => .num (.finite x)
  | .nan | .infinite _ => .null

/-- And `-0` as `0`. -/
def spelledNumber : F64 → Json
  | .finite x => .num (.finite (if x.mantissa = 0 then .zero false else x))
  | .nan | .infinite _ => .null

theorem Record.insertNew_perm {β : Type} (key : JSString) (value : β) (r : Record β) :
    (Record.insertNew key value r).Perm ((key, value) :: r) := by
  induction r with
  | nil => exact .refl _
  | cons entry r ih =>
    unfold Record.insertNew
    split
    · exact .refl _
    · exact (ih.cons entry).trans (.swap ..)

theorem rereadMembers_perm {members : List (JSString × Json)} {defined : Record Json}
    (distinct : (Record.keys (defined ++ members)).Nodup) :
    (Json.rereadMembers defined members).Perm (defined ++ members.map fun m => (m.1, m.2.reread)) := by
  induction members generalizing defined with
  | nil =>
    rw [List.map_nil, List.append_nil]
    exact .refl _
  | cons member members ih =>
    have absent : member.1 ∉ Record.keys defined := by
      rw [Record.keys, List.map_append, List.map_cons] at distinct
      exact fun inside => List.disjoint_of_nodup_append distinct inside List.mem_cons_self
    have defines : (Record.set defined member.1 member.2.reread).Perm ((member.1, member.2.reread) :: defined) := by
      rw [Record.set, if_neg absent]
      exact Record.insertNew_perm ..
    have keys : (Record.keys (Record.set defined member.1 member.2.reread ++ members)).Perm
        (Record.keys (defined ++ member :: members)) := by
      rw [Record.keys, Record.keys, List.map_append, List.map_append, List.map_cons]
      exact ((defines.map Prod.fst).append_right _).trans List.perm_middle.symm
    refine (ih (keys.nodup_iff.mpr distinct)).trans ?_
    rw [List.map_cons]
    exact (defines.append_right _).trans List.perm_middle.symm

mutual

/-- What the canonical text reads back as, up to the order of object members. -/
theorem Json.Proper.reordered : ∀ {value : Json}, value.Proper → (value.mapNumbers spelledNumber).Reordered value.sorted.reread
  | .null, _ | .bool _, _ | .str _, _ => rfl
  | .num x, _ => by cases x <;> rfl
  | .arr items, proper => ⟨_, rfl, Json.ProperItems.reordered proper⟩
  | .obj members, ⟨distinct, proper⟩ => by
    have sorted := List.perm_insertionSort keyLe (Json.sortedMembers members)
    refine ⟨_, _, rfl, Json.ProperMembers.reordered proper, ?_⟩
    have apart : (Record.keys ([] ++ (Json.sortedMembers members).insertionSort keyLe)).Nodup := by
      rw [List.nil_append, Record.keys, (sorted.map Prod.fst).nodup_iff, sortedMembers_eq, List.map_map]
      exact distinct
    have read := rereadMembers_perm apart
    rw [List.nil_append] at read
    have renamed := sorted.map fun m : JSString × Json => (m.1, m.2.reread)
    exact renamed.symm.trans read.symm

theorem Json.ProperItems.reordered : ∀ {items : List Json}, Json.ProperItems items →
    Json.ReorderedItems (Json.mapItems spelledNumber items) (Json.rereadItems (Json.sortedItems items))
  | [], _ => rfl
  | _ :: _, proper => ⟨_, _, rfl, Json.Proper.reordered proper.1, Json.ProperItems.reordered proper.2⟩

theorem Json.ProperMembers.reordered : ∀ {members : List (JSString × Json)}, Json.ProperMembers members →
    Json.ReorderedMembers (Json.mapMembers spelledNumber members)
      ((Json.sortedMembers members).map fun m => (m.1, m.2.reread))
  | [], _ => rfl
  | _ :: _, proper => ⟨_, _, rfl, Json.Proper.reordered proper.1.2, Json.ProperMembers.reordered proper.2⟩

end

/-- The text of an object: its members by their names in order, each name once. -/
theorem canonicalJson_members {members : List (JSString × Json)} (proper : (Json.obj members).Proper) :
    ∃ inOrder : List (JSString × Json), inOrder.Perm members ∧
      inOrder.Pairwise (fun a b => compareCodePoints a.1 b.1 = .lt) ∧
      canonicalJson (.obj members) =
        123 :: [44].intercalate (inOrder.map fun m => jsonString m.1 ++ 58 :: canonicalJson m.2) ++ [125] := by
  have keys : ProperKeys members := ⟨proper.1, fun m member => (proper.2.units m member).1⟩
  refine ⟨members.insertionSort keyLe, List.perm_insertionSort .., keys.sorted, ?_⟩
  have values := List.map_insertionSort keyLe keyLe (fun m : JSString × Json => (m.1, m.2.sorted)) members
    fun _ _ _ _ => Iff.rfl
  rw [canonicalJson_eq, Json.sorted, stringifyJson, stringifyMembers_eq, sortedMembers_eq, ← values, List.map_map]
  simp only [Function.comp_def, canonicalJson_eq]

end Xript
