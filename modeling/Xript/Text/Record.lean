import Xript.Number.Text

namespace Xript

/-- The own enumerable string-keyed properties of a JavaScript object, in enumeration order. -/
abbrev Record (β : Type) := List (JSString × β)

/-- The array index a property key spells, if it is one: enumeration lists those first. -/
def arrayIndex (key : JSString) : Option Nat :=
  if key ≠ [] ∧ key.all isDigit ∧ (key = [48] ∨ key.head? ≠ some 48) ∧ readDigits 10 key < 4294967295 then
    some (readDigits 10 key)
  else none

/-- Whether a new property `key` is enumerated before the property `other`. -/
def enumeratedBefore (key other : JSString) : Bool :=
  match arrayIndex key, arrayIndex other with
  | some i, some j => i < j
  | some _, none => true
  | none, _ => false

namespace Record

variable {β : Type}

def get (r : Record β) (key : JSString) : Option β := r.lookup key

def keys (r : Record β) : List JSString := r.map Prod.fst

def insertNew (key : JSString) (value : β) : Record β → Record β
  | [] => [(key, value)]
  | entry :: r =>
    if enumeratedBefore key entry.1 then (key, value) :: entry :: r else entry :: insertNew key value r

/-- Defines an own data property: an existing one keeps its place. -/
def set (r : Record β) (key : JSString) (value : β) : Record β :=
  if key ∈ keys r then r.map fun entry => if entry.1 = key then (key, value) else entry
  else insertNew key value r

theorem keys_insertNew (key : JSString) (value : β) (r : Record β) :
    (keys (insertNew key value r)).Perm (key :: keys r) := by
  induction r with
  | nil => exact .refl _
  | cons entry r ih =>
    unfold insertNew
    split
    · exact .refl _
    · exact (ih.cons entry.1).trans (.swap key entry.1 (keys r))

theorem keys_replace (key : JSString) (value : β) (r : Record β) :
    keys (r.map fun entry => if entry.1 = key then (key, value) else entry) = keys r := by
  simp only [keys, List.map_map]
  refine List.map_congr_left fun entry _ => ?_
  simp only [Function.comp_apply]
  split
  · rename_i same
    exact same.symm
  · rfl

theorem mem_keys_set {r : Record β} {key other : JSString} {value : β} :
    other ∈ keys (set r key value) ↔ other = key ∨ other ∈ keys r := by
  unfold set
  split
  · rename_i present
    rw [keys_replace]
    exact ⟨Or.inr, fun member => member.elim (fun same => same ▸ present) id⟩
  · rw [(keys_insertNew key value r).mem_iff, List.mem_cons]

theorem nodup_keys_set {r : Record β} (distinct : (keys r).Nodup) (key : JSString) (value : β) :
    (keys (set r key value)).Nodup := by
  unfold set
  split
  · rwa [keys_replace]
  · rename_i absent
    exact (keys_insertNew key value r).nodup_iff.mpr (List.nodup_cons.mpr ⟨absent, distinct⟩)

theorem mem_insertNew {r : Record β} {key : JSString} {value : β} {entry : JSString × β} :
    entry ∈ insertNew key value r ↔ entry = (key, value) ∨ entry ∈ r := by
  induction r with
  | nil => simp [insertNew]
  | cons first r ih =>
    unfold insertNew
    split
    · simp
    · rw [List.mem_cons, ih, List.mem_cons]
      exact or_left_comm

theorem mem_set {r : Record β} {key : JSString} {value : β} {entry : JSString × β}
    (member : entry ∈ set r key value) : entry = (key, value) ∨ entry ∈ r := by
  unfold set at member
  split at member
  · obtain ⟨old, inside, equal⟩ := List.mem_map.mp member
    split at equal
    · exact Or.inl equal.symm
    · exact Or.inr (equal ▸ inside)
  · exact mem_insertNew.1 member

theorem insertNew_last {key : JSString} (name : arrayIndex key = none) (value : β) (r : Record β) :
    insertNew key value r = r ++ [(key, value)] := by
  induction r with
  | nil => rfl
  | cons entry r ih =>
    have later : enumeratedBefore key entry.1 = false := by
      simp only [enumeratedBefore, name]
    rw [insertNew, later, ih]
    rfl

/-- A new property whose key is no array index is enumerated last. -/
theorem set_new {r : Record β} {key : JSString} (absent : key ∉ keys r) (name : arrayIndex key = none) (value : β) :
    set r key value = r ++ [(key, value)] := by
  rw [set, if_neg absent, insertNew_last name]

/-- `r[key] = value`: where `__proto__` is no own property, its setter runs and leaves none. -/
def assign (r : Record β) (key : JSString) (value : β) : Record β :=
  if key = js "__proto__" ∧ key ∉ keys r then r else set r key value

theorem assign_plain {key : JSString} (plain : key ≠ js "__proto__") (r : Record β) (value : β) :
    assign r key value = set r key value :=
  if_neg fun proto => plain proto.1

theorem mem_keys_assign {r : Record β} {key other : JSString} {value : β} (member : other ∈ keys (assign r key value)) :
    other = key ∨ other ∈ keys r := by
  unfold assign at member
  split at member
  · exact Or.inr member
  · exact mem_keys_set.1 member

/-- `delete r[key]`. -/
def erase (r : Record β) (key : JSString) : Record β := r.filter fun entry => entry.1 ≠ key

@[simp] theorem get_nil (key : JSString) : get ([] : Record β) key = none := rfl

theorem get_cons (entry : JSString × β) (r : Record β) (key : JSString) :
    get (entry :: r) key = if key = entry.1 then some entry.2 else get r key := by
  rw [get, get, List.lookup_cons]
  by_cases same : key = entry.1
  · rw [if_pos same, same, beq_self_eq_true]
  · rw [if_neg same, beq_eq_false_iff_ne.mpr same]

theorem get_isSome {r : Record β} {key : JSString} : (get r key).isSome ↔ key ∈ keys r := by
  induction r with
  | nil => simp [keys]
  | cons entry r ih =>
    rw [get_cons]
    by_cases same : key = entry.1
    · simp [same, keys]
    · rw [if_neg same, ih]
      simp [keys, same]

theorem get_eq_none {r : Record β} {key : JSString} : get r key = none ↔ key ∉ keys r := by
  rw [← get_isSome, Option.not_isSome_iff_eq_none]

theorem mem_keys_of_get {r : Record β} {key : JSString} {value : β} (found : get r key = some value) : key ∈ keys r :=
  get_isSome.mp (by rw [found]; rfl)

theorem get_insertNew {r : Record β} {key : JSString} (absent : key ∉ keys r) (value : β) (other : JSString) :
    get (insertNew key value r) other = if other = key then some value else get r other := by
  induction r with
  | nil => exact get_cons ..
  | cons entry r ih =>
    have apart : key ≠ entry.1 ∧ key ∉ keys r := by simpa [keys] using absent
    unfold insertNew
    split
    · exact get_cons ..
    · rw [get_cons, ih apart.2, get_cons]
      by_cases first : other = entry.1
      · rw [if_pos first, if_neg (first ▸ Ne.symm apart.1), if_pos first]
      · rw [if_neg first, if_neg first]

theorem get_replace {r : Record β} {key : JSString} (present : key ∈ keys r) (value : β) (other : JSString) :
    get (r.map fun entry => if entry.1 = key then (key, value) else entry) other =
      if other = key then some value else get r other := by
  induction r with
  | nil => cases present
  | cons entry r ih =>
    rw [List.map_cons, get_cons, get_cons]
    by_cases first : entry.1 = key
    · rw [if_pos first]
      by_cases same : other = key
      · rw [if_pos same, if_pos same]
      · rw [if_neg same, if_neg same, if_neg (first ▸ same)]
        by_cases later : key ∈ keys r
        · rw [ih later, if_neg same]
        · have unchanged : (r.map fun entry => if entry.1 = key then (key, value) else entry) = r := by
            conv_rhs => rw [← List.map_id r]
            refine List.map_congr_left fun old member => if_neg fun named => later ?_
            exact List.mem_map.mpr ⟨old, member, named⟩
          rw [unchanged]
    · have later : key ∈ keys r := by
        have either : key = entry.1 ∨ key ∈ keys r := by simpa [keys] using present
        exact either.resolve_left (Ne.symm first)
      rw [if_neg first, ih later]
      by_cases same : other = key
      · rw [if_pos same, if_pos same, if_neg (same ▸ Ne.symm first)]
      · rw [if_neg same, if_neg same]

@[simp] theorem get_set (r : Record β) (key : JSString) (value : β) (other : JSString) :
    get (set r key value) other = if other = key then some value else get r other := by
  unfold set
  split
  · exact get_replace ‹_› value other
  · exact get_insertNew ‹_› value other

@[simp] theorem get_erase (r : Record β) (key other : JSString) :
    get (erase r key) other = if other = key then none else get r other := by
  induction r with
  | nil => simp [erase]
  | cons entry r ih =>
    by_cases first : entry.1 = key
    · rw [erase, List.filter_cons_of_neg (by simpa using first), get_cons]
      by_cases same : other = key
      · rw [if_pos same]
        exact ih.trans (if_pos same)
      · rw [if_neg same, if_neg (first ▸ same)]
        exact ih.trans (if_neg same)
    · rw [erase, List.filter_cons_of_pos (by simpa using first), get_cons, get_cons]
      by_cases same : other = key
      · rw [if_pos same, if_neg (same ▸ Ne.symm first)]
        exact ih.trans (if_pos same)
      · rw [if_neg same]
        have rest : get (r.filter fun entry => entry.1 ≠ key) other = get r other := ih.trans (if_neg same)
        rw [rest]

theorem nodup_keys_erase {r : Record β} (distinct : (keys r).Nodup) (key : JSString) : (keys (erase r key)).Nodup :=
  distinct.sublist (List.filter_sublist.map Prod.fst)

theorem mem_of_get {r : Record β} {key : JSString} {value : β} (found : get r key = some value) : (key, value) ∈ r := by
  induction r with
  | nil => cases found
  | cons entry r ih =>
    rw [get_cons] at found
    split at found
    · rename_i same
      obtain rfl := Option.some.inj found
      exact same ▸ List.mem_cons_self ..
    · exact List.mem_cons_of_mem _ (ih found)

theorem get_of_mem {r : Record β} (distinct : (keys r).Nodup) {key : JSString} {value : β} (member : (key, value) ∈ r) :
    get r key = some value := by
  induction r with
  | nil => cases member
  | cons entry r ih =>
    rw [keys, List.map_cons, List.nodup_cons] at distinct
    rw [get_cons]
    rcases List.mem_cons.mp member with first | later
    · simp [← first]
    · have other : key ≠ entry.1 := fun same => distinct.1 (same ▸ List.mem_map_of_mem later)
      rw [if_neg other]
      exact ih distinct.2 later

theorem get_assign_of_ne {r : Record β} {key other : JSString} (apart : other ≠ key) (value : β) :
    get (assign r key value) other = get r other := by
  unfold assign
  split
  · rfl
  · rw [get_set, if_neg apart]

theorem get_assign_self {key : JSString} (plain : key ≠ js "__proto__") (r : Record β) (value : β) :
    get (assign r key value) key = some value := by
  rw [assign_plain plain, get_set, if_pos rfl]

theorem keys_assign {P : JSString → Prop} {r : Record β} {key : JSString} {value : β} (new : P key)
    (old : ∀ other ∈ keys r, P other) : ∀ other ∈ keys (assign r key value), P other := by
  intro other member
  rcases mem_keys_assign member with rfl | inside
  · exact new
  · exact old other inside

theorem mem_assign {r : Record β} {key : JSString} {value : β} {entry : JSString × β}
    (member : entry ∈ assign r key value) : entry = (key, value) ∨ entry ∈ r := by
  unfold assign at member
  split at member
  · exact Or.inr member
  · exact mem_set member

theorem nodup_keys_assign {r : Record β} (distinct : (keys r).Nodup) (key : JSString) (value : β) :
    (keys (assign r key value)).Nodup := by
  unfold assign
  split
  · exact distinct
  · exact nodup_keys_set distinct key value

theorem get_append (r rest : Record β) (key : JSString) : get (r ++ rest) key = (get r key).or (get rest key) := by
  induction r with
  | nil => rfl
  | cons entry r ih =>
    rw [List.cons_append, get_cons, get_cons, ih]
    split <;> rfl

/-- Where no key stands twice, the order of the entries does not matter. -/
theorem get_perm {r other : Record β} (distinct : (keys r).Nodup) (perm : r.Perm other) (key : JSString) :
    get r key = get other key := by
  have distinctOther : (keys other).Nodup := (perm.map Prod.fst).nodup_iff.mp distinct
  cases found : get r key with
  | some value => exact (get_of_mem distinctOther (perm.mem_iff.mp (mem_of_get found))).symm
  | none =>
    have absent := get_eq_none.1 found
    refine (get_eq_none.2 fun inside => absent ?_).symm
    exact ((perm.map Prod.fst).mem_iff).mpr inside

end Record

end Xript
