import Xript.Text.CodeUnit
import Mathlib.Data.List.Nodup

namespace Xript

namespace Presence

def isNameStart (c : Char) : Bool := c.isAlpha || c = '_' || c = '$'

def isNamePart (c : Char) : Bool := c.isAlphanum || c = '_' || c = '$'

/-- The names a manifest may give a binding or a member. -/
def isBindingName : List Char → Bool
  | [] => false
  | c :: cs => isNameStart c && cs.all isNamePart

/-- A declared name: the manifest's schema holds every one to an identifier. -/
structure Name where
  text : List Char
  spelled : isBindingName text = true
  deriving DecidableEq

inductive AccessorMode where
  | get
  | getSet
  deriving DecidableEq

/-- What decides presence of a declared binding. -/
inductive Binding where
  | functionBinding (optional : Bool)
  | accessorBinding (optional : Bool) (mode : AccessorMode)
  | namespaceBinding (optional : Bool) (members : List (Name × Binding))

namespace Binding

def isOptional : Binding → Bool
  | .functionBinding optional => optional
  | .accessorBinding optional _ => optional
  | .namespaceBinding optional _ => optional

def isNamespace : Binding → Bool
  | .namespaceBinding _ _ => true
  | _ => false

end Binding

mutual

/-- No name is declared twice beside itself. -/
def Binding.Distinct : Binding → Prop
  | .functionBinding _ => True
  | .accessorBinding _ _ => True
  | .namespaceBinding _ members => (members.map Prod.fst).Nodup ∧ DistinctEach members

def DistinctEach : List (Name × Binding) → Prop
  | [] => True
  | member :: members => member.2.Distinct ∧ DistinctEach members

end

/-- The bindings a manifest declares, as a map from names. -/
structure Bindings where
  entries : List (Name × Binding)
  unique : (entries.map Prod.fst).Nodup
  distinct : DistinctEach entries

/-- The dotted path of some names behind another. -/
def dotted (path : List Char) (names : List Name) : List Char := names.foldl (fun path name => path ++ '.' :: name.text) path

/-- The path of a declared binding. -/
def pathOf : List Name → List Char
  | [] => []
  | name :: names => dotted name.text names

/-- Whether a member of that name is there and judged so. -/
def reached (members : List (Name × Binding)) (name : Name) (judge : Binding → Bool) : Bool :=
  (members.lookup name).any judge

/-- Whether the names lead to a declared function or accessor. -/
def leafAt : List Name → Binding → Bool
  | [], b => !b.isNamespace
  | name :: names, .namespaceBinding _ members => reached members name (leafAt names)
  | _ :: _, _ => false

theorem Name.ne_nil (name : Name) : name.text ≠ [] := by
  intro empty
  have spelled := name.spelled
  rw [empty] at spelled
  cases spelled

theorem Name.undotted (name : Name) : '.' ∉ name.text := by
  intro inside
  have spelled := name.spelled
  cases text : name.text with
  | nil => exact name.ne_nil text
  | cons c cs =>
    rw [text] at spelled inside
    obtain ⟨first, rest⟩ := Bool.and_eq_true_iff.mp spelled
    rcases List.mem_cons.mp inside with rfl | later
    · cases first
    · cases List.all_eq_true.mp rest '.' later

theorem Name.text_inj {name other : Name} (same : name.text = other.text) : name = other := by
  cases name
  cases other
  cases same
  rfl

theorem dotted_intercalate (path : List Char) (names : List Name) :
    dotted path names = ['.'].intercalate (path :: names.map Name.text) := by
  induction names generalizing path with
  | nil => simp [dotted]
  | cons name names ih =>
    rw [List.map_cons, List.intercalate_cons_cons, dotted, List.foldl_cons, ← dotted, ih]
    cases names <;> simp

/-- A path is that of one list of names. -/
theorem pathOf_inj {names names' : List Name} (some : names ≠ []) (some' : names' ≠ [])
    (same : pathOf names = pathOf names') : names = names' := by
  have split : ∀ names : List Name, names ≠ [] → (pathOf names).splitOn '.' = names.map Name.text := by
    intro names some
    cases names with
    | nil => exact absurd rfl some
    | cons name names =>
      rw [pathOf, dotted_intercalate, ← List.map_cons]
      refine List.splitOn_intercalate '.' (fun text member => ?_) (by simp)
      obtain ⟨name, -, rfl⟩ := List.mem_map.mp member
      exact name.undotted
  refine List.map_injective_iff.mpr (fun _ _ => Name.text_inj) ?_
  rw [← split names some, same, split names' some']

theorem lookup_iff {members : List (Name × Binding)} (unique : (members.map Prod.fst).Nodup) {name : Name} {b : Binding} :
    members.lookup name = some b ↔ (name, b) ∈ members := by
  induction members with
  | nil => simp
  | cons member members ih =>
    obtain ⟨first, rest⟩ := List.nodup_cons.mp unique
    rw [List.lookup_cons, List.mem_cons]
    by_cases same : name = member.1
    · have absent : (name, b) ∉ members := fun inside => first (same ▸ List.mem_map_of_mem inside)
      rw [same, beq_self_eq_true]
      simp [Prod.ext_iff, eq_comm, same ▸ absent]
    · rw [beq_false_of_ne same, ih rest]
      simp [Prod.ext_iff, same]

section Classes

variable {σ : Type} (supplies omits : Binding → σ → Bool) (child : σ → Name → σ)

/-- What the names lead to is supplied, and each namespace on the way. -/
def providedAt : List Name → Binding → σ → Bool
  | [], b, s => supplies b s
  | name :: names, .namespaceBinding optional members, s =>
    supplies (.namespaceBinding optional members) s && reached members name fun b => providedAt names b (child s name)
  | _ :: _, _, _ => false

/-- What the names lead to is a function or an accessor that is not supplied, and nothing on the way is omitted. -/
def missingAt : List Name → Binding → σ → Bool
  | [], b, s => !omits b s && !b.isNamespace && !supplies b s
  | name :: names, .namespaceBinding optional members, s =>
    !omits (.namespaceBinding optional members) s && reached members name fun b => missingAt names b (child s name)
  | _ :: _, _, _ => false

/-- What the names lead to, or a namespace on the way, is omitted. -/
def omittedAt : List Name → Binding → σ → Bool
  | [], b, s => omits b s
  | name :: names, .namespaceBinding optional members, s =>
    omits (.namespaceBinding optional members) s || reached members name fun b => omittedAt names b (child s name)
  | _ :: _, _, _ => false

/-- What the names lead to is supplied, and nothing on the way is omitted. -/
def usableAt : List Name → Binding → σ → Bool
  | [], b, s => !omits b s && supplies b s
  | name :: names, .namespaceBinding optional members, s =>
    !omits (.namespaceBinding optional members) s && reached members name fun b => usableAt names b (child s name)
  | _ :: _, _, _ => false

variable {supplies omits child}

theorem reached_found {members : List (Name × Binding)} {name : Name} {b : Binding} (found : members.lookup name = some b)
    (judge : Binding → Bool) : reached members name judge = judge b := by rw [reached, found, Option.any_some]

theorem reached_iff {members : List (Name × Binding)} {name : Name} {judge : Binding → Bool} :
    reached members name judge = true ↔ ∃ b, members.lookup name = some b ∧ judge b = true := by
  rw [reached, Option.any_eq_true]

/-- Names are none, or a first one and the rest. -/
theorem exists_names {P : List Name → Prop} : (∃ names, P names) ↔ P [] ∨ ∃ name names, P (name :: names) := by
  constructor
  · rintro ⟨names, holds⟩
    cases names with
    | nil => exact Or.inl holds
    | cons name names => exact Or.inr ⟨name, names, holds⟩
  · rintro (holds | ⟨name, names, holds⟩)
    · exact ⟨[], holds⟩
    · exact ⟨name :: names, holds⟩

/-- What is reached through members no two of which share a name. -/
theorem exists_reached {members : List (Name × Binding)} (unique : (members.map Prod.fst).Nodup)
    {judge : List Name → Name → Binding → Bool} {P : Name → List Name → Prop} :
    (∃ name names, reached members name (judge names name) = true ∧ P name names) ↔
      ∃ name b, (name, b) ∈ members ∧ ∃ names, judge names name b = true ∧ P name names := by
  constructor
  · rintro ⟨name, names, judged, holds⟩
    obtain ⟨b, found, judged⟩ := reached_iff.mp judged
    exact ⟨name, b, (lookup_iff unique).mp found, names, judged, holds⟩
  · rintro ⟨name, b, inside, names, judged, holds⟩
    exact ⟨name, names, reached_iff.mpr ⟨b, (lookup_iff unique).mpr inside, judged⟩, holds⟩

theorem exists_missing_leaf {b : Binding} (leaf : b.isNamespace = false) {s : σ} {P : List Name → Prop} :
    (∃ names, missingAt supplies omits child names b s = true ∧ P names) ↔
      (omits b s = false ∧ supplies b s = false) ∧ P [] := by
  have later : ∀ name names, missingAt supplies omits child (name :: names) b s = false := by
    intro name names
    cases b with
    | namespaceBinding => cases leaf
    | _ => rfl
  rw [exists_names, missingAt, leaf]
  simp [later]

theorem exists_provided_leaf {b : Binding} (leaf : b.isNamespace = false) {s : σ} {P : List Name → Prop} :
    (∃ names, providedAt supplies child names b s = true ∧ P names) ↔ supplies b s = true ∧ P [] := by
  have later : ∀ name names, providedAt supplies child (name :: names) b s = false := by
    intro name names
    cases b with
    | namespaceBinding => cases leaf
    | _ => rfl
  rw [exists_names, providedAt]
  simp [later]

theorem exists_missing_namespace {optional : Bool} {members : List (Name × Binding)}
    (unique : (members.map Prod.fst).Nodup) {s : σ} {P : List Name → Prop} :
    (∃ names, missingAt supplies omits child names (.namespaceBinding optional members) s = true ∧ P names) ↔
      omits (.namespaceBinding optional members) s = false ∧ ∃ name b, (name, b) ∈ members ∧
        ∃ names, missingAt supplies omits child names b (child s name) = true ∧ P (name :: names) := by
  rw [exists_names, ← exists_reached unique]
  simp only [missingAt, Binding.isNamespace, Bool.not_true, Bool.and_false, Bool.false_and, Bool.false_eq_true, false_and,
    false_or, Bool.and_eq_true, Bool.not_eq_true', and_assoc, exists_and_left]

theorem exists_provided_namespace {optional : Bool} {members : List (Name × Binding)}
    (unique : (members.map Prod.fst).Nodup) {s : σ} {P : List Name → Prop} :
    (∃ names, providedAt supplies child names (.namespaceBinding optional members) s = true ∧ P names) ↔
      supplies (.namespaceBinding optional members) s = true ∧ (P [] ∨ ∃ name b, (name, b) ∈ members ∧
        ∃ names, providedAt supplies child names b (child s name) = true ∧ P (name :: names)) := by
  rw [exists_names, ← exists_reached unique]
  simp only [providedAt, Bool.and_eq_true, and_assoc, exists_and_left, and_or_left]

/-- Names that lead to a function or an accessor start with a declared one. -/
theorem leafAt_cons {name : Name} {names : List Name} {b : Binding} (leaf : leafAt (name :: names) b = true) :
    ∃ optional members inner, b = .namespaceBinding optional members ∧ members.lookup name = some inner ∧
      leafAt names inner = true := by
  cases b with
  | functionBinding => cases leaf
  | accessorBinding => cases leaf
  | namespaceBinding optional members =>
    obtain ⟨inner, found, leaf⟩ := reached_iff.mp leaf
    exact ⟨optional, members, inner, rfl, found, leaf⟩

/-- Each declared function or accessor is omitted, missing or usable, and no two of these. -/
theorem omitted_missing_usable {names : List Name} {b : Binding} (leaf : leafAt names b = true) (s : σ) :
    (omittedAt omits child names b s = true ∧ missingAt supplies omits child names b s = false ∧
        usableAt supplies omits child names b s = false) ∨
      (omittedAt omits child names b s = false ∧ missingAt supplies omits child names b s = true ∧
        usableAt supplies omits child names b s = false) ∨
      omittedAt omits child names b s = false ∧ missingAt supplies omits child names b s = false ∧
        usableAt supplies omits child names b s = true := by
  induction names generalizing b s with
  | nil =>
    rw [leafAt, Bool.not_eq_true'] at leaf
    rw [omittedAt, missingAt, usableAt, leaf]
    cases omits b s <;> cases supplies b s <;> decide
  | cons name names ih =>
    obtain ⟨optional, members, inner, rfl, found, leaf⟩ := leafAt_cons leaf
    have below := ih leaf (child s name)
    rw [omittedAt, missingAt, usableAt, reached_found found, reached_found found, reached_found found]
    cases omits (.namespaceBinding optional members) s with
    | true => exact Or.inl ⟨rfl, rfl, rfl⟩
    | false => exact below

/-- Where nothing supplied is omitted, what is provided is usable. -/
theorem usable_of_provided (kept : ∀ b s, supplies b s = true → omits b s = false) {names : List Name} {b : Binding} {s : σ}
    (provided : providedAt supplies child names b s = true) : usableAt supplies omits child names b s = true := by
  induction names generalizing b s with
  | nil => rw [usableAt, kept b s provided, show supplies b s = true from provided]; rfl
  | cons name names ih =>
    cases b with
    | functionBinding => cases provided
    | accessorBinding => cases provided
    | namespaceBinding optional members =>
      obtain ⟨node, below⟩ := Bool.and_eq_true_iff.mp provided
      obtain ⟨inner, found, below⟩ := reached_iff.mp below
      rw [usableAt, kept _ s node, reached_found found, ih below]
      rfl

/-- A declared function or accessor that is provided is not missing. -/
theorem not_missing_of_provided {names : List Name} {b : Binding} {s : σ} (provided : providedAt supplies child names b s = true) :
    missingAt supplies omits child names b s = false := by
  induction names generalizing b s with
  | nil => rw [missingAt, show supplies b s = true from provided, Bool.not_true, Bool.and_false]
  | cons name names ih =>
    cases b with
    | functionBinding => rfl
    | accessorBinding => rfl
    | namespaceBinding optional members =>
      obtain ⟨-, below⟩ := Bool.and_eq_true_iff.mp provided
      obtain ⟨inner, found, below⟩ := reached_iff.mp below
      rw [missingAt, reached_found found, ih below, Bool.and_false]

/-- The names lead, from the top of a tree, to what is judged so. -/
def fromTop (entries : List (Name × Binding)) (judge : List Name → Binding → Name → Bool) : List Name → Bool
  | [] => false
  | name :: names => reached entries name fun b => judge names b name

end Classes

/-- Exactly one of three holds. -/
def ExactlyOne (a b c : Prop) : Prop := (a ∧ ¬b ∧ ¬c) ∨ (¬a ∧ b ∧ ¬c) ∨ (¬a ∧ ¬b ∧ c)

/-- The paths provided and the paths missing have none in common, and each declared function or accessor is exactly one of
provided, missing and omitted. -/
structure Partitioned {π : Type} (spell : List Name → π) (leaf omitted : List Name → Bool) (provided missing : List π) :
    Prop where
  disjoint : ∀ path ∈ provided, path ∉ missing
  classes : ∀ names, leaf names = true → ExactlyOne (spell names ∈ provided) (spell names ∈ missing) (omitted names = true)

section Tree

variable {σ π : Type} (tree : Bindings) (supplies omits : Binding → σ → Bool) (child : σ → Name → σ) (top : Name → σ)

def declaredLeaf : List Name → Bool := fromTop tree.entries fun names b _ => leafAt names b

def providedIn : List Name → Bool := fromTop tree.entries fun names b name => providedAt supplies child names b (top name)

def missingIn : List Name → Bool := fromTop tree.entries fun names b name => missingAt supplies omits child names b (top name)

def omittedIn : List Name → Bool := fromTop tree.entries fun names b name => omittedAt omits child names b (top name)

def usableIn : List Name → Bool := fromTop tree.entries fun names b name => usableAt supplies omits child names b (top name)

variable {tree supplies omits child top}

theorem exists_fromTop {judge : List Name → Binding → Name → Bool} {P : List Name → Prop} :
    (∃ names, fromTop tree.entries judge names = true ∧ P names) ↔
      ∃ name b, (name, b) ∈ tree.entries ∧ ∃ names, judge names b name = true ∧ P (name :: names) := by
  rw [exists_names, ← @exists_reached _ tree.unique fun names name b => judge names b name]
  simp only [fromTop, Bool.false_eq_true, false_and, false_or]

theorem DistinctEach.of_mem {members : List (Name × Binding)} (distinct : DistinctEach members) {name : Name} {b : Binding}
    (inside : (name, b) ∈ members) : b.Distinct := by
  induction members with
  | nil => cases inside
  | cons first members ih =>
    rcases List.mem_cons.mp inside with rfl | later
    · exact distinct.1
    · exact ih distinct.2 later

/-- The lists divide the declared bindings exactly where every usable one is provided. -/
theorem partitioned_iff (kept : ∀ b s, supplies b s = true → omits b s = false) {spell : List Name → π}
    {provided missing : List π} (injective : ∀ names names', names ≠ [] → names' ≠ [] → spell names = spell names' →
      names = names')
    (listed : ∀ path, path ∈ provided ↔ ∃ names, providedIn tree supplies child top names = true ∧ path = spell names)
    (named : ∀ path, path ∈ missing ↔ ∃ names, missingIn tree supplies omits child top names = true ∧ path = spell names) :
    Partitioned spell (declaredLeaf tree) (omittedIn tree omits child top) provided missing ↔
      ∀ names, declaredLeaf tree names = true → usableIn tree supplies omits child top names = true →
        providedIn tree supplies child top names = true := by
  have entry : ∀ {judge : List Name → Binding → Name → Bool} {names}, fromTop tree.entries judge names = true →
      ∃ name rest b, names = name :: rest ∧ tree.entries.lookup name = some b ∧ judge rest b name = true := by
    intro judge names judged
    cases names with
    | nil => cases judged
    | cons name rest =>
      obtain ⟨b, found, judged⟩ := reached_iff.mp judged
      exact ⟨name, rest, b, rfl, found, judged⟩
  have spelled : ∀ {judge : List Name → Binding → Name → Bool} (names : List Name), names ≠ [] →
      ((∃ names', fromTop tree.entries judge names' = true ∧ spell names = spell names') ↔
        fromTop tree.entries judge names = true) := by
    intro judge names some
    refine ⟨?_, fun judged => ⟨names, judged, rfl⟩⟩
    rintro ⟨names', judged, same⟩
    obtain ⟨name, rest, -, rfl, -⟩ := entry judged
    rwa [injective names _ some (List.cons_ne_nil _ _) same]
  have apart : ∀ path ∈ provided, path ∉ missing := by
    intro path inside outside
    obtain ⟨names, judged, rfl⟩ := (listed path).mp inside
    obtain ⟨name, rest, b, rfl, found, provides⟩ := entry judged
    have lacks := (spelled (name :: rest) (List.cons_ne_nil _ _)).mp ((named _).mp outside)
    rw [fromTop, reached_found found, not_missing_of_provided provides] at lacks
    cases lacks
  have classified : ∀ names, declaredLeaf tree names = true →
      (ExactlyOne (spell names ∈ provided) (spell names ∈ missing) (omittedIn tree omits child top names = true) ↔
        (usableIn tree supplies omits child top names = true → providedIn tree supplies child top names = true)) := by
    intro names leaf
    obtain ⟨name, rest, b, rfl, found, leaf⟩ := entry leaf
    rw [listed, named, providedIn, missingIn, spelled _ (List.cons_ne_nil _ _), spelled _ (List.cons_ne_nil _ _), omittedIn,
      usableIn, fromTop, fromTop, fromTop, fromTop, reached_found found, reached_found found, reached_found found,
      reached_found found]
    have usable := @usable_of_provided _ supplies omits child kept rest b (top name)
    rcases @omitted_missing_usable _ supplies omits child rest b leaf (top name) with ⟨o, m, u⟩ | ⟨o, m, u⟩ | ⟨o, m, u⟩
    · simp [ExactlyOne, o, m, u] at usable ⊢
      exact usable
    · simp [ExactlyOne, o, m, u] at usable ⊢
      exact usable
    · simp [ExactlyOne, o, m, u]
  constructor
  · intro partition names leaf
    exact (classified names leaf).mp (partition.classes names leaf)
  · intro provides
    exact ⟨apart, fun names leaf => (classified names leaf).mpr (provides names leaf)⟩

end Tree

end Presence

end Xript
