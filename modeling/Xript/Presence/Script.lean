import Mathlib.Data.List.Lex
import Xript.Presence.Host
import Xript.Text.CodeUnit

namespace Xript

namespace Presence

/-- A property of a host's object. A native getter is known by what it returns. -/
inductive HostProperty (α : Type) where
  | data (value : α)
  | accessor (get : Option α) (set : Bool)

/-- What a JavaScript host passes as its bindings: a primitive, or an object or function with its own properties and those it
inherits. -/
inductive HostValue where
  | primitive
  | object (callable : Bool) (own inherited : List (JSString × HostProperty HostValue))

namespace HostProperty

def read : HostProperty HostValue → HostValue
  | .data value => value
  | .accessor get _ => get.getD .primitive

end HostProperty

namespace HostValue

def isFunction : HostValue → Bool
  | .object callable _ _ => callable
  | .primitive => false

/-- `typeof value === "object"`, null apart. -/
def isObject : HostValue → Bool
  | .object callable _ _ => !callable
  | .primitive => false

def asContainer : HostValue → Option HostValue
  | .primitive => none
  | value => some value

/-- The own property of a container, with its descriptor. -/
def descriptor (name : JSString) : HostValue → Option (HostProperty HostValue)
  | .primitive => none
  | .object _ own _ => own.lookup name

/-- A property read from an object, its own or an inherited one. -/
def property (name : JSString) : HostValue → HostValue
  | .primitive => .primitive
  | .object _ own inherited => (((own.lookup name).orElse fun _ => inherited.lookup name).map HostProperty.read).getD .primitive

end HostValue

/-- A host bindings object's own member, never one it inherits. -/
def ownMember (container : Option HostValue) (name : JSString) : HostValue :=
  ((container.bind (HostValue.descriptor name)).map HostProperty.read).getD .primitive

/-- Whether the accessor a host supplies for the name has a setter, where it supplies one the declaration can use. -/
def hostAccessorFor (container : Option HostValue) (name : JSString) (mode : AccessorMode) : Option Bool :=
  container.bind fun holder =>
    let accessor := match holder.descriptor name with
      | some (.accessor (some _) set) => some set
      | _ => ((ownMember (some holder) name).asContainer).bind fun supplied =>
        if (supplied.property (js "get")).isFunction then some (supplied.property (js "set")).isFunction else none
    accessor.filter fun set => !(mode = .getSet && !set)

def supplies (binding : Binding) (container : Option HostValue) (name : JSString) : Bool :=
  match binding with
  | .namespaceBinding _ _ => (ownMember container name).isObject
  | .accessorBinding _ mode => (hostAccessorFor container name mode).isSome
  | .functionBinding _ => (ownMember container name).isFunction

def omitsBinding (binding : Binding) (container : Option HostValue) (name : JSString) : Bool :=
  binding.isOptional && !supplies binding container name

def Name.units (name : Name) : JSString := utf16 name.text

def qualify (path name : JSString) : JSString := if path = [] then name else path ++ 46 :: name

def sorted (paths : List JSString) : List JSString := paths.mergeSort fun a b => decide (a ≤ b)

mutual

/-- What `providedBindingPaths` lists for one declared binding. -/
def providedOf : Binding → Option HostValue → JSString → JSString → List JSString
  | .namespaceBinding optional members, container, name, qualified =>
    if supplies (.namespaceBinding optional members) container name then
      qualified :: sorted (providedEach members (ownMember container name).asContainer qualified)
    else []
  | binding, container, name, qualified => if supplies binding container name then [qualified] else []

def providedEach : List (Name × Binding) → Option HostValue → JSString → List JSString
  | [], _, _ => []
  | (name, binding) :: members, container, path =>
    providedOf binding container name.units (qualify path name.units) ++ providedEach members container path

end

def providedBindingPaths (bindings : Bindings) (hostBindings : HostValue) : List JSString :=
  sorted (providedEach bindings.entries hostBindings.asContainer [])

/-- What the members of a namespace are looked for in. -/
def nested (value : HostValue) : Option HostValue := if value.isFunction then none else value.asContainer

mutual

/-- What `missingBindingNames` lists for one declared binding. -/
def missingOf : Binding → Option HostValue → JSString → JSString → List JSString
  | .namespaceBinding optional members, container, name, qualified =>
    if omitsBinding (.namespaceBinding optional members) container name then []
    else sorted (missingEach members (nested (ownMember container name)) qualified)
  | binding, container, name, qualified =>
    if omitsBinding binding container name then [] else if supplies binding container name then [] else [qualified]

def missingEach : List (Name × Binding) → Option HostValue → JSString → List JSString
  | [], _, _ => []
  | (name, binding) :: members, container, path =>
    missingOf binding container name.units (qualify path name.units) ++ missingEach members container path

end

def missingBindingNames (bindings : Bindings) (hostBindings : HostValue) : List JSString :=
  sorted (missingEach bindings.entries hostBindings.asContainer [])

/-- The container a declared binding is looked for in, with its name there. -/
abbrev Spot := Option HostValue × JSString

def suppliesAt (binding : Binding) (spot : Spot) : Bool := supplies binding spot.1 spot.2

def omitsAt (binding : Binding) (spot : Spot) : Bool := omitsBinding binding spot.1 spot.2

def childOf (spot : Spot) (name : Name) : Spot := (nested (ownMember spot.1 spot.2), name.units)

def topOf (hostBindings : HostValue) (name : Name) : Spot := (hostBindings.asContainer, name.units)

theorem kept (binding : Binding) (spot : Spot) (supplied : suppliesAt binding spot = true) :
    omitsAt binding spot = false := by
  rw [omitsAt, omitsBinding, show supplies binding spot.1 spot.2 = true from supplied, Bool.not_true, Bool.and_false]

theorem nested_of_isObject {value : HostValue} (object : value.isObject = true) : nested value = value.asContainer := by
  cases value with
  | primitive => rfl
  | object callable =>
    rw [nested, HostValue.isFunction, if_neg]
    cases callable <;> first | decide | cases object

/-- A path spelled in code units. -/
def unitPath (names : List Name) : JSString := utf16 (pathOf names)

theorem qualify_utf16 {path : List Char} (some : path ≠ []) (name : Name) :
    qualify (utf16 path) name.units = utf16 (path ++ '.' :: name.text) := by
  have nonempty : utf16 path ≠ [] := fun empty => some (utf16_inj.1 (empty.trans utf16_nil.symm))
  rw [qualify, if_neg nonempty, utf16_append, utf16_cons]
  rfl

theorem mem_missingOf_leaf {b : Binding} (leaf : b.isNamespace = false) (container : Option HostValue) (name : JSString)
    (path : List Char) (p : JSString) : p ∈ missingOf b container name (utf16 path) ↔
      ∃ names, missingAt suppliesAt omitsAt childOf names b (container, name) = true ∧ p = utf16 (dotted path names) := by
  have listed : missingOf b container name (utf16 path) =
      if omitsBinding b container name then [] else if supplies b container name then [] else [utf16 path] := by
    cases b with
    | namespaceBinding => cases leaf
    | functionBinding => rfl
    | accessorBinding => rfl
  rw [exists_missing_leaf leaf, listed, suppliesAt, omitsAt]
  cases omitsBinding b container name <;> cases supplies b container name <;> simp [dotted]

theorem mem_providedOf_leaf {b : Binding} (leaf : b.isNamespace = false) (container : Option HostValue) (name : JSString)
    (path : List Char) (p : JSString) : p ∈ providedOf b container name (utf16 path) ↔
      ∃ names, providedAt suppliesAt childOf names b (container, name) = true ∧ p = utf16 (dotted path names) := by
  have listed : providedOf b container name (utf16 path) = if supplies b container name then [utf16 path] else [] := by
    cases b with
    | namespaceBinding => cases leaf
    | functionBinding => rfl
    | accessorBinding => rfl
  rw [exists_provided_leaf leaf, listed, suppliesAt]
  cases supplies b container name <;> simp [dotted]

theorem extended_ne_nil (path : List Char) (name : Name) : path ++ '.' :: name.text ≠ [] :=
  List.append_ne_nil_of_right_ne_nil _ (List.cons_ne_nil _ _)

mutual

theorem mem_missingOf (b : Binding) (distinct : b.Distinct) (container : Option HostValue) (name : JSString)
    (path : List Char) (some : path ≠ []) (p : JSString) : p ∈ missingOf b container name (utf16 path) ↔
      ∃ names, missingAt suppliesAt omitsAt childOf names b (container, name) = true ∧ p = utf16 (dotted path names) := by
  cases b with
  | functionBinding => exact mem_missingOf_leaf rfl container name path p
  | accessorBinding => exact mem_missingOf_leaf rfl container name path p
  | namespaceBinding optional members =>
    have inner := mem_missingEach members distinct.2 (nested (ownMember container name)) path some p
    rw [exists_missing_namespace distinct.1, missingOf, omitsAt]
    cases omitsBinding (.namespaceBinding optional members) container name with
    | true => simp
    | false => simpa [childOf, sorted] using inner

theorem mem_missingEach (members : List (Name × Binding)) (distinct : DistinctEach members) (container : Option HostValue)
    (path : List Char) (some : path ≠ []) (p : JSString) :
    p ∈ missingEach members container (utf16 path) ↔ ∃ name b, (name, b) ∈ members ∧ ∃ names,
      missingAt suppliesAt omitsAt childOf names b (container, name.units) = true ∧ p = utf16 (dotted path (name :: names)) := by
  cases members with
  | nil => simp [missingEach]
  | cons entry members =>
    cases entry with
    | mk name b =>
      have here := mem_missingOf b distinct.1 container name.units (path ++ '.' :: name.text) (extended_ne_nil path name) p
      have there := mem_missingEach members distinct.2 container path some p
      rw [missingEach, List.mem_append, qualify_utf16 some, here, there]
      simp only [List.mem_cons, Prod.mk.injEq, or_and_right, exists_or]
      simp [dotted]

end

mutual

theorem mem_providedOf (b : Binding) (distinct : b.Distinct) (container : Option HostValue) (name : JSString)
    (path : List Char) (some : path ≠ []) (p : JSString) : p ∈ providedOf b container name (utf16 path) ↔
      ∃ names, providedAt suppliesAt childOf names b (container, name) = true ∧ p = utf16 (dotted path names) := by
  cases b with
  | functionBinding => exact mem_providedOf_leaf rfl container name path p
  | accessorBinding => exact mem_providedOf_leaf rfl container name path p
  | namespaceBinding optional members =>
    have inner := mem_providedEach members distinct.2 (ownMember container name).asContainer path some p
    rw [exists_provided_namespace distinct.1, providedOf, suppliesAt]
    cases supplied : supplies (.namespaceBinding optional members) container name with
    | true => simpa [childOf, sorted, dotted, nested_of_isObject supplied] using or_congr_right inner
    | false => simp

theorem mem_providedEach (members : List (Name × Binding)) (distinct : DistinctEach members) (container : Option HostValue)
    (path : List Char) (some : path ≠ []) (p : JSString) :
    p ∈ providedEach members container (utf16 path) ↔ ∃ name b, (name, b) ∈ members ∧ ∃ names,
      providedAt suppliesAt childOf names b (container, name.units) = true ∧ p = utf16 (dotted path (name :: names)) := by
  cases members with
  | nil => simp [providedEach]
  | cons entry members =>
    cases entry with
    | mk name b =>
      have here := mem_providedOf b distinct.1 container name.units (path ++ '.' :: name.text) (extended_ne_nil path name) p
      have there := mem_providedEach members distinct.2 container path some p
      rw [providedEach, List.mem_append, qualify_utf16 some, here, there]
      simp only [List.mem_cons, Prod.mk.injEq, or_and_right, exists_or]
      simp [dotted]

end

section Lists

variable (tree : Bindings) (host : HostValue)

theorem mem_missingBindingNames (p : JSString) : p ∈ missingBindingNames tree host ↔
    ∃ names, missingIn tree suppliesAt omitsAt childOf (topOf host) names = true ∧ p = unitPath names := by
  have each : ∀ members : List (Name × Binding), DistinctEach members →
      (p ∈ missingEach members host.asContainer [] ↔ ∃ name b, (name, b) ∈ members ∧ ∃ names,
        missingAt suppliesAt omitsAt childOf names b (topOf host name) = true ∧ p = unitPath (name :: names)) := by
    intro members distinct
    induction members with
    | nil => simp [missingEach]
    | cons entry members ih =>
      cases entry with
      | mk name b =>
        have here := mem_missingOf b distinct.1 host.asContainer (utf16 name.text) name.text name.ne_nil p
        rw [missingEach, List.mem_append, qualify, if_pos rfl, Name.units, here, ih distinct.2]
        simp only [List.mem_cons, Prod.mk.injEq, or_and_right, exists_or]
        simp [topOf, Name.units, unitPath, pathOf]
  unfold missingIn
  rw [missingBindingNames, sorted, List.mem_mergeSort, exists_fromTop, each tree.entries tree.distinct]

theorem mem_providedBindingPaths (p : JSString) : p ∈ providedBindingPaths tree host ↔
    ∃ names, providedIn tree suppliesAt childOf (topOf host) names = true ∧ p = unitPath names := by
  have each : ∀ members : List (Name × Binding), DistinctEach members →
      (p ∈ providedEach members host.asContainer [] ↔ ∃ name b, (name, b) ∈ members ∧ ∃ names,
        providedAt suppliesAt childOf names b (topOf host name) = true ∧ p = unitPath (name :: names)) := by
    intro members distinct
    induction members with
    | nil => simp [providedEach]
    | cons entry members ih =>
      cases entry with
      | mk name b =>
        have here := mem_providedOf b distinct.1 host.asContainer (utf16 name.text) name.text name.ne_nil p
        rw [providedEach, List.mem_append, qualify, if_pos rfl, Name.units, here, ih distinct.2]
        simp only [List.mem_cons, Prod.mk.injEq, or_and_right, exists_or]
        simp [topOf, Name.units, unitPath, pathOf]
  unfold providedIn
  rw [providedBindingPaths, sorted, List.mem_mergeSort, exists_fromTop, each tree.entries tree.distinct]

end Lists

/-- In no container nothing is supplied. -/
theorem supplies_none (binding : Binding) (name : JSString) : supplies binding none name = false := by
  cases binding <;> rfl

theorem usableAt_none {names : List Name} {b : Binding} (leaf : leafAt names b = true) (name : JSString) :
    usableAt suppliesAt omitsAt childOf names b (none, name) = false := by
  induction names generalizing b name with
  | nil => rw [usableAt, suppliesAt, supplies_none, Bool.and_false]
  | cons first names ih =>
    obtain ⟨optional, members, inner, rfl, found, leaf⟩ := leafAt_cons leaf
    rw [usableAt, reached_found found]
    exact Bool.and_eq_false_iff.mpr (Or.inr (ih leaf first.units))

/-- A usable binding is provided: beneath what is no namespace nothing is found. -/
theorem providedAt_of_usable {names : List Name} {b : Binding} (leaf : leafAt names b = true) {spot : Spot}
    (usable : usableAt suppliesAt omitsAt childOf names b spot = true) :
    providedAt suppliesAt childOf names b spot = true := by
  induction names generalizing b spot with
  | nil => exact (Bool.and_eq_true_iff.mp usable).2
  | cons name names ih =>
    obtain ⟨optional, members, inner, rfl, found, leaf⟩ := leafAt_cons leaf
    rw [usableAt, reached_found found] at usable
    have below := (Bool.and_eq_true_iff.mp usable).2
    rw [providedAt, reached_found found, ih leaf below, Bool.and_true]
    cases value : ownMember spot.1 spot.2 with
    | primitive =>
      rw [childOf, value] at below
      rw [show nested .primitive = none from rfl, usableAt_none leaf] at below
      cases below
    | object callable own inherited =>
      cases callable with
      | true =>
        rw [childOf, value] at below
        rw [show nested (.object true own inherited) = none from rfl, usableAt_none leaf] at below
        cases below
      | false =>
        rw [suppliesAt, supplies, value]
        rfl

theorem unitPath_inj {names names' : List Name} (some : names ≠ []) (some' : names' ≠ [])
    (same : unitPath names = unitPath names') : names = names' :=
  pathOf_inj some some' (utf16_inj.1 same)

/-- The lists of the JavaScript runtime divide the declared bindings. -/
theorem partitioned (tree : Bindings) (host : HostValue) :
    Partitioned unitPath (declaredLeaf tree) (omittedIn tree omitsAt childOf (topOf host))
      (providedBindingPaths tree host) (missingBindingNames tree host) := by
  refine (partitioned_iff kept (fun _ _ => unitPath_inj) (mem_providedBindingPaths tree host)
    (mem_missingBindingNames tree host)).mpr fun names leaf usable => ?_
  cases names with
  | nil => cases leaf
  | cons name names =>
    obtain ⟨b, found, leaf⟩ := reached_iff.mp leaf
    rw [usableIn, fromTop, reached_found found] at usable
    rw [providedIn, fromTop, reached_found found]
    exact providedAt_of_usable leaf usable

namespace Rust

/-- The lists of the Rust runtime divide the declared bindings exactly where no accessor is shadowed. -/
theorem partitioned_iff_not_shadowed (tree : Bindings) (host : HostBindings) :
    Partitioned pathOf (declaredLeaf tree) (omittedIn tree omitsAt (childOf host) (topOf host))
      (providedBindingPaths host tree) (missingBindingNames host tree) ↔ ¬ Shadowed host tree := by
  rw [partitioned_iff kept (fun _ _ => pathOf_inj) (mem_providedBindingPaths host tree)
    (mem_missingBindingNames host tree)]
  have meets : ∀ names, declaredLeaf tree names = true →
      (fromTop tree.entries (fun names b name => shadowedAt host names b (topOf host name)) names = true ↔
        ¬(usableIn tree drift omitsAt (childOf host) (topOf host) names = true →
          providedIn tree drift (childOf host) (topOf host) names = true)) := by
    intro names leaf
    cases names with
    | nil => cases leaf
    | cons name names =>
      obtain ⟨b, found, leaf⟩ := reached_iff.mp leaf
      rw [fromTop, reached_found found, shadowedAt_iff leaf, usableIn, providedIn, fromTop, fromTop, reached_found found,
        reached_found found, Classical.not_imp, Bool.not_eq_true]
  constructor
  · rintro provides ⟨names, shadowed⟩
    have leaf : declaredLeaf tree names = true := by
      cases names with
      | nil => cases shadowed
      | cons name names =>
        obtain ⟨b, found, below⟩ := reached_iff.mp shadowed
        exact reached_iff.mpr ⟨b, found, leafAt_of_shadowedAt below⟩
    exact (meets names leaf).mp shadowed (provides names leaf)
  · intro clear names leaf
    by_contra fails
    exact clear ⟨names, (meets names leaf).mpr fails⟩

/-- A namespace with a read-only accessor. -/
def clock : Bindings where
  entries := [(⟨['c', 'l', 'o', 'c', 'k'], rfl⟩, .namespaceBinding false [(⟨['n', 'o', 'w'], rfl⟩, .accessorBinding false .get)])]
  unique := List.nodup_singleton _
  distinct := ⟨⟨List.nodup_singleton _, trivial, trivial⟩, trivial⟩

/-- A host with a function in the namespace's place and an accessor at the accessor's path. -/
def clockHost : HostBindings where
  bindings := [(['c', 'l', 'o', 'c', 'k'], .function)]
  accessors := [(['c', 'l', 'o', 'c', 'k', '.', 'n', 'o', 'w'], false)]

/-- The accessor is neither provided nor missing nor omitted. -/
theorem partitioned_clock : ¬ Partitioned pathOf (declaredLeaf clock)
    (omittedIn clock omitsAt (childOf clockHost) (topOf clockHost)) (providedBindingPaths clockHost clock)
    (missingBindingNames clockHost clock) := by
  intro partition
  have one := partition.classes [⟨['c', 'l', 'o', 'c', 'k'], rfl⟩, ⟨['n', 'o', 'w'], rfl⟩] (by decide)
  rw [ExactlyOne, providedBindingPaths, missingBindingNames, sorted, sorted, List.mem_mergeSort, List.mem_mergeSort] at one
  revert one
  decide

end Rust

/-- The lists of both runtimes divide the declared bindings exactly where the Rust host registers no accessor beneath a
namespace that it supplies as something else. -/
theorem partitioned_both_iff (tree : Bindings) (host : Rust.HostBindings) (value : HostValue) :
    (Partitioned pathOf (declaredLeaf tree) (omittedIn tree Rust.omitsAt (Rust.childOf host) (Rust.topOf host))
        (Rust.providedBindingPaths host tree) (Rust.missingBindingNames host tree) ∧
      Partitioned unitPath (declaredLeaf tree) (omittedIn tree omitsAt childOf (topOf value))
        (providedBindingPaths tree value) (missingBindingNames tree value)) ↔ ¬ Rust.Shadowed host tree :=
  (and_iff_left (partitioned tree value)).trans (Rust.partitioned_iff_not_shadowed tree host)

end Presence

end Xript
