import Mathlib.Data.Char
import Mathlib.Data.List.Lex
import Xript.Presence.Declared

namespace Xript

namespace Presence

namespace Rust

/-- A member of a nested host namespace. A function or a value is known by its being there. -/
inductive HostNamespaceMember where
  | function
  | asyncFunction
  | callerFunction
  | property
  | «namespace» (members : List (List Char × HostNamespaceMember))

inductive HostBinding where
  | function
  | functionWithCaller
  | asyncFunction
  | «namespace» (functions : List (List Char))
  | asyncNamespace (functions : List (List Char))
  | mixedNamespace (properties functions : List (List Char))
  | nestedNamespace (members : List (List Char × HostNamespaceMember))

/-- What a host registers: its bindings by name, and its accessors by dotted path, each with whether it has a setter. -/
structure HostBindings where
  bindings : List (List Char × HostBinding)
  accessors : List (List Char × Bool)

inductive HostNsView where
  | sync (functions : List (List Char))
  | async (functions : List (List Char))
  | mixed (properties functions : List (List Char))
  | nested (members : List (List Char × HostNamespaceMember))
  | empty

/-- What a host supplies at one binding path; of an accessor, whether it has a setter. -/
inductive Supplied where
  | callable
  | value
  | accessor (setter : Bool)
  | «namespace» (view : HostNsView)
  | absent

/-- An accessor registered at the path, or a namespace implied by accessors beneath it where the view supplies nothing. -/
def registered (host : HostBindings) (path : List Char) (fromView : Supplied) : Supplied :=
  match host.accessors.lookup path with
  | some setter => .accessor setter
  | none =>
    match fromView with
    | .absent => if host.accessors.any fun entry => (path ++ ['.']).isPrefixOf entry.1 then .namespace .empty else .absent
    | supplied => supplied

def topLevelView (host : HostBindings) (name : List Char) : Supplied :=
  match host.bindings.lookup name with
  | some .function => .callable
  | some .functionWithCaller => .callable
  | some .asyncFunction => .callable
  | some (.namespace functions) => .namespace (.sync functions)
  | some (.asyncNamespace functions) => .namespace (.async functions)
  | some (.mixedNamespace properties functions) => .namespace (.mixed properties functions)
  | some (.nestedNamespace members) => .namespace (.nested members)
  | none => .absent

def topLevel (host : HostBindings) (name : List Char) : Supplied := registered host name (topLevelView host name)

def memberView (view : HostNsView) (name : List Char) : Supplied :=
  match view with
  | .sync functions => if name ∈ functions then .callable else .absent
  | .async functions => if name ∈ functions then .callable else .absent
  | .mixed properties functions =>
    if name ∈ properties then .value else if name ∈ functions then .callable else .absent
  | .nested members =>
    match members.lookup name with
    | some .function => .callable
    | some .callerFunction => .callable
    | some .asyncFunction => .callable
    | some .property => .value
    | some (.namespace sub) => .namespace (.nested sub)
    | none => .absent
  | .empty => .absent

def member (host : HostBindings) (view : HostNsView) (name path : List Char) : Supplied :=
  registered host path (memberView view name)

def supplies : Binding → Supplied → Bool
  | .namespaceBinding _ _, .namespace _ => true
  | .accessorBinding _ mode, .accessor setter => mode = .get || setter
  | .functionBinding _, .callable => true
  | .functionBinding _, .value => true
  | _, _ => false

/-- The supply rule of drift reporting, by which a value is no function. -/
def suppliesForDrift : Binding → Supplied → Bool
  | .functionBinding _, .value => false
  | binding, supplied => supplies binding supplied

def omits (binding : Binding) (supplied : Supplied) : Bool := binding.isOptional && !supplies binding supplied

def namespaceView : Supplied → HostNsView
  | .namespace view => view
  | _ => .empty

def sorted (paths : List (List Char)) : List (List Char) := paths.mergeSort fun a b => decide (a ≤ b)

section Collect

variable (host : HostBindings)

mutual

def collectMissing : Binding → Supplied → List Char → List (List Char)
  | .namespaceBinding optional members, supplied, path =>
    if omits (.namespaceBinding optional members) supplied then []
    else collectMissingMembers members (namespaceView supplied) path
  | binding, supplied, path =>
    if omits binding supplied then [] else if suppliesForDrift binding supplied then [] else [path]

def collectMissingMembers : List (Name × Binding) → HostNsView → List Char → List (List Char)
  | [], _, _ => []
  | (name, child) :: members, view, path =>
    collectMissing child (member host view name.text (path ++ '.' :: name.text)) (path ++ '.' :: name.text) ++
      collectMissingMembers members view path

end

def missingBindingNames (bindings : Bindings) : List (List Char) :=
  sorted (bindings.entries.flatMap fun entry => collectMissing host entry.2 (topLevel host entry.1.text) entry.1.text)

mutual

def collectProvided : Binding → Supplied → List Char → List (List Char)
  | .namespaceBinding optional members, supplied, path =>
    if suppliesForDrift (.namespaceBinding optional members) supplied then
      path :: collectProvidedMembers members (namespaceView supplied) path
    else []
  | binding, supplied, path => if suppliesForDrift binding supplied then [path] else []

def collectProvidedMembers : List (Name × Binding) → HostNsView → List Char → List (List Char)
  | [], _, _ => []
  | (name, child) :: members, view, path =>
    collectProvided child (member host view name.text (path ++ '.' :: name.text)) (path ++ '.' :: name.text) ++
      collectProvidedMembers members view path

end

def providedBindingPaths (bindings : Bindings) : List (List Char) :=
  sorted (bindings.entries.flatMap fun entry => collectProvided host entry.2 (topLevel host entry.1.text) entry.1.text)

/-- What is supplied at a path, with the path. -/
abbrev Place := Supplied × List Char

def drift (binding : Binding) (place : Place) : Bool := suppliesForDrift binding place.1

def omitsAt (binding : Binding) (place : Place) : Bool := omits binding place.1

def childOf (place : Place) (name : Name) : Place :=
  (member host (namespaceView place.1) name.text (place.2 ++ '.' :: name.text), place.2 ++ '.' :: name.text)

def topOf (name : Name) : Place := (topLevel host name.text, name.text)

variable {host}

theorem supplies_of_drift {binding : Binding} {supplied : Supplied} (drift : suppliesForDrift binding supplied = true) :
    supplies binding supplied = true := by
  unfold suppliesForDrift at drift
  split at drift
  · cases drift
  · exact drift

theorem kept (binding : Binding) (place : Place) (supplied : drift binding place = true) : omitsAt binding place = false := by
  rw [omitsAt, omits, supplies_of_drift supplied, Bool.not_true, Bool.and_false]

theorem collectMissing_leaf {b : Binding} (leaf : b.isNamespace = false) (supplied : Supplied) (path : List Char) :
    collectMissing host b supplied path =
      if omits b supplied then [] else if suppliesForDrift b supplied then [] else [path] := by
  cases b with
  | namespaceBinding => cases leaf
  | functionBinding => rfl
  | accessorBinding => rfl

theorem collectProvided_leaf {b : Binding} (leaf : b.isNamespace = false) (supplied : Supplied) (path : List Char) :
    collectProvided host b supplied path = if suppliesForDrift b supplied then [path] else [] := by
  cases b with
  | namespaceBinding => cases leaf
  | functionBinding => rfl
  | accessorBinding => rfl

theorem mem_collectMissing_leaf {b : Binding} (leaf : b.isNamespace = false) (supplied : Supplied) (path p : List Char) :
    p ∈ collectMissing host b supplied path ↔
      ∃ names, missingAt drift omitsAt (childOf host) names b (supplied, path) = true ∧ p = dotted path names := by
  rw [exists_missing_leaf leaf, collectMissing_leaf leaf, drift, omitsAt]
  cases omits b supplied <;> cases suppliesForDrift b supplied <;> simp [dotted]

theorem mem_collectProvided_leaf {b : Binding} (leaf : b.isNamespace = false) (supplied : Supplied) (path p : List Char) :
    p ∈ collectProvided host b supplied path ↔
      ∃ names, providedAt drift (childOf host) names b (supplied, path) = true ∧ p = dotted path names := by
  rw [exists_provided_leaf leaf, collectProvided_leaf leaf, drift]
  cases suppliesForDrift b supplied <;> simp [dotted]

mutual

theorem mem_collectMissing (b : Binding) (distinct : b.Distinct) (supplied : Supplied) (path p : List Char) :
    p ∈ collectMissing host b supplied path ↔
      ∃ names, missingAt drift omitsAt (childOf host) names b (supplied, path) = true ∧ p = dotted path names := by
  cases b with
  | functionBinding => exact mem_collectMissing_leaf rfl supplied path p
  | accessorBinding => exact mem_collectMissing_leaf rfl supplied path p
  | namespaceBinding optional members =>
    have inner := mem_collectMissingMembers members distinct.2 (namespaceView supplied) path p
    rw [exists_missing_namespace distinct.1, collectMissing, omitsAt]
    cases omits (.namespaceBinding optional members) supplied with
    | true => simp
    | false => simpa [childOf] using inner

theorem mem_collectMissingMembers (members : List (Name × Binding)) (distinct : DistinctEach members) (view : HostNsView)
    (path p : List Char) :
    p ∈ collectMissingMembers host members view path ↔ ∃ name b, (name, b) ∈ members ∧ ∃ names,
      missingAt drift omitsAt (childOf host) names b
        (member host view name.text (path ++ '.' :: name.text), path ++ '.' :: name.text) = true ∧
      p = dotted path (name :: names) := by
  cases members with
  | nil => simp [collectMissingMembers]
  | cons entry members =>
    cases entry with
    | mk name b =>
      have here := mem_collectMissing b distinct.1 (member host view name.text (path ++ '.' :: name.text))
        (path ++ '.' :: name.text) p
      have there := mem_collectMissingMembers members distinct.2 view path p
      rw [collectMissingMembers, List.mem_append, here, there]
      simp only [List.mem_cons, Prod.mk.injEq, or_and_right, exists_or]
      simp [dotted]

end

mutual

theorem mem_collectProvided (b : Binding) (distinct : b.Distinct) (supplied : Supplied) (path p : List Char) :
    p ∈ collectProvided host b supplied path ↔
      ∃ names, providedAt drift (childOf host) names b (supplied, path) = true ∧ p = dotted path names := by
  cases b with
  | functionBinding => exact mem_collectProvided_leaf rfl supplied path p
  | accessorBinding => exact mem_collectProvided_leaf rfl supplied path p
  | namespaceBinding optional members =>
    have inner := mem_collectProvidedMembers members distinct.2 (namespaceView supplied) path p
    rw [exists_provided_namespace distinct.1, collectProvided, drift]
    cases suppliesForDrift (.namespaceBinding optional members) supplied with
    | true => simpa [childOf, dotted] using or_congr_right inner
    | false => simp

theorem mem_collectProvidedMembers (members : List (Name × Binding)) (distinct : DistinctEach members) (view : HostNsView)
    (path p : List Char) :
    p ∈ collectProvidedMembers host members view path ↔ ∃ name b, (name, b) ∈ members ∧ ∃ names,
      providedAt drift (childOf host) names b
        (member host view name.text (path ++ '.' :: name.text), path ++ '.' :: name.text) = true ∧
      p = dotted path (name :: names) := by
  cases members with
  | nil => simp [collectProvidedMembers]
  | cons entry members =>
    cases entry with
    | mk name b =>
      have here := mem_collectProvided b distinct.1 (member host view name.text (path ++ '.' :: name.text))
        (path ++ '.' :: name.text) p
      have there := mem_collectProvidedMembers members distinct.2 view path p
      rw [collectProvidedMembers, List.mem_append, here, there]
      simp only [List.mem_cons, Prod.mk.injEq, or_and_right, exists_or]
      simp [dotted]

end

end Collect

section Lists

variable (host : HostBindings) (tree : Bindings)

theorem mem_missingBindingNames (p : List Char) : p ∈ missingBindingNames host tree ↔
    ∃ names, missingIn tree drift omitsAt (childOf host) (topOf host) names = true ∧ p = pathOf names := by
  unfold missingIn
  rw [missingBindingNames, sorted, List.mem_mergeSort, List.mem_flatMap, exists_fromTop, Prod.exists]
  refine exists_congr fun name => exists_congr fun b => and_congr_right fun inside => ?_
  exact mem_collectMissing b (tree.distinct.of_mem inside) _ _ p

theorem mem_providedBindingPaths (p : List Char) : p ∈ providedBindingPaths host tree ↔
    ∃ names, providedIn tree drift (childOf host) (topOf host) names = true ∧ p = pathOf names := by
  unfold providedIn
  rw [providedBindingPaths, sorted, List.mem_mergeSort, List.mem_flatMap, exists_fromTop, Prod.exists]
  refine exists_congr fun name => exists_congr fun b => and_congr_right fun inside => ?_
  exact mem_collectProvided b (tree.distinct.of_mem inside) _ _ p

end Lists

/-- Whether an accessor the host registers at the path of a declared one is one its declaration can use, and no namespace on
the way to it is optional with an accessor registered at its own path. -/
def registeredAt (host : HostBindings) : List Name → Binding → List Char → Bool
  | [], .accessorBinding _ mode, path => (host.accessors.lookup path).any fun setter => mode = .get || setter
  | name :: names, .namespaceBinding optional members, path =>
    (!optional || (host.accessors.lookup path).isNone) &&
      reached members name fun b => registeredAt host names b (path ++ '.' :: name.text)
  | _, _, _ => false

/-- Whether the names lead through supplied namespaces to one that is not optional and where the host supplies something
that is no namespace, and on from there to a registered accessor. -/
def shadowedAt (host : HostBindings) : List Name → Binding → Place → Bool
  | name :: names, .namespaceBinding optional members, place =>
    match place.1 with
    | .namespace _ => reached members name fun b => shadowedAt host names b (childOf host place name)
    | _ => !optional && reached members name fun b => registeredAt host names b (place.2 ++ '.' :: name.text)
  | _, _, _ => false

/-- A registered accessor lies beneath a namespace that the host supplies as something else. -/
def Shadowed (host : HostBindings) (tree : Bindings) : Prop :=
  ∃ names, fromTop tree.entries (fun names b name => shadowedAt host names b (topOf host name)) names = true

section Shadow

variable {host : HostBindings}

theorem registered_empty (path : List Char) :
    (∃ setter, registered host path .absent = .accessor setter ∧ host.accessors.lookup path = some setter) ∨
      host.accessors.lookup path = none ∧ registered host path .absent =
        if host.accessors.any fun entry => (path ++ ['.']).isPrefixOf entry.1 then .namespace .empty else .absent := by
  rw [registered]
  cases found : host.accessors.lookup path with
  | some setter => exact Or.inl ⟨setter, rfl, rfl⟩
  | none => exact Or.inr ⟨rfl, rfl⟩

/-- What lies beneath a path at which nothing is supplied is reached by an empty view. -/
theorem namespaceView_registered (path : List Char) : namespaceView (registered host path .absent) = .empty := by
  rcases @registered_empty host path with ⟨setter, made, -⟩ | ⟨-, made⟩
  · rw [made]
    rfl
  · rw [made]
    split <;> rfl

theorem registeredAt_key {names : List Name} {b : Binding} {path : List Char} (found : registeredAt host names b path = true) :
    ∃ key ∈ host.accessors, key.1 = dotted path names := by
  induction names generalizing b path with
  | nil =>
    cases b with
    | accessorBinding =>
      obtain ⟨setter, found, -⟩ := Option.any_eq_true _ _ |>.mp found
      obtain ⟨front, rear, same, -⟩ := List.lookup_eq_some_iff.mp found
      exact ⟨(path, setter), by rw [same]; simp, rfl⟩
    | functionBinding => cases found
    | namespaceBinding => cases found
  | cons name names ih =>
    cases b with
    | functionBinding => cases found
    | accessorBinding => cases found
    | namespaceBinding optional members =>
      obtain ⟨b, -, found⟩ := reached_iff.mp (Bool.and_eq_true_iff.mp found).2
      exact ih found

theorem prefix_dotted (path : List Char) (names : List Name) : path <+: dotted path names := by
  induction names generalizing path with
  | nil => exact List.prefix_refl path
  | cons name names ih => exact (List.prefix_append path _).trans (ih _)

/-- An accessor registered beneath a path implies a namespace there. -/
theorem implied {names : List Name} {name : Name} {b : Binding} {path : List Char}
    (found : registeredAt host names b (path ++ '.' :: name.text) = true) :
    (host.accessors.any fun entry => (path ++ ['.']).isPrefixOf entry.1) = true := by
  obtain ⟨key, inside, same⟩ := registeredAt_key found
  refine List.any_eq_true.mpr ⟨key, inside, List.isPrefixOf_iff_prefix.mpr ?_⟩
  rw [same]
  exact List.IsPrefix.trans ⟨name.text, by simp⟩ (prefix_dotted _ names)

theorem usableAt_registered {names : List Name} {b : Binding} (leaf : leafAt names b = true) (path : List Char) :
    usableAt drift omitsAt (childOf host) names b (registered host path .absent, path) = registeredAt host names b path := by
  induction names generalizing b path with
  | nil =>
    cases b with
    | namespaceBinding => cases leaf
    | functionBinding optional =>
      rcases @registered_empty host path with ⟨setter, made, -⟩ | ⟨-, made⟩
      · simp [usableAt, registeredAt, drift, made, suppliesForDrift, supplies]
      · rw [usableAt, drift, made]
        split <;> simp [registeredAt, suppliesForDrift, supplies]
    | accessorBinding optional mode =>
      rcases @registered_empty host path with ⟨setter, made, found⟩ | ⟨none, made⟩
      · rw [usableAt, registeredAt, found, drift, omitsAt, made]
        cases mode <;> cases setter <;> simp [omits, suppliesForDrift, supplies]
      · rw [usableAt, registeredAt, none, drift, made]
        split <;> simp [suppliesForDrift, supplies]
  | cons name names ih =>
    obtain ⟨optional, members, inner, rfl, found, leaf⟩ := leafAt_cons leaf
    have child : childOf host (registered host path .absent, path) name =
        (registered host (path ++ '.' :: name.text) .absent, path ++ '.' :: name.text) := by
      rw [childOf, namespaceView_registered]
      rfl
    rw [usableAt, registeredAt, reached_found found, reached_found found, child, ih leaf]
    cases below : registeredAt host names inner (path ++ '.' :: name.text) with
    | false => rw [Bool.and_false, Bool.and_false]
    | true =>
      have beneath := implied below
      rcases @registered_empty host path with ⟨setter, made, found⟩ | ⟨none, made⟩
      · simp [omitsAt, omits, made, found, supplies, Binding.isOptional]
      · rw [if_pos beneath] at made
        simp [omitsAt, omits, made, none, supplies]

theorem leafAt_of_registeredAt {names : List Name} {b : Binding} {path : List Char}
    (found : registeredAt host names b path = true) : leafAt names b = true := by
  induction names generalizing b path with
  | nil =>
    cases b with
    | accessorBinding => rfl
    | functionBinding => rfl
    | namespaceBinding => cases found
  | cons name names ih =>
    cases b with
    | functionBinding => cases found
    | accessorBinding => cases found
    | namespaceBinding optional members =>
      obtain ⟨b, inside, found⟩ := reached_iff.mp (Bool.and_eq_true_iff.mp found).2
      exact reached_iff.mpr ⟨b, inside, ih found⟩

theorem leafAt_of_shadowedAt {names : List Name} {b : Binding} {place : Place}
    (shadowed : shadowedAt host names b place = true) : leafAt names b = true := by
  induction names generalizing b place with
  | nil => cases shadowed
  | cons name names ih =>
    cases b with
    | functionBinding => cases shadowed
    | accessorBinding => cases shadowed
    | namespaceBinding optional members =>
      rw [shadowedAt] at shadowed
      split at shadowed
      · obtain ⟨b, inside, below⟩ := reached_iff.mp shadowed
        exact reached_iff.mpr ⟨b, inside, ih below⟩
      · obtain ⟨b, inside, below⟩ := reached_iff.mp (Bool.and_eq_true_iff.mp shadowed).2
        exact reached_iff.mpr ⟨b, inside, leafAt_of_registeredAt below⟩

/-- A usable binding is not provided exactly where it is shadowed. -/
theorem shadowedAt_iff {names : List Name} {b : Binding} (leaf : leafAt names b = true) (place : Place) :
    shadowedAt host names b place = true ↔ usableAt drift omitsAt (childOf host) names b place = true ∧
      providedAt drift (childOf host) names b place = false := by
  induction names generalizing b place with
  | nil =>
    rw [usableAt, providedAt]
    cases drift b place <;> simp [shadowedAt]
  | cons name names ih =>
    obtain ⟨optional, members, inner, rfl, found, leaf⟩ := leafAt_cons leaf
    have child := ih leaf (childOf host place name)
    rw [shadowedAt, usableAt, providedAt]
    simp only [reached_found found]
    have below := @usableAt_registered host _ _ leaf (place.2 ++ '.' :: name.text)
    cases supplied : place.1 with
    | «namespace» view => simpa [drift, omitsAt, omits, supplied, suppliesForDrift, supplies] using child
    | _ =>
      -- Nothing beneath is in view, so what is usable there is registered by its path.
      rw [← below]
      simp [drift, omitsAt, omits, supplied, suppliesForDrift, supplies, childOf, namespaceView, member, memberView,
        Binding.isOptional]

end Shadow

end Rust

end Presence

end Xript
