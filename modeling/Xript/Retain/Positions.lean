import Xript.Retain.TypeRef

namespace Xript

namespace Retain

/-- One step of a callback's location: an argument or array index, or an object key. -/
inductive PathStep where
  | index (n : Nat)
  | key (name : JSString)

/-- `String(step)`. -/
def PathStep.text : PathStep → JSString
  | .index n => decimal n
  | .key name => name

structure DeclaredParam where
  type : Json
  variadic : Option Bool
  retain : Option Bool

structure DeclaredField where
  type : Json
  retain : Option Bool

structure DeclaredType where
  fields : Option (Record DeclaredField)

/-- The declared field a key of a value of the named type is at. -/
def fieldOf (types : Option (Record DeclaredType)) (name : JSString) (step : PathStep) : Option DeclaredField := do
  let types ← types
  let type ← types.get name
  let fields ← type.fields
  fields.get step.text

def retainsAt (types : Option (Record DeclaredType)) (node : TypeNode) (retainHere : Bool) (steps : List PathStep) : Bool :=
  match node, steps with
  | .function, steps => retainHere && steps.isEmpty
  | .optional of, steps => retainsAt types of retainHere steps
  | .array _, [] => false
  | .array of, _ :: steps => retainsAt types of false steps
  | .map _, [] => false
  | .map of, _ :: steps => retainsAt types of false steps
  | .union of, steps => of.attach.any fun member => retainsAt types member.1 false steps
  | .name _, [] => false
  | .name name, step :: steps =>
    match fieldOf types name step with
    | some field => retainsAt types (parseTypeRef field.type) (field.retain == some true) steps
    | none => false
termination_by (steps.length, sizeOf node)
decreasing_by
  all_goals simp_wf
  · exact .right _ (by omega)
  · exact .left _ _ (by omega)
  · exact .left _ _ (by omega)
  · exact .right _ (by have := List.sizeOf_lt_of_mem member.2; omega)
  · exact .left _ _ (by omega)

/-- The declaration of the argument at an index, `last` being the index of the last parameter. -/
def paramAt (params : List DeclaredParam) (last argument : Nat) (variadic : Bool) : Option DeclaredParam :=
  if argument < last ∨ (argument = last ∧ ¬ variadic) then params[argument]?
  else if variadic then params[last]? else none

def retainPositions (params : List DeclaredParam) (types : Option (Record DeclaredType)) : List PathStep → Bool
  | .index argument :: path =>
    match params.getLast? with
    | none => false
    | some final =>
      match paramAt params (params.length - 1) argument (final.variadic == some true) with
      | some param => retainsAt types (parseTypeRef param.type) (param.retain == some true) path
      | none => false
  | _ => false

/-- A function type, or an optional one. -/
inductive Callable : TypeNode → Prop
  | function : Callable .function
  | optional {of : TypeNode} : Callable of → Callable (.optional of)

/-- A value of the first type holds one of the second at the path: elements of arrays and maps take a step each, the
optional and the members of a union take none. -/
inductive Holds : TypeNode → List PathStep → TypeNode → Prop
  | here {node : TypeNode} : Holds node [] node
  | optional {of inner : TypeNode} {path : List PathStep} : Holds of path inner → Holds (.optional of) path inner
  | member {of : List TypeNode} {member inner : TypeNode} {path : List PathStep} :
      member ∈ of → Holds member path inner → Holds (.union of) path inner
  | item {of inner : TypeNode} {step : PathStep} {path : List PathStep} :
      Holds of path inner → Holds (.array of) (step :: path) inner
  | entry {of inner : TypeNode} {step : PathStep} {path : List PathStep} :
      Holds of path inner → Holds (.map of) (step :: path) inner

/-- A parameter or field of the type, marked or not, has a retain position at the path: itself, or one of a declared
field of a named type that it holds. -/
inductive Retains (types : Option (Record DeclaredType)) : TypeNode → Bool → List PathStep → Prop
  | here {node : TypeNode} : Callable node → Retains types node true []
  | field {node : TypeNode} {marked : Bool} {name : JSString} {path rest : List PathStep} {step : PathStep}
      {field : DeclaredField} :
      Holds node path (.name name) → fieldOf types name step = some field →
      Retains types (parseTypeRef field.type) (field.retain == some true) rest →
      Retains types node marked (path ++ step :: rest)

/-- The parameter an argument belongs to, the last one standing for all further ones when it is variadic. -/
def Receives (params : List DeclaredParam) (argument : Nat) (param : DeclaredParam) : Prop :=
  params[argument]? = some param ∨
    params.length ≤ argument ∧ params.getLast? = some param ∧ param.variadic = some true

variable {types : Option (Record DeclaredType)} {marked : Bool} {steps : List PathStep}

theorem retains_function : Retains types .function marked steps ↔ marked = true ∧ steps = [] := by
  constructor
  · intro retains
    cases retains with
    | here => exact ⟨rfl, rfl⟩
    | field holds => cases holds
  · rintro ⟨rfl, rfl⟩
    exact .here .function

theorem retains_optional {of : TypeNode} : Retains types (.optional of) marked steps ↔ Retains types of marked steps := by
  constructor
  · intro retains
    cases retains with
    | here callable =>
      cases callable with
      | optional inner => exact .here inner
    | field holds declared rest =>
      cases holds with
      | optional inner => exact .field inner declared rest
  · intro retains
    cases retains with
    | here callable => exact .here (.optional callable)
    | field holds declared rest => exact .field (.optional holds) declared rest

theorem retains_union {of : List TypeNode} :
    Retains types (.union of) marked steps ↔ ∃ member ∈ of, Retains types member false steps := by
  constructor
  · intro retains
    cases retains with
    | here callable => cases callable
    | field holds declared rest =>
      cases holds with
      | member member inner => exact ⟨_, member, .field inner declared rest⟩
  · rintro ⟨member, among, retains⟩
    cases retains with
    | field holds declared rest => exact .field (.member among holds) declared rest

theorem retains_array {of : TypeNode} :
    Retains types (.array of) marked steps ↔ ∃ step rest, steps = step :: rest ∧ Retains types of false rest := by
  constructor
  · intro retains
    cases retains with
    | here callable => cases callable
    | field holds declared rest =>
      cases holds with
      | item inner => exact ⟨_, _, rfl, .field inner declared rest⟩
  · rintro ⟨step, rest, rfl, retains⟩
    cases retains with
    | field holds declared rest => exact .field (.item holds) declared rest

theorem retains_map {of : TypeNode} :
    Retains types (.map of) marked steps ↔ ∃ step rest, steps = step :: rest ∧ Retains types of false rest := by
  constructor
  · intro retains
    cases retains with
    | here callable => cases callable
    | field holds declared rest =>
      cases holds with
      | entry inner => exact ⟨_, _, rfl, .field inner declared rest⟩
  · rintro ⟨step, rest, rfl, retains⟩
    cases retains with
    | field holds declared rest => exact .field (.entry holds) declared rest

theorem retains_name {name : JSString} :
    Retains types (.name name) marked steps ↔ ∃ step rest field, steps = step :: rest ∧
      fieldOf types name step = some field ∧ Retains types (parseTypeRef field.type) (field.retain == some true) rest := by
  constructor
  · intro retains
    cases retains with
    | here callable => cases callable
    | field holds declared rest =>
      cases holds with
      | here => exact ⟨_, _, _, rfl, declared, rest⟩
  · rintro ⟨step, rest, field, rfl, declared, retains⟩
    exact .field .here declared retains

theorem retainsAt_iff (types : Option (Record DeclaredType)) (node : TypeNode) (retainHere : Bool) (steps : List PathStep) :
    retainsAt types node retainHere steps = true ↔ Retains types node retainHere steps := by
  fun_induction retainsAt types node retainHere steps with
  | case1 retainHere steps => rw [retains_function, Bool.and_eq_true, List.isEmpty_iff]
  | case2 retainHere of steps ih => rw [ih, retains_optional]
  | case3 => simp [retains_array]
  | case4 retainHere of step steps ih => simp [retains_array, ih]
  | case5 => simp [retains_map]
  | case6 retainHere of step steps ih => simp [retains_map, ih]
  | case7 retainHere of steps ih =>
    rw [retains_union, List.any_eq_true]
    constructor
    · rintro ⟨⟨member, among⟩, -, retains⟩
      exact ⟨member, among, (ih ⟨member, among⟩).1 retains⟩
    · rintro ⟨member, among, retains⟩
      exact ⟨⟨member, among⟩, List.mem_attach _ _, (ih ⟨member, among⟩).2 retains⟩
  | case8 => simp [retains_name]
  | case9 retainHere name step steps field declared ih => simp [retains_name, declared, ih]
  | case10 retainHere name step steps missing => simp [retains_name, missing]

theorem paramAt_iff {params : List DeclaredParam} {final : DeclaredParam} (last : params.getLast? = some final)
    (argument : Nat) (param : DeclaredParam) :
    paramAt params (params.length - 1) argument (final.variadic == some true) = some param ↔
      Receives params argument param := by
  have atLast : params[params.length - 1]? = some final := by rw [← List.getLast?_eq_getElem?, last]
  have nonempty : 0 < params.length := by
    cases params with
    | nil => cases last
    | cons => exact Nat.succ_pos _
  rw [paramAt, Receives, last]
  by_cases variadic : final.variadic = some true
  · by_cases before : argument < params.length - 1
    · rw [if_pos (.inl before)]
      constructor
      · exact .inl
      · rintro (found | ⟨beyond, -⟩)
        · exact found
        · omega
    · rw [if_neg (by simp [variadic, before]), variadic, if_pos (by simp), atLast, Option.some.injEq]
      constructor
      · rintro rfl
        by_cases exact : argument = params.length - 1
        · left
          rw [exact, atLast]
        · exact .inr ⟨by omega, rfl, variadic⟩
      · rintro (found | ⟨-, same, -⟩)
        · have within : argument < params.length := by
            by_contra beyond
            rw [List.getElem?_eq_none (by omega)] at found
            cases found
          obtain rfl : argument = params.length - 1 := by omega
          rw [atLast] at found
          exact Option.some.inj found
        · exact same
  · by_cases within : argument < params.length
    · rw [if_pos (by simp only [beq_iff_eq, variadic, not_false_eq_true, and_true]; omega)]
      constructor
      · exact .inl
      · rintro (found | ⟨beyond, -⟩)
        · exact found
        · omega
    · rw [if_neg (by omega), if_neg (by simpa using variadic)]
      constructor
      · intro found
        cases found
      · rintro (found | ⟨-, same, marked⟩)
        · rw [List.getElem?_eq_none (by omega)] at found
          cases found
        · obtain rfl := Option.some.inj same
          exact absurd marked variadic

end Retain

end Xript
