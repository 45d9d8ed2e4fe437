import Xript.Number.F64
import Xript.Text.Record

namespace Xript

inductive Primitive where
  | undefined
  | null
  | bool (b : Bool)
  | number (x : F64)
  | bigint (n : Int)
  | str (s : JSString)
  deriving DecidableEq

/-- A JavaScript value of a graph: a container is known by its place in a heap, a function by a number. -/
inductive GraphValue where
  | prim (p : Primitive)
  | symbol (description : Option JSString)
  | func (id : Nat)
  | object (ref : Nat)
  deriving DecidableEq

/-- What a container holds: an array its elements, of which a hole is none, and a plain object its own enumerable
string-keyed properties. -/
inductive Cell where
  | array (items : List (Option GraphValue))
  | object (members : Record GraphValue)
  deriving DecidableEq

abbrev Heap := Nat → Cell

/-- What a value shows along its paths. A reference to a container the path is inside is how many containers up that
is, 1 being the one holding it, so that trees agree where values have the same keys, in order, and the same cycles. -/
inductive JsTree where
  | leaf (p : Primitive)
  | hole
  | up (levels : Nat)
  | arr (items : List JsTree)
  | obj (members : List (JSString × JsTree))

/-- The tree of a value inside some containers, innermost first, with holes counted as `absent`: none where it nests
deeper than `depth`, or has a symbol or a function. -/
def unfold (absent : JsTree) (heap : Heap) : Nat → List Nat → GraphValue → Option JsTree
  | _, _, .prim p => some (.leaf p)
  | depth, ancestors, .object ref =>
    match ancestors.idxOf? ref, depth with
    | some above, _ => some (.up (above + 1))
    | none, 0 => none
    | none, depth + 1 =>
      match heap ref with
      | .array items =>
        (items.mapM fun
          | none => some absent
          | some item => unfold absent heap depth (ref :: ancestors) item).map .arr
      | .object members =>
        (members.mapM fun member => (unfold absent heap depth (ref :: ancestors) member.2).map (member.1, ·)).map .obj
  | _, _, .symbol _ | _, _, .func _ => none

theorem mem_of_mapM {α β : Type} {f : α → Option β} {items : List α} {results : List β}
    (all : items.mapM f = some results) {item : α} (member : item ∈ items) : ∃ result, f item = some result := by
  induction items generalizing results with
  | nil => cases member
  | cons first items ih =>
    rw [List.mapM_cons] at all
    obtain ⟨result, one, rest⟩ := Option.bind_eq_some_iff.mp all
    obtain ⟨others, further, -⟩ := Option.bind_eq_some_iff.mp rest
    rcases List.mem_cons.mp member with rfl | member
    · exact ⟨result, one⟩
    · exact ih further member

/-- The entries of an object are its keys with what its values show. -/
theorem mapM_members {α β : Type} {f : α → Option β} {members : List (JSString × α)} {entries : List (JSString × β)}
    (all : members.mapM (fun member => (f member.2).map (member.1, ·)) = some entries) :
    ∃ results, members.mapM (fun member => f member.2) = some results ∧ results.length = members.length ∧
      entries = (members.map Prod.fst).zip results := by
  induction members generalizing entries with
  | nil =>
    obtain rfl := Option.some.inj all
    exact ⟨[], rfl, rfl, rfl⟩
  | cons member members ih =>
    rw [List.mapM_cons] at all
    obtain ⟨entry, one, rest⟩ := Option.bind_eq_some_iff.mp all
    obtain ⟨others, further, same⟩ := Option.bind_eq_some_iff.mp rest
    obtain rfl := Option.some.inj same
    obtain ⟨result, shown, rfl⟩ := Option.map_eq_some_iff.mp one
    obtain ⟨results, mapped, length, rfl⟩ := ih further
    refine ⟨result :: results, ?_, congrArg Nat.succ length, rfl⟩
    rw [List.mapM_cons, shown, mapped]
    rfl

section

variable {absent : JsTree} {heap : Heap} {depth : Nat} {ancestors : List Nat} {ref : Nat}

theorem unfold_up {above : Nat} (found : ancestors.idxOf? ref = some above) :
    unfold absent heap depth ancestors (.object ref) = some (.up (above + 1)) := by
  unfold unfold
  rw [found]

theorem unfold_zero (outside : ancestors.idxOf? ref = none) : unfold absent heap 0 ancestors (.object ref) = none := by
  unfold unfold
  rw [outside]

theorem unfold_array {items : List (Option GraphValue)} (outside : ancestors.idxOf? ref = none)
    (here : heap ref = .array items) :
    unfold absent heap (depth + 1) ancestors (.object ref) =
      (items.mapM fun
        | none => some absent
        | some item => unfold absent heap depth (ref :: ancestors) item).map .arr := by
  conv_lhs => unfold unfold
  rw [outside, here]

theorem unfold_object {members : Record GraphValue} (outside : ancestors.idxOf? ref = none)
    (here : heap ref = .object members) :
    unfold absent heap (depth + 1) ancestors (.object ref) =
      (members.mapM fun member => (unfold absent heap depth (ref :: ancestors) member.2).map (member.1, ·)).map
        .obj := by
  conv_lhs => unfold unfold
  rw [outside, here]

end

end Xript
